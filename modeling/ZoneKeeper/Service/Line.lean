import ZoneKeeper.Engine.Request
import ZoneKeeper.Json.Parser
import ZoneKeeper.Json.Printer

namespace ZoneKeeper

namespace RequestLine

def action? : Json → Option (String × Json)
  | .object members => do
      match ← Json.memberOf ["action"] members with
      | some (.string action) => return (action, .object (members.filter (·.1 != "action")))
      | _ => none
  | .array (.string action :: rest) => some (action, .array rest)
  | _ => none

def text? (field : Option Json) : Option String := Json.required Json.string? field

def principal? (field : Option Json) : Option Principal := (text? field).map Principal.mk

def textOrEmpty? (field : Option Json) : Option String := Json.withDefault "" Json.string? field

def textOrNone? (field : Option Json) : Option (Option String) :=
  Json.withDefault none (Json.optional? Json.string?) field

def createDomain? (value : Json) : Option Request := do
  match ← value.fields? [["principal"], ["domain"], ["minimum_ttl"]] with
  | [principal, domain, minimumTtl] =>
      return .createDomain (← principal? principal) (← text? domain)
        (← Json.withDefault none (Json.optional? (Json.natOfBits? 32)) minimumTtl)
  | _ => none

def deleteDomain? (value : Json) : Option Request := do
  match ← value.fields? [["principal"], ["domain"]] with
  | [principal, domain] => return .deleteDomain (← principal? principal) (← text? domain)
  | _ => none

def write? (operation : Operation) (value : Json) : Option Request := do
  match ← value.fields? [["principal"], ["domain"], ["items"]] with
  | [principal, domain, items] =>
      return .write (← principal? principal) (← text? domain) operation (items.getD .null) none
  | _ => none

def onKey? (make : Principal → String → Key → Request) (value : Json) : Option Request := do
  match ← value.fields? [["principal"], ["domain"], ["subname"], ["type"]] with
  | [principal, domain, subname, type] =>
      return make (← principal? principal) (← text? domain)
        ⟨← textOrEmpty? subname, ← text? type⟩
  | _ => none

def list? (value : Json) : Option Request := do
  match ← value.fields? [["principal"], ["domain"], ["subname"], ["type"]] with
  | [principal, domain, subname, type] =>
      return .list (← principal? principal) (← text? domain)
        ⟨← textOrNone? subname, ← textOrNone? type⟩
  | _ => none

def checkIn? (value : Json) : Option Request := do
  match ← value.fields? [["principal"], ["domain"], ["myip"], ["ip"], ["ipv6"]] with
  | [principal, domain, shared, ipv4, ipv6] =>
      return .checkIn ((← textOrNone? principal).map Principal.mk) (← text? domain)
        ⟨← textOrNone? shared, ← textOrNone? ipv4, ← textOrNone? ipv6⟩
  | _ => none

def request? (value : Json) : Option Request := do
  let (action, rest) ← action? value
  match action with
  | "create_domain" => createDomain? rest
  | "delete_domain" => deleteDomain? rest
  | "create" => write? .create rest
  | "replace" => write? .replace rest
  | "update" => write? .update rest
  | "get" => onKey? .get rest
  | "list" => list? rest
  | "delete" => onKey? .delete rest
  | "dyndns" => checkIn? rest
  | _ => none

def read (line : String) : Except Error Request :=
  match (Json.parse? line).bind request? with
  | some request => .ok request
  | none => .error .json

end RequestLine

inductive Response where
  | ok (data : Json)
  | error (error : Error)

namespace Response

def ofResult : Except Error Reply → Response
  | .ok reply => .ok reply.toJson
  | .error e => .error e

def toJson : Response → Json
  | .ok data => .object [("status", .string "ok"), ("data", data)]
  | .error e =>
      let errors := (e.batchErrors?.map fun errors => ("errors", errors.toJson)).toList
      .object ([("status", .string "error"), ("kind", .string e.kind.name),
        ("message", .string e.message)] ++ errors)

end Response

def answerLine (settings : EngineSettings) (line : String) : EngineProgram Response :=
  match RequestLine.read line with
  | .error e => return .error e
  | .ok request => do return .ofResult (← (request.run settings).run)

end ZoneKeeper
