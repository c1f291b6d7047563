import ZoneKeeper.Json.Basic

namespace ZoneKeeper.Json

def memberOf (names : List String) (members : List (String × Json)) : Option (Option Json) :=
  match members.filter (names.contains ·.1) with
  | [] => some none
  | [member] => some (some member.2)
  | _ => none

def fieldsInOrder : List (List String) → List Json → Option (List (Option Json))
  | names, [] => some (names.map fun _ => none)
  | [], _ :: _ => none
  | _ :: names, value :: values => (fieldsInOrder names values).map (some value :: ·)

def fields? (names : List (List String)) : Json → Option (List (Option Json))
  | .object members => names.mapM (memberOf · members)
  | .array values => fieldsInOrder names values
  | _ => none

def string? : Json → Option String
  | .string s => some s
  | _ => none

def below? (bound : Nat) : Json → Option Nat
  | .int n => if 0 ≤ n && n < bound then some n.toNat else none
  | _ => none

def natOfBits? (bits : Nat) (value : Json) : Option Nat := value.below? (1 <<< bits)

def optional? {α : Type} (decode : Json → Option α) : Json → Option (Option α)
  | .null => some none
  | value => (decode value).map some

def list? {α : Type} (decode : Json → Option α) : Json → Option (List α)
  | .array items => items.mapM decode
  | _ => none

def required {α : Type} (decode : Json → Option α) : Option Json → Option α
  | some value => decode value
  | none => none

def withDefault {α : Type} (default : α) (decode : Json → Option α) : Option Json → Option α
  | some value => decode value
  | none => some default

end ZoneKeeper.Json
