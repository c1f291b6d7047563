import ZoneKeeper.Error
import ZoneKeeper.Json.Decode
import ZoneKeeper.Zone.Basic

namespace ZoneKeeper

def Instant.toJson (t : Instant) : Json := .string t.write

def Instant.ofJson? : Json → Option Instant
  | .string s => Instant.read? s
  | _ => none

def Domain.toJson (d : Domain) : Json :=
  .object [("name", .string d.name), ("owner", .string d.owner),
    ("minimum_ttl", .ofNat d.minimumTtl), ("created", d.created.toJson),
    ("published", .ofOption Instant.toJson d.published)]

def Domain.ofJson? (value : Json) : Option Domain := do
  let fields ← value.fields?
    [["name"], ["owner"], ["minimum_ttl"], ["created"], ["published"]]
  match fields with
  | [name, owner, minimumTtl, created, published] =>
      return ⟨← Json.required Json.string? name, ← Json.required Json.string? owner,
        ← Json.required (Json.natOfBits? 32) minimumTtl, ← Json.required Instant.ofJson? created,
        ← Json.withDefault none (Json.optional? Instant.ofJson?) published⟩
  | _ => none

def Key.toJson (k : Key) : Json :=
  .object [("subname", .string k.subname), ("type", .string k.type)]

def recordsToJson (records : SortedSet String) : Json := Json.ofStrings records.toList

def Rrset.toJson (r : Rrset) : Json :=
  .object [("subname", .string r.subname), ("type", .string r.type), ("ttl", .ofNat r.ttl),
    ("records", recordsToJson r.records), ("created", r.created.toJson),
    ("touched", r.touched.toJson)]

def Rrset.ofJson? (value : Json) : Option Rrset := do
  let fields ← value.fields?
    [["subname"], ["type"], ["ttl"], ["records"], ["created"], ["touched"]]
  match fields with
  | [subname, type, ttl, records, created, touched] =>
      return ⟨← Json.required Json.string? subname, ← Json.required Json.string? type,
        ← Json.required (Json.natOfBits? 32) ttl,
        SortedSet.ofList (← Json.required (Json.list? Json.string?) records),
        ← Json.required Instant.ofJson? created, ← Json.required Instant.ofJson? touched⟩
  | _ => none

def View.toJson (v : View) : Json :=
  .object [("domain", .string v.domain), ("subname", .string v.rrset.subname),
    ("name", .string v.name), ("records", recordsToJson v.rrset.records),
    ("ttl", .ofNat v.rrset.ttl), ("type", .string v.rrset.type),
    ("created", v.rrset.created.toJson), ("touched", v.rrset.touched.toJson)]

def ItemErrors.toJson (errors : ItemErrors) : Json :=
  .object (errors.fields.map fun field => (field, Json.ofStrings (errors.messages field)))

def BatchErrors.toJson (e : BatchErrors) : Json :=
  match e.single, e.items with
  | true, first :: _ => first.toJson
  | _, items => .array (items.map ItemErrors.toJson)

end ZoneKeeper
