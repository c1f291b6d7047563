import ZoneKeeper.Json.Encode
import ZoneKeeper.Json.Parser
import ZoneKeeper.Json.Printer
import ZoneKeeper.Zone.Table

namespace ZoneKeeper

def Zone.toJson (z : Zone) : Json :=
  .object [("domain", z.domain.toJson), ("rrsets", .array (z.rrsets.values.map Rrset.toJson))]

def Zone.ofJson? (value : Json) : Option Zone := do
  match ← value.fields? [["domain"], ["rrsets"]] with
  | [domain, rrsets] =>
      let domain ← Json.required Domain.ofJson? domain
      let rrsets ← Json.required (Json.list? Rrset.ofJson?) rrsets
      return ⟨domain, SortedMap.ofList (rrsets.map fun r => (r.key, r))⟩
  | _ => none

namespace Zones

def documentVersion : String := "1.0"

def toDocument (zones : Zones) : Json :=
  .object [("version", .string documentVersion),
    ("zones", .object (zones.entries.map fun (name, zone) => (name, zone.toJson)))]

def ofMember? (member : String × Json) : Option (String × Zone) :=
  (Zone.ofJson? member.2).map (member.1, ·)

def ofDocument? : Json → Option Zones
  | .object members => do
      let _ ← Json.required Json.string? (← Json.memberOf ["version"] members)
      match ← Json.memberOf ["zones"] members with
      | some (.object zones) => return SortedMap.ofList (← zones.mapM ofMember?)
      | _ => none
  | _ => none

def write (zones : Zones) : String := zones.toDocument.pretty

def read? (text : String) : Option Zones := do ofDocument? (← Json.parse? text)

end Zones

end ZoneKeeper
