import ZoneKeeper.Error
import ZoneKeeper.Zone.Basic

namespace ZoneKeeper

structure Zone where
  domain : Domain
  rrsets : SortedMap Key Rrset

abbrev Zones := SortedMap String Zone

namespace Zones

def empty : Zones := SortedMap.empty

def domain? (zones : Zones) (name : String) : Option Domain := (zones.get? name).map (·.domain)

def create (zones : Zones) (domain : Domain) : Except Error Zones :=
  if zones.contains domain.name then
    .error (.conflict s!"Domain {domain.name} already exists")
  else .ok (zones.insert domain.name ⟨domain, SortedMap.empty⟩)

def delete (zones : Zones) (name : String) : Bool × Zones :=
  (zones.contains name, zones.erase name)

def modify {α : Type} (zones : Zones) (name : String) (f : Zone → α × Zone) :
    Except Error (α × Zones) :=
  match zones.get? name with
  | none => .error (Error.noDomain name)
  | some zone => .ok ((f zone).1, zones.insert name (f zone).2)

def markPublished (zones : Zones) (name : String) (time : Instant) : Except Error (Unit × Zones) :=
  zones.modify name fun zone => ((), { zone with domain.published := some time })

def get? (zones : Zones) (name : String) (key : Key) : Option Rrset := do
  (← SortedMap.get? zones name).rrsets.get? key

def list (zones : Zones) (name : String) (filter : Filter) : List Rrset :=
  match SortedMap.get? zones name with
  | none => []
  | some zone => zone.rrsets.values.filter filter.accepts

def written (key : Key) (ttl : Nat) (records : SortedSet String) (now : Instant) :
    Option Rrset → Rrset
  | some stored => { stored with ttl := ttl, records := records, touched := now }
  | none => ⟨key.subname, key.type, ttl, records, now, now⟩

def upsert (zones : Zones) (name : String) (key : Key) (ttl : Nat) (records : SortedSet String)
    (now : Instant) : Except Error (Option Rrset × Zones) :=
  zones.modify name fun zone =>
    if records.isEmpty then (none, { zone with rrsets := zone.rrsets.erase key })
    else
      let rrset := written key ttl records now (zone.rrsets.get? key)
      (some rrset, { zone with rrsets := zone.rrsets.insert key rrset })

def restore (zones : Zones) (name : String) (key : Key) (previous : Option Rrset) :
    Except Error (Unit × Zones) :=
  zones.modify name fun zone =>
    match previous with
    | some rrset => ((), { zone with rrsets := zone.rrsets.insert key rrset })
    | none => ((), { zone with rrsets := zone.rrsets.erase key })

def size (zones : Zones) : Nat := zones.values.foldr (fun zone n => zone.rrsets.size + n) 0

end Zones

end ZoneKeeper
