import ZoneKeeper.Zone.Table

namespace ZoneKeeper

inductive StoreCall where
  | getDomain (name : String)
  | createDomain (domain : Domain)
  | deleteDomain (name : String)
  | markPublished (name : String) (time : Instant)
  | get (domain : String) (key : Key)
  | list (domain : String) (filter : Filter)
  | upsert (domain : String) (key : Key) (ttl : Nat) (records : SortedSet String)
  | restore (domain : String) (key : Key) (previous : Option Rrset)
  | flush

namespace StoreCall

def Reply : StoreCall → Type
  | .getDomain _ => Option Domain
  | .deleteDomain _ => Bool
  | .get .. => Option Rrset
  | .list .. => List Rrset
  | .upsert .. => Option Rrset
  | _ => Unit

abbrev Answer (c : StoreCall) : Type := Except Error c.Reply

def method : StoreCall → String
  | .getDomain _ => "get_domain"
  | .createDomain _ => "create_domain"
  | .deleteDomain _ => "delete_domain"
  | .markPublished .. => "mark_published"
  | .get .. => "get"
  | .list .. => "list"
  | .upsert .. => "upsert"
  | .restore .. => "restore"
  | .flush => "flush"

end StoreCall

namespace Zones

def carryOut (now : Instant) : (c : StoreCall) → Zones → Except Error (c.Reply × Zones)
  | .getDomain name, zones => .ok (zones.domain? name, zones)
  | .createDomain domain, zones => (zones.create domain).map (((), ·))
  | .deleteDomain name, zones => .ok (zones.delete name)
  | .markPublished name time, zones => zones.markPublished name time
  | .get domain key, zones => .ok (zones.get? domain key, zones)
  | .list domain filter, zones => .ok (zones.list domain filter, zones)
  | .upsert domain key ttl records, zones => zones.upsert domain key ttl records now
  | .restore domain key previous, zones => zones.restore domain key previous
  | .flush, zones => .ok ((), zones)

def call (now : Instant) (c : StoreCall) (zones : Zones) : c.Answer × Zones :=
  match zones.carryOut now c with
  | .ok (reply, zones) => (.ok reply, zones)
  | .error e => (.error e, zones)

end Zones

end ZoneKeeper
