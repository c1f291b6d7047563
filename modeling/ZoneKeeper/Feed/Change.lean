import ZoneKeeper.Json.Encode

namespace ZoneKeeper

inductive KeyChange where
  | upserted (key : Key) (ttl : Nat) (records : SortedSet String)
  | deleted (key : Key)

structure ZoneChange where
  domain : String
  changes : List KeyChange
  committedAt : Instant

namespace KeyChange

def key : KeyChange → Key
  | .upserted key _ _ => key
  | .deleted key => key

def ofLeft (key : Key) : Option Rrset → KeyChange
  | some rrset => .upserted rrset.key rrset.ttl rrset.records
  | none => .deleted key

def toJson : KeyChange → Json
  | .upserted key ttl records =>
      .object [("action", .string "upserted"), ("subname", .string key.subname),
        ("type", .string key.type), ("ttl", .ofNat ttl), ("records", recordsToJson records)]
  | .deleted key =>
      .object [("action", .string "deleted"), ("subname", .string key.subname),
        ("type", .string key.type)]

end KeyChange

def ZoneChange.toJson (c : ZoneChange) : Json :=
  .object [("domain", .string c.domain), ("changes", .array (c.changes.map KeyChange.toJson)),
    ("committed_at", c.committedAt.toJson)]

end ZoneKeeper
