import ZoneKeeper.Error
import ZoneKeeper.Json.Decode

namespace ZoneKeeper

structure CheckInSettings where
  ttl : Nat
  minimumTtl : Nat
  deriving DecidableEq, Repr

structure EngineSettings where
  minimumTtl : Nat
  maximumTtl : Nat
  maxRetries : Nat
  /-- All delays are in milliseconds. -/
  retryDelay : Nat
  requestTimeout : Nat
  resyncInterval : Nat
  checkIn : CheckInSettings
  deriving DecidableEq, Repr

inductive StoreSettings where
  | memory
  | file (path : String)
  deriving DecidableEq, Repr

structure ServiceSettings where
  engine : EngineSettings
  store : StoreSettings
  deriving DecidableEq, Repr

namespace CheckInSettings

def default : CheckInSettings := ⟨60, 60⟩

def validate (s : CheckInSettings) (maximumTtl : Nat) : Except Error Unit :=
  if s.minimumTtl == 0 || s.ttl < s.minimumTtl then
    .error (.config (s!"dyndns ttl ({s.ttl}) must be >= dyndns minimum_ttl ({s.minimumTtl}) "
      ++ "and > 0"))
  else if s.ttl > maximumTtl then
    .error (.config s!"dyndns ttl ({s.ttl}) exceeds maximum_ttl ({maximumTtl})")
  else .ok ()

def ofJson? (value : Json) : Option CheckInSettings := do
  match ← value.fields? [["ttl"], ["minimum_ttl"]] with
  | [ttl, minimumTtl] =>
      return ⟨← Json.withDefault default.ttl (Json.natOfBits? 32) ttl,
        ← Json.withDefault default.minimumTtl (Json.natOfBits? 32) minimumTtl⟩
  | _ => none

def toJson (s : CheckInSettings) : Json :=
  .object [("ttl", .ofNat s.ttl), ("minimum_ttl", .ofNat s.minimumTtl)]

end CheckInSettings

namespace EngineSettings

def default : EngineSettings := ⟨3600, 86400, 3, 100, 10000, 30000, .default⟩

def validate (s : EngineSettings) : Except Error Unit :=
  if s.minimumTtl == 0 then .error (.config "minimum_ttl must be > 0")
  else if s.minimumTtl > s.maximumTtl then
    .error (.config s!"minimum_ttl ({s.minimumTtl}) exceeds maximum_ttl ({s.maximumTtl})")
  else if s.resyncInterval == 0 then .error (.config "resync_interval_ms must be > 0")
  else if s.requestTimeout == 0 then .error (.config "request_timeout_ms must be > 0")
  else s.checkIn.validate s.maximumTtl

def ofJson? (value : Json) : Option EngineSettings := do
  let fields ← value.fields? [["minimum_ttl"], ["maximum_ttl"], ["max_retries"],
    ["retry_delay_ms"], ["request_timeout_ms"], ["resync_interval_ms"], ["dyndns"]]
  match fields with
  | [minimumTtl, maximumTtl, maxRetries, retryDelay, requestTimeout, resyncInterval, checkIn] =>
      return ⟨← Json.withDefault default.minimumTtl (Json.natOfBits? 32) minimumTtl,
        ← Json.withDefault default.maximumTtl (Json.natOfBits? 32) maximumTtl,
        ← Json.withDefault default.maxRetries (Json.natOfBits? 64) maxRetries,
        ← Json.withDefault default.retryDelay (Json.natOfBits? 64) retryDelay,
        ← Json.withDefault default.requestTimeout (Json.natOfBits? 64) requestTimeout,
        ← Json.withDefault default.resyncInterval (Json.natOfBits? 64) resyncInterval,
        ← Json.withDefault default.checkIn CheckInSettings.ofJson? checkIn⟩
  | _ => none

def toJson (s : EngineSettings) : Json :=
  .object [("minimum_ttl", .ofNat s.minimumTtl), ("maximum_ttl", .ofNat s.maximumTtl),
    ("max_retries", .ofNat s.maxRetries), ("retry_delay_ms", .ofNat s.retryDelay),
    ("request_timeout_ms", .ofNat s.requestTimeout),
    ("resync_interval_ms", .ofNat s.resyncInterval), ("dyndns", s.checkIn.toJson)]

end EngineSettings

namespace StoreSettings

def validate : StoreSettings → Except Error Unit
  | .file "" => .error (.config "File store path cannot be empty")
  | _ => .ok ()

def typeName : StoreSettings → String
  | .memory => "memory"
  | .file _ => "file"

def ofJson? : Json → Option StoreSettings
  | .object members => do
      match ← Json.memberOf ["type"] members with
      | some (.string "memory") => return .memory
      | some (.string "file") =>
          return .file (← Json.required Json.string? (← Json.memberOf ["path"] members))
      | _ => none
  | .array [.string "memory"] => some .memory
  | .array [.string "file", .string path] => some (.file path)
  | _ => none

def toJson : StoreSettings → Json
  | .memory => .object [("type", .string "memory")]
  | .file path => .object [("type", .string "file"), ("path", .string path)]

end StoreSettings

namespace ServiceSettings

def default : ServiceSettings := ⟨.default, .memory⟩

def validate (s : ServiceSettings) : Except Error Unit := do
  s.engine.validate
  s.store.validate

def ofJson? (value : Json) : Option ServiceSettings := do
  match ← value.fields? [["engine"], ["store"]] with
  | [engine, store] =>
      return ⟨← Json.withDefault default.engine EngineSettings.ofJson? engine,
        ← Json.withDefault default.store StoreSettings.ofJson? store⟩
  | _ => none

def toJson (s : ServiceSettings) : Json :=
  .object [("engine", s.engine.toJson), ("store", s.store.toJson)]

end ServiceSettings

end ZoneKeeper
