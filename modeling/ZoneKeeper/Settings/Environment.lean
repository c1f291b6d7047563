import ZoneKeeper.Files.Path
import ZoneKeeper.Settings.Basic
import ZoneKeeper.Text.Basic
import ZoneKeeper.Text.Decimal

namespace ZoneKeeper

abbrev Environment := List (String × String)

structure DaemonSettings where
  storeType : String
  storePath : Option String
  minimumTtl : Option Nat
  maximumTtl : Option Nat
  maxRetries : Option Nat
  retryDelay : Option Nat
  requestTimeout : Option Nat
  logLevel : String
  deriving DecidableEq, Repr

namespace Environment

def get? (env : Environment) (name : String) : Option String :=
  (env.find? (·.1 == name)).map (·.2)

def number? (env : Environment) (name : String) (bits : Nat) : Except String (Option Nat) :=
  match env.get? name with
  | none => .ok none
  | some value =>
      match Decimal.readSigned bits (octets (Text.trim value)) with
      | .ok n => .ok (some n)
      | .error failure => .error s!"{name} is not a valid number ('{value}'): {failure.message}"

end Environment

namespace DaemonSettings

def variableNames : List String :=
  ["RRSET_STORE_TYPE", "RRSET_STORE_PATH", "RRSET_MINIMUM_TTL", "RRSET_MAXIMUM_TTL",
   "RRSET_MAX_RETRIES", "RRSET_RETRY_DELAY_MS", "RRSET_REQUEST_TIMEOUT_MS", "RRSET_LOG_LEVEL"]

def read (env : Environment) : Except String DaemonSettings := do
  return {
    storeType := (env.get? "RRSET_STORE_TYPE").getD "memory"
    storePath := env.get? "RRSET_STORE_PATH"
    minimumTtl := ← env.number? "RRSET_MINIMUM_TTL" 32
    maximumTtl := ← env.number? "RRSET_MAXIMUM_TTL" 32
    maxRetries := ← env.number? "RRSET_MAX_RETRIES" 64
    retryDelay := ← env.number? "RRSET_RETRY_DELAY_MS" 64
    requestTimeout := ← env.number? "RRSET_REQUEST_TIMEOUT_MS" 64
    logLevel := (env.get? "RRSET_LOG_LEVEL").getD "info"
  }

def service (s : DaemonSettings) : ServiceSettings :=
  let engine := EngineSettings.default
  let store := match s.storeType, s.storePath with
    | "file", some path => .file path
    | _, _ => .memory
  ⟨{ engine with
      minimumTtl := s.minimumTtl.getD engine.minimumTtl
      maximumTtl := s.maximumTtl.getD engine.maximumTtl
      maxRetries := s.maxRetries.getD engine.maxRetries
      retryDelay := s.retryDelay.getD engine.retryDelay
      requestTimeout := s.requestTimeout.getD engine.requestTimeout }, store⟩

def checkRange (name : String) (low high : Nat) : Option Nat → Except String Unit
  | none => .ok ()
  | some n =>
      if low ≤ n && n ≤ high then .ok ()
      else .error s!"{name} must be between {low} and {high}. Got: {n}"

def checkPath (isThere : String → Bool) (path : String) : Except String Unit :=
  if path.isEmpty then
    .error ("RRSET_STORE_PATH is required when RRSET_STORE_TYPE=file. "
      ++ "Set it via: export RRSET_STORE_PATH=/var/lib/rrsetd/zones.json")
  else match Path.parent? path with
    | none => .ok ()
    | some parent =>
        if parent.isEmpty || isThere parent then .ok ()
        else .error (s!"RRSET_STORE_PATH parent directory does not exist: {parent}. "
          ++ s!"Create it first: sudo mkdir -p {parent}")

def checkStore (isThere : String → Bool) (s : DaemonSettings) : Except String Unit :=
  if s.storeType == "memory" then .ok ()
  else if s.storeType == "file" then checkPath isThere (s.storePath.getD "")
  else .error (s!"RRSET_STORE_TYPE '{s.storeType}' is not supported. "
    ++ "Supported types: memory, file")

def logLevels : List String := ["trace", "debug", "info", "warn", "error"]

def checkLogLevel (s : DaemonSettings) : Except String Unit :=
  if logLevels.contains (String.ofList (s.logLevel.toList.map Char.toLower)) then .ok ()
  else .error (s!"RRSET_LOG_LEVEL '{s.logLevel}' is not valid. "
    ++ "Valid levels: trace, debug, info, warn, error")

def validate (isThere : String → Bool) (s : DaemonSettings) : Except String Unit := do
  s.checkStore isThere
  checkRange "RRSET_MINIMUM_TTL" 1 86400 s.minimumTtl
  checkRange "RRSET_MAXIMUM_TTL" 60 604800 s.maximumTtl
  checkRange "RRSET_MAX_RETRIES" 0 10 s.maxRetries
  checkRange "RRSET_RETRY_DELAY_MS" 1 60000 s.retryDelay
  checkRange "RRSET_REQUEST_TIMEOUT_MS" 100 600000 s.requestTimeout
  s.checkLogLevel
  match s.service.validate with
  | .ok _ => .ok ()
  | .error e => .error ("Inconsistent engine configuration: " ++ e.message)

end DaemonSettings

end ZoneKeeper
