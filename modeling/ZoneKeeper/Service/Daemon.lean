import ZoneKeeper.Service.Host
import ZoneKeeper.Settings.Environment
import ZoneKeeper.Text.Basic

namespace ZoneKeeper

inductive ExitCode where
  | clean
  | badSettings
  | failure
  deriving DecidableEq, Repr

def ExitCode.toNat : ExitCode → Nat
  | .clean => 0
  | .badSettings => 1
  | .failure => 2

namespace Daemon

open HostProgram

def settings? (env : Environment) : HostProgram (Option DaemonSettings) := do
  match DaemonSettings.read env with
  | .error message =>
      complain ("Configuration error: " ++ message)
      return none
  | .ok settings =>
      let parent := (settings.storePath.bind Path.parent?).getD ""
      let isThere ← files (FileProgram.isThere parent)
      match settings.validate fun _ => isThere with
      | .error message =>
          complain ("Configuration validation error: " ++ message)
          return none
      | .ok _ => return some settings

def isBlankLine (line : String) : Bool := (Text.trim line).isEmpty

def serve : (bound : Nat) → StateT Host HostProgram Bool
  | 0 => return true
  | bound + 1 => do
      match ← (readLine : HostProgram InputLine) with
      | .finished => return true
      | .unreadable => return false
      | .line line =>
          if isBlankLine line then serve bound
          else
            let response ← Host.answer line
            printLine response.toJson.compact
            serve bound

def session (bound : Nat) : StateT Host HostProgram ExitCode := do
  if ← serve bound then
    match ← Host.stop with
    | .error _ => return .failure
    | .ok _ =>
        match ← Host.perform (Engine.call .flush).run with
        | .error _ => return .failure
        | .ok _ => return .clean
  else return .failure

def run (bound : Nat) (env : Environment) : HostProgram ExitCode := do
  match ← settings? env with
  | none => return .badSettings
  | some settings =>
      let service := settings.service
      match ← files (Store.ofSettings service.store).run with
      | .error _ => return .failure
      | .ok store =>
          match service.engine.validate with
          | .error _ => return .failure
          | .ok _ => return (← (session bound).run (.ofStore service.engine store)).1

end Daemon

end ZoneKeeper
