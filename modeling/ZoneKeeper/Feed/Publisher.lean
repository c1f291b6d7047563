import ZoneKeeper.Engine.Act
import ZoneKeeper.Settings.Basic

namespace ZoneKeeper

namespace Publisher

open EngineProgram

abbrev Backlog := List ZoneChange

inductive Event where
  | arrival (change : ZoneChange)
  | tick
  | ending (rest : List ZoneChange)

def offer (change : ZoneChange) : EngineProgram Bool := do
  if ← push change then
    -- the domain may have been removed since
    let _ ← call (.markPublished change.domain change.committedAt)
    return true
  else return false

def publish (retryDelay : Nat) (change : ZoneChange) : (retries : Nat) → EngineProgram Bool
  | 0 => offer change
  | retries + 1 => do
      if ← offer change then return true
      else
        wait retryDelay
        publish retryDelay change retries

def accept (settings : EngineSettings) (backlog : Backlog) (change : ZoneChange) :
    EngineProgram Backlog := do
  if backlog.any (·.domain == change.domain) then return backlog ++ [change]
  if ← publish settings.retryDelay change settings.maxRetries then return backlog
  else return backlog ++ [change]

def acceptAll (settings : EngineSettings) : Backlog → List ZoneChange → EngineProgram Backlog
  | backlog, [] => return backlog
  | backlog, change :: rest => do
      acceptAll settings (← accept settings backlog change) rest

/-- Offers waiting changes again and gives those that go on waiting. A domain is blocked by the
first of its changes that is refused. -/
def resync (retryDelay retries : Nat) : (blocked : List String) → Backlog → EngineProgram Backlog
  | _, [] => return []
  | blocked, change :: rest => do
      if blocked.contains change.domain then
        return change :: (← resync retryDelay retries blocked rest)
      if ← publish retryDelay change retries then resync retryDelay retries blocked rest
      else return change :: (← resync retryDelay retries (change.domain :: blocked) rest)

def react (settings : EngineSettings) (backlog : Backlog) : Event → EngineProgram Backlog
  | .arrival change => accept settings backlog change
  | .tick => resync settings.retryDelay 0 [] backlog
  | .ending rest => do
      resync settings.retryDelay settings.maxRetries [] (← acceptAll settings backlog rest)

def stop : Engine Unit := Engine.call .flush

end Publisher

end ZoneKeeper
