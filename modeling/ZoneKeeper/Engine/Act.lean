import ZoneKeeper.Feed.Change
import ZoneKeeper.Program
import ZoneKeeper.Store.Call

/-!
The acts of the engine: calls on the store, readings of the clock, locks, delays, and messages to
the feed and to the target of publishing. Each act is one step; between two of them others may act.
-/

namespace ZoneKeeper

inductive Act where
  | call (c : StoreCall)
  | readClock
  | lock (domain : String)
  | unlock (domain : String)
  | wait (milliseconds : Nat)
  /-- Answered at once by false; when the time is up before the timer is stopped, the program goes
  on from here again, with the answer true. -/
  | startTimer (milliseconds : Nat)
  | stopTimer
  /-- From here to the end of the commit the program runs on even if nobody waits for it. -/
  | beginCommit
  | endCommit
  | announce (change : ZoneChange)
  | push (change : ZoneChange)

def Act.Answer : Act → Type
  | .call c => c.Answer
  | .readClock => Instant
  | .startTimer _ => Bool
  | .push _ => Bool
  | _ => Unit

abbrev EngineProgram := Program Act Act.Answer

abbrev Engine := ExceptT Error EngineProgram

namespace EngineProgram

def call (c : StoreCall) : EngineProgram c.Answer := .act (.call c) .done

def readClock : EngineProgram Instant := .act .readClock .done

def lock (domain : String) : EngineProgram Unit := .act (.lock domain) .done

def unlock (domain : String) : EngineProgram Unit := .act (.unlock domain) .done

def wait (milliseconds : Nat) : EngineProgram Unit := .act (.wait milliseconds) .done

def startTimer (milliseconds : Nat) : EngineProgram Bool := .act (.startTimer milliseconds) .done

def stopTimer : EngineProgram Unit := .act .stopTimer .done

def beginCommit : EngineProgram Unit := .act .beginCommit .done

def endCommit : EngineProgram Unit := .act .endCommit .done

def announce (change : ZoneChange) : EngineProgram Unit := .act (.announce change) .done

def push (change : ZoneChange) : EngineProgram Bool := .act (.push change) .done

def locked {α : Type} (domain : String) (p : EngineProgram α) : EngineProgram α := do
  lock domain
  let a ← p
  unlock domain
  return a

end EngineProgram

namespace Engine

def call (c : StoreCall) : Engine c.Reply := ExceptT.mk (EngineProgram.call c)

def locked {α : Type} (domain : String) (p : Engine α) : Engine α :=
  ExceptT.mk (EngineProgram.locked domain p.run)

end Engine

end ZoneKeeper
