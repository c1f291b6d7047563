import ZoneKeeper.Feed.Publisher
import ZoneKeeper.Service.Line
import ZoneKeeper.Store.Basic

/-!
Hosts that serve one request after the other. With nobody else about, locks are free, no time is
up, and what is announced is published before the next request; the target accepts all of it.
-/

namespace ZoneKeeper

inductive HostAct where
  | file (a : FileAct)
  | readClock
  | wait (milliseconds : Nat)
  | readLine
  | printLine (line : String)
  | complain (line : String)

inductive InputLine where
  | line (text : String)
  | finished
  | unreadable

def HostAct.Answer : HostAct → Type
  | .file a => a.Answer
  | .readClock => Instant
  | .readLine => InputLine
  | _ => Unit

abbrev HostProgram := Program HostAct HostAct.Answer

namespace HostProgram

def readClock : HostProgram Instant := .act .readClock .done

def wait (milliseconds : Nat) : HostProgram Unit := .act (.wait milliseconds) .done

def readLine : HostProgram InputLine := .act .readLine .done

def printLine (line : String) : HostProgram Unit := .act (.printLine line) .done

def complain (line : String) : HostProgram Unit := .act (.complain line) .done

def files {α : Type} (p : FileProgram α) : HostProgram α :=
  p.interpret fun a => .act (.file a) .done

end HostProgram

structure Host where
  settings : EngineSettings
  store : Store
  feed : List ZoneChange
  backlog : Publisher.Backlog

namespace Host

open HostProgram

def ofStore (settings : EngineSettings) (store : Store) : Host := ⟨settings, store, [], []⟩

def handle : (a : Act) → StateT Host HostProgram a.Answer
  | .call c => fun host => do
      let (answer, store) ← files (host.store.call (← readClock) c)
      return (answer, { host with store := store })
  | .readClock => readClock
  | .wait milliseconds => wait milliseconds
  | .startTimer _ => return false
  | .announce change => modify fun host => { host with feed := host.feed ++ [change] }
  | .push _ => return true
  | .lock _ => return
  | .unlock _ => return
  | .stopTimer => return
  | .beginCommit => return
  | .endCommit => return

def perform {α : Type} (p : EngineProgram α) : StateT Host HostProgram α := p.interpret handle

def publish : List ZoneChange → StateT Host HostProgram Unit
  | [] => return
  | change :: rest => do
      let host ← get
      let backlog ← perform (Publisher.react host.settings host.backlog (.arrival change))
      modify fun host => { host with backlog := backlog }
      publish rest

def answer (line : String) : StateT Host HostProgram Response := do
  let response ← perform (answerLine (← get).settings line)
  let feed := (← get).feed
  modify fun host => { host with feed := [] }
  publish feed
  return response

def stop : StateT Host HostProgram (Except Error Unit) := do
  let host ← get
  let _ ← perform (Publisher.react host.settings host.backlog (.ending []))
  perform Publisher.stop.run

end Host

end ZoneKeeper
