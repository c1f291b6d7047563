import ZoneKeeper.Simulation.Basic

namespace ZoneKeeper.Simulation

def hasSenders (s : Simulation) : Bool := s.isServing || s.tasks.any (·.isCommitting)

def startPublisher (s : Simulation) (backlog : Publisher.Backlog)
    (program : EngineProgram TaskResult) : Simulation :=
  let (id, s) := s.add program
  { s with publisher := .busy backlog }.goOn (.task id)

def react (s : Simulation) (backlog : Publisher.Backlog) (event : Publisher.Event) : Simulation :=
  s.startPublisher backlog do return .waiting (← Publisher.react s.settings backlog event)

def conclude (s : Simulation) (backlog : Publisher.Backlog) : Simulation :=
  { s with feed := [], feedIsOpen := false }.startPublisher backlog do
    let _ ← Publisher.react s.settings backlog (.ending s.feed)
    return .stopped (← Publisher.stop.run)

def tickAfter (s : Simulation) : Nat :=
  if s.time > s.nextTick + 5 then s.time + s.settings.resyncInterval
  else s.nextTick + s.settings.resyncInterval

def wakePublisher? (s : Simulation) : Option Simulation :=
  match s.publisher with
  | .idle backlog =>
      if s.publisherIsSignalled then some (s.conclude backlog)
      else match s.feed with
        | change :: rest => some ({ s with feed := rest }.react backlog (.arrival change))
        | [] =>
            if !s.hasSenders then some (s.conclude backlog)
            else if !backlog.isEmpty && s.nextTick ≤ s.time then
              some ({ s with nextTick := s.tickAfter }.react backlog .tick)
            else none
  | _ => none

def wakeForeground? (s : Simulation) : Option Simulation :=
  match s.foreground with
  | some id =>
      if s.foregroundIsAwake then some ({ s with foregroundIsAwake := false }.goOn (.task id))
      else none
  | none => none

def take (s : Simulation) : Turn → Simulation
  | .publisher => s.wakePublisher?.getD s
  | .task id =>
      match s.task? id with
      | some task => s.poll task
      | none => s

def step? (s : Simulation) : Option Simulation :=
  match s.agenda with
  | turn :: rest => some ({ s with agenda := rest }.take turn)
  | [] => s.wakePublisher? <|> s.wakeForeground?

def settle : (bound : Nat) → Simulation → Simulation
  | 0, s => s
  | bound + 1, s =>
      match s.step? with
      | some s => settle bound s
      | none => s

def dueTimes (s : Simulation) : List Nat :=
  let tick := match s.publisher with
    | .idle backlog => if backlog.isEmpty then [] else [s.nextTick]
    | _ => []
  s.alarms.map (·.1) ++ tick

def passTo (s : Simulation) (time : Nat) : Simulation :=
  let (due, rest) := s.alarms.partition (·.1 ≤ time)
  let s := due.foldl (fun s (_, id) => s.wake id) { s with time := time, alarms := rest }
  s.wakeForeground?.getD s

def runUntil (isEnd : Simulation → Bool) (limit : Option Nat) :
    (bound : Nat) → Simulation → Simulation
  | 0, s => s
  | bound + 1, s =>
      let s := s.settle bound
      if isEnd s then s
      else match s.dueTimes.min? with
        | none => s
        | some time =>
            if limit.any (· ≤ time) then s
            else runUntil isEnd limit bound (s.passTo (max time s.time))

end ZoneKeeper.Simulation
