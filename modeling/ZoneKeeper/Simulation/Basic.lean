import ZoneKeeper.Engine.Locks
import ZoneKeeper.Engine.Request
import ZoneKeeper.Feed.Publisher
import ZoneKeeper.Store.Basic

/-!
Simulations: requests and the publisher are tasks that share a store, a disk, locks and a feed,
under a clock of their own. Calls can be made to fail or to take time. A task runs until it has to
wait.
-/

namespace ZoneKeeper

inductive TaskResult where
  | reply (result : Except Error Reply)
  | waiting (backlog : Publisher.Backlog)
  | stopped (result : Except Error Unit)

structure Timer where
  deadline : Nat
  rest : EngineProgram TaskResult
  isSet : Bool

structure Task where
  id : Nat
  store : Nat
  program : EngineProgram TaskResult
  call : Option Nat
  wakeTime : Nat
  timer : Option Timer
  isCommitting : Bool
  isDeserted : Bool

inductive Turn where
  | publisher
  | task (id : Nat)
  deriving DecidableEq, Repr

/-- What goes wrong and what takes time. Calls are counted for each method from one on. -/
structure Conditions where
  faults : List (String × List Nat)
  fault : String → Error
  delays : List (String × Nat)
  refused : List Nat

namespace Conditions

def fault? (c : Conditions) (method : String) (number : Nat) : Option Error :=
  if ((c.faults.lookup method).getD []).contains number then
    some (c.fault s!"injected fault on {method} #{number}")
  else none

def delay (c : Conditions) (method : String) : Nat := (c.delays.lookup method).getD 0

end Conditions

inductive PublisherState where
  | absent
  | late
  | idle (backlog : Publisher.Backlog)
  | busy (backlog : Publisher.Backlog)
  | over (result : Except Error Unit)

structure Push where
  accepted : Bool
  change : ZoneChange

structure Simulation where
  settings : EngineSettings
  conditions : Conditions
  store : Store
  storeNumber : Nat
  formerStores : List (Nat × Store)
  disk : Disk
  /-- In milliseconds. -/
  time : Nat
  readings : Nat
  counts : List (String × Nat)
  locks : Locks
  tasks : List Task
  nextTask : Nat
  agenda : List Turn
  alarms : List (Nat × Nat)
  foreground : Option Nat
  foregroundIsAwake : Bool
  replies : List (Nat × Except Error Reply)
  isServing : Bool
  feed : List ZoneChange
  feedIsOpen : Bool
  publisher : PublisherState
  publisherIsSignalled : Bool
  nextTick : Nat
  pushCount : Nat
  pushes : List Push

namespace Simulation

def reading (number : Nat) : Instant := ⟨10000000000 + number, 123456789⟩

def count (s : Simulation) (method : String) : Nat := (s.counts.lookup method).getD 0

def countCall (s : Simulation) (method : String) : Simulation :=
  { s with counts := (method, s.count method + 1) :: s.counts.filter (·.1 != method) }

def readClock (s : Simulation) : Instant × Simulation :=
  (reading s.readings, { s with readings := s.readings + 1 })

def callStore (s : Simulation) (c : StoreCall) : c.Answer × Simulation :=
  let (now, s) := s.readClock
  let ((answer, store), disk) := s.disk.run (s.store.call now c)
  (answer, { s with store := store, disk := disk })

def callStoreOf (s : Simulation) (store : Nat) (c : StoreCall) : c.Answer × Simulation :=
  match s.formerStores.lookup store with
  | none => s.callStore c
  | some former =>
      let (answer, s') := { s with store := former }.callStore c
      (answer,
        { s' with
          store := s.store
          formerStores := (store, s'.store) :: s.formerStores.filter (·.1 != store) })

def callOrFail (s : Simulation) (task : Task) (c : StoreCall) (number : Nat) :
    c.Answer × Simulation :=
  match s.conditions.fault? c.method number with
  | some e => (.error e, s)
  | none => s.callStoreOf task.store c

def keep (s : Simulation) (task : Task) : Simulation :=
  { s with tasks := s.tasks.map fun other => if other.id == task.id then task else other }

def clearAlarms (s : Simulation) (id : Nat) : Simulation :=
  { s with alarms := s.alarms.filter (·.2 != id) }

def drop (s : Simulation) (id : Nat) : Simulation :=
  { s.clearAlarms id with
    tasks := s.tasks.filter (·.id != id)
    agenda := s.agenda.filter (· != .task id) }

def task? (s : Simulation) (id : Nat) : Option Task := s.tasks.find? (·.id == id)

def isInForeground (s : Simulation) (id : Nat) : Bool :=
  s.foreground == some id && !(s.task? id).any (·.isCommitting)

def enqueue (s : Simulation) (turn : Turn) : Simulation :=
  if s.agenda.contains turn then s else { s with agenda := s.agenda ++ [turn] }

def wake (s : Simulation) (id : Nat) : Simulation :=
  if s.isInForeground id then { s with foregroundIsAwake := true } else s.enqueue (.task id)

def goOn (s : Simulation) (turn : Turn) : Simulation := { s with agenda := turn :: s.agenda }

/-- Leaves a task where it has to wait. Its timer's alarm is set when it first does; a task whose
time is up goes on without what it waits for. -/
def suspend (s : Simulation) (task : Task) : Simulation :=
  match task.timer with
  | none => s.keep task
  | some timer =>
      if timer.deadline ≤ s.time then
        ((s.clearAlarms task.id).keep
          { task with program := timer.rest, call := none, wakeTime := 0, timer := none }).goOn
            (.task task.id)
      else if timer.isSet then s.keep task
      else
        { s.keep { task with timer := some { timer with isSet := true } } with
          alarms := s.alarms ++ [(timer.deadline, task.id)] }

def sleepUntil (s : Simulation) (task : Task) (time : Nat) : Simulation :=
  { s with alarms := s.alarms ++ [(time, task.id)] }.suspend { task with wakeTime := time }

def queueUp (s : Simulation) (id : Nat) (domain : String) : Simulation :=
  match s.locks.ref? id domain with
  | some _ => s
  | none =>
      let locks := s.locks.refer id domain
      match locks.ref? id domain with
      | some ref => { s with locks := locks.join ref }
      | none => { s with locks := locks }

def hasLock (s : Simulation) (id : Nat) (domain : String) : Bool :=
  (s.locks.ref? id domain).any s.locks.isHeldBy

def unlock (s : Simulation) (id : Nat) (domain : String) : Simulation :=
  match s.locks.ref? id domain with
  | none => s
  | some ref =>
      let locks := s.locks.release ref
      let rest := { s with locks := locks }
      match s.locks.isHeldBy ref, locks.holder? ref.lock with
      | true, some next => rest.wake next.who
      | _, _ => rest

def announce (s : Simulation) (task : Task) (change : ZoneChange) : Simulation :=
  if s.feedIsOpen && task.store == s.storeNumber then
    { s with feed := s.feed ++ [change] }.enqueue .publisher
  else s

def push (s : Simulation) (change : ZoneChange) : Bool × Simulation :=
  let number := s.pushCount + 1
  let accepted := !s.conditions.refused.contains number
  (accepted, { s with pushCount := number, pushes := s.pushes ++ [⟨accepted, change⟩] })

def finish (s : Simulation) (id : Nat) : TaskResult → Simulation
  | .reply result => { s.drop id with replies := s.replies ++ [(id, result)] }
  | .waiting backlog => { s.drop id with publisher := .idle backlog }.goOn .publisher
  | .stopped result => { s.drop id with publisher := .over result }

def run (s : Simulation) (task : Task) : EngineProgram TaskResult → Simulation
  | .done result => s.finish task.id result
  | .act (.call c) next =>
      match task.call with
      | some number =>
          let (answer, s) := s.callOrFail task c number
          run s { task with call := none } (next answer)
      | none =>
          let s := s.countCall c.method
          let number := s.count c.method
          match s.conditions.delay c.method with
          | 0 =>
              let (answer, s) := s.callOrFail task c number
              run s task (next answer)
          | delay =>
              s.sleepUntil { task with program := .act (.call c) next, call := some number }
                (s.time + delay)
  | .act .readClock next =>
      let (now, s) := s.readClock
      run s task (next now)
  | .act (.lock domain) next =>
      let s := s.queueUp task.id domain
      if s.hasLock task.id domain then run s task (next ())
      else s.suspend { task with program := .act (.lock domain) next }
  | .act (.unlock domain) next => run (s.unlock task.id domain) task (next ())
  | .act (.wait 0) next => run s task (next ())
  | .act (.wait milliseconds) next =>
      s.sleepUntil { task with program := next () } (s.time + milliseconds)
  | .act (.startTimer milliseconds) next =>
      run s { task with timer := some ⟨s.time + milliseconds, next true, false⟩ } (next false)
  | .act .stopTimer next => run (s.clearAlarms task.id) { task with timer := none } (next ())
  | .act .beginCommit next =>
      (s.keep { task with program := next (), isCommitting := true }).wake task.id
  | .act .endCommit next =>
      if task.isDeserted then s.drop task.id
      else (s.keep { task with program := next (), isCommitting := false }).wake task.id
  | .act (.announce change) next => run (s.announce task change) task (next ())
  | .act (.push change) next =>
      let (accepted, s) := s.push change
      run s task (next accepted)

def poll (s : Simulation) (task : Task) : Simulation :=
  if s.time < task.wakeTime then s.suspend task else s.run task task.program

def add (s : Simulation) (program : EngineProgram TaskResult) : Nat × Simulation :=
  (s.nextTask,
    { s with
      tasks := s.tasks ++ [⟨s.nextTask, s.storeNumber, program, none, 0, none, false, false⟩]
      nextTask := s.nextTask + 1 })

def desert (s : Simulation) (id : Nat) : Simulation :=
  match s.task? id with
  | none => s
  | some task =>
      if task.isCommitting then s.keep { task with isDeserted := true }
      else
        let refs := s.locks.refs.filter (·.who == id)
        refs.foldl (fun s ref => s.unlock id ref.name) (s.drop id)

end Simulation

end ZoneKeeper
