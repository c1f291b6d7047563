import ZoneKeeper.Simulation.Schedule

namespace ZoneKeeper.Simulation

/-- How many things may happen in one go. -/
def patience : Nat := 1000000000

def ofStore (settings : EngineSettings) (conditions : Conditions) (store : Store) (disk : Disk) :
    Simulation where
  settings := settings
  conditions := conditions
  store := store
  storeNumber := 0
  formerStores := []
  disk := disk
  time := 0
  readings := 0
  counts := []
  locks := .empty
  tasks := []
  nextTask := 0
  agenda := []
  alarms := []
  foreground := none
  foregroundIsAwake := false
  replies := []
  isServing := true
  feed := []
  feedIsOpen := true
  publisher := .absent
  publisherIsSignalled := false
  nextTick := 0
  pushCount := 0
  pushes := []

def publish (s : Simulation) : Simulation :=
  { s with publisher := .idle [], nextTick := s.time + s.settings.resyncInterval }

def rest (s : Simulation) : Simulation := s.settle patience

def addRequest (s : Simulation) (request : Request) : Nat × Simulation :=
  s.add do return .reply (← (request.run s.settings).run)

def startRequest (s : Simulation) (request : Request) : Nat × Simulation :=
  let (id, s) := s.addRequest request
  (id, s.wake id)

def isFinished (s : Simulation) (id : Nat) : Bool := s.replies.any (·.1 == id)

def takeReply (s : Simulation) (id : Nat) : Option (Except Error Reply) × Simulation :=
  (s.replies.lookup id, { s with replies := s.replies.filter (·.1 != id) })

def takeReplies (s : Simulation) : List Nat → List (Option (Except Error Reply)) × Simulation
  | [] => ([], s)
  | id :: ids =>
      let (reply, s) := s.takeReply id
      let (replies, s) := s.takeReplies ids
      (reply :: replies, s)

def startRequests (s : Simulation) : List Request → List Nat × Simulation
  | [] => ([], s)
  | request :: requests =>
      let (id, s) := s.startRequest request
      let (ids, s) := s.startRequests requests
      (id :: ids, s)

def requests (s : Simulation) (requests : List Request) :
    List (Option (Except Error Reply)) × Simulation :=
  let (ids, s) := s.startRequests requests
  let s := s.runUntil (fun s => ids.all s.isFinished) none patience
  s.takeReplies ids

def request (s : Simulation) (request : Request) : Option (Except Error Reply) × Simulation :=
  let (id, s) := s.addRequest request
  let s := { s with foreground := some id }.wake id
  let (reply, s) := (s.runUntil (·.isFinished id) none patience).takeReply id
  (reply, { s with foreground := none })

def passBy (s : Simulation) (milliseconds : Nat) : Simulation :=
  let time := s.time + milliseconds
  (s.runUntil (fun _ => false) (some time) patience).passTo time

def requestFor (s : Simulation) (request : Request) (milliseconds : Nat) :
    Option (Except Error Reply) × Simulation :=
  if milliseconds == 0 then (none, s)
  else
    let (id, s) := s.startRequest request
    match (s.passBy milliseconds).takeReply id with
    | (some reply, s) => (some reply, s)
    | (none, s) => (none, s.desert id)

def isOver (s : Simulation) : Bool :=
  match s.publisher with
  | .over _ => true
  | _ => false

def awaitPublisher (s : Simulation) : Option (Except Error Unit) × Simulation :=
  let s := match s.publisher with
    | .late => s.publish
    | _ => s
  let s := s.runUntil isOver none patience
  match s.publisher with
  | .over result => (some result, { s with publisher := .absent })
  | _ => (none, s)

def shutDown (s : Simulation) : Option (Except Error Unit) × Simulation :=
  { s with publisherIsSignalled := true }.awaitPublisher

def close (s : Simulation) : Option (Except Error Unit) × Simulation :=
  { s with isServing := false }.awaitPublisher

def dropFeed (s : Simulation) : Simulation :=
  match s.publisher with
  | .absent => { s with feed := [], feedIsOpen := false }
  | .late => { s with feed := [], feedIsOpen := false, publisher := .absent }
  | _ => s

def reopen (s : Simulation) (store : Store) : Simulation :=
  { s with
    store := store
    storeNumber := s.storeNumber + 1
    formerStores := (s.storeNumber, s.store) :: s.formerStores
    locks := .empty
    isServing := true
    feedIsOpen := true }

end ZoneKeeper.Simulation
