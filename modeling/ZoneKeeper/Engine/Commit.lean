import ZoneKeeper.Batch.Plan
import ZoneKeeper.Engine.Act

namespace ZoneKeeper

structure BatchOutcome where
  views : List View
  deleted : List Key
  shape : BatchShape

def BatchOutcome.toJson (o : BatchOutcome) : Json :=
  match o.shape with
  | .single => Json.ofOption View.toJson o.views.head?
  | .list => .array (o.views.map View.toJson)

namespace PlannedItem

def ttl (item : PlannedItem) : Nat :=
  match item.action with
  | .write ttl _ => ttl
  | _ => 0

def records (item : PlannedItem) : SortedSet String :=
  match item.action with
  | .write _ records => records
  | _ => SortedSet.empty

end PlannedItem

structure DoneStep where
  item : PlannedItem
  left : Option Rrset

namespace DoneStep

def change (d : DoneStep) : KeyChange := .ofLeft d.item.key d.left

end DoneStep

namespace Commit

open EngineProgram

def undo (domain : String) : List DoneStep → EngineProgram Unit
  | [] => return
  | d :: rest => do
      let _ ← call (.restore domain d.item.key d.item.previous)
      undo domain rest

/-- Carries out steps after some others, given the last one first. -/
def carryOut (domain : String) : List PlannedItem → List DoneStep → Engine (List DoneStep)
  | [], done => return done.reverse
  | item :: rest, done => ExceptT.mk do
      match ← call (.upsert domain item.key item.ttl item.records) with
      | .ok left => (carryOut domain rest (⟨item, left⟩ :: done)).run
      | .error e =>
          undo domain done
          return .error e

def left? (done : List DoneStep) (item : PlannedItem) : Option Rrset :=
  match item.action with
  | .keep => item.previous
  | _ => (done.find? fun d => d.item.index == item.index).bind (·.left)

def outcome (domain : String) (plan : Plan) (shape : BatchShape) (done : List DoneStep) :
    BatchOutcome where
  views := (plan.items.filterMap (left? done)).map (Rrset.view domain)
  deleted := (plan.items.filter (·.action.isDelete)).map (·.key)
  shape := shape

def announceChanges (domain : String) (changes : List KeyChange) : EngineProgram Unit := do
  if changes.isEmpty then return
  announce ⟨domain, changes, ← readClock⟩

def run (domain : String) (plan : Plan) (shape : BatchShape) : Engine BatchOutcome :=
  ExceptT.mk do
    beginCommit
    let result ← (carryOut domain plan.steps []).run
    match result with
    | .ok done =>
        announceChanges domain (done.map DoneStep.change)
        unlock domain
        endCommit
        return .ok (outcome domain plan shape done)
    | .error e =>
        unlock domain
        endCommit
        return .error e

end Commit

end ZoneKeeper
