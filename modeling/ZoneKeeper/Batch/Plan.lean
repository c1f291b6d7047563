import ZoneKeeper.Batch.Review

namespace ZoneKeeper

structure PlannedItem where
  index : Nat
  key : Key
  action : Action
  previous : Option Rrset

structure Plan where
  items : List PlannedItem

namespace Plan

def steps (p : Plan) : List PlannedItem :=
  p.items.filter (·.action.isDelete) ++ p.items.filter (·.action.isWrite)

def item? (snapshot : Snapshot) : Review × Nat → Option PlannedItem
  | (.ready key _ action, index) => some ⟨index, key, action, snapshot.get? key⟩
  | _ => none

def make (ctx : ReviewContext) (batch : Batch) (snapshot : Snapshot) : Except BatchErrors Plan :=
  let reviews := Review.ofItems ctx snapshot batch.items
  let errors := reviews.map Review.errors
  if errors.all List.isEmpty then .ok ⟨reviews.zipIdx.filterMap (item? snapshot)⟩
  else .error ⟨errors, batch.shape == .single⟩

end Plan

def Batch.touchedSubnames (b : Batch) : List String :=
  (SortedSet.ofList (b.items.filterMap fun
    | .ok item => some item.owner
    | .error _ => none)).toList

end ZoneKeeper
