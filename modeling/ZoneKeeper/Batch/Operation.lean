import ZoneKeeper.Batch.Basic

namespace ZoneKeeper

inductive Operation where
  | create
  | replace
  | update
  deriving DecidableEq, Repr

structure FieldRules where
  ttlRequired : Bool
  recordsRequired : Bool
  recordsNonempty : Bool
  deriving DecidableEq, Repr

namespace Operation

def makes (item : BatchItem) : Bool := item.records.any (!·.isEmpty)

def rules (operation : Operation) (isThere : Bool) (item : BatchItem) : FieldRules :=
  match operation with
  | .create => ⟨true, true, true⟩
  | .replace => ⟨!item.isClearing, true, false⟩
  | .update => ⟨!isThere && makes item, false, false⟩

def name : Operation → String
  | .create => "create"
  | .replace => "replace"
  | .update => "update"

end Operation

end ZoneKeeper
