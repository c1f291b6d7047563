import ZoneKeeper.Sorted.Map

namespace ZoneKeeper

inductive ErrorKind where
  | structural
  | policyViolation
  | validation
  | conflict
  | notFound
  | storageFault
  | timeout
  | internal
  deriving DecidableEq, Repr

namespace ErrorKind

def all : List ErrorKind :=
  [.structural, .policyViolation, .validation, .conflict, .notFound, .storageFault, .timeout,
   .internal]

def name : ErrorKind → String
  | .structural => "structural"
  | .policyViolation => "policy_violation"
  | .validation => "validation"
  | .conflict => "conflict"
  | .notFound => "not_found"
  | .storageFault => "storage_fault"
  | .timeout => "timeout"
  | .internal => "internal"

end ErrorKind

structure Problem where
  field : String
  kind : ErrorKind
  message : String
  deriving DecidableEq, Repr

def Problem.noField : String := "non_field_errors"

abbrev ItemErrors := List Problem

namespace ItemErrors

def messages (field : String) (errors : ItemErrors) : List String :=
  (errors.filter (·.field == field)).map (·.message)

def fields (errors : ItemErrors) : List String :=
  (SortedSet.ofList (errors.map (·.field))).toList

def hasKind (kind : ErrorKind) (errors : ItemErrors) : Bool := errors.any (·.kind == kind)

def kinds (errors : ItemErrors) : List ErrorKind := ErrorKind.all.filter fun k => errors.hasKind k

end ItemErrors

/-- The errors of a batch, one entry for each item; an item without errors has an empty one. -/
structure BatchErrors where
  items : List ItemErrors
  single : Bool
  deriving DecidableEq, Repr

namespace BatchErrors

def payload (kind : ErrorKind) (message : String) : BatchErrors :=
  ⟨[[⟨Problem.noField, kind, message⟩]], true⟩

def rejectedCount (e : BatchErrors) : Nat := e.items.countP (!·.isEmpty)

/-- The kinds that a batch as a whole may have, the weightiest first. -/
def weight : List ErrorKind := [.policyViolation, .conflict, .structural, .validation]

def kind (e : BatchErrors) : ErrorKind :=
  (weight.find? fun k => e.items.any (·.hasKind k)).getD .validation

def message (e : BatchErrors) : String :=
  s!"{e.rejectedCount} of {e.items.length} item(s) rejected"

end BatchErrors

inductive Error where
  | rejected (errors : BatchErrors)
  | notFound (detail : String)
  | policy (detail : String)
  | validation (detail : String)
  | conflict (detail : String)
  | storage (detail : String)
  | timeout (detail : String)
  | config (detail : String)
  | io (detail : String)
  | json
  | other (detail : String)
  deriving DecidableEq, Repr

namespace Error

def kind : Error → ErrorKind
  | .rejected errors => errors.kind
  | .notFound _ => .notFound
  | .policy _ => .policyViolation
  | .validation _ => .validation
  | .conflict _ => .conflict
  | .storage _ => .storageFault
  | .timeout _ => .timeout
  | .config _ => .internal
  | .io _ => .storageFault
  | .json => .structural
  | .other _ => .internal

def message : Error → String
  | .rejected errors => "Batch rejected: " ++ errors.message
  | .notFound detail => "Not found: " ++ detail
  | .policy detail => "Policy violation: " ++ detail
  | .validation detail => "Invalid input: " ++ detail
  | .conflict detail => "Conflict: " ++ detail
  | .storage detail => "Storage error: " ++ detail
  | .timeout detail => "Timed out: " ++ detail
  | .config detail => "Configuration error: " ++ detail
  | .io detail => "I/O error: " ++ detail
  | .json => "JSON error"
  | .other detail => detail

def isRetryable : Error → Bool
  | .storage _ => true
  | .io _ => true
  | _ => false

def batchErrors? : Error → Option BatchErrors
  | .rejected errors => some errors
  | _ => none

def noDomain (name : String) : Error := .notFound s!"Domain {name} does not exist"

end Error

end ZoneKeeper
