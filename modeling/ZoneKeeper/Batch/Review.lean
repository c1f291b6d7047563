import ZoneKeeper.Batch.Operation
import ZoneKeeper.Record.Set
import ZoneKeeper.RecordType.Policy
import ZoneKeeper.Zone.Basic

namespace ZoneKeeper

abbrev Snapshot := SortedMap Key Rrset

namespace Snapshot

def ofRrsets (rrsets : List Rrset) : Snapshot :=
  SortedMap.ofList (rrsets.map fun r => (r.key, r))

def typesAt (s : Snapshot) (subname : String) : List String :=
  (s.keys.filter (·.subname == subname)).map (·.type)

end Snapshot

structure ReviewContext where
  domain : String
  operation : Operation
  minimumTtl : Nat
  maximumTtl : Nat
  deriving DecidableEq, Repr

inductive Action where
  | write (ttl : Nat) (records : SortedSet String)
  | delete
  | keep
  | nothing

def Action.isDelete : Action → Bool
  | .delete => true
  | _ => false

def Action.isWrite : Action → Bool
  | .write .. => true
  | _ => false

def Action.leaves : Action → Bool
  | .write .. => true
  | .keep => true
  | _ => false

inductive Review where
  /-- Without a valid key the item takes no part in the later stages. -/
  | unaddressed (errors : ItemErrors)
  | refused (key : Key) (clearing : Bool) (errors : ItemErrors)
  | ready (key : Key) (clearing : Bool) (action : Action)

namespace Review

def key? : Review → Option Key
  | .unaddressed _ => none
  | .refused key _ _ => some key
  | .ready key _ _ => some key

def errors : Review → ItemErrors
  | .unaddressed errors => errors
  | .refused _ _ errors => errors
  | .ready .. => []

def refuse (errors : ItemErrors) : Review → Review
  | .unaddressed _ => .unaddressed errors
  | .refused key clearing _ => .refused key clearing errors
  | .ready key clearing _ => .refused key clearing errors

def vanishes : Review → Bool
  | .unaddressed _ => false
  | .refused _ clearing _ => clearing
  | .ready _ _ action => !action.leaves

end Review

namespace BatchItem

def requiredMessage : String := "This field is required."

def required (field : String) : Problem := ⟨field, .validation, requiredMessage⟩

def typeProblems (item : BatchItem) : ItemErrors :=
  match item.type with
  | none => [required "type"]
  | some type =>
      if !RecordType.hasSyntax type then [⟨"type", .validation, RecordType.syntaxMessage⟩]
      else match RecordType.refusal? type with
        | some refusal => [⟨"type", .policyViolation, refusal.message⟩]
        | none => []

def subnameProblems (domain : String) (item : BatchItem) : ItemErrors :=
  match Subname.check item.owner domain with
  | .ok _ => []
  | .error flaw => [⟨"subname", .validation, flaw.message⟩]

def key? (domain : String) (item : BatchItem) : Option Key :=
  match item.type, item.typeProblems, item.subnameProblems domain with
  | some type, [], [] => some ⟨item.owner, type⟩
  | _, _, _ => none

def ttlProblems (ctx : ReviewContext) (rules : FieldRules) (item : BatchItem) : ItemErrors :=
  match item.ttl with
  | none => if rules.ttlRequired then [required "ttl"] else []
  | some ttl =>
      if ttl < ctx.minimumTtl then
        [⟨"ttl", .validation,
          s!"Ensure this value is greater than or equal to {ctx.minimumTtl}."⟩]
      else if ttl > ctx.maximumTtl then
        [⟨"ttl", .validation, s!"Ensure this value is less than or equal to {ctx.maximumTtl}."⟩]
      else []

def recordProblem (type : String) (flaw : RecordSetFlaw) : Problem :=
  ⟨Problem.noField, if flaw.isConflict then .conflict else .validation, flaw.message type⟩

def canonicalRecords (domain : String) (rules : FieldRules) (key : Option Key) (item : BatchItem) :
    Except ItemErrors (Option (SortedSet String)) :=
  match item.records with
  | none => if rules.recordsRequired then .error [BatchItem.required "records"] else .ok none
  | some records =>
      if records.isEmpty && rules.recordsNonempty then
        .error [⟨"records", .validation, "This field must not be empty when creating."⟩]
      else match key with
        | none => .ok none
        | some key =>
            match RecordSet.read key.type key.subname (ownerName key.subname domain) records with
            | .ok canonical => .ok (some canonical)
            | .error flaws => .error (flaws.map (recordProblem key.type))

end BatchItem

def Action.of? (stored : Option Rrset) (ttl : Option Nat) (records : Option (SortedSet String)) :
    Option Action :=
  let records := records.getD ((stored.map (·.records)).getD SortedSet.empty)
  if records.isEmpty then some (if stored.isSome then .delete else .nothing)
  else match ttl.orElse fun _ => stored.map (·.ttl) with
    | none => none
    | some ttl =>
        if stored.any fun r => r.ttl == ttl && r.records == records then some .keep
        else some (.write ttl records)

namespace Review

def ofItem (ctx : ReviewContext) (snapshot : Snapshot) (item : BatchItem) : Review :=
  let key := item.key? ctx.domain
  let stored := key.bind snapshot.get?
  let rules := ctx.operation.rules stored.isSome item
  let records := item.canonicalRecords ctx.domain rules key
  let recordProblems := match records with
    | .ok _ => []
    | .error errors => errors
  let problems := item.typeProblems ++ item.subnameProblems ctx.domain
    ++ item.ttlProblems ctx rules ++ recordProblems
  match key, records, problems with
  | none, _, _ => .unaddressed problems
  | some key, .ok records, [] =>
      match Action.of? stored (item.ttl.map Int.toNat) records with
      | some action => .ready key item.isClearing action
      | none => .refused key item.isClearing [BatchItem.required "ttl"]
  | some key, _, problems => .refused key item.isClearing problems

def own (ctx : ReviewContext) (snapshot : Snapshot) : Except ItemErrors BatchItem → Review
  | .error errors => .unaddressed errors
  | .ok item => ofItem ctx snapshot item

def named? : Except ItemErrors BatchItem → Option Key
  | .error _ => none
  | .ok item => item.type.map fun type => ⟨item.owner, type⟩

def sharers (items : List (Except ItemErrors BatchItem)) (index : Nat)
    (item : Except ItemErrors BatchItem) : List Nat :=
  match named? item with
  | none => []
  | some key =>
      (items.zipIdx.filter fun (other, i) => i != index && named? other == some key).map (·.2)

def commaSeparated (words : List String) : String := ", ".intercalate words

def sharedProblem (others : List Nat) : Problem :=
  ⟨Problem.noField, .conflict,
    "Same subname and type as in position(s) " ++ commaSeparated (others.map toString)
      ++ ", but must be unique."⟩

def afterSharing (items : List (Except ItemErrors BatchItem)) (index : Nat)
    (item : Except ItemErrors BatchItem) (review : Review) : Review :=
  match sharers items index item with
  | [] => review
  | others => review.refuse [sharedProblem others]

def existsProblem : Problem :=
  ⟨Problem.noField, .conflict,
    "Another RRset with the same subdomain and type exists for this domain. "
      ++ "(Try modifying it.)"⟩

def afterExistence (operation : Operation) (snapshot : Snapshot) (review : Review) : Review :=
  match operation, review with
  | .create, .ready key clearing action =>
      if snapshot.contains key then .refused key clearing [existsProblem]
      else .ready key clearing action
  | _, review => review

def excludes (a b : String) : Bool := (a == "CNAME") != (b == "CNAME")

def rivals (reviews : List Review) (key : Key) : List (Nat × String) :=
  reviews.zipIdx.filterMap fun (review, i) =>
    match review.key? with
    | some other =>
        if other.subname == key.subname && excludes other.type key.type && !review.vanishes then
          some (i, other.type)
        else none
    | none => none

def storedRivals (reviews : List Review) (snapshot : Snapshot) (key : Key) : List String :=
  (snapshot.typesAt key.subname).filter fun type =>
    excludes type key.type
      && !reviews.any fun review =>
        review.vanishes && review.key? == some (⟨key.subname, type⟩ : Key)

def rivalProblem? (rivals : List (Nat × String)) (stored : List String) : Option Problem :=
  let requests := rivals.map fun (i, type) => s!"request index {i} ({type})"
  let database := if stored.isEmpty then [] else ["database (" ++ commaSeparated stored ++ ")"]
  match requests ++ database with
  | [] => none
  | places =>
      some ⟨Problem.noField, .conflict,
        "RRset with conflicting type present in " ++ commaSeparated places
          ++ ". (No other RRsets are allowed alongside CNAME.)"⟩

def afterExclusion (reviews : List Review) (snapshot : Snapshot) (review : Review) : Review :=
  match review with
  | .ready key clearing action =>
      if action.leaves then
        match rivalProblem? (rivals reviews key) (storedRivals reviews snapshot key) with
        | some problem => .refused key clearing [problem]
        | none => .ready key clearing action
      else .ready key clearing action
  | review => review

def ofItems (ctx : ReviewContext) (snapshot : Snapshot)
    (items : List (Except ItemErrors BatchItem)) : List Review :=
  let reviews := items.zipIdx.map fun (item, index) =>
    afterExistence ctx.operation snapshot
      (afterSharing items index item (own ctx snapshot item))
  reviews.map (afterExclusion reviews snapshot)

end Review

end ZoneKeeper
