import ZoneKeeper.Proofs.Batch.Bounds

namespace ZoneKeeper

namespace BatchItem

def problems (ctx : ReviewContext) (snapshot : Snapshot) (item : BatchItem) : ItemErrors :=
  let key := item.key? ctx.domain
  let rules := ctx.operation.rules (key.bind snapshot.get?).isSome item
  item.typeProblems ++ item.subnameProblems ctx.domain ++ item.ttlProblems ctx rules
    ++ match item.canonicalRecords ctx.domain rules key with
      | .ok _ => []
      | .error errors => errors

def collides (ctx : ReviewContext) (snapshot : Snapshot) (item : BatchItem) : Bool :=
  ctx.operation == .create && (item.key? ctx.domain).any snapshot.contains

def leavesRecords (stored : Option Rrset) (item : BatchItem) : Bool :=
  match item.records with
  | some contents => !contents.isEmpty
  | none => stored.any (!·.records.isEmpty)

end BatchItem

namespace Batch

inductive IsSubmitted : Batch → Prop where
  | item (item : BatchItem) : IsSubmitted (ofItem item)
  | items (items : List BatchItem) : IsSubmitted (ofItems items)
  | payload {payload : Json} {batch : Batch} (h : ofJson payload = .ok batch) : IsSubmitted batch

def conflict (message : String) : Problem := ⟨"non_field_errors", .conflict, message⟩

def sharedMessage (others : List Nat) : String :=
  "Same subname and type as in position(s) " ++ ", ".intercalate (others.map toString)
    ++ ", but must be unique."

def existsMessage : String :=
  "Another RRset with the same subdomain and type exists for this domain. (Try modifying it.)"

def exclusionPlaces (excluders : List (Nat × String)) (stored : List String) : List String :=
  excluders.map (fun (i, type) => s!"request index {i} ({type})")
    ++ if stored = [] then [] else ["database (" ++ ", ".intercalate stored ++ ")"]

def exclusionMessage (places : List String) : String :=
  "RRset with conflicting type present in " ++ ", ".intercalate places
    ++ ". (No other RRsets are allowed alongside CNAME.)"

def exclusionOf? (excluders : List (Nat × String)) (stored : List String) : Option Problem :=
  let places := exclusionPlaces excluders stored
  if places = [] then none else some (conflict (exclusionMessage places))

section Stages

variable (ctx : ReviewContext) (snapshot : Snapshot) (batch : Batch)

def positions : List Nat := List.range batch.items.length

def wellFormed? (i : Nat) : Option BatchItem := batch.items[i]?.bind Except.toOption

def nameAt? (i : Nat) : Option Key :=
  (batch.wellFormed? i).bind fun item => item.type.map fun type => ⟨item.owner, type⟩

def namesakes (i : Nat) : List Nat :=
  batch.positions.filter fun j =>
    j != i && (batch.nameAt? i).isSome && batch.nameAt? j == batch.nameAt? i

def isSpared (i : Nat) (item : BatchItem) : Bool :=
  (batch.namesakes i).isEmpty && (item.problems ctx snapshot).isEmpty
    && !item.collides ctx snapshot

def keyAt? (i : Nat) : Option Key := (batch.wellFormed? i).bind (·.key? ctx.domain)

/-- Whether a set is counted on at the key of the item at a position. An item that is refused counts
unless it asks for no records. -/
def staysAt (i : Nat) : Bool :=
  (batch.wellFormed? i).any fun item =>
    if batch.isSpared ctx snapshot i item then
      item.leavesRecords ((item.key? ctx.domain).bind snapshot.get?)
    else !item.isClearing

def excluders (key : Key) : List (Nat × String) :=
  batch.positions.filterMap fun i => (batch.keyAt? ctx i).bind fun other =>
    if other.subname == key.subname && ((other.type == "CNAME") != (key.type == "CNAME"))
        && batch.staysAt ctx snapshot i then some (i, other.type)
    else none

def storedExcluders (key : Key) : List String :=
  (snapshot.typesAt key.subname).filter fun type =>
    ((type == "CNAME") != (key.type == "CNAME")) && !batch.positions.any fun i =>
      batch.keyAt? ctx i == some (⟨key.subname, type⟩ : Key) && !batch.staysAt ctx snapshot i

def exclusion? (item : BatchItem) : Option Problem :=
  (item.key? ctx.domain).bind fun key =>
    if item.leavesRecords (snapshot.get? key) then
      exclusionOf? (batch.excluders ctx snapshot key) (batch.storedExcluders ctx snapshot key)
    else none

def verdict (i : Nat) : ItemErrors :=
  match batch.items[i]? with
  | none => []
  | some (.error malformed) => malformed
  | some (.ok item) =>
      if batch.namesakes i ≠ [] then [conflict (sharedMessage (batch.namesakes i))]
      else if item.problems ctx snapshot ≠ [] then item.problems ctx snapshot
      else if item.collides ctx snapshot then [conflict existsMessage]
      else (batch.exclusion? ctx snapshot item).toList

end Stages

theorem sharedProblem_eq (others : List Nat) :
    Review.sharedProblem others = conflict (sharedMessage others) :=
  rfl

theorem existsProblem_eq : Review.existsProblem = conflict existsMessage := by
  decide

theorem rivalProblem?_eq (excluders : List (Nat × String)) (stored : List String) :
    Review.rivalProblem? excluders stored = exclusionOf? excluders stored := by
  cases excluders <;> cases stored <;> rfl

theorem pairwise_namesakes (batch : Batch) (i : Nat) : (batch.namesakes i).Pairwise (· < ·) :=
  List.pairwise_lt_range.filter _

theorem mem_namesakes_iff {batch : Batch} {i j : Nat} :
    j ∈ batch.namesakes i
      ↔ j ≠ i ∧ ∃ key, batch.nameAt? i = some key ∧ batch.nameAt? j = some key := by
  have hposition {key : Key} (h : batch.nameAt? j = some key) : j ∈ batch.positions := by
    obtain ⟨item, hitem, -⟩ := Option.bind_eq_some_iff.1 h
    obtain ⟨shaped, hshaped, -⟩ := Option.bind_eq_some_iff.1 hitem
    exact List.mem_range.2 (List.getElem?_eq_some_iff.1 hshaped).1
  simp only [namesakes, List.mem_filter, Bool.and_eq_true, bne_iff_ne, ne_eq, beq_iff_eq,
    Option.isSome_iff_exists]
  constructor
  · rintro ⟨-, ⟨hne, key, hkey⟩, hsame⟩
    exact ⟨hne, key, hkey, hsame.trans hkey⟩
  · rintro ⟨hne, key, hkey, hother⟩
    exact ⟨hposition hother, ⟨hne, key, hkey⟩, hother.trans hkey.symm⟩

theorem exists_item_of_namesakes {batch : Batch} {i : Nat} (h : batch.namesakes i ≠ []) :
    ∃ item, batch.items[i]? = some (.ok item) := by
  obtain ⟨j, hj⟩ := List.exists_mem_of_ne_nil _ h
  obtain ⟨-, key, hkey, -⟩ := mem_namesakes_iff.1 hj
  obtain ⟨item, hitem, -⟩ := Option.bind_eq_some_iff.1 hkey
  obtain ⟨shaped, hshaped, hok⟩ := Option.bind_eq_some_iff.1 hitem
  cases shaped with
  | error errors => cases hok
  | ok found => exact ⟨found, hshaped⟩

end Batch

namespace BatchItem

theorem of_readText {field : String} {value : Option Json} :
    ∀ problem ∈ (readText field value).1, problem.kind = .structural := by
  intro problem hproblem
  unfold readText at hproblem
  split at hproblem <;> simp_all [structural]

theorem of_readTtl {value : Option Json} :
    ∀ problem ∈ (readTtl value).1, problem.kind = .structural := by
  intro problem hproblem
  unfold readTtl at hproblem
  split at hproblem
  · cases hproblem
  · simp_all [structural]
  · split at hproblem <;> simp_all [structural]
  · simp_all [structural]

theorem of_readRecords {value : Option Json} :
    ∀ problem ∈ (readRecords value).1, problem.kind = .structural := by
  intro problem hproblem
  unfold readRecords at hproblem
  split at hproblem
  · cases hproblem
  · simp_all [structural]
  · obtain ⟨record, -, hrecord⟩ := List.mem_flatMap.1 hproblem
    exact of_readText problem hrecord
  · simp_all [structural]

theorem of_malformed {json : Json} {errors : ItemErrors} (h : ofJson json = .error errors) :
    errors ≠ [] ∧ ∀ problem ∈ errors, problem.kind = .structural := by
  unfold ofJson at h
  split at h
  · next members =>
      dsimp only at h
      split at h
      · cases h
      · next hne =>
          obtain rfl := Except.error.inj h
          refine ⟨hne, fun problem hproblem => ?_⟩
          simp only [List.mem_append] at hproblem
          rcases hproblem with ((hsubname | htype) | httl) | hrecords
          · exact of_readText problem hsubname
          · exact of_readText problem htype
          · exact of_readTtl problem httl
          · exact of_readRecords problem hrecords
  · obtain rfl := Except.error.inj h
    simp [structural]

end BatchItem

theorem Batch.IsSubmitted.of_malformed {batch : Batch} (h : batch.IsSubmitted)
    {errors : ItemErrors} (hmem : .error errors ∈ batch.items) :
    errors ≠ [] ∧ ∀ problem ∈ errors, problem.kind = .structural := by
  cases h with
  | item item => simp [ofItem] at hmem
  | items items => simp [ofItems] at hmem
  | payload h =>
      unfold ofJson at h
      split at h
      · cases h
      · obtain rfl := Except.ok.inj h
        exact BatchItem.of_malformed (List.mem_singleton.1 hmem).symm
      · obtain rfl := Except.ok.inj h
        obtain ⟨value, -, hvalue⟩ := List.mem_map.1 hmem
        exact BatchItem.of_malformed hvalue
      · cases h

namespace Action

variable {stored : Option Rrset} {ttl : Option Nat} {records : Option (SortedSet String)}

theorem leaves_of (h : of? stored ttl records = some action) :
    action.leaves = !(records.getD ((stored.map (·.records)).getD SortedSet.empty)).isEmpty := by
  simp only [of?] at h
  split at h
  · next hempty =>
      rw [hempty]
      split at h <;> obtain rfl := Option.some.inj h <;> rfl
  · next hne =>
      rw [Bool.eq_false_iff.2 hne]
      split at h
      · cases h
      · split at h <;> obtain rfl := Option.some.inj h <;> rfl

theorem of_eq_none (h : of? stored ttl records = none) :
    ttl = none ∧ stored = none ∧ ∃ given, records = some given ∧ given.isEmpty = false := by
  simp only [of?] at h
  split at h
  · cases h
  · next hne =>
      split at h
      · next httl =>
          cases ttl with
          | some own => cases httl
          | none =>
              cases stored with
              | some r => cases httl
              | none =>
                  cases records with
                  | some given => exact ⟨rfl, rfl, given, rfl, Bool.eq_false_iff.2 hne⟩
                  | none => exact absurd rfl hne
      · split at h <;> cases h

end Action

namespace BatchItem

variable {ctx : ReviewContext} {snapshot : Snapshot} {item : BatchItem} {key : Key}
  {rules : FieldRules} {records : Option (SortedSet String)}

theorem isEmpty_of_canonicalRecords
    (h : item.canonicalRecords ctx.domain rules (some key) = .ok records) (stored : Option Rrset) :
    (records.getD ((stored.map (·.records)).getD SortedSet.empty)).isEmpty
      = !item.leavesRecords stored := by
  unfold leavesRecords
  rcases canonicalRecords_cases h with ⟨hnone, rfl⟩ | ⟨contents, canonical, hgiven, rfl, hread⟩
  · rw [hnone]
    cases stored with
    | none => rfl
    | some r => exact (Bool.not_not _).symm
  · rw [hgiven, Option.getD_some, Bool.eq_iff_iff, RecordSet.isEmpty_iff_of_read hread]
    simp

theorem exists_key (h : item.problems ctx snapshot = []) :
    ∃ key, item.key? ctx.domain = some key := by
  rw [← Option.isSome_iff_exists, ← Option.ne_none_iff_isSome]
  intro hnone
  rw [problems, List.append_assoc] at h
  exact problems_of_no_key hnone _ h

theorem exists_action {operation : Operation} {stored : Option Rrset}
    (httl : item.ttlProblems ctx (operation.rules stored.isSome item) = [])
    (hrecords : item.canonicalRecords ctx.domain (operation.rules stored.isSome item) (some key)
      = .ok records) :
    ∃ action, Action.of? stored (item.ttl.map Int.toNat) records = some action := by
  rw [← Option.isSome_iff_exists, ← Option.ne_none_iff_isSome]
  intro hnone
  obtain ⟨hunset, rfl, given, rfl, hne⟩ := Action.of_eq_none hnone
  have hgiven := isEmpty_of_canonicalRecords hrecords none
  rw [Option.getD_some, hne, leavesRecords] at hgiven
  cases hcontents : item.records with
  | none => simp [hcontents] at hgiven
  | some contents =>
      have hne : contents.isEmpty = false := by simpa [hcontents] using hgiven
      have hrequired : (operation.rules (none : Option Rrset).isSome item).ttlRequired = true := by
        cases operation <;> simp [Operation.rules, Operation.makes, isClearing, hcontents, hne]
      rw [ttlProblems, Option.map_eq_none_iff.1 hunset, hrequired] at httl
      cases httl

end BatchItem

namespace Review

variable {ctx : ReviewContext} {snapshot : Snapshot} {item : BatchItem} {key : Key}

theorem ofItem_of_no_key (h : item.key? ctx.domain = none) :
    ofItem ctx snapshot item = .unaddressed (item.problems ctx snapshot) := by
  unfold ofItem BatchItem.problems
  cases hkey : item.key? ctx.domain with
  | none => rfl
  | some key => cases hkey.symm.trans h

theorem ofItem_of_problems (h : item.key? ctx.domain = some key)
    (hne : item.problems ctx snapshot ≠ []) :
    ofItem ctx snapshot item = .refused key item.isClearing (item.problems ctx snapshot) := by
  simp only [BatchItem.problems, h] at hne
  simp only [ofItem, BatchItem.problems, h]
  split
  · next heq => cases heq
  · next hnone => exact absurd hnone hne
  · next heq _ =>
      obtain rfl := Option.some.inj heq
      rfl

theorem ofItem_of_clean (h : item.key? ctx.domain = some key)
    (hnone : item.problems ctx snapshot = []) : ∃ action,
    ofItem ctx snapshot item = .ready key item.isClearing action
      ∧ action.leaves = item.leavesRecords (snapshot.get? key) := by
  simp only [BatchItem.problems, h, Option.bind_some, List.append_eq_nil_iff] at hnone
  obtain ⟨⟨⟨htype, hsubname⟩, httl⟩, hcontent⟩ := hnone
  cases hrecords : item.canonicalRecords ctx.domain
      (ctx.operation.rules (snapshot.get? key).isSome item) (some key) with
  | error errors =>
      rw [hrecords] at hcontent
      exact absurd hcontent (BatchItem.records_error_ne_nil hrecords)
  | ok records =>
      obtain ⟨action, haction⟩ := BatchItem.exists_action httl hrecords
      refine ⟨action, ?_, ?_⟩
      · simp only [ofItem, h, Option.bind_some, hrecords, htype, hsubname, httl, List.append_nil,
          haction]
      · rw [Action.leaves_of haction, BatchItem.isEmpty_of_canonicalRecords hrecords,
          Bool.not_not]

theorem refuse_ofItem (errors : ItemErrors) : (ofItem ctx snapshot item).refuse errors
    = match item.key? ctx.domain with
      | none => .unaddressed errors
      | some key => .refused key item.isClearing errors := by
  cases hkey : item.key? ctx.domain with
  | none => rw [ofItem_of_no_key hkey, refuse]
  | some key =>
      by_cases hclean : item.problems ctx snapshot = []
      · obtain ⟨action, hready, -⟩ := ofItem_of_clean hkey hclean
        rw [hready, refuse]
      · rw [ofItem_of_problems hkey hclean, refuse]

theorem ofItem_eq_refuse (hne : item.problems ctx snapshot ≠ []) :
    ofItem ctx snapshot item
      = (ofItem ctx snapshot item).refuse (item.problems ctx snapshot) := by
  cases hkey : item.key? ctx.domain with
  | none => rw [ofItem_of_no_key hkey, refuse]
  | some key => rw [ofItem_of_problems hkey hne, refuse]

theorem afterExistence_refuse (operation : Operation) (review : Review) (errors : ItemErrors) :
    afterExistence operation snapshot (review.refuse errors) = review.refuse errors := by
  cases review <;> cases operation <;> rfl

theorem afterExclusion_refuse (reviews : List Review) (review : Review) (errors : ItemErrors) :
    afterExclusion reviews snapshot (review.refuse errors) = review.refuse errors := by
  cases review <;> rfl

theorem errors_refuse (review : Review) (errors : ItemErrors) :
    (review.refuse errors).errors = errors := by
  cases review <;> rfl

end Review

namespace Batch

variable {ctx : ReviewContext} {snapshot : Snapshot} {batch : Batch} {item : BatchItem} {i : Nat}

theorem positions_eq {α : Type} {l : List α} (h : l.length = batch.items.length) :
    batch.positions = l.zipIdx.map (·.2) := by
  rw [positions, ← h, List.zipIdx_map_snd, List.range_eq_range']

theorem wellFormed?_of_item (h : batch.items[i]? = some (.ok item)) :
    batch.wellFormed? i = some item := by
  rw [wellFormed?, h]
  rfl

theorem wellFormed?_of_malformed {errors : ItemErrors}
    (h : batch.items[i]? = some (.error errors)) : batch.wellFormed? i = none := by
  rw [wellFormed?, h]
  rfl

theorem nameAt?_eq {shaped : Except ItemErrors BatchItem} (h : batch.items[i]? = some shaped) :
    batch.nameAt? i = Review.named? shaped := by
  cases shaped with
  | error errors =>
      rw [nameAt?, wellFormed?_of_malformed h]
      rfl
  | ok item =>
      rw [nameAt?, wellFormed?_of_item h]
      rfl

theorem sharers_eq {shaped : Except ItemErrors BatchItem} (h : batch.items[i]? = some shaped) :
    Review.sharers batch.items i shaped = batch.namesakes i := by
  rw [namesakes, positions_eq rfl, List.filter_map, Review.sharers, nameAt?_eq h]
  cases Review.named? shaped with
  | none => simp [Function.comp_def]
  | some key =>
      refine congrArg (List.map _) (List.filter_congr ?_)
      rintro ⟨other, j⟩ hmem
      simp [nameAt?_eq (List.mem_zipIdx_iff_getElem?.1 hmem)]

theorem keyAt?_of_item (h : batch.items[i]? = some (.ok item)) :
    batch.keyAt? ctx i = item.key? ctx.domain := by
  rw [keyAt?, wellFormed?_of_item h]
  rfl

theorem verdict_of_item (h : batch.items[i]? = some (.ok item)) :
    batch.verdict ctx snapshot i
      = if batch.namesakes i ≠ [] then [conflict (sharedMessage (batch.namesakes i))]
        else if item.problems ctx snapshot ≠ [] then item.problems ctx snapshot
        else if item.collides ctx snapshot then [conflict existsMessage]
        else (batch.exclusion? ctx snapshot item).toList := by
  rw [verdict, h]

theorem staged_of_malformed {errors : ItemErrors} (h : batch.items[i]? = some (.error errors)) :
    (Review.staged ctx snapshot batch.items)[i]? = some (.unaddressed errors) := by
  rw [Review.getElem?_staged, h]
  cases hoperation : ctx.operation <;> rfl

theorem staged_of_refused (h : batch.items[i]? = some (.ok item))
    (hrefused : batch.isSpared ctx snapshot i item = false) :
    batch.verdict ctx snapshot i ≠ []
      ∧ (Review.staged ctx snapshot batch.items)[i]?
        = some ((Review.ofItem ctx snapshot item).refuse (batch.verdict ctx snapshot i)) := by
  rw [Review.getElem?_staged, h, Option.map_some, Option.some.injEq, Review.afterSharing,
    sharers_eq h, Review.own, verdict_of_item h]
  by_cases hshared : batch.namesakes i = []
  · rw [if_neg (not_not.2 hshared), hshared]
    by_cases hclean : item.problems ctx snapshot = []
    · rw [if_neg (not_not.2 hclean)]
      have hcollides : item.collides ctx snapshot = true := by
        simpa [isSpared, hshared, hclean] using hrefused
      rw [if_pos hcollides]
      refine ⟨List.cons_ne_nil _ _, ?_⟩
      obtain ⟨hcreate, hstored⟩ := Bool.and_eq_true_iff.1 hcollides
      obtain ⟨key, hkey, hcontains⟩ := (Option.any_eq_true _ _).1 hstored
      obtain ⟨action, hready, -⟩ := Review.ofItem_of_clean hkey hclean
      rw [hready, beq_iff_eq.1 hcreate, Review.afterExistence, if_pos hcontains, existsProblem_eq,
        Review.refuse]
    · rw [if_pos hclean]
      refine ⟨hclean, ?_⟩
      have hself := Review.ofItem_eq_refuse hclean
      exact (congrArg _ hself).trans (Review.afterExistence_refuse ..)
  · rw [if_pos hshared]
    refine ⟨List.cons_ne_nil _ _, ?_⟩
    split
    · next hnone => exact absurd hnone hshared
    · rw [sharedProblem_eq]
      exact Review.afterExistence_refuse ..

theorem staged_of_spared (h : batch.items[i]? = some (.ok item))
    (hspared : batch.isSpared ctx snapshot i item = true) :
    ∃ key action, item.key? ctx.domain = some key
      ∧ (Review.staged ctx snapshot batch.items)[i]? = some (.ready key item.isClearing action)
      ∧ action.leaves = item.leavesRecords (snapshot.get? key) := by
  simp only [isSpared, Bool.and_eq_true, List.isEmpty_iff, Bool.not_eq_true'] at hspared
  obtain ⟨⟨hshared, hclean⟩, hfree⟩ := hspared
  obtain ⟨key, hkey⟩ := BatchItem.exists_key hclean
  obtain ⟨action, hready, hleaves⟩ := Review.ofItem_of_clean hkey hclean
  refine ⟨key, action, hkey, ?_, hleaves⟩
  rw [Review.getElem?_staged, h, Option.map_some, Review.afterSharing, sharers_eq h, hshared,
    Review.own, hready, Option.some.injEq]
  unfold Review.afterExistence
  split
  · next hcreate heq =>
      obtain ⟨rfl, rfl, rfl⟩ := heq
      rw [if_neg]
      simpa [BatchItem.collides, hcreate, hkey] using hfree
  · rfl

theorem standing_of_staged {review : Review}
    (h : (Review.staged ctx snapshot batch.items)[i]? = some review) :
    review.key? = batch.keyAt? ctx i
      ∧ (review.key?.isSome = true → review.vanishes = !batch.staysAt ctx snapshot i) := by
  have hplace := Review.getElem?_staged ctx snapshot batch.items i
  rw [h] at hplace
  obtain ⟨shaped, hitem, -⟩ := Option.map_eq_some_iff.1 hplace.symm
  cases shaped with
  | error errors =>
      obtain rfl := Option.some.inj ((staged_of_malformed hitem).symm.trans h)
      rw [keyAt?, wellFormed?_of_malformed hitem]
      exact ⟨rfl, nofun⟩
  | ok item =>
      rw [keyAt?_of_item hitem, staysAt, wellFormed?_of_item hitem, Option.any_some]
      by_cases hspared : batch.isSpared ctx snapshot i item = true
      · obtain ⟨key, action, hkey, hstaged, hleaves⟩ := staged_of_spared hitem hspared
        obtain rfl := Option.some.inj (hstaged.symm.trans h)
        rw [if_pos hspared, hkey, Option.bind_some, ← hleaves]
        exact ⟨rfl, fun _ => rfl⟩
      · have hstaged := (staged_of_refused hitem (Bool.eq_false_iff.2 hspared)).2
        obtain rfl := Option.some.inj (hstaged.symm.trans h)
        rw [if_neg hspared, Bool.not_not, Review.refuse_ofItem]
        cases item.key? ctx.domain with
        | none => exact ⟨rfl, nofun⟩
        | some key => exact ⟨rfl, fun _ => rfl⟩

theorem length_staged :
    (Review.staged ctx snapshot batch.items).length = batch.items.length := by
  simp [Review.staged]

theorem rivals_eq (key : Key) :
    Review.rivals (Review.staged ctx snapshot batch.items) key
      = batch.excluders ctx snapshot key := by
  rw [excluders, positions_eq length_staged, List.filterMap_map, Review.rivals]
  apply List.filterMap_congr
  rintro ⟨review, i⟩ hmem
  obtain ⟨hkey, hvanishes⟩ := standing_of_staged (List.mem_zipIdx_iff_getElem?.1 hmem)
  rw [Function.comp_apply, ← hkey]
  cases hother : review.key? with
  | none => simp [hother]
  | some other => simp [hother, Review.excludes, hvanishes (by rw [hother]; rfl)]

theorem exists_staged (h : i ∈ batch.positions) :
    ∃ review, (Review.staged ctx snapshot batch.items)[i]? = some review :=
  ⟨_, List.getElem?_eq_getElem (by rw [length_staged]; exact List.mem_range.1 h)⟩

theorem mem_positions_of_staged {review : Review}
    (h : (Review.staged ctx snapshot batch.items)[i]? = some review) : i ∈ batch.positions := by
  rw [positions, ← length_staged, List.mem_range]
  exact (List.getElem?_eq_some_iff.1 h).1

theorem any_removes (key : Key) :
    (Review.staged ctx snapshot batch.items).any
        (fun review => review.vanishes && review.key? == some key)
      = batch.positions.any fun i =>
        batch.keyAt? ctx i == some key && !batch.staysAt ctx snapshot i := by
  rw [Bool.eq_iff_iff, List.any_eq_true, List.any_eq_true]
  constructor
  · rintro ⟨review, hmem, hremoved⟩
    obtain ⟨i, hi⟩ := List.mem_iff_getElem?.1 hmem
    obtain ⟨hkey, hvanishes⟩ := standing_of_staged hi
    simp only [Bool.and_eq_true, beq_iff_eq] at hremoved
    refine ⟨i, mem_positions_of_staged hi, ?_⟩
    rw [← hkey, ← hvanishes (by rw [hremoved.2]; rfl), hremoved.1, hremoved.2]
    simp
  · rintro ⟨i, hi, hremoved⟩
    obtain ⟨review, hreview⟩ := exists_staged hi
    obtain ⟨hkey, hvanishes⟩ := standing_of_staged hreview
    simp only [Bool.and_eq_true, beq_iff_eq] at hremoved
    refine ⟨review, List.mem_of_getElem? hreview, ?_⟩
    rw [hvanishes (by rw [hkey, hremoved.1]; rfl), hremoved.2, hkey, hremoved.1]
    simp

theorem storedRivals_eq (key : Key) :
    Review.storedRivals (Review.staged ctx snapshot batch.items) snapshot key
      = batch.storedExcluders ctx snapshot key := by
  simp only [Review.storedRivals, storedExcluders, Review.excludes, any_removes]

theorem verdict_of_staged {review : Review}
    (h : (Review.staged ctx snapshot batch.items)[i]? = some review) :
    (Review.afterExclusion (Review.staged ctx snapshot batch.items) snapshot review).errors
      = batch.verdict ctx snapshot i := by
  have hplace := Review.getElem?_staged ctx snapshot batch.items i
  rw [h] at hplace
  obtain ⟨shaped, hitem, -⟩ := Option.map_eq_some_iff.1 hplace.symm
  cases shaped with
  | error errors =>
      obtain rfl := Option.some.inj ((staged_of_malformed hitem).symm.trans h)
      rw [verdict, hitem]
      rfl
  | ok item =>
      by_cases hspared : batch.isSpared ctx snapshot i item = true
      · obtain ⟨key, action, hkey, hstaged, hleaves⟩ := staged_of_spared hitem hspared
        obtain rfl := Option.some.inj (hstaged.symm.trans h)
        simp only [isSpared, Bool.and_eq_true, List.isEmpty_iff, Bool.not_eq_true'] at hspared
        obtain ⟨⟨hshared, hclean⟩, hfree⟩ := hspared
        rw [verdict_of_item hitem, hshared, hclean, hfree, exclusion?, hkey, Option.bind_some,
          Review.afterExclusion, hleaves, rivals_eq, storedRivals_eq, rivalProblem?_eq]
        rw [if_neg (not_not.2 rfl), if_neg (not_not.2 rfl), if_neg Bool.false_ne_true]
        split
        · cases exclusionOf? (batch.excluders ctx snapshot key)
            (batch.storedExcluders ctx snapshot key) <;> rfl
        · rfl
      · obtain ⟨-, hstaged⟩ := staged_of_refused hitem (Bool.eq_false_iff.2 hspared)
        obtain rfl := Option.some.inj (hstaged.symm.trans h)
        rw [Review.afterExclusion_refuse, Review.errors_refuse]

theorem errors_ofItems : (Review.ofItems ctx snapshot batch.items).map Review.errors
    = batch.positions.map (batch.verdict ctx snapshot) := by
  apply List.ext_getElem
  · simp [Review.length_ofItems, positions]
  · intro i hi hi'
    simp only [Review.ofItems_eq, List.map_map, List.getElem_map, positions, List.getElem_range]
    exact verdict_of_staged (List.getElem?_eq_getElem _)

end Batch

namespace Plan

variable {ctx : ReviewContext} {snapshot : Snapshot} {batch : Batch} {plan : Plan}

theorem make_eq : make ctx batch snapshot
    = if ∀ i ∈ batch.positions, batch.verdict ctx snapshot i = []
      then .ok ⟨(Review.ofItems ctx snapshot batch.items).zipIdx.filterMap (item? snapshot)⟩
      else .error ⟨batch.positions.map (batch.verdict ctx snapshot), batch.shape == .single⟩ := by
  simp only [make, Batch.errors_ofItems, List.all_map, List.all_eq_true, Function.comp_apply,
    List.isEmpty_iff]

theorem places_of_make (hsubmitted : batch.IsSubmitted) (h : make ctx batch snapshot = .ok plan) :
    plan.items.map (fun p => (p.index, some p.key))
      = batch.positions.map fun i => (i, batch.nameAt? i) := by
  obtain ⟨hitems, hnone⟩ := items_of_make h
  rw [hitems, List.map_filterMap, Batch.positions_eq Review.length_ofItems, List.map_map,
    List.filterMap_eq_map_iff_forall_eq_some]
  rintro ⟨review, i⟩ hmem
  have hlast := List.mem_zipIdx_iff_getElem?.1 hmem
  have hpass := hnone review (List.mem_of_getElem? hlast)
  have hstaged := Review.staged_of_errors_nil hlast hpass
  have hplace := Review.getElem?_staged ctx snapshot batch.items i
  rw [hstaged] at hplace
  obtain ⟨shaped, hitem, -⟩ := Option.map_eq_some_iff.1 hplace.symm
  cases shaped with
  | error errors =>
      obtain rfl := Option.some.inj ((Batch.staged_of_malformed hitem).symm.trans hstaged)
      exact absurd hpass (hsubmitted.of_malformed (List.mem_of_getElem? hitem)).1
  | ok item =>
      obtain ⟨key, action, rfl, hpasses⟩ := Review.passes_of_staged hitem hstaged hpass
      simp [item?, Batch.nameAt?_eq hitem, BatchItem.named_of_key hpasses.hasKey]

end Plan

/-- A batch either has a plan, with one item for each of its own in the same order, or what the
table of stages says is reported for each position, and it says something for some. Items that share
a subname and a type are told all the other positions of such items, in ascending order. -/
theorem make_follows_table (ctx : ReviewContext) (snapshot : Snapshot) {batch : Batch}
    (hsubmitted : batch.IsSubmitted) :
    ((∃ plan, Plan.make ctx batch snapshot = .ok plan
          ∧ plan.items.map (fun p => (p.index, some p.key))
            = batch.positions.map (fun i => (i, batch.nameAt? i))
          ∧ ∀ i ∈ batch.positions, batch.verdict ctx snapshot i = [])
        ∨ ∃ errors, Plan.make ctx batch snapshot = .error errors
          ∧ errors.items = batch.positions.map (batch.verdict ctx snapshot)
          ∧ errors.items.length = batch.items.length ∧ (∃ entry ∈ errors.items, entry ≠ [])
          ∧ (∀ i, batch.namesakes i ≠ [] → errors.items[i]? = some [⟨"non_field_errors", .conflict,
              "Same subname and type as in position(s) "
                ++ ", ".intercalate ((batch.namesakes i).map toString)
                ++ ", but must be unique."⟩])
          ∧ (errors.single = true ↔ batch.shape = .single))
      ∧ (∀ i, (batch.namesakes i).Pairwise (· < ·)
          ∧ ∀ j, j ∈ batch.namesakes i
            ↔ j ≠ i ∧ ∃ key, batch.nameAt? i = some key ∧ batch.nameAt? j = some key)
      ∧ ∀ malformed : ItemErrors, .error malformed ∈ batch.items →
          malformed ≠ [] ∧ ∀ problem ∈ malformed, problem.kind = .structural := by
  refine ⟨?_, fun i => ⟨batch.pairwise_namesakes i, fun _ => Batch.mem_namesakes_iff⟩,
    fun _ => hsubmitted.of_malformed⟩
  by_cases hnone : ∀ i ∈ batch.positions, batch.verdict ctx snapshot i = []
  · have hmake := Plan.make_eq.trans (if_pos hnone)
    exact Or.inl ⟨_, hmake, Plan.places_of_make hsubmitted hmake, hnone⟩
  · refine Or.inr ⟨_, Plan.make_eq.trans (if_neg hnone), rfl, ?_, ?_, ?_, beq_iff_eq⟩
    · rw [List.length_map, Batch.positions, List.length_range]
    · push Not at hnone
      obtain ⟨i, hi, hne⟩ := hnone
      exact ⟨_, List.mem_map_of_mem hi, hne⟩
    · intro i hshared
      obtain ⟨item, hitem⟩ := Batch.exists_item_of_namesakes hshared
      have hlt := (List.getElem?_eq_some_iff.1 hitem).1
      rw [List.getElem?_map, Batch.positions, List.getElem?_range hlt, Option.map_some,
        Batch.verdict_of_item hitem, if_pos hshared]
      rfl

namespace Example

def entry (subname type : String) (ttl : Int) (records : List String) : Json :=
  .object [("subname", .string subname), ("type", .string type), ("ttl", .int ttl),
    ("records", .ofStrings records)]

def medley : List Json := [
  .object [("subname", .string "www"), ("type", .string "A"), ("ttl", .null)],
  entry "twice" "A" 3600 ["192.0.2.1"], entry "twice" "A" 3600 ["192.0.2.2"],
  entry "" "SOA" 1 [],
  entry "twice" "A" 1 [],
  entry "www" "A" 3600 ["192.0.2.1"],
  entry "mail" "CNAME" 3600 ["www.example.com."], entry "mail" "TXT" 3600 ["\"hello\""],
  entry "host" "A" 3600 ["192.0.2"],
  entry "" "TXT" 3600 ["\"hello\""],
  entry "www" "CNAME" 3600 ["mail.example.com."],
  entry "a..b" "A" 3600 ["192.0.2.1"]]

def adding : ReviewContext := ⟨"example.com", .create, 60, 86400⟩

def hosted : Snapshot :=
  .ofRrsets [⟨"www", "A", 3600, .ofList ["192.0.2.1"], ⟨0, 0⟩, ⟨0, 0⟩⟩]

def received : Batch := ⟨medley.map BatchItem.ofJson, .list⟩

theorem isSubmitted_received : received.IsSubmitted :=
  .payload (show Batch.ofJson (.array medley) = .ok received from rfl)

end Example

theorem each_line_reported : ∃ errors,
    Plan.make Example.adding Example.received Example.hosted = .error errors
      ∧ errors.items = [
        [⟨"ttl", .structural, "This field may not be null."⟩],
        [⟨"non_field_errors", .conflict,
          "Same subname and type as in position(s) 2, 4, but must be unique."⟩],
        [⟨"non_field_errors", .conflict,
          "Same subname and type as in position(s) 1, 4, but must be unique."⟩],
        [⟨"type", .policyViolation,
            "You cannot tinker with the SOA RR set. It is managed automatically."⟩,
          ⟨"ttl", .validation, "Ensure this value is greater than or equal to 60."⟩,
          ⟨"records", .validation, "This field must not be empty when creating."⟩],
        [⟨"non_field_errors", .conflict,
          "Same subname and type as in position(s) 1, 2, but must be unique."⟩],
        [⟨"non_field_errors", .conflict, "Another RRset with the same subdomain and type exists "
          ++ "for this domain. (Try modifying it.)"⟩],
        [⟨"non_field_errors", .conflict, "RRset with conflicting type present in request index 7 "
          ++ "(TXT). (No other RRsets are allowed alongside CNAME.)"⟩],
        [⟨"non_field_errors", .conflict, "RRset with conflicting type present in request index 6 "
          ++ "(CNAME). (No other RRsets are allowed alongside CNAME.)"⟩],
        [⟨"non_field_errors", .validation, "Record content of A host.example.com. invalid: "
          ++ "'192.0.2': Record content for type A malformed: '192.0.2' is not a valid IPv4 address"⟩],
        [],
        [⟨"non_field_errors", .conflict, "RRset with conflicting type present in request index 5 "
          ++ "(A), database (A). (No other RRsets are allowed alongside CNAME.)"⟩],
        [⟨"subname", .validation, "Subname can only use (lowercase) a-z, 0-9, ., -, and _, "
          ++ "may start with a '*.', or just be '*'. Components may not exceed 63 characters."⟩]]
      ∧ Example.received.namesakes 4 = [1, 2] ∧ errors.single = false := by
  rcases (make_follows_table Example.adding Example.hosted Example.isSubmitted_received).1 with
    ⟨plan, -, -, hnone⟩ | ⟨errors, hmake, hitems, -, -, -, hsingle⟩
  · exact absurd (hnone 0 (by decide +kernel)) (by decide +kernel)
  · refine ⟨errors, hmake, hitems.trans ?_, ?_, ?_⟩
    · decide +kernel
    · decide +kernel
    · rw [Bool.eq_false_iff]
      intro h
      cases hsingle.1 h

end ZoneKeeper
