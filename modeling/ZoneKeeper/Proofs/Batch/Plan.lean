import Mathlib.Data.List.Nodup
import ZoneKeeper.Batch.Plan
import ZoneKeeper.Proofs.Sorted.Map

namespace ZoneKeeper

namespace RecordSet

variable {type subname name : String}

theorem length_readEach (contents : List String) (seen : List CanonicalRecord)
    (h : (readEach type name seen contents).1 = []) :
    (readEach type name seen contents).2.length = seen.length + contents.length := by
  induction contents generalizing seen with
  | nil => simp [readEach]
  | cons content rest ih =>
      simp only [readEach] at h ⊢
      split at h
      · simp at h
      · split at h
        · simp at h
        · next record _ _ hnew =>
            rw [ih (record :: seen) h]
            simp only [List.length_cons]
            omega

theorem flaws_ne_nil {contents : List String} {flaws : List RecordSetFlaw}
    (h : read type subname name contents = .error flaws) : flaws ≠ [] := by
  -- the bound on responses is too large a number to be computed with
  obtain ⟨excess, hexcess⟩ : ∃ f, lengthFlaws name = f := ⟨_, rfl⟩
  rw [read, hexcess] at h
  dsimp only at h
  split at h
  · split at h
    · cases h
    · next hne =>
        obtain rfl := Except.error.inj h
        exact hne
  · next hne =>
      obtain rfl := Except.error.inj h
      exact hne

theorem read_eq_ok_iff_flaws {contents : List String} {canonical : SortedSet String} :
    read type subname name contents = .ok canonical
      ↔ shapeFlaws type subname contents.length = [] ∧ (readEach type name [] contents).1 = []
        ∧ lengthFlaws name canonical.toList = []
        ∧ canonical = .ofList ((readEach type name [] contents).2.map (·.presentation)) := by
  obtain ⟨excess, hexcess⟩ : ∃ f, lengthFlaws name = f := ⟨_, rfl⟩
  rw [read, hexcess]
  dsimp only
  constructor
  · intro h
    split at h
    · next hflaws =>
        split at h
        · next hfits =>
            obtain ⟨hshape, heach⟩ := List.append_eq_nil_iff.1 hflaws
            obtain rfl := Except.ok.inj h
            exact ⟨hshape, heach, hfits, rfl⟩
        · cases h
    · cases h
  · rintro ⟨hshape, heach, hfits, rfl⟩
    rw [hshape, heach, hfits]
    rfl

theorem of_read {contents : List String} {canonical : SortedSet String}
    (h : read type subname name contents = .ok canonical) :
    shapeFlaws type subname contents.length = [] ∧ (readEach type name [] contents).1 = []
      ∧ canonical = .ofList ((readEach type name [] contents).2.map (·.presentation)) := by
  obtain ⟨hshape, heach, -, hcanonical⟩ := read_eq_ok_iff_flaws.1 h
  exact ⟨hshape, heach, hcanonical⟩

theorem isEmpty_of_read {contents : List String} {canonical : SortedSet String}
    (h : read type subname name contents = .ok canonical) (hne : contents ≠ []) :
    canonical.isEmpty = false := by
  obtain ⟨-, heach, rfl⟩ := of_read h
  have hlength := length_readEach contents [] heach
  have hpos := List.length_pos_iff.2 hne
  rw [← Bool.not_eq_true, SortedSet.isEmpty_ofList, List.map_eq_nil_iff,
    ← List.length_eq_zero_iff, hlength, List.length_nil]
  omega

end RecordSet

namespace BatchItem

variable {ctx : ReviewContext} {item : BatchItem} {key : Key}

theorem named_of_key (h : item.key? ctx.domain = some key) :
    Review.named? (.ok item) = some key := by
  unfold key? at h
  split at h
  · next type _ _ =>
      simp only [Review.named?]
      simp_all
  · cases h

theorem subname_of_key (h : item.key? ctx.domain = some key) : key.subname = item.owner := by
  unfold key? at h
  split at h
  · obtain rfl := Option.some.inj h
    rfl
  · cases h

theorem problems_of_no_key (h : item.key? ctx.domain = none) (problems : ItemErrors) :
    item.typeProblems ++ item.subnameProblems ctx.domain ++ problems ≠ [] := by
  intro hnil
  obtain ⟨htype, hsubname⟩ := List.append_eq_nil_iff.1 (List.append_eq_nil_iff.1 hnil).1
  unfold key? at h
  cases ht : item.type with
  | none => simp [typeProblems, ht] at htype
  | some type => simp [ht, htype, hsubname] at h

theorem records_error_ne_nil {rules : FieldRules} {key? : Option Key} {errors : ItemErrors}
    (h : item.canonicalRecords ctx.domain rules key? = .error errors) : errors ≠ [] := by
  unfold canonicalRecords at h
  split at h
  · split at h
    · obtain rfl := Except.error.inj h
      simp
    · cases h
  · split at h
    · obtain rfl := Except.error.inj h
      simp
    · split at h
      · cases h
      · split at h
        · cases h
        · next hflaws =>
            obtain rfl := Except.error.inj h
            simpa using RecordSet.flaws_ne_nil hflaws

end BatchItem

namespace Action

variable {stored : Option Rrset} {ttl : Option Nat} {records : Option (SortedSet String)}

theorem of_write {t : Nat} {rs : SortedSet String}
    (h : of? stored ttl records = some (.write t rs)) :
    rs.isEmpty = false ∧ ∀ r ∈ stored, ¬ (r.ttl = t ∧ r.records = rs) := by
  simp only [of?] at h
  split at h
  · split at h <;> simp at h
  · next hne =>
      split at h
      · cases h
      · split at h
        · cases h
        · next hdiff =>
            obtain ⟨rfl, rfl⟩ : _ = t ∧ _ = rs := by simpa using h
            refine ⟨by simpa using hne, ?_⟩
            rintro r hr ⟨httl, hrecords⟩
            apply hdiff
            rw [Option.any_eq_true]
            exact ⟨r, hr, by rw [httl, hrecords]; simp [SortedMap.beq_iff_eq]⟩

theorem of_delete (h : of? stored ttl records = some .delete) : stored.isSome = true := by
  simp only [of?] at h
  split at h
  · split at h
    · assumption
    · simp at h
  · split at h
    · cases h
    · split at h <;> simp at h

theorem of_none (h : of? none ttl (some rs) = some action) (hne : rs.isEmpty = false) :
    action.isWrite = true := by
  simp only [of?, Option.getD_some, hne] at h
  split at h
  · simp_all
  · split at h
    · cases h
    · simp at h
      rw [← h]
      rfl

end Action

structure BatchItem.Passes (ctx : ReviewContext) (snapshot : Snapshot)
    (items : List (Except ItemErrors BatchItem)) (index : Nat) (item : BatchItem) (key : Key)
    (action : Action) : Prop where
  hasKey : item.key? ctx.domain = some key
  hasAction : ∃ records,
    item.canonicalRecords ctx.domain (ctx.operation.rules (snapshot.get? key).isSome item)
        (some key) = .ok records
      ∧ Action.of? (snapshot.get? key) (item.ttl.map Int.toNat) records = some action
  isAlone : Review.sharers items index (.ok item) = []
  isFresh : ctx.operation = .create → snapshot.get? key = none

namespace Review

variable {ctx : ReviewContext} {snapshot : Snapshot} {items : List (Except ItemErrors BatchItem)}

theorem ofItem_of_errors_nil {item : BatchItem} (h : (ofItem ctx snapshot item).errors = []) :
    ∃ key action, ofItem ctx snapshot item = .ready key item.isClearing action
      ∧ item.key? ctx.domain = some key
      ∧ ∃ records, item.canonicalRecords ctx.domain
            (ctx.operation.rules (snapshot.get? key).isSome item) (some key) = .ok records
          ∧ Action.of? (snapshot.get? key) (item.ttl.map Int.toNat) records = some action := by
  cases hkey : item.key? ctx.domain with
  | none =>
      simp only [ofItem, hkey, errors] at h
      rw [List.append_assoc] at h
      exact absurd h (BatchItem.problems_of_no_key hkey _)
  | some key =>
      simp only [ofItem, hkey, Option.bind_some] at h ⊢
      cases hrecords : item.canonicalRecords ctx.domain
          (ctx.operation.rules (snapshot.get? key).isSome item) (some key) with
      | error problems =>
          have hne := BatchItem.records_error_ne_nil hrecords
          simp [hrecords, errors, hne] at h
      | ok records =>
          simp only [hrecords] at h ⊢
          generalize item.typeProblems ++ _ ++ _ ++ _ = problems at h ⊢
          cases problems with
          | nil =>
              cases haction : Action.of? (snapshot.get? key) (item.ttl.map Int.toNat) records with
              | none => simp [haction, errors] at h
              | some action =>
                  exact ⟨key, action, by simp only [haction], rfl, records, hrecords, haction⟩
          | cons problem rest => simp [errors] at h

theorem afterSharing_of_errors_nil {index : Nat} {item : Except ItemErrors BatchItem}
    {review : Review} (h : (afterSharing items index item review).errors = []) :
    sharers items index item = [] ∧ afterSharing items index item review = review := by
  unfold afterSharing at h ⊢
  split at h
  · next hnone => simp [hnone]
  · cases review <;> simp [refuse, errors] at h

theorem afterExistence_of_errors_nil {operation : Operation} {review : Review}
    (h : (afterExistence operation snapshot review).errors = []) :
    afterExistence operation snapshot review = review
      ∧ ∀ key clearing action, review = .ready key clearing action → operation = .create →
          snapshot.get? key = none := by
  unfold afterExistence at h ⊢
  split at h
  · next key clearing action =>
      split at h
      · simp [errors] at h
      · next hfree =>
          rw [if_neg hfree]
          refine ⟨rfl, ?_⟩
          rintro _ _ _ ⟨⟩ -
          simpa [SortedMap.contains] using hfree
  · next hnot =>
      refine ⟨rfl, ?_⟩
      rintro key clearing action rfl rfl
      exact (hnot key clearing action rfl rfl).elim

theorem afterExclusion_of_errors_nil {reviews : List Review} {review : Review}
    (h : (afterExclusion reviews snapshot review).errors = []) :
    afterExclusion reviews snapshot review = review := by
  unfold afterExclusion at h ⊢
  split at h
  · split at h
    · next hleaves =>
        split at h
        · simp [errors] at h
        · rw [if_pos hleaves]
    · next hleaves => rw [if_neg hleaves]
  · rfl

theorem length_ofItems : (ofItems ctx snapshot items).length = items.length := by
  simp [ofItems]

def staged (ctx : ReviewContext) (snapshot : Snapshot)
    (items : List (Except ItemErrors BatchItem)) : List Review :=
  items.zipIdx.map fun placed => afterExistence ctx.operation snapshot
    (afterSharing items placed.2 placed.1 (own ctx snapshot placed.1))

theorem ofItems_eq (ctx : ReviewContext) (snapshot : Snapshot)
    (items : List (Except ItemErrors BatchItem)) : ofItems ctx snapshot items
      = (staged ctx snapshot items).map (afterExclusion (staged ctx snapshot items) snapshot) := rfl

theorem getElem?_staged (ctx : ReviewContext) (snapshot : Snapshot)
    (items : List (Except ItemErrors BatchItem)) (i : Nat) :
    (staged ctx snapshot items)[i]? = items[i]?.map fun item =>
      afterExistence ctx.operation snapshot
        (afterSharing items i item (own ctx snapshot item)) := by
  simp only [staged, List.getElem?_map, List.getElem?_zipIdx, Option.map_map, Nat.zero_add]
  rfl

theorem staged_of_errors_nil {i : Nat} {review : Review}
    (hreview : (ofItems ctx snapshot items)[i]? = some review) (h : review.errors = []) :
    (staged ctx snapshot items)[i]? = some review := by
  rw [ofItems_eq, List.getElem?_map] at hreview
  obtain ⟨earlier, hearlier, rfl⟩ := Option.map_eq_some_iff.1 hreview
  rw [hearlier, afterExclusion_of_errors_nil h]

theorem eq_own_of_staged {i : Nat} {item : Except ItemErrors BatchItem} {review : Review}
    (hitem : items[i]? = some item) (hreview : (staged ctx snapshot items)[i]? = some review)
    (h : review.errors = []) :
    review = own ctx snapshot item ∧ sharers items i item = []
      ∧ ∀ key clearing action, review = .ready key clearing action → ctx.operation = .create →
          snapshot.get? key = none := by
  have hi := getElem?_staged ctx snapshot items i
  rw [hreview, hitem, Option.map_some, Option.some.injEq] at hi
  rw [hi] at h
  obtain ⟨hexistence, hfresh⟩ := afterExistence_of_errors_nil h
  rw [hexistence] at h hi
  obtain ⟨halone, hsharing⟩ := afterSharing_of_errors_nil h
  rw [hsharing] at hi hfresh
  exact ⟨hi, halone, hi ▸ hfresh⟩

theorem passes_of_staged {i : Nat} {item : BatchItem} {review : Review}
    (hitem : items[i]? = some (.ok item)) (hreview : (staged ctx snapshot items)[i]? = some review)
    (h : review.errors = []) :
    ∃ key action, review = .ready key item.isClearing action
      ∧ item.Passes ctx snapshot items i key action := by
  obtain ⟨rfl, halone, hfresh⟩ := eq_own_of_staged hitem hreview h
  obtain ⟨key, action, hown, hkey, haction⟩ := ofItem_of_errors_nil h
  exact ⟨key, action, hown, hkey, haction, halone, hfresh key _ action hown⟩

end Review

namespace Plan

variable {ctx : ReviewContext} {batch : Batch} {snapshot : Snapshot} {plan : Plan}

theorem items_of_make (h : make ctx batch snapshot = .ok plan) :
    plan.items = (Review.ofItems ctx snapshot batch.items).zipIdx.filterMap (item? snapshot)
      ∧ ∀ review ∈ Review.ofItems ctx snapshot batch.items, review.errors = [] := by
  simp only [make] at h
  split at h
  · next hnone =>
      obtain rfl := Except.ok.inj h
      refine ⟨rfl, fun review hreview => ?_⟩
      simpa using List.all_eq_true.1 hnone _ (List.mem_map_of_mem hreview)
  · cases h

theorem ofItems_eq_staged (h : make ctx batch snapshot = .ok plan) :
    Review.ofItems ctx snapshot batch.items = Review.staged ctx snapshot batch.items := by
  have herrors := (items_of_make h).2
  rw [Review.ofItems_eq] at herrors ⊢
  refine (List.map_congr_left fun review hmem => ?_).trans (List.map_id _)
  exact Review.afterExclusion_of_errors_nil (herrors _ (List.mem_map_of_mem hmem))

theorem ofItems_eq_own (h : make ctx batch snapshot = .ok plan) :
    Review.ofItems ctx snapshot batch.items = batch.items.map (Review.own ctx snapshot) := by
  refine List.ext_getElem (by simp [Review.length_ofItems]) fun i hi hi' => ?_
  have hlt : i < batch.items.length := by simpa using hi'
  have hnone := (items_of_make h).2 _ (List.getElem_mem hi)
  have hstaged := Review.staged_of_errors_nil (List.getElem?_eq_getElem hi) hnone
  rw [List.getElem_map]
  exact (Review.eq_own_of_staged (List.getElem?_eq_getElem hlt) hstaged hnone).1

theorem map_items (h : make ctx batch snapshot = .ok plan) {β : Type} {f : PlannedItem → β}
    {g : Review → Option β} (hg : ∀ review i, (item? snapshot (review, i)).map f = g review) :
    plan.items.map f = (Review.ofItems ctx snapshot batch.items).filterMap g := by
  calc plan.items.map f
      = (Review.ofItems ctx snapshot batch.items).zipIdx.filterMap (g ∘ Prod.fst) := by
        rw [(items_of_make h).1, List.map_filterMap]
        exact List.filterMap_congr fun placed _ => hg placed.1 placed.2
    _ = (Review.ofItems ctx snapshot batch.items).filterMap g := by
        rw [← List.filterMap_map, List.zipIdx_map_fst]

theorem staged_of_mem (h : make ctx batch snapshot = .ok plan) {p : PlannedItem}
    (hp : p ∈ plan.items) :
    (∃ clearing, (Review.staged ctx snapshot batch.items)[p.index]?
        = some (.ready p.key clearing p.action)) ∧ p.previous = snapshot.get? p.key := by
  rw [(items_of_make h).1, ofItems_eq_staged h, List.mem_filterMap] at hp
  obtain ⟨⟨review, i⟩, hmem, hready⟩ := hp
  have hstaged := List.mem_zipIdx_iff_getElem?.1 hmem
  cases review with
  | unaddressed => cases hready
  | refused => cases hready
  | ready key clearing action =>
      obtain rfl := Option.some.inj hready
      exact ⟨⟨clearing, hstaged⟩, rfl⟩

theorem mem_of_staged (h : make ctx batch snapshot = .ok plan) {i : Nat} {key : Key}
    {clearing : Bool} {action : Action}
    (hstaged : (Review.staged ctx snapshot batch.items)[i]? = some (.ready key clearing action)) :
    ⟨i, key, action, snapshot.get? key⟩ ∈ plan.items := by
  rw [(items_of_make h).1, ofItems_eq_staged h, List.mem_filterMap]
  exact ⟨(_, i), List.mem_zipIdx_iff_getElem?.2 hstaged, rfl⟩

theorem exists_item (h : make ctx batch snapshot = .ok plan) {p : PlannedItem}
    (hp : p ∈ plan.items) : ∃ item, batch.items[p.index]? = some (.ok item)
      ∧ item.Passes ctx snapshot batch.items p.index p.key p.action
      ∧ p.previous = snapshot.get? p.key := by
  obtain ⟨⟨clearing, hstaged⟩, hprevious⟩ := staged_of_mem h hp
  have hplace := Review.getElem?_staged ctx snapshot batch.items p.index
  rw [hstaged] at hplace
  obtain ⟨shaped, hitem, -⟩ := Option.map_eq_some_iff.1 hplace.symm
  cases shaped with
  | error problems => cases (Review.eq_own_of_staged hitem hstaged rfl).1
  | ok item =>
      obtain ⟨_, _, ⟨⟩, hpasses⟩ := Review.passes_of_staged hitem hstaged rfl
      exact ⟨item, hitem, hpasses, hprevious⟩

theorem exists_planned (h : make ctx batch snapshot = .ok plan) {i : Nat} {item : BatchItem}
    (hitem : batch.items[i]? = some (.ok item)) :
    ∃ p ∈ plan.items, p.index = i ∧ item.Passes ctx snapshot batch.items i p.key p.action := by
  have hlt : i < (Review.ofItems ctx snapshot batch.items).length := by
    rw [Review.length_ofItems]
    exact (List.getElem?_eq_some_iff.1 hitem).1
  have hnone := (items_of_make h).2 _ (List.getElem_mem hlt)
  have hstaged := Review.staged_of_errors_nil (List.getElem?_eq_getElem hlt) hnone
  obtain ⟨key, action, hready, hpasses⟩ := Review.passes_of_staged hitem hstaged hnone
  exact ⟨_, mem_of_staged h (hready ▸ hstaged), rfl, hpasses⟩

theorem nodup_indices (h : make ctx batch snapshot = .ok plan) :
    (plan.items.map (·.index)).Nodup := by
  have hsame : plan.items.map (·.index)
      = ((Review.ofItems ctx snapshot batch.items).zipIdx.filter
          fun r => (item? snapshot r).isSome).map (·.2) := by
    rw [(items_of_make h).1, List.map_filterMap, ← List.filterMap_eq_map, List.filterMap_filter]
    congr 1
    funext ⟨review, i⟩
    cases review <;> rfl
  rw [hsame]
  apply (List.filter_sublist.map _).nodup
  rw [List.zipIdx_map_snd]
  exact List.nodup_range'

theorem nodup_keys (h : make ctx batch snapshot = .ok plan) : (plan.items.map (·.key)).Nodup := by
  have hindices := nodup_indices h
  rw [List.Nodup, List.pairwise_map] at hindices ⊢
  refine hindices.imp_of_mem ?_
  intro p q hp hq hne heq
  obtain ⟨item, hitem, hpasses, -⟩ := exists_item h hp
  obtain ⟨other, hother, hothers, -⟩ := exists_item h hq
  have hnamed := BatchItem.named_of_key hpasses.hasKey
  have hnamed' := BatchItem.named_of_key hothers.hasKey
  have halone := hpasses.isAlone
  simp only [Review.sharers, hnamed, List.map_eq_nil_iff, List.filter_eq_nil_iff] at halone
  apply halone (.ok other, q.index) (List.mem_zipIdx_iff_getElem?.2 hother)
  simp [hnamed', heq, Ne.symm hne]

theorem previous_eq (h : make ctx batch snapshot = .ok plan) {p : PlannedItem}
    (hp : p ∈ plan.items) : p.previous = snapshot.get? p.key :=
  (exists_item h hp).choose_spec.2.2

theorem mem_touchedSubnames (h : make ctx batch snapshot = .ok plan) {p : PlannedItem}
    (hp : p ∈ plan.items) : p.key.subname ∈ batch.touchedSubnames := by
  obtain ⟨item, hitem, hpasses, -⟩ := exists_item h hp
  rw [Batch.touchedSubnames, SortedSet.mem_toList_ofList, List.mem_filterMap,
    BatchItem.subname_of_key hpasses.hasKey]
  exact ⟨_, List.mem_of_getElem? hitem, rfl⟩

theorem mem_steps {p : PlannedItem} (hp : p ∈ plan.steps) :
    p ∈ plan.items ∧ (p.action = .delete ∨ p.action.isWrite = true) := by
  rcases List.mem_append.1 hp with hp | hp
  · obtain ⟨hmem, hdelete⟩ := List.mem_filter.1 hp
    refine ⟨hmem, Or.inl ?_⟩
    cases haction : p.action <;> simp [haction, Action.isDelete] at hdelete ⊢
  · obtain ⟨hmem, hwrite⟩ := List.mem_filter.1 hp
    exact ⟨hmem, Or.inr hwrite⟩

theorem nodup_step_keys (h : make ctx batch snapshot = .ok plan) :
    (plan.steps.map (·.key)).Nodup := by
  have hkeys := nodup_keys h
  rw [steps, List.map_append, List.nodup_append]
  refine ⟨(List.filter_sublist.map _).nodup hkeys, (List.filter_sublist.map _).nodup hkeys, ?_⟩
  intro a ha b hb hab
  obtain ⟨p, hp, rfl⟩ := List.mem_map.1 ha
  obtain ⟨q, hq, rfl⟩ := List.mem_map.1 hb
  obtain ⟨hp, hdelete⟩ := List.mem_filter.1 hp
  obtain ⟨hq, hwrite⟩ := List.mem_filter.1 hq
  obtain rfl := List.inj_on_of_nodup_map hkeys hp hq hab
  cases haction : p.action <;> simp [haction, Action.isDelete, Action.isWrite] at hdelete hwrite

theorem step_changes (h : make ctx batch snapshot = .ok plan) {p : PlannedItem}
    (hp : p ∈ plan.steps) :
    (∃ ttl records, p.action = .write ttl records ∧ records.isEmpty = false
        ∧ ∀ r ∈ snapshot.get? p.key, ¬ (r.ttl = ttl ∧ r.records = records))
      ∨ (p.action = .delete ∧ (snapshot.get? p.key).isSome = true) := by
  obtain ⟨hitem, hkind⟩ := mem_steps hp
  obtain ⟨item, -, hpasses, -⟩ := exists_item h hitem
  obtain ⟨records, -, haction⟩ := hpasses.hasAction
  cases hp : p.action with
  | write ttl rs => exact Or.inl ⟨ttl, rs, rfl, Action.of_write (hp ▸ haction)⟩
  | delete => exact Or.inr ⟨rfl, Action.of_delete (hp ▸ haction)⟩
  | keep => simp [hp, Action.isWrite] at hkind
  | nothing => simp [hp, Action.isWrite] at hkind

theorem create_writes (h : make ctx batch snapshot = .ok plan) (hcreate : ctx.operation = .create)
    {p : PlannedItem} (hp : p ∈ plan.items) :
    snapshot.get? p.key = none ∧ p.action.isWrite = true := by
  obtain ⟨item, -, hpasses, -⟩ := exists_item h hp
  have hnone := hpasses.isFresh hcreate
  refine ⟨hnone, ?_⟩
  obtain ⟨records, hrecords, haction⟩ := hpasses.hasAction
  rw [hnone] at haction
  simp only [BatchItem.canonicalRecords, hcreate, Operation.rules] at hrecords
  split at hrecords
  · simp at hrecords
  · split at hrecords
    · cases hrecords
    · next hgiven =>
        split at hrecords
        · next canonical hread =>
            obtain rfl := Except.ok.inj hrecords
            refine Action.of_none haction (RecordSet.isEmpty_of_read hread ?_)
            rintro rfl
            simp at hgiven
        · cases hrecords

end Plan

end ZoneKeeper
