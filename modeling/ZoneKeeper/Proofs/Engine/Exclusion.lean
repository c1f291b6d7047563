import ZoneKeeper.Proofs.Engine.Attempt

namespace ZoneKeeper

def Exclusive (isThere : String → Prop) : Prop :=
  isThere "CNAME" → ∀ type, isThere type → type = "CNAME"

theorem exclusive_iff {isThere : String → Prop} : Exclusive isThere
    ↔ ∀ a b, isThere a → isThere b → Review.excludes a b = false := by
  constructor
  · intro h a b ha hb
    by_cases hcname : isThere "CNAME"
    · rw [h hcname a ha, h hcname b hb]
      rfl
    · have hne {type : String} (ht : isThere type) : type ≠ "CNAME" := fun heq =>
        hcname (heq ▸ ht)
      simp [Review.excludes, hne ha, hne hb]
  · intro h hcname type htype
    simpa [Review.excludes] using h "CNAME" type hcname htype

theorem Exclusive.mono {isThere isThere' : String → Prop} (h : Exclusive isThere)
    (hsub : ∀ type, isThere' type → isThere type) : Exclusive isThere' :=
  fun hcname type htype => h (hsub _ hcname) type (hsub type htype)

namespace Zone

def HasSet (zone : Zone) (key : Key) : Prop := (zone.rrsets.get? key).isSome = true

def IsExclusiveAt (zone : Zone) (subname : String) : Prop :=
  Exclusive fun type => zone.HasSet ⟨subname, type⟩

def IsExclusive (zone : Zone) : Prop := ∀ subname, zone.IsExclusiveAt subname

theorem hasSet_after {zone : Zone} {done : List DoneStep} {key : Key}
    (h : (zone.after done).HasSet key) :
    (∃ d ∈ done, d.item.key = key ∧ d.left.isSome = true)
      ∨ (zone.HasSet key ∧ ∀ d ∈ done, d.item.key ≠ key) := by
  induction done with
  | nil => exact Or.inr ⟨h, by rintro _ ⟨⟩⟩
  | cons d rest ih =>
      rw [HasSet, after, get?_put] at h
      split at h
      · next hkey => exact Or.inl ⟨d, List.mem_cons_self, hkey.symm, h⟩
      · next hne =>
          rcases ih h with ⟨e, he, hkey, hleft⟩ | ⟨hstored, hnone⟩
          · exact Or.inl ⟨e, List.mem_cons_of_mem _ he, hkey, hleft⟩
          · refine Or.inr ⟨hstored, fun e he => ?_⟩
            rcases List.mem_cons.1 he with rfl | he
            · exact Ne.symm hne
            · exact hnone e he

end Zone

namespace Action

variable {stored : Option Rrset} {ttl : Option Nat} {records : Option (SortedSet String)}

theorem isSome_of_keep (h : of? stored ttl records = some .keep) : stored.isSome = true := by
  simp only [of?] at h
  split at h
  · split at h <;> simp at h
  · split at h
    · cases h
    · split at h
      · next hsame =>
          cases stored with
          | none => simp at hsame
          | some r => rfl
      · simp at h

theorem eq_none_of_nothing (h : of? stored ttl records = some .nothing) : stored = none := by
  simp only [of?] at h
  split at h
  · split at h
    · simp at h
    · next hnone => simpa using hnone
  · split at h
    · cases h
    · split at h <;> simp at h

def left (now : Instant) (key : Key) (stored : Option Rrset) : Action → Option Rrset
  | .write ttl records => Zones.leftBy key ttl records now stored
  | .delete => none
  | _ => stored

theorem isSome_left (h : of? stored ttl records = some action) (now : Instant) (key : Key) :
    (action.left now key stored).isSome = action.leaves := by
  cases action with
  | write t rs =>
      rw [left, Zones.leftBy, (of_write h).1]
      rfl
  | delete => rfl
  | keep => exact isSome_of_keep h
  | nothing =>
      rw [eq_none_of_nothing h]
      rfl

end Action

theorem DoneStep.IsFor.leaves_of_isSome {d : DoneStep} {zone : Zone} (h : d.IsFor zone)
    (hleft : d.left.isSome = true) : d.item.action.leaves = true := by
  obtain ⟨now, hd⟩ := h.left
  rw [hd, Zones.leftBy, PlannedItem.records] at hleft
  cases haction : d.item.action with
  | write | keep => rfl
  | delete | nothing =>
      rw [haction] at hleft
      cases hleft

theorem DoneStep.IsFor.isDelete_of_isSome {d : DoneStep} {zone : Zone} (h : d.IsFor zone)
    (hleft : d.left.isSome = true) : d.item.action.isDelete = false := by
  have hleaves := h.leaves_of_isSome hleft
  cases haction : d.item.action with
  | delete =>
      rw [haction] at hleaves
      cases hleaves
  | write | keep | nothing => rfl

namespace Review

variable {ctx : ReviewContext} {snapshot : Snapshot} {items : List (Except ItemErrors BatchItem)}
  {reviews : List Review}

def Stays (reviews : List Review) (isStored : Key → Prop) (key : Key) : Prop :=
  (∃ review ∈ reviews, review.key? = some key ∧ review.vanishes = false)
    ∨ (isStored key ∧ ∀ review ∈ reviews, review.key? = some key → review.vanishes = false)

theorem rivals_eq_nil_iff {key : Key} : rivals reviews key = [] ↔ ∀ type,
    excludes type key.type = true → ∀ review ∈ reviews,
      review.key? = some ⟨key.subname, type⟩ → review.vanishes = true := by
  simp only [rivals, List.filterMap_eq_nil_iff]
  constructor
  · intro h type hexcludes review hmem hkey
    obtain ⟨i, hi⟩ := List.mem_iff_getElem?.1 hmem
    have hnone := h (review, i) (List.mem_zipIdx_iff_getElem?.2 hi)
    simpa [hkey, hexcludes] using hnone
  · rintro h ⟨review, i⟩ hmem
    have hreview := List.mem_of_getElem? (List.mem_zipIdx_iff_getElem?.1 hmem)
    dsimp only
    split
    · next other hkey =>
        rw [if_neg]
        intro hrival
        simp only [Bool.and_eq_true, beq_iff_eq, Bool.not_eq_true'] at hrival
        obtain ⟨⟨hsubname, hexcludes⟩, hstays⟩ := hrival
        have hvanishes := h other.type hexcludes review hreview (hsubname ▸ hkey)
        exact absurd (hstays.symm.trans hvanishes) Bool.false_ne_true
    · rfl

theorem mem_typesAt {subname type : String} :
    type ∈ snapshot.typesAt subname ↔ (snapshot.get? ⟨subname, type⟩).isSome = true := by
  rw [Option.isSome_iff_exists]
  simp only [SortedMap.get?_eq_some_iff, Snapshot.typesAt, SortedMap.keys, List.mem_map,
    List.mem_filter, beq_iff_eq]
  constructor
  · rintro ⟨_, ⟨⟨⟨⟨_, _⟩, r⟩, hmem, rfl⟩, rfl⟩, rfl⟩
    exact ⟨r, hmem⟩
  · rintro ⟨r, hmem⟩
    exact ⟨⟨subname, type⟩, ⟨⟨_, hmem, rfl⟩, rfl⟩, rfl⟩

theorem storedRivals_eq_nil_iff {key : Key} : storedRivals reviews snapshot key = [] ↔ ∀ type,
    excludes type key.type = true → (snapshot.get? ⟨key.subname, type⟩).isSome = true →
      ∃ review ∈ reviews, review.key? = some ⟨key.subname, type⟩ ∧ review.vanishes = true := by
  simp only [storedRivals, List.filter_eq_nil_iff, mem_typesAt, Bool.and_eq_true,
    Bool.not_eq_true', List.any_eq_false, beq_iff_eq]
  constructor
  · intro h type hexcludes hstored
    have hsome := h type hstored
    push Not at hsome
    obtain ⟨review, hmem, hvanishes, hkey⟩ := hsome hexcludes
    exact ⟨review, hmem, hkey, hvanishes⟩
  · rintro h type hstored ⟨hexcludes, hnone⟩
    obtain ⟨review, hmem, hkey, hvanishes⟩ := h type hexcludes hstored
    exact hnone review hmem ⟨hvanishes, hkey⟩

theorem rivalProblem?_eq_none_iff {key : Key} :
    rivalProblem? (rivals reviews key) (storedRivals reviews snapshot key) = none
      ↔ ∀ type, excludes type key.type = true →
          ¬ Stays reviews (fun k => (snapshot.get? k).isSome = true) ⟨key.subname, type⟩ := by
  have hnil : rivalProblem? (rivals reviews key) (storedRivals reviews snapshot key) = none
      ↔ rivals reviews key = [] ∧ storedRivals reviews snapshot key = [] := by
    unfold rivalProblem?
    cases rivals reviews key <;> cases storedRivals reviews snapshot key <;> simp
  rw [hnil, rivals_eq_nil_iff, storedRivals_eq_nil_iff]
  constructor
  · rintro ⟨hrivals, hstoredRivals⟩ type hexcludes (⟨review, hmem, hkey, hstays⟩ | ⟨hstored, hall⟩)
    · have := hrivals type hexcludes review hmem hkey
      exact absurd (hstays.symm.trans this) Bool.false_ne_true
    · obtain ⟨review, hmem, hkey, hvanishes⟩ := hstoredRivals type hexcludes hstored
      exact absurd ((hall review hmem hkey).symm.trans hvanishes) Bool.false_ne_true
  · intro h
    refine ⟨fun type hexcludes review hmem hkey => ?_, fun type hexcludes hstored => ?_⟩
    · by_contra hstays
      exact h type hexcludes (Or.inl ⟨review, hmem, hkey, by simpa using hstays⟩)
    · by_contra hnone
      refine h type hexcludes (Or.inr ⟨hstored, fun review hmem hkey => ?_⟩)
      by_contra hvanishes
      exact hnone ⟨review, hmem, hkey, by simpa using hvanishes⟩

theorem excludes_comm (a b : String) : excludes a b = excludes b a := by
  simp only [excludes]
  cases a == "CNAME" <;> cases b == "CNAME" <;> rfl

def applyTo (now : Instant) (zone : Zone) : Review → Zone
  | .ready key _ action => zone.put key (action.left now key (zone.rrsets.get? key))
  | _ => zone

end Review

def Zone.applying (now : Instant) (zone : Zone) : List Review → Zone
  | [] => zone
  | review :: rest => (review.applyTo now zone).applying now rest

namespace Review

variable {ctx : ReviewContext} {batch : Batch} {snapshot : Snapshot} {zone : Zone} {now : Instant}

def Agrees (batch : Batch) (snapshot : Snapshot) (zone : Zone) : Prop :=
  ∀ key : Key, key.subname ∈ batch.touchedSubnames → snapshot.get? key = zone.rrsets.get? key

theorem agrees_of_isKeyed (h : zone.IsKeyed) (batch : Batch) :
    Agrees batch (.ofRrsets (zone.listAt batch.touchedSubnames)) zone :=
  fun _ hkey => Zone.get?_snapshot h hkey

section Staged

variable (hpass : ∀ review ∈ staged ctx snapshot batch.items, review.errors = [])
include hpass

theorem exists_passes {i : Nat} {review : Review} {key : Key}
    (hi : (staged ctx snapshot batch.items)[i]? = some review) (hkey : review.key? = some key) :
    ∃ item action, batch.items[i]? = some (.ok item) ∧ review = .ready key item.isClearing action
      ∧ item.Passes ctx snapshot batch.items i key action := by
  have hnone := hpass review (List.mem_of_getElem? hi)
  have hplace := getElem?_staged ctx snapshot batch.items i
  rw [hi] at hplace
  obtain ⟨shaped, hitem, -⟩ := Option.map_eq_some_iff.1 hplace.symm
  cases shaped with
  | error problems =>
      obtain ⟨rfl, -⟩ := eq_own_of_staged hitem hi hnone
      cases hkey
  | ok item =>
      obtain ⟨k, action, rfl, hpasses⟩ := passes_of_staged hitem hi hnone
      obtain rfl := Option.some.inj hkey
      exact ⟨item, action, hitem, rfl, hpasses⟩

theorem index_unique {i j : Nat} {review other : Review} {key : Key}
    (hi : (staged ctx snapshot batch.items)[i]? = some review)
    (hj : (staged ctx snapshot batch.items)[j]? = some other)
    (hkey : review.key? = some key) (hkey' : other.key? = some key) : i = j := by
  obtain ⟨item, _, hitem, -, hpasses⟩ := exists_passes hpass hi hkey
  obtain ⟨item', _, hitem', -, hpasses'⟩ := exists_passes hpass hj hkey'
  by_contra hne
  have hnamed := BatchItem.named_of_key hpasses.hasKey
  have halone := hpasses.isAlone
  simp only [sharers, hnamed, List.map_eq_nil_iff, List.filter_eq_nil_iff] at halone
  apply halone (.ok item', j) (List.mem_zipIdx_iff_getElem?.2 hitem')
  simp [BatchItem.named_of_key hpasses'.hasKey, Ne.symm hne]

theorem eq_of_key {review other : Review} {key : Key}
    (hmem : review ∈ staged ctx snapshot batch.items)
    (hmem' : other ∈ staged ctx snapshot batch.items) (hkey : review.key? = some key)
    (hkey' : other.key? = some key) : other = review := by
  obtain ⟨i, hi⟩ := List.mem_iff_getElem?.1 hmem
  obtain ⟨j, hj⟩ := List.mem_iff_getElem?.1 hmem'
  obtain rfl := index_unique hpass hi hj hkey hkey'
  exact Option.some.inj (hj.symm.trans hi)

theorem touched_of_key {review : Review} {key : Key}
    (hmem : review ∈ staged ctx snapshot batch.items) (hkey : review.key? = some key) :
    key.subname ∈ batch.touchedSubnames := by
  obtain ⟨i, hi⟩ := List.mem_iff_getElem?.1 hmem
  obtain ⟨item, _, hitem, -, hpasses⟩ := exists_passes hpass hi hkey
  rw [Batch.touchedSubnames, SortedSet.mem_toList_ofList, List.mem_filterMap,
    BatchItem.subname_of_key hpasses.hasKey]
  exact ⟨_, List.mem_of_getElem? hitem, rfl⟩

theorem isSome_left_of_ready {key : Key} {clearing : Bool} {action : Action}
    (hmem : .ready key clearing action ∈ staged ctx snapshot batch.items) (now : Instant) :
    (action.left now key (snapshot.get? key)).isSome = action.leaves := by
  obtain ⟨i, hi⟩ := List.mem_iff_getElem?.1 hmem
  obtain ⟨item, _, -, ⟨⟩, hpasses⟩ := exists_passes hpass hi rfl
  obtain ⟨records, -, haction⟩ := hpasses.hasAction
  exact Action.isSome_left haction now key

end Staged

theorem get?_applying_of_ne {reviews : List Review} {key : Key} (zone : Zone)
    (h : ∀ review ∈ reviews, review.key? ≠ some key) :
    (zone.applying now reviews).rrsets.get? key = zone.rrsets.get? key := by
  induction reviews generalizing zone with
  | nil => rfl
  | cons review rest ih =>
      rw [Zone.applying, ih _ fun r hr => h r (List.mem_cons_of_mem _ hr)]
      cases review with
      | ready k clearing action =>
          have hne : k ≠ key := fun heq => h _ List.mem_cons_self (congrArg some heq)
          rw [applyTo, Zone.get?_put, if_neg (Ne.symm hne)]
      | _ => rfl

theorem get?_applying_of_mem {reviews : List Review} {key : Key} {clearing : Bool}
    {action : Action} (zone : Zone) (hmem : .ready key clearing action ∈ reviews)
    (hdistinct : reviews.Pairwise fun a b => ∀ k, a.key? = some k → b.key? ≠ some k) :
    (zone.applying now reviews).rrsets.get? key
      = action.left now key (zone.rrsets.get? key) := by
  induction reviews generalizing zone with
  | nil => cases hmem
  | cons review rest ih =>
      obtain ⟨hhead, hrest⟩ := List.pairwise_cons.1 hdistinct
      rcases List.mem_cons.1 hmem with rfl | hlater
      · rw [Zone.applying, get?_applying_of_ne _ fun r hr => hhead r hr key rfl, applyTo,
          Zone.get?_put, if_pos rfl]
      · rw [Zone.applying, ih _ hlater hrest]
        cases review with
        | ready k c a =>
            have hne : k ≠ key := fun heq => hhead _ hlater k rfl (congrArg some heq.symm)
            rw [applyTo, Zone.get?_put, if_neg (Ne.symm hne)]
        | _ => rfl

theorem pairwise_staged (hpass : ∀ review ∈ staged ctx snapshot batch.items, review.errors = []) :
    (staged ctx snapshot batch.items).Pairwise
      fun a b => ∀ k, a.key? = some k → b.key? ≠ some k := by
  rw [List.pairwise_iff_getElem]
  intro i j hi hj hlt k hkey hkey'
  have := index_unique hpass (List.getElem?_eq_getElem hi) (List.getElem?_eq_getElem hj) hkey hkey'
  omega

theorem hasSet_applying_iff
    (hpass : ∀ review ∈ staged ctx snapshot batch.items, review.errors = [])
    (hagrees : Agrees batch snapshot zone) {key : Key} :
    (zone.applying now (staged ctx snapshot batch.items)).HasSet key
      ↔ Stays (staged ctx snapshot batch.items) zone.HasSet key := by
  by_cases htouched : ∃ review ∈ staged ctx snapshot batch.items, review.key? = some key
  · obtain ⟨review, hmem, hkey⟩ := htouched
    obtain ⟨i, hi⟩ := List.mem_iff_getElem?.1 hmem
    obtain ⟨item, action, -, rfl, -⟩ := exists_passes hpass hi hkey
    have hleaves : (zone.applying now (staged ctx snapshot batch.items)).HasSet key
        ↔ action.leaves = true := by
      rw [Zone.HasSet, get?_applying_of_mem zone hmem (pairwise_staged hpass),
        ← hagrees key (touched_of_key hpass hmem rfl), isSome_left_of_ready hpass hmem]
    rw [hleaves]
    constructor
    · intro h
      refine Or.inl ⟨_, hmem, rfl, ?_⟩
      rw [vanishes, h]
      rfl
    · rintro (⟨other, hother, hkey', hstays⟩ | ⟨-, hall⟩)
      · obtain rfl := eq_of_key hpass hmem hother rfl hkey'
        simpa [vanishes] using hstays
      · simpa [vanishes] using hall _ hmem rfl
  · have hnone : ∀ review ∈ staged ctx snapshot batch.items, review.key? ≠ some key :=
      fun review hmem hkey => htouched ⟨review, hmem, hkey⟩
    rw [Zone.HasSet, get?_applying_of_ne zone hnone]
    constructor
    · exact fun h => Or.inr ⟨h, fun review hmem hkey => absurd hkey (hnone review hmem)⟩
    · rintro (⟨review, hmem, hkey, -⟩ | ⟨h, -⟩)
      · exact absurd hkey (hnone review hmem)
      · exact h

theorem stays_congr {reviews : List Review} {isStored isStored' : Key → Prop} {key : Key}
    (h : isStored key ↔ isStored' key) :
    Stays reviews isStored key ↔ Stays reviews isStored' key := by
  rw [Stays, Stays, h]

section Accepted

variable (hpass : ∀ review ∈ staged ctx snapshot batch.items, review.errors = [])
  (hagrees : Agrees batch snapshot zone)
include hpass hagrees

theorem rivalFree_iff {key : Key} {clearing : Bool} {action : Action}
    (hmem : .ready key clearing action ∈ staged ctx snapshot batch.items)
    (hleaves : action.leaves = true) :
    (afterExclusion (staged ctx snapshot batch.items) snapshot
        (.ready key clearing action)).errors = []
      ↔ ∀ type, excludes type key.type = true →
          ¬ Stays (staged ctx snapshot batch.items) zone.HasSet ⟨key.subname, type⟩ := by
  have hstored (type : String) : Stays (staged ctx snapshot batch.items)
        (fun k => (snapshot.get? k).isSome = true) ⟨key.subname, type⟩
      ↔ Stays (staged ctx snapshot batch.items) zone.HasSet ⟨key.subname, type⟩ := by
    refine stays_congr ?_
    have htouched : key.subname ∈ batch.touchedSubnames := touched_of_key hpass hmem rfl
    rw [Zone.HasSet, hagrees ⟨key.subname, type⟩ htouched]
  simp only [← hstored, ← rivalProblem?_eq_none_iff, afterExclusion, if_pos hleaves]
  cases rivalProblem? (rivals (staged ctx snapshot batch.items) key)
    (storedRivals (staged ctx snapshot batch.items) snapshot key) <;> simp [errors]

theorem exclusive_stays
    (haccepted : ∀ review ∈ ofItems ctx snapshot batch.items, review.errors = [])
    {subname : String} (hzone : zone.IsExclusiveAt subname) : Exclusive fun type =>
      Stays (staged ctx snapshot batch.items) zone.HasSet ⟨subname, type⟩ := by
  have hleft {a b : String} {review : Review} (hmem : review ∈ staged ctx snapshot batch.items)
      (hkey : review.key? = some ⟨subname, a⟩) (hstays : review.vanishes = false)
      (hb : Stays (staged ctx snapshot batch.items) zone.HasSet ⟨subname, b⟩) :
      excludes b a = false := by
    obtain ⟨i, hi⟩ := List.mem_iff_getElem?.1 hmem
    obtain ⟨item, action, -, rfl, -⟩ := exists_passes hpass hi hkey
    have hlast := haccepted _ (List.mem_map_of_mem hmem)
    have hnone := (rivalFree_iff hpass hagrees hmem (by simpa [vanishes] using hstays)).1 hlast b
    exact Bool.eq_false_iff.2 fun hexcludes => hnone hexcludes hb
  rw [exclusive_iff]
  rintro a b ha hb
  rcases ha with ⟨review, hmem, hkey, hstays⟩ | ⟨hstored, hall⟩
  · rw [excludes_comm]
    exact hleft hmem hkey hstays hb
  · rcases hb with ⟨review, hmem, hkey, hstays⟩ | ⟨hstored', -⟩
    · exact hleft hmem hkey hstays (Or.inr ⟨hstored, hall⟩)
    · exact exclusive_iff.1 hzone a b hstored hstored'

theorem accepted_of_exclusive (h : ∀ subname, Exclusive fun type =>
      Stays (staged ctx snapshot batch.items) zone.HasSet ⟨subname, type⟩) :
    ∀ review ∈ ofItems ctx snapshot batch.items, review.errors = [] := by
  intro last hlast
  rw [ofItems_eq] at hlast
  obtain ⟨review, hmem, rfl⟩ := List.mem_map.1 hlast
  cases review with
  | unaddressed | refused => exact hpass _ hmem
  | ready key clearing action =>
      by_cases hleaves : action.leaves = true
      · rw [rivalFree_iff hpass hagrees hmem hleaves]
        intro type hexcludes hstays
        have hown : Stays (staged ctx snapshot batch.items) zone.HasSet ⟨key.subname, key.type⟩ :=
          Or.inl ⟨_, hmem, rfl, by rw [vanishes, hleaves]; rfl⟩
        have hboth := exclusive_iff.1 (h key.subname) type key.type hstays hown
        exact absurd (hboth.symm.trans hexcludes) Bool.false_ne_true
      · rw [afterExclusion, if_neg hleaves]
        rfl

end Accepted

end Review

namespace Plan

variable {ctx : ReviewContext} {batch : Batch} {snapshot : Snapshot} {plan : Plan} {zone : Zone}
  {now : Instant}

theorem exists_make_iff : (∃ plan, make ctx batch snapshot = .ok plan)
    ↔ ∀ review ∈ Review.ofItems ctx snapshot batch.items, review.errors = [] := by
  constructor
  · rintro ⟨plan, h⟩
    exact (items_of_make h).2
  · intro h
    refine ⟨_, if_pos (List.all_eq_true.2 ?_)⟩
    intro errors herrors
    obtain ⟨review, hmem, rfl⟩ := List.mem_map.1 herrors
    rw [h review hmem]
    rfl

theorem staged_pass (h : make ctx batch snapshot = .ok plan) :
    ∀ review ∈ Review.staged ctx snapshot batch.items, review.errors = [] :=
  ofItems_eq_staged h ▸ (items_of_make h).2

theorem stays_of_left (h : make ctx batch snapshot = .ok plan) {d : DoneStep}
    (hitem : d.item ∈ plan.items) (hfor : d.IsFor zone) (hleft : d.left.isSome = true) :
    Review.Stays (Review.staged ctx snapshot batch.items) zone.HasSet d.item.key := by
  obtain ⟨⟨clearing, hstaged⟩, -⟩ := staged_of_mem h hitem
  refine Or.inl ⟨_, List.mem_of_getElem? hstaged, rfl, ?_⟩
  rw [Review.vanishes, hfor.leaves_of_isSome hleft]
  rfl

theorem removed_of_not_stays (h : make ctx batch snapshot = .ok plan)
    (hagrees : Review.Agrees batch snapshot zone) {key : Key} (hkey : zone.HasSet key)
    (hgone : ¬ Review.Stays (Review.staged ctx snapshot batch.items) zone.HasSet key) :
    ∃ item ∈ plan.items, item.key = key ∧ item.action.isDelete = true := by
  by_contra hnone
  refine hgone (Or.inr ⟨hkey, fun review hmem hreview => ?_⟩)
  obtain ⟨i, hi⟩ := List.mem_iff_getElem?.1 hmem
  obtain ⟨item, action, -, rfl, hpasses⟩ := Review.exists_passes (staged_pass h) hi hreview
  cases action with
  | write | keep => rfl
  | delete => exact absurd ⟨_, mem_of_staged h hi, rfl, rfl⟩ hnone
  | nothing =>
      obtain ⟨records, -, haction⟩ := hpasses.hasAction
      rw [Zone.HasSet, ← hagrees key (Review.touched_of_key (staged_pass h) hmem rfl),
        Action.eq_none_of_nothing haction] at hkey
      cases hkey

theorem stays_of_after (h : make ctx batch snapshot = .ok plan)
    (hagrees : Review.Agrees batch snapshot zone) {done : List DoneStep}
    (hdone : ∀ d ∈ done, d.item ∈ plan.items ∧ d.IsFor zone)
    (hremoved : ∀ item ∈ plan.items, item.action.isDelete = true → ∃ d ∈ done, d.item = item)
    {key : Key} (hkey : (zone.after done).HasSet key) :
    Review.Stays (Review.staged ctx snapshot batch.items) zone.HasSet key := by
  rcases Zone.hasSet_after hkey with ⟨d, hd, rfl, hleft⟩ | ⟨hstored, hnone⟩
  · exact stays_of_left h (hdone d hd).1 (hdone d hd).2 hleft
  · by_contra hgone
    obtain ⟨item, hitem, rfl, hdelete⟩ := removed_of_not_stays h hagrees hstored hgone
    obtain ⟨d, hd, rfl⟩ := hremoved item hitem hdelete
    exact hnone d hd rfl

theorem hasSet_of_after_removals {done : List DoneStep}
    (hdone : ∀ d ∈ done, d.item.action.isDelete = true ∧ d.IsFor zone) {key : Key}
    (hkey : (zone.after done).HasSet key) : zone.HasSet key := by
  rcases Zone.hasSet_after hkey with ⟨d, hd, rfl, hleft⟩ | ⟨hstored, -⟩
  · obtain ⟨hdelete, hfor⟩ := hdone d hd
    exact absurd ((hfor.isDelete_of_isSome hleft).symm.trans hdelete) Bool.false_ne_true
  · exact hstored

end Plan

/-- A batch whose items pass all other stages is accepted just when no set would stand next to a
CNAME with all of them applied; and then none does so after any of the first steps. -/
theorem exclusion_is_exact {ctx : ReviewContext} {batch : Batch} {snapshot : Snapshot}
    {zone : Zone} (now : Instant) (hzone : zone.IsExclusive)
    (hagrees : Review.Agrees batch snapshot zone)
    (hpass : ∀ review ∈ Review.staged ctx snapshot batch.items, review.errors = []) :
    ((∃ plan, Plan.make ctx batch snapshot = .ok plan)
        ↔ (zone.applying now (Review.staged ctx snapshot batch.items)).IsExclusive)
      ∧ ∀ plan, Plan.make ctx batch snapshot = .ok plan → ∀ done : List DoneStep,
          done.map (·.item) <+: plan.steps → (∀ d ∈ done, d.IsFor zone) →
            (zone.after done.reverse).IsExclusive := by
  have happlied (subname : String) :
      (zone.applying now (Review.staged ctx snapshot batch.items)).IsExclusiveAt subname
        ↔ Exclusive fun type => Review.Stays (Review.staged ctx snapshot batch.items) zone.HasSet
            ⟨subname, type⟩ := by
    simp only [Zone.IsExclusiveAt, Review.hasSet_applying_iff hpass hagrees]
  constructor
  · rw [Plan.exists_make_iff]
    constructor
    · intro haccepted subname
      exact (happlied subname).2 (Review.exclusive_stays hpass hagrees haccepted (hzone subname))
    · intro hexclusive
      exact Review.accepted_of_exclusive hpass hagrees fun subname =>
        (happlied subname).1 (hexclusive subname)
  · intro plan hplan done hsteps hfor subname
    have hitems : ∀ d ∈ done, d.item ∈ plan.items := fun d hd =>
      (Plan.mem_steps (hsteps.subset (List.mem_map_of_mem hd))).1
    rcases List.prefix_or_prefix_of_prefix hsteps (List.prefix_append _ _) with hfew | hall
    · -- nothing has been written yet
      refine (hzone subname).mono fun type htype => Plan.hasSet_of_after_removals ?_ htype
      intro d hd
      have hd := List.mem_reverse.1 hd
      exact ⟨(List.mem_filter.1 (hfew.subset (List.mem_map_of_mem hd))).2, hfor d hd⟩
    · -- nothing is left to be removed, so what is there now is there in the end
      refine (Review.exclusive_stays hpass hagrees (Plan.items_of_make hplan).2
        (hzone subname)).mono fun type htype => Plan.stays_of_after hplan hagrees ?_ ?_ htype
      · intro d hd
        have hd := List.mem_reverse.1 hd
        exact ⟨hitems d hd, hfor d hd⟩
      · intro item hitem hdelete
        obtain ⟨d, hd, hsame⟩ := List.mem_map.1 (hall.subset (List.mem_filter.2 ⟨hitem, hdelete⟩))
        exact ⟨d, List.mem_reverse.2 hd, hsame⟩

namespace Example

def address : Rrset := ⟨"www", "A", 3600, .ofList ["192.0.2.1"], ⟨0, 0⟩, ⟨0, 0⟩⟩

def addressed : Zone :=
  Zone.put ⟨⟨"example.com", "alice", 60, ⟨0, 0⟩, none⟩, SortedMap.empty⟩ address.key (some address)

def replacing : ReviewContext := ⟨"example.com", .replace, 60, 86400⟩

def swap : Batch := .ofItems [.clearing "www" "A",
  ⟨some "www", some "CNAME", some 3600, some ["mail.example.com."]⟩]

theorem isExclusive_addressed : addressed.IsExclusive := by
  intro subname hcname
  simp [addressed, Zone.HasSet, Zone.get?_put, address, Rrset.key] at hcname

end Example

theorem alias_takes_place_of_address : ∃ plan,
    Plan.make Example.replacing Example.swap Example.addressed.rrsets = .ok plan
      ∧ plan.steps.length = 2
      ∧ ∀ done : List DoneStep, done.map (·.item) <+: plan.steps →
          (∀ d ∈ done, d.IsFor Example.addressed) →
            (Example.addressed.after done.reverse).IsExclusive := by
  have hmade : ((Plan.make Example.replacing Example.swap Example.addressed.rrsets).toOption.any
      fun plan => plan.steps.length == 2) = true := by
    decide +kernel
  have hpass : (Review.staged Example.replacing Example.addressed.rrsets Example.swap.items).all
      (·.errors.isEmpty) = true := by
    decide +kernel
  obtain ⟨plan, hplan, hlength⟩ := (Option.any_eq_true _ _).1 hmade
  have hplan : Plan.make Example.replacing Example.swap Example.addressed.rrsets = .ok plan := by
    cases hresult : Plan.make Example.replacing Example.swap Example.addressed.rrsets with
    | error e =>
        rw [hresult] at hplan
        cases hplan
    | ok made =>
        rw [hresult] at hplan
        exact congrArg Except.ok (Option.some.inj hplan)
  refine ⟨plan, hplan, by simpa using hlength, ?_⟩
  refine (exclusion_is_exact ⟨0, 0⟩ Example.isExclusive_addressed (fun _ _ => rfl)
    fun review hmem => ?_).2 plan hplan
  simpa using List.all_eq_true.1 hpass review hmem

end ZoneKeeper
