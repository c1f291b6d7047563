import ZoneKeeper.Proofs.Batch.Bounds
import ZoneKeeper.Proofs.Engine.Exclusion
import ZoneKeeper.Proofs.Feed.Mirror

namespace ZoneKeeper

namespace Action

variable {stored : Option Rrset} {ttl : Option Nat} {records : Option (SortedSet String)}

def target (stored : Option Content) : Action → Option Content
  | .write ttl records => some (ttl, records)
  | .keep => stored
  | _ => none

def asked? (stored : Option Content) (ttl : Option Nat) (records : Option (SortedSet String)) :
    Option (Option Content) :=
  let records := records.getD ((stored.map (·.2)).getD SortedSet.empty)
  if records.isEmpty then some none
  else (ttl.orElse fun _ => stored.map (·.1)).map fun ttl => some (ttl, records)

theorem map_target (stored : Option Rrset) (ttl : Option Nat)
    (records : Option (SortedSet String)) :
    (of? stored ttl records).map (target (stored.map Rrset.content))
      = asked? (stored.map Rrset.content) ttl records := by
  have hrecords : (stored.map Rrset.content).map (·.2) = stored.map (·.records) := by
    cases stored <;> rfl
  have httl : (stored.map Rrset.content).map (·.1) = stored.map (·.ttl) := by
    cases stored <;> rfl
  simp only [of?, asked?, hrecords, httl]
  generalize records.getD ((stored.map (·.records)).getD SortedSet.empty) = wanted
  split
  · cases stored <;> rfl
  · generalize (ttl.orElse fun _ => stored.map (·.ttl)) = ttl?
    cases ttl? with
    | none => rfl
    | some ttl =>
        dsimp only
        split
        · next hsame =>
            cases stored with
            | none => simp at hsame
            | some r =>
                obtain ⟨rfl, rfl⟩ : r.ttl = ttl ∧ r.records = wanted := by
                  simpa [SortedMap.beq_iff_eq] using hsame
                rfl
        · rfl

theorem asked?_again {stored : Option Content} {left : Option Content}
    (h : asked? stored ttl records = some left) : asked? left ttl records = some left := by
  simp only [asked?] at h
  split at h
  · next hempty =>
      obtain rfl := Option.some.inj h
      simp only [asked?]
      rw [if_pos]
      cases records with
      | some given => simpa using hempty
      | none => rfl
  · next hne =>
      obtain ⟨t, ht, rfl⟩ := Option.map_eq_some_iff.1 h
      simp only [asked?]
      rw [if_neg]
      · cases ttl with
        | some own =>
            obtain rfl := Option.some.inj ht
            cases records <;> rfl
        | none => cases records <;> rfl
      · cases records with
        | some given => simpa using hne
        | none => simpa using hne

theorem isSome_target (h : of? stored ttl records = some action) :
    (action.target (stored.map Rrset.content)).isSome = action.leaves := by
  cases action with
  | write | delete | nothing => rfl
  | keep =>
      rw [target, Option.isSome_map, isSome_of_keep h]
      rfl

end Action

namespace PlannedItem

def target (p : PlannedItem) : Option Content :=
  p.action.target (p.previous.map Rrset.content)

def asked (p : PlannedItem) : Key × Option Content := (p.key, p.target)

end PlannedItem

theorem DoneStep.IsFor.target {d : DoneStep} {zone : Zone} (h : d.IsFor zone)
    (hkind : d.item.action = .delete ∨ d.item.action.isWrite = true)
    (hwrite : ∀ ttl records, d.item.action = .write ttl records → records.isEmpty = false) :
    d.left.map Rrset.content = d.item.target := by
  obtain ⟨now, hleft⟩ := h.left
  rw [hleft, Zones.leftBy, PlannedItem.target, PlannedItem.records, PlannedItem.ttl]
  cases haction : d.item.action with
  | write ttl records =>
      rw [if_neg (by rw [hwrite ttl records haction]; exact Bool.false_ne_true)]
      cases zone.rrsets.get? d.item.key <;> rfl
  | delete => rfl
  | keep | nothing => simp [haction, Action.isWrite] at hkind

namespace BatchItem

variable {ctx : ReviewContext} {item : BatchItem} {key : Key}

theorem problems_of_key (h : item.key? ctx.domain = some key) :
    item.typeProblems = [] ∧ item.subnameProblems ctx.domain = [] := by
  unfold key? at h
  split at h
  · next htype hsubname => exact ⟨htype, hsubname⟩
  · cases h

theorem canonicalRecords_rules (operation : Operation) (before after : Bool) (key : Option Key) :
    item.canonicalRecords ctx.domain (operation.rules before item) key
      = item.canonicalRecords ctx.domain (operation.rules after item) key := by
  cases operation <;> rfl

theorem ttlProblems_mono {rules rules' : FieldRules} (h : item.ttlProblems ctx rules = [])
    (hle : rules'.ttlRequired = true → rules.ttlRequired = true) :
    item.ttlProblems ctx rules' = [] := by
  unfold ttlProblems at h ⊢
  cases httl : item.ttl with
  | none =>
      simp only [httl] at h ⊢
      split
      · next hrequired =>
          rw [if_pos (hle hrequired)] at h
          cases h
      · rfl
  | some ttl => simpa only [httl] using h

theorem isSome_of_makes {rules : FieldRules} {records : Option (SortedSet String)}
    (hmakes : Operation.makes item = true)
    (hrecords : item.canonicalRecords ctx.domain rules (some key) = .ok records)
    {stored left : Option Content} {ttl : Option Nat}
    (hasked : Action.asked? stored ttl records = some left) : left.isSome = true := by
  obtain ⟨contents, hcontents, hne⟩ := (Option.any_eq_true _ _).1 hmakes
  obtain ⟨canonical, rfl, hread⟩ := read_of_given hrecords hcontents
  have hnonempty : canonical.isEmpty = false := by
    refine RecordSet.isEmpty_of_read hread ?_
    rintro rfl
    cases hne
  simp only [Action.asked?, Option.getD_some, hnonempty] at hasked
  obtain ⟨t, -, rfl⟩ := Option.map_eq_some_iff.1 hasked
  rfl

end BatchItem

namespace Review

variable {ctx : ReviewContext} {snapshot snapshot' : Snapshot} {item : BatchItem} {key : Key}
  {clearing : Bool} {action : Action}

theorem ofItem_eq_ready_iff : ofItem ctx snapshot item = .ready key clearing action
    ↔ item.key? ctx.domain = some key ∧ clearing = item.isClearing
      ∧ item.ttlProblems ctx (ctx.operation.rules (snapshot.get? key).isSome item) = []
      ∧ ∃ records, item.canonicalRecords ctx.domain
            (ctx.operation.rules (snapshot.get? key).isSome item) (some key) = .ok records
          ∧ Action.of? (snapshot.get? key) (item.ttl.map Int.toNat) records = some action := by
  constructor
  · intro h
    obtain ⟨k, a, hready, hkey, records, hrecords, haction⟩ :=
      ofItem_of_errors_nil (show (ofItem ctx snapshot item).errors = [] by rw [h]; rfl)
    obtain ⟨rfl, rfl, rfl⟩ : k = key ∧ item.isClearing = clearing ∧ a = action := by
      simpa using hready.symm.trans h
    refine ⟨hkey, rfl, ?_, records, hrecords, haction⟩
    simp only [ofItem, hkey, Option.bind_some, hrecords] at h
    split at h
    · cases h
    · next hnone => exact (List.append_eq_nil_iff.1 (List.append_eq_nil_iff.1 hnone).1).2
    · cases h
  · rintro ⟨hkey, rfl, httl, records, hrecords, haction⟩
    obtain ⟨htype, hsubname⟩ := BatchItem.problems_of_key hkey
    simp only [ofItem, hkey, Option.bind_some, hrecords, htype, hsubname, httl,
      List.append_nil, haction]

theorem afterExistence_of_ne {operation : Operation} (h : operation ≠ .create) (review : Review) :
    afterExistence operation snapshot review = review := by
  unfold afterExistence
  split
  · exact absurd rfl h
  · rfl

theorem ofItem_again (h : ofItem ctx snapshot item = .ready key clearing action)
    (hcontent : (snapshot'.get? key).map Rrset.content = (snapshot.get? key).map Rrset.content
      ∨ (snapshot'.get? key).map Rrset.content
        = action.target ((snapshot.get? key).map Rrset.content)) :
    ∃ action', ofItem ctx snapshot' item = .ready key clearing action'
      ∧ action'.target ((snapshot'.get? key).map Rrset.content)
        = action.target ((snapshot.get? key).map Rrset.content)
      ∧ action'.leaves = action.leaves := by
  obtain ⟨hkey, rfl, httl, records, hrecords, haction⟩ := ofItem_eq_ready_iff.1 h
  have hasked := Action.map_target (snapshot.get? key) (item.ttl.map Int.toNat) records
  rw [haction, Option.map_some] at hasked
  have hasked' := Action.map_target (snapshot'.get? key) (item.ttl.map Int.toNat) records
  have hsame : Action.asked? ((snapshot'.get? key).map Rrset.content) (item.ttl.map Int.toNat)
      records = some (action.target ((snapshot.get? key).map Rrset.content)) := by
    rcases hcontent with hsame | hleft
    · rw [hsame, ← hasked]
    · rw [hleft, Action.asked?_again hasked.symm]
  rw [hsame] at hasked'
  obtain ⟨action', haction', htarget⟩ := Option.map_eq_some_iff.1 hasked'
  have hrequired : (ctx.operation.rules (snapshot'.get? key).isSome item).ttlRequired = true →
      (ctx.operation.rules (snapshot.get? key).isSome item).ttlRequired = true := by
    cases ctx.operation with
    | create | replace => exact id
    | update =>
        simp only [Operation.rules, Bool.and_eq_true, Bool.not_eq_true']
        rintro ⟨hgone, hmakes⟩
        refine ⟨?_, hmakes⟩
        have hnone : (snapshot'.get? key).map Rrset.content = none := by
          simpa using hgone
        rcases hcontent with hsame | hleft
        · rw [hsame] at hnone
          simpa using hnone
        · have hsome := BatchItem.isSome_of_makes hmakes hrecords hasked.symm
          rw [← hleft, hnone] at hsome
          cases hsome
  refine ⟨action', ofItem_eq_ready_iff.2 ⟨hkey, rfl, BatchItem.ttlProblems_mono httl hrequired,
    records, ?_, haction'⟩, htarget, ?_⟩
  · rw [← hrecords]
    exact BatchItem.canonicalRecords_rules ..
  · rw [← Action.isSome_target haction', ← Action.isSome_target haction, htarget]

end Review

def Plan.IsUnderway (plan : Plan) (zone zone' : Zone) : Prop :=
  ∀ key, zone'.content key = zone.content key
    ∨ ∃ p ∈ plan.items, p.key = key ∧ zone'.content key = p.target

namespace Review

inductive Renews (snapshot snapshot' : Snapshot) : Review → Review → Prop where
  | unaddressed {errors : ItemErrors} :
      Renews snapshot snapshot' (.unaddressed errors) (.unaddressed errors)
  | ready {key : Key} {clearing : Bool} {action action' : Action}
      (htarget : action'.target ((snapshot'.get? key).map Rrset.content)
        = action.target ((snapshot.get? key).map Rrset.content))
      (hleaves : action'.leaves = action.leaves) :
      Renews snapshot snapshot' (.ready key clearing action) (.ready key clearing action')

def asked? (snapshot : Snapshot) : Review → Option (Key × Option Content)
  | .ready key _ action => some (key, action.target ((snapshot.get? key).map Rrset.content))
  | _ => none

namespace Renews

variable {snapshot snapshot' : Snapshot} {review review' : Review}

theorem key? (h : Renews snapshot snapshot' review review') : review'.key? = review.key? := by
  cases h <;> rfl

theorem vanishes (h : Renews snapshot snapshot' review review') :
    review'.vanishes = review.vanishes := by
  cases h with
  | unaddressed => rfl
  | ready _ hleaves => rw [Review.vanishes, Review.vanishes, hleaves]

theorem errors (h : Renews snapshot snapshot' review review') :
    review'.errors = review.errors := by
  cases h <;> rfl

theorem asked? (h : Renews snapshot snapshot' review review') :
    review'.asked? snapshot' = review.asked? snapshot := by
  cases h with
  | unaddressed => rfl
  | ready htarget _ => rw [Review.asked?, Review.asked?, htarget]

end Renews

end Review

namespace Plan

section Renewal

variable {ctx : ReviewContext} {batch : Batch} {snapshot snapshot' : Snapshot} {plan : Plan}
  {zone zone' : Zone} (hmake : make ctx batch snapshot = .ok plan)
  (hagrees : Review.Agrees batch snapshot zone) (hagrees' : Review.Agrees batch snapshot' zone')
  (hunderway : plan.IsUnderway zone zone')

include hmake hagrees hagrees' hunderway

theorem content_of_staged {i : Nat} {key : Key} {clearing : Bool} {action : Action}
    (hi : (Review.staged ctx snapshot batch.items)[i]? = some (.ready key clearing action)) :
    (snapshot'.get? key).map Rrset.content = (snapshot.get? key).map Rrset.content
      ∨ (snapshot'.get? key).map Rrset.content
        = action.target ((snapshot.get? key).map Rrset.content) := by
  have hmem := mem_of_staged hmake hi
  have htouched : key.subname ∈ batch.touchedSubnames := mem_touchedSubnames hmake hmem
  rw [hagrees' key htouched]
  rcases hunderway key with hsame | ⟨p, hp, hkey, htarget⟩
  · rw [hagrees key htouched]
    exact Or.inl hsame
  · obtain rfl := List.inj_on_of_nodup_map (nodup_keys hmake) hp hmem hkey
    exact Or.inr htarget

theorem staged_again (hcreate : ctx.operation ≠ .create) {i : Nat} {review : Review}
    (hi : (Review.staged ctx snapshot batch.items)[i]? = some review) :
    ∃ review', (Review.staged ctx snapshot' batch.items)[i]? = some review'
      ∧ Review.Renews snapshot snapshot' review review' := by
  have hnone := staged_pass hmake review (List.mem_of_getElem? hi)
  have hplace := Review.getElem?_staged ctx snapshot batch.items i
  rw [hi] at hplace
  obtain ⟨shaped, hitem, -⟩ := Option.map_eq_some_iff.1 hplace.symm
  obtain ⟨rfl, halone, -⟩ := Review.eq_own_of_staged hitem hi hnone
  refine ⟨Review.own ctx snapshot' shaped, ?_, ?_⟩
  · rw [Review.getElem?_staged, hitem, Option.map_some, Review.afterSharing, halone]
    exact congrArg some (Review.afterExistence_of_ne hcreate _)
  · cases shaped with
    | error problems => exact .unaddressed
    | ok item =>
        obtain ⟨key, action, hready, -⟩ := Review.passes_of_staged hitem hi hnone
        rw [hready] at hi ⊢
        obtain ⟨action', hready', htarget, hleaves⟩ := Review.ofItem_again hready
          (content_of_staged hmake hagrees hagrees' hunderway hi)
        rw [show Review.own ctx snapshot' (.ok item) = _ from hready']
        exact .ready htarget hleaves

theorem staged_before (hcreate : ctx.operation ≠ .create) {review' : Review}
    (hmem : review' ∈ Review.staged ctx snapshot' batch.items) :
    ∃ review ∈ Review.staged ctx snapshot batch.items,
      Review.Renews snapshot snapshot' review review' := by
  obtain ⟨i, hi⟩ := List.mem_iff_getElem?.1 hmem
  have hplace := Review.getElem?_staged ctx snapshot' batch.items i
  rw [hi] at hplace
  obtain ⟨shaped, hitem, -⟩ := Option.map_eq_some_iff.1 hplace.symm
  have hearlier := Review.getElem?_staged ctx snapshot batch.items i
  rw [hitem, Option.map_some] at hearlier
  obtain ⟨again, hagain, hrenews⟩ :=
    staged_again hmake hagrees hagrees' hunderway hcreate hearlier
  obtain rfl := Option.some.inj (hagain.symm.trans hi)
  exact ⟨_, List.mem_of_getElem? hearlier, hrenews⟩

theorem stays_before (hcreate : ctx.operation ≠ .create) {key : Key}
    (h : Review.Stays (Review.staged ctx snapshot' batch.items) zone'.HasSet key) :
    Review.Stays (Review.staged ctx snapshot batch.items) zone.HasSet key := by
  have hleft (review' : Review) (hmem : review' ∈ Review.staged ctx snapshot' batch.items)
      (hkey : review'.key? = some key) (hstays : review'.vanishes = false) :
      Review.Stays (Review.staged ctx snapshot batch.items) zone.HasSet key := by
    obtain ⟨review, hearlier, hrenews⟩ :=
      staged_before hmake hagrees hagrees' hunderway hcreate hmem
    exact Or.inl ⟨review, hearlier, hrenews.key?.symm.trans hkey,
      hrenews.vanishes.symm.trans hstays⟩
  rcases h with ⟨review', hmem, hkey, hstays⟩ | ⟨hstored, hall⟩
  · exact hleft review' hmem hkey hstays
  · by_cases htouched : ∃ review' ∈ Review.staged ctx snapshot' batch.items,
        review'.key? = some key
    · obtain ⟨review', hmem, hkey⟩ := htouched
      exact hleft review' hmem hkey (hall review' hmem hkey)
    · have hnone : ∀ review ∈ Review.staged ctx snapshot batch.items, review.key? ≠ some key := by
        intro review hmem hkey
        obtain ⟨i, hi⟩ := List.mem_iff_getElem?.1 hmem
        obtain ⟨review', hi', hrenews⟩ :=
          staged_again hmake hagrees hagrees' hunderway hcreate hi
        exact htouched ⟨review', List.mem_of_getElem? hi', hrenews.key?.trans hkey⟩
      refine Or.inr ⟨?_, fun review hmem hkey => absurd hkey (hnone review hmem)⟩
      rcases hunderway key with hsame | ⟨p, hp, hkey, -⟩
      · rw [Zone.HasSet, ← Option.isSome_map (f := Rrset.content)] at hstored ⊢
        exact (congrArg Option.isSome hsame).symm.trans hstored
      · obtain ⟨⟨clearing, hstaged⟩, -⟩ := staged_of_mem hmake hp
        exact absurd (congrArg some hkey) (hnone _ (List.mem_of_getElem? hstaged))

theorem accepted_again (hcreate : ctx.operation ≠ .create) :
    ∀ last ∈ Review.ofItems ctx snapshot' batch.items, last.errors = [] := by
  have hpass := staged_pass hmake
  have hpass' : ∀ review' ∈ Review.staged ctx snapshot' batch.items, review'.errors = [] := by
    intro review' hmem
    obtain ⟨review, hearlier, hrenews⟩ :=
      staged_before hmake hagrees hagrees' hunderway hcreate hmem
    exact hrenews.errors.trans (hpass review hearlier)
  intro last hlast
  rw [Review.ofItems_eq] at hlast
  obtain ⟨review', hmem, rfl⟩ := List.mem_map.1 hlast
  obtain ⟨review, hearlier, hrenews⟩ :=
    staged_before hmake hagrees hagrees' hunderway hcreate hmem
  cases hrenews with
  | unaddressed => exact hpass' _ hmem
  | @ready key clearing action action' _ hsame =>
      by_cases hleaves : action'.leaves = true
      · -- a set that stays now would have stayed before, where it stood in nobody's way
        rw [Review.rivalFree_iff hpass' hagrees' hmem hleaves]
        intro type hexcludes hstays
        have hfree := (items_of_make hmake).2 _ (List.mem_map_of_mem hearlier)
        refine (Review.rivalFree_iff hpass hagrees hearlier (hsame ▸ hleaves)).1 hfree type
          hexcludes ?_
        exact stays_before hmake hagrees hagrees' hunderway hcreate hstays
      · rw [Review.afterExclusion, if_neg hleaves]
        rfl

theorem asked_again (hcreate : ctx.operation ≠ .create) :
    (Review.staged ctx snapshot' batch.items).map (Review.asked? snapshot')
      = (Review.staged ctx snapshot batch.items).map (Review.asked? snapshot) := by
  refine List.ext_getElem? fun i => ?_
  rw [List.getElem?_map, List.getElem?_map]
  cases hi : (Review.staged ctx snapshot batch.items)[i]? with
  | some review =>
      obtain ⟨review', hi', hrenews⟩ :=
        staged_again hmake hagrees hagrees' hunderway hcreate hi
      rw [hi', Option.map_some, hrenews.asked?]
      rfl
  | none =>
      rw [Review.getElem?_staged, Option.map_eq_none_iff] at hi
      rw [Review.getElem?_staged, hi]
      rfl

end Renewal

variable {ctx : ReviewContext} {batch : Batch} {snapshot snapshot' : Snapshot} {plan : Plan}
  {zone zone' : Zone}

theorem asked_of_make (h : make ctx batch snapshot = .ok plan) :
    plan.items.map PlannedItem.asked
      = (Review.staged ctx snapshot batch.items).filterMap (Review.asked? snapshot) := by
  rw [← ofItems_eq_staged h]
  refine map_items h fun review i => ?_
  cases review <;> rfl

theorem make_again (hmake : make ctx batch snapshot = .ok plan)
    (hagrees : Review.Agrees batch snapshot zone) (hagrees' : Review.Agrees batch snapshot' zone')
    (hunderway : plan.IsUnderway zone zone') (hcreate : ctx.operation ≠ .create) :
    ∃ plan', make ctx batch snapshot' = .ok plan'
      ∧ plan'.items.map PlannedItem.asked = plan.items.map PlannedItem.asked := by
  obtain ⟨plan', hplan'⟩ :=
    exists_make_iff.2 (accepted_again hmake hagrees hagrees' hunderway hcreate)
  refine ⟨plan', hplan', ?_⟩
  rw [asked_of_make hplan', asked_of_make hmake]
  simpa only [List.filterMap_map, Function.id_comp] using
    congrArg (List.filterMap id) (asked_again hmake hagrees hagrees' hunderway hcreate)

end Plan

end ZoneKeeper
