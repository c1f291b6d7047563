import ZoneKeeper.Proofs.Batch.Verdict
import ZoneKeeper.Proofs.Engine.Attempt

namespace ZoneKeeper

namespace Snapshot

variable {snapshot snapshot' : Snapshot}

def SameAt (subnames : List String) (snapshot snapshot' : Snapshot) : Prop :=
  ∀ key : Key, key.subname ∈ subnames → snapshot.get? key = snapshot'.get? key

theorem SameAt.typesAt_eq {subnames : List String} (h : SameAt subnames snapshot snapshot')
    {subname : String} (hsubname : subname ∈ subnames) :
    snapshot.typesAt subname = snapshot'.typesAt subname := by
  have hentries : snapshot.entries.filter (·.1.subname == subname)
      = snapshot'.entries.filter (·.1.subname == subname) := by
    refine SortedMap.entries_unique (snapshot.sorted.filter _) (snapshot'.sorted.filter _) ?_
    rintro ⟨key, r⟩
    rw [List.mem_filter, List.mem_filter, ← SortedMap.get?_eq_some_iff,
      ← SortedMap.get?_eq_some_iff, and_congr_left_iff]
    intro hkey
    rw [h key (beq_iff_eq.1 hkey ▸ hsubname)]
  simp only [typesAt, SortedMap.keys, List.filter_map]
  exact congrArg _ (congrArg _ hentries)

theorem get?_ofRrsets (rrsets : List Rrset) (key : Key) :
    (ofRrsets rrsets).get? key = (rrsets.filter (·.key == key)).getLast? := by
  have general (m : Snapshot) :
      SortedMap.get? ((rrsets.map fun r => (r.key, r)).foldl (fun m e => m.insert e.1 e.2) m) key
        = (rrsets.filter (·.key == key)).getLast?.or (m.get? key) := by
    induction rrsets generalizing m with
    | nil => rfl
    | cons r rest ih =>
        rw [List.map_cons, List.foldl_cons, ih, SortedMap.get?_insert, List.filter_cons]
        by_cases hkey : r.key = key
        · simp [hkey, List.getLast?_cons, Option.or_some]
        · rw [if_neg (Ne.symm hkey), if_neg (by simpa using hkey)]
  exact (general SortedMap.empty).trans Option.or_none

end Snapshot

namespace Zone

variable (zone : Zone) {key : Key}

theorem filter_listAt_of_notMem {subnames : List String} (hkey : key.subname ∉ subnames) :
    (zone.listAt subnames).filter (·.key == key) = [] := by
  rw [List.filter_eq_nil_iff]
  intro r hr heq
  obtain rfl := beq_iff_eq.1 heq
  exact hkey (mem_listAt.1 hr).2

theorem filter_listAt {subnames : List String} (hnodup : subnames.Nodup)
    (hkey : key.subname ∈ subnames) :
    (zone.listAt subnames).filter (·.key == key) = zone.rrsets.values.filter (·.key == key) := by
  induction subnames with
  | nil => cases hkey
  | cons subname rest ih =>
      obtain ⟨hnew, hrest⟩ := List.nodup_cons.1 hnodup
      rw [listAt, List.flatMap_cons, List.filter_append, List.filter_filter]
      by_cases hhere : key.subname = subname
      · subst hhere
        have hothers := filter_listAt_of_notMem zone hnew
        rw [listAt] at hothers
        rw [hothers, List.append_nil]
        refine List.filter_congr fun r _ => ?_
        by_cases heq : r.key = key
        · subst heq
          simp [Filter.accepts, Filter.ofSubname, Rrset.key]
        · simp [heq]
      · have hmem : key.subname ∈ rest := (List.mem_cons.1 hkey).resolve_left hhere
        have hnone : zone.rrsets.values.filter
            (fun r => r.key == key && (Filter.ofSubname subname).accepts r) = [] := by
          rw [List.filter_eq_nil_iff]
          intro r _ hr
          simp only [Bool.and_eq_true, beq_iff_eq] at hr
          obtain ⟨rfl, haccepts⟩ := hr
          have hsame : subname = r.subname := by
            simpa [Filter.accepts, Filter.ofSubname] using haccepts
          exact hhere hsame.symm
        rw [hnone, List.nil_append]
        exact ih hrest hmem

theorem sameAt_listAt {subnames : List String} (hnodup : subnames.Nodup) :
    Snapshot.SameAt subnames (.ofRrsets (zone.listAt subnames))
      (.ofRrsets zone.rrsets.values) := by
  intro key hkey
  rw [Snapshot.get?_ofRrsets, Snapshot.get?_ofRrsets, zone.filter_listAt hnodup hkey]

end Zone

theorem Batch.mem_touchedSubnames {batch : Batch} {item : BatchItem}
    (h : .ok item ∈ batch.items) : item.owner ∈ batch.touchedSubnames := by
  rw [touchedSubnames, SortedSet.mem_toList_ofList, List.mem_filterMap]
  exact ⟨_, h, rfl⟩

namespace Review

variable {ctx : ReviewContext} {snapshot snapshot' : Snapshot} {batch : Batch}

theorem key?_refuse (review : Review) (errors : ItemErrors) :
    (review.refuse errors).key? = review.key? := by
  cases review <;> rfl

theorem key?_afterSharing (items : List (Except ItemErrors BatchItem)) (i : Nat)
    (shaped : Except ItemErrors BatchItem) (review : Review) :
    (afterSharing items i shaped review).key? = review.key? := by
  unfold afterSharing
  split
  · rfl
  · exact key?_refuse ..

theorem key?_afterExistence (operation : Operation) (review : Review) :
    (afterExistence operation snapshot review).key? = review.key? := by
  unfold afterExistence
  split
  · split <;> rfl
  · rfl

theorem key?_ofItem (item : BatchItem) :
    (ofItem ctx snapshot item).key? = item.key? ctx.domain := by
  rw [← key?_refuse _ [], refuse_ofItem]
  cases item.key? ctx.domain <;> rfl

theorem touched_of_own {shaped : Except ItemErrors BatchItem} (hmem : shaped ∈ batch.items)
    {key : Key} (hkey : (own ctx snapshot shaped).key? = some key) :
    key.subname ∈ batch.touchedSubnames := by
  cases shaped with
  | error errors => cases hkey
  | ok item =>
      rw [own, key?_ofItem] at hkey
      rw [BatchItem.subname_of_key hkey]
      exact Batch.mem_touchedSubnames hmem

theorem touched_of_staged {review : Review} (hmem : review ∈ staged ctx snapshot batch.items)
    {key : Key} (hkey : review.key? = some key) : key.subname ∈ batch.touchedSubnames := by
  obtain ⟨⟨shaped, i⟩, hplaced, rfl⟩ := List.mem_map.1 hmem
  rw [key?_afterExistence, key?_afterSharing] at hkey
  exact touched_of_own (List.mem_of_getElem? (List.mem_zipIdx_iff_getElem?.1 hplaced)) hkey

theorem key?_afterExclusion (reviews : List Review) (review : Review) :
    (afterExclusion reviews snapshot review).key? = review.key? := by
  unfold afterExclusion
  split
  · split
    · split <;> rfl
    · rfl
  · rfl

section SameAt

variable (h : Snapshot.SameAt batch.touchedSubnames snapshot snapshot')
include h

theorem own_congr {shaped : Except ItemErrors BatchItem} (hmem : shaped ∈ batch.items) :
    own ctx snapshot shaped = own ctx snapshot' shaped := by
  cases shaped with
  | error errors => rfl
  | ok item =>
      have hstored : (item.key? ctx.domain).bind snapshot.get?
          = (item.key? ctx.domain).bind snapshot'.get? := by
        refine Option.bind_congr fun key hkey => h key ?_
        rw [BatchItem.subname_of_key hkey]
        exact Batch.mem_touchedSubnames hmem
      simp only [own, ofItem, hstored]

theorem afterExistence_congr {review : Review}
    (hkey : ∀ key, review.key? = some key → key.subname ∈ batch.touchedSubnames) :
    afterExistence ctx.operation snapshot review
      = afterExistence ctx.operation snapshot' review := by
  cases review with
  | unaddressed | refused => cases ctx.operation <;> rfl
  | ready key clearing action =>
      have hstored : snapshot.contains key = snapshot'.contains key :=
        congrArg Option.isSome (h key (hkey key rfl))
      cases ctx.operation with
      | create => rw [afterExistence, hstored, afterExistence]
      | replace | update => rfl

theorem staged_congr : staged ctx snapshot batch.items = staged ctx snapshot' batch.items := by
  refine List.map_congr_left ?_
  rintro ⟨shaped, i⟩ hplaced
  have hmem : shaped ∈ batch.items :=
    List.mem_of_getElem? (List.mem_zipIdx_iff_getElem?.1 hplaced)
  dsimp only
  rw [own_congr h hmem]
  refine afterExistence_congr h fun key hkey => ?_
  rw [key?_afterSharing] at hkey
  exact touched_of_own hmem hkey

theorem afterExclusion_congr (reviews : List Review) {review : Review}
    (hkey : ∀ key, review.key? = some key → key.subname ∈ batch.touchedSubnames) :
    afterExclusion reviews snapshot review = afterExclusion reviews snapshot' review := by
  cases review with
  | unaddressed | refused => rfl
  | ready key clearing action =>
      simp only [afterExclusion, storedRivals, h.typesAt_eq (hkey key rfl)]

theorem ofItems_congr : ofItems ctx snapshot batch.items = ofItems ctx snapshot' batch.items := by
  rw [ofItems_eq, ofItems_eq, ← staged_congr h]
  exact List.map_congr_left fun review hmem =>
    afterExclusion_congr h _ fun key hkey => touched_of_staged hmem hkey

end SameAt

end Review

namespace Plan

variable {ctx : ReviewContext} {snapshot snapshot' : Snapshot} {batch : Batch}

theorem make_congr (h : Snapshot.SameAt batch.touchedSubnames snapshot snapshot') :
    make ctx batch snapshot = make ctx batch snapshot' := by
  have hitems : (Review.ofItems ctx snapshot batch.items).zipIdx.filterMap (item? snapshot)
      = (Review.ofItems ctx snapshot batch.items).zipIdx.filterMap (item? snapshot') := by
    refine List.filterMap_congr ?_
    rintro ⟨review, i⟩ hplaced
    have hmem := List.mem_of_getElem? (List.mem_zipIdx_iff_getElem?.1 hplaced)
    rw [Review.ofItems_eq] at hmem
    obtain ⟨earlier, hearlier, rfl⟩ := List.mem_map.1 hmem
    have hkey : (Review.afterExclusion (Review.staged ctx snapshot batch.items) snapshot
        earlier).key? = earlier.key? := Review.key?_afterExclusion ..
    cases hlast : Review.afterExclusion (Review.staged ctx snapshot batch.items) snapshot
        earlier with
    | unaddressed | refused => rfl
    | ready key clearing action =>
        rw [hlast] at hkey
        rw [item?, item?, h key (Review.touched_of_staged hearlier hkey.symm)]
  simp only [make, hitems, ← Review.ofItems_congr h]

end Plan

/-- The record sets at the subnames that a batch touches are all that its plan depends on: made from
them alone, it is the same as from the whole zone, and so are the errors if there is none. -/
theorem touched_part_suffices (ctx : ReviewContext) (batch : Batch) (zone : Zone) :
    Plan.make ctx batch (.ofRrsets (zone.listAt batch.touchedSubnames))
      = Plan.make ctx batch (.ofRrsets zone.rrsets.values) :=
  Plan.make_congr (zone.sameAt_listAt (SortedSet.nodup_toList _))

end ZoneKeeper
