import ZoneKeeper.Proofs.Engine.Acceptance

namespace ZoneKeeper

namespace RecordSet

variable {type subname name : String}

theorem lengthFlaws_nil (h : name.utf8ByteSize ≤ 4 * DomainName.maxWire) :
    lengthFlaws name [] = [] := by
  have hfits : estimate name [] ≤ maxResponse := by
    rw [estimate, List.foldr_nil, maxResponse]
    rw [DomainName.maxWire] at h
    omega
  unfold lengthFlaws
  rw [Nat.sub_eq_zero_of_le hfits]
  rfl

theorem read_nil (h : name.utf8ByteSize ≤ 4 * DomainName.maxWire) :
    read type subname name [] = .ok SortedSet.empty := by
  have hfits := lengthFlaws_nil h
  obtain ⟨excess, hexcess⟩ : ∃ f, lengthFlaws name = f := ⟨_, rfl⟩
  have hshape : shapeFlaws type subname 0 = [] := by simp [shapeFlaws]
  rw [hexcess] at hfits
  rw [read, hexcess, List.length_nil, hshape]
  have hempty : (SortedSet.ofList ([] : List String)).toList = [] := rfl
  simp only [readEach, List.reverse_nil, List.map_nil, List.append_nil, hempty, hfits]
  rfl

end RecordSet

theorem Action.exists_of? (stored : Option Rrset) (ttl : Nat) (records : SortedSet String) :
    ∃ action, of? stored (some ttl) (some records) = some action := by
  simp only [of?, Option.getD_some]
  split
  · exact ⟨_, rfl⟩
  · simp only [Option.orElse_some]
    split <;> exact ⟨_, rfl⟩

namespace Review

variable {ctx : ReviewContext} {snapshot : Snapshot} {items : List (Except ItemErrors BatchItem)}

theorem sharers_eq_nil (hdistinct : items.Pairwise fun a b => named? a ≠ named? b) {i : Nat}
    {item : Except ItemErrors BatchItem} (hitem : items[i]? = some item) :
    sharers items i item = [] := by
  cases hkey : named? item with
  | none => simp only [sharers, hkey]
  | some key =>
      simp only [sharers, hkey, List.map_eq_nil_iff, List.filter_eq_nil_iff]
      rintro ⟨other, j⟩ hother
      obtain ⟨hi, rfl⟩ := List.getElem?_eq_some_iff.1 hitem
      have hother : items[j]? = some other := List.mem_zipIdx_iff_getElem?.1 hother
      obtain ⟨hj, rfl⟩ := List.getElem?_eq_some_iff.1 hother
      simp only [Bool.and_eq_true, bne_iff_ne, beq_iff_eq, not_and]
      intro hne hsame
      rw [List.pairwise_iff_getElem] at hdistinct
      rcases Nat.lt_or_gt_of_ne hne with hlt | hlt
      · exact hdistinct j i hj hi hlt (hsame.trans hkey.symm)
      · exact hdistinct i j hi hj hlt (hkey.trans hsame.symm)

theorem staged_eq_map (hdistinct : items.Pairwise fun a b => named? a ≠ named? b)
    (hcreate : ctx.operation ≠ .create) :
    staged ctx snapshot items = items.map (own ctx snapshot) := by
  refine List.ext_getElem? fun i => ?_
  rw [getElem?_staged, List.getElem?_map]
  refine Option.map_congr fun item hitem => ?_
  have halone : afterSharing items i item (own ctx snapshot item) = own ctx snapshot item := by
    rw [afterSharing, sharers_eq_nil hdistinct hitem]
  rw [halone]
  unfold afterExistence
  split
  · next hoperation _ => exact absurd hoperation hcreate
  · rfl

end Review

namespace Plan

variable {ctx : ReviewContext} {batch : Batch} {snapshot : Snapshot} {plan : Plan} {zone : Zone}
  {done : List DoneStep}

theorem get?_after_of_ne (hsteps : done.map (·.item) = plan.steps) {key : Key}
    (hkey : ∀ p ∈ plan.items, p.key ≠ key) :
    (zone.after done.reverse).rrsets.get? key = zone.rrsets.get? key := by
  refine Zone.get?_after_of_ne fun d hd => hkey d.item (mem_steps ?_).1
  exact hsteps ▸ List.mem_map_of_mem (List.mem_reverse.1 hd)

theorem get?_after (zone : Zone) (hmake : make ctx batch snapshot = .ok plan)
    (hsteps : done.map (·.item) = plan.steps) {p : PlannedItem} (hp : p ∈ plan.items) :
    (∃ d ∈ done, d.item = p ∧ (zone.after done.reverse).rrsets.get? p.key = d.left)
      ∨ (p ∉ plan.steps
        ∧ (zone.after done.reverse).rrsets.get? p.key = zone.rrsets.get? p.key) := by
  by_cases hstep : p ∈ plan.steps
  · obtain ⟨d, hd, rfl⟩ := List.mem_map.1 (hsteps ▸ hstep)
    exact Or.inl ⟨d, hd, rfl,
      Zone.get?_after_of_mem (nodup_done_keys hmake hsteps) (List.mem_reverse.2 hd)⟩
  · refine Or.inr ⟨hstep, Zone.get?_after_of_ne fun d hd heq => hstep ?_⟩
    have hd : d.item ∈ plan.steps := hsteps ▸ List.mem_map_of_mem (List.mem_reverse.1 hd)
    exact List.inj_on_of_nodup_map (nodup_keys hmake) (mem_steps hd).1 hp heq ▸ hd

theorem target_eq_stored (hmake : make ctx batch snapshot = .ok plan) {p : PlannedItem}
    (hp : p ∈ plan.items) (hnot : p ∉ plan.steps) :
    p.target = (snapshot.get? p.key).map Rrset.content := by
  by_cases hkeep : p.action = .keep
  · rw [PlannedItem.target, hkeep, previous_eq hmake hp]
    rfl
  · rw [target_of_not_step hp hnot hkeep]
    obtain ⟨ttl, records, hof⟩ := exists_action hmake hp
    cases haction : p.action with
    | keep => exact absurd haction hkeep
    | nothing =>
        rw [haction] at hof
        rw [Action.eq_none_of_nothing hof]
        rfl
    | delete =>
        refine absurd (List.mem_append_left _ (List.mem_filter.2 ⟨hp, ?_⟩)) hnot
        rw [haction]
        rfl
    | write =>
        refine absurd (List.mem_append_right _ (List.mem_filter.2 ⟨hp, ?_⟩)) hnot
        rw [haction]
        rfl

theorem content_after (hmake : make ctx batch snapshot = .ok plan)
    (hagrees : Review.Agrees batch snapshot zone) (hsteps : done.map (·.item) = plan.steps)
    (hfor : ∀ d ∈ done, d.IsFor zone) {p : PlannedItem} (hp : p ∈ plan.items) :
    (zone.after done.reverse).content p.key = p.target := by
  rw [Zone.content]
  rcases get?_after zone hmake hsteps hp with ⟨d, hd, rfl, hleft⟩ | ⟨hnot, hsame⟩
  · rw [hleft]
    exact target_of_step hmake (hsteps ▸ List.mem_map_of_mem hd) (hfor d hd)
  · rw [hsame, target_eq_stored hmake hp hnot, hagrees p.key (mem_touchedSubnames hmake hp)]

end Plan

end ZoneKeeper
