import ZoneKeeper.Proofs.Engine.Renewal

namespace ZoneKeeper

namespace Plan

variable {ctx : ReviewContext} {batch : Batch} {snapshot snapshot' : Snapshot} {plan plan' : Plan}
  {zone zone' : Zone}

theorem target_of_step (hmake : make ctx batch snapshot = .ok plan) {d : DoneStep}
    (hstep : d.item ∈ plan.steps) (hfor : d.IsFor zone) :
    d.left.map Rrset.content = d.item.target := by
  refine hfor.target (mem_steps hstep).2 fun ttl records haction => ?_
  rcases step_changes hmake hstep with ⟨_, _, hwrite, hne, -⟩ | ⟨hdelete, -⟩
  · obtain ⟨-, rfl⟩ := Action.write.inj (haction.symm.trans hwrite)
    exact hne
  · cases haction.symm.trans hdelete

theorem target_of_not_step {p : PlannedItem} (hp : p ∈ plan.items) (hnot : p ∉ plan.steps)
    (hkeep : p.action ≠ .keep) : p.target = none := by
  rw [PlannedItem.target]
  cases haction : p.action with
  | keep => exact absurd haction hkeep
  | delete | nothing => rfl
  | write =>
      refine absurd (List.mem_append_right _ (List.mem_filter.2 ⟨hp, ?_⟩)) hnot
      rw [haction]
      rfl

theorem exists_action (hmake : make ctx batch snapshot = .ok plan) {p : PlannedItem}
    (hp : p ∈ plan.items) :
    ∃ ttl records, Action.of? (snapshot.get? p.key) ttl records = some p.action := by
  obtain ⟨item, -, hpasses, -⟩ := exists_item hmake hp
  obtain ⟨records, -, haction⟩ := hpasses.hasAction
  exact ⟨_, records, haction⟩

theorem isSome_target (hmake : make ctx batch snapshot = .ok plan) {p : PlannedItem}
    (hp : p ∈ plan.items) : p.target.isSome = p.action.leaves := by
  obtain ⟨ttl, records, haction⟩ := exists_action hmake hp
  rw [PlannedItem.target, previous_eq hmake hp]
  exact Action.isSome_target haction

theorem exists_asked {p : PlannedItem}
    (hasked : plan'.items.map PlannedItem.asked = plan.items.map PlannedItem.asked)
    (hp : p ∈ plan'.items) : ∃ q ∈ plan.items, q.key = p.key ∧ q.target = p.target := by
  have hmem : p.asked ∈ plan.items.map PlannedItem.asked := hasked ▸ List.mem_map_of_mem hp
  obtain ⟨q, hq, hsame⟩ := List.mem_map.1 hmem
  exact ⟨q, hq, congrArg Prod.fst hsame, congrArg Prod.snd hsame⟩

theorem IsUnderway.after (h : plan.IsUnderway zone zone')
    (hmake : make ctx batch snapshot = .ok plan')
    (hasked : plan'.items.map PlannedItem.asked = plan.items.map PlannedItem.asked)
    {done : List DoneStep} (hsteps : ∀ d ∈ done, d.item ∈ plan'.steps)
    (hfor : ∀ d ∈ done, d.IsFor zone') : plan.IsUnderway zone (zone'.after done) := by
  induction done with
  | nil => exact h
  | cons d rest ih =>
      intro key
      rw [Zone.content, Zone.after, Zone.get?_put]
      split
      · next hkey =>
          have hstep := hsteps d List.mem_cons_self
          obtain ⟨q, hq, hsame, htarget⟩ := exists_asked hasked (mem_steps hstep).1
          refine Or.inr ⟨q, hq, hsame.trans hkey.symm, ?_⟩
          rw [target_of_step hmake hstep (hfor d List.mem_cons_self), htarget]
      · exact ih (fun e he => hsteps e (List.mem_cons_of_mem d he))
          (fun e he => hfor e (List.mem_cons_of_mem d he)) key

theorem deleted_before (hmake : make ctx batch snapshot = .ok plan)
    (hagrees : Review.Agrees batch snapshot zone)
    (hmake' : make ctx batch snapshot' = .ok plan') (hagrees' : Review.Agrees batch snapshot' zone')
    (h : plan.IsUnderway zone zone')
    (hasked : plan'.items.map PlannedItem.asked = plan.items.map PlannedItem.asked)
    {p : PlannedItem} (hp : p ∈ plan'.items) (hdelete : p.action.isDelete = true) :
    ∃ q ∈ plan.items, q.key = p.key ∧ q.action.isDelete = true := by
  obtain ⟨q, hq, hkey, htarget⟩ := exists_asked hasked hp
  refine ⟨q, hq, hkey, ?_⟩
  have hleaves : q.action.leaves = p.action.leaves := by
    rw [← isSome_target hmake hq, htarget, isSome_target hmake' hp]
  obtain ⟨_, _, hof'⟩ := exists_action hmake' hp
  obtain ⟨_, _, hof⟩ := exists_action hmake hq
  cases hpAction : p.action with
  | write | keep | nothing =>
      rw [hpAction] at hdelete
      cases hdelete
  | delete =>
      rw [hpAction] at hleaves hof'
      cases hqAction : q.action with
      | delete => rfl
      | write | keep =>
          rw [hqAction] at hleaves
          cases hleaves
      | nothing =>
          -- nothing was there, and nothing was asked for, but something is there later
          rw [hqAction] at hof
          have hstored := Action.of_delete hof'
          rw [hagrees' p.key (mem_touchedSubnames hmake' hp), ← hkey,
            ← Option.isSome_map (f := Rrset.content)] at hstored
          have hnone : zone.content q.key = none := by
            rw [Zone.content, ← hagrees q.key (mem_touchedSubnames hmake hq),
              Action.eq_none_of_nothing hof]
            rfl
          have hlater : zone'.content q.key = none := by
            rcases h q.key with hsame | ⟨r, hr, hsame, hleft⟩
            · exact hsame.trans hnone
            · obtain rfl := List.inj_on_of_nodup_map (nodup_keys hmake) hr hq hsame
              rw [hleft, PlannedItem.target, hqAction]
              rfl
          exact absurd (congrArg Option.isSome hlater) (by rw [Zone.content, hstored]; simp)

end Plan

def Rrset.shown (r : Rrset) : Key × Content := (r.key, r.content)

theorem Rrset.map_shown {stored : Option Rrset} {key : Key} (h : ∀ r ∈ stored, r.key = key) :
    stored.map shown = (stored.map content).map (Prod.mk key) := by
  rw [Option.map_map]
  exact Option.map_congr fun r hr => Prod.ext (h r hr) rfl

def BatchOutcome.shown (o : BatchOutcome) : BatchShape × List (String × String × Key × Content) :=
  (o.shape, o.views.map fun v => (v.domain, v.name, v.rrset.shown))

namespace Commit

section Outcome

variable {ctx : ReviewContext} {batch : Batch} {snapshot : Snapshot} {plan : Plan} {zone : Zone}
  {done : List DoneStep} (hmake : Plan.make ctx batch snapshot = .ok plan)
  (hsteps : done.map (·.item) = plan.steps)

include hmake hsteps

theorem find?_step {p : PlannedItem} (hp : p ∈ plan.items) :
    match done.find? fun d => d.item.index == p.index with
    | some d => d ∈ done ∧ d.item = p
    | none => p ∉ plan.steps := by
  cases hfind : done.find? fun d => d.item.index == p.index with
  | some d =>
      have hd := List.mem_of_find?_eq_some hfind
      have hstep : d.item ∈ plan.steps := hsteps ▸ List.mem_map_of_mem hd
      exact ⟨hd, List.inj_on_of_nodup_map (Plan.nodup_indices hmake) (Plan.mem_steps hstep).1 hp
        (by simpa using List.find?_some hfind)⟩
  | none =>
      intro hstep
      rw [← hsteps] at hstep
      obtain ⟨d, hd, rfl⟩ := List.mem_map.1 hstep
      simpa using List.find?_eq_none.1 hfind d hd

variable (hagrees : Review.Agrees batch snapshot zone) (hkeyed : zone.IsKeyed)
  (hfor : ∀ d ∈ done, d.IsFor zone)

include hagrees hkeyed hfor

theorem shown_left? {p : PlannedItem} (hp : p ∈ plan.items) :
    (left? done p).map Rrset.shown = p.target.map (Prod.mk p.key) := by
  have hfind := find?_step hmake hsteps hp
  unfold left?
  split
  · next hkeep =>
      have hstored : p.previous = zone.rrsets.get? p.key := by
        rw [Plan.previous_eq hmake hp, hagrees p.key (Plan.mem_touchedSubnames hmake hp)]
      rw [PlannedItem.target, hkeep]
      exact Rrset.map_shown fun r hr => hkeyed p.key r (hstored ▸ hr)
  · next hkeep =>
      cases hstep : done.find? fun d => d.item.index == p.index with
      | some d =>
          rw [hstep] at hfind
          obtain ⟨hd, rfl⟩ := hfind
          rw [Option.bind_some, Rrset.map_shown ((hfor d hd).key_of_mem_left hkeyed),
            Plan.target_of_step hmake (hsteps ▸ List.mem_map_of_mem hd) (hfor d hd)]
      | none =>
          rw [hstep] at hfind
          rw [Plan.target_of_not_step hp hfind hkeep]
          rfl

theorem shown_outcome (domain : String) (shape : BatchShape) :
    (outcome domain plan shape done).shown
      = (shape, (plan.items.map PlannedItem.asked).filterMap fun (key, target) =>
          target.map fun content => (domain, ownerName key.subname domain, key, content)) := by
  dsimp only [BatchOutcome.shown, outcome]
  rw [List.map_map, List.map_filterMap, List.filterMap_map]
  refine congrArg (Prod.mk shape) (List.filterMap_congr fun p hp => ?_)
  calc (left? done p).map _
      = ((left? done p).map Rrset.shown).map fun (key, content) =>
          (domain, ownerName key.subname domain, key, content) := by
        rw [Option.map_map]
        rfl
    _ = _ := by
        rw [shown_left? hmake hsteps hagrees hkeyed hfor hp, Option.map_map]
        rfl

end Outcome

end Commit

structure Batch.IsAccepted (batch : Batch) (ctx : ReviewContext) (zone : Zone) (plan : Plan)
    (o : BatchOutcome) : Prop where
  isKeyed : zone.IsKeyed
  make : Plan.make ctx batch (.ofRrsets (zone.listAt batch.touchedSubnames)) = .ok plan
  outcome : ∃ done, done.map (·.item) = plan.steps ∧ (∀ d ∈ done, d.IsFor zone)
    ∧ o = Commit.outcome ctx.domain plan batch.shape done

namespace Batch.IsAccepted

variable {ctx : ReviewContext} {batch : Batch} {plan plan' : Plan} {zone zone' : Zone}
  {o o' : BatchOutcome}

theorem shown (h : batch.IsAccepted ctx zone plan o) :
    o.shown = (batch.shape, (plan.items.map PlannedItem.asked).filterMap fun (key, target) =>
      target.map fun content => (ctx.domain, ownerName key.subname ctx.domain, key, content)) := by
  obtain ⟨done, hsteps, hfor, rfl⟩ := h.outcome
  exact Commit.shown_outcome h.make hsteps (Review.agrees_of_isKeyed h.isKeyed batch) h.isKeyed
    hfor ctx.domain batch.shape

theorem deleted (h : batch.IsAccepted ctx zone plan o) :
    o.deleted = (plan.items.filter (·.action.isDelete)).map (·.key) := by
  obtain ⟨done, -, -, rfl⟩ := h.outcome
  rfl

structure IsUnderway (_ : batch.IsAccepted ctx zone plan o) (zone' : Zone) : Prop where
  isKeyed : zone'.IsKeyed
  underway : plan.IsUnderway zone zone'
  create : ctx.operation = .create → zone' = zone

theorem make_underway (h : batch.IsAccepted ctx zone plan o) (hzone : h.IsUnderway zone') :
    ∃ plan', Plan.make ctx batch (.ofRrsets (zone'.listAt batch.touchedSubnames)) = .ok plan'
      ∧ plan'.items.map PlannedItem.asked = plan.items.map PlannedItem.asked := by
  by_cases hcreate : ctx.operation = .create
  · rw [hzone.create hcreate]
    exact ⟨plan, h.make, rfl⟩
  · exact Plan.make_again h.make (Review.agrees_of_isKeyed h.isKeyed batch)
      (Review.agrees_of_isKeyed hzone.isKeyed batch) hzone.underway hcreate

theorem asked_underway (h : batch.IsAccepted ctx zone plan o) (hzone : h.IsUnderway zone')
    (hmake : Plan.make ctx batch (.ofRrsets (zone'.listAt batch.touchedSubnames)) = .ok plan') :
    plan'.items.map PlannedItem.asked = plan.items.map PlannedItem.asked := by
  obtain ⟨again, hagain, hasked⟩ := h.make_underway hzone
  obtain rfl := Except.ok.inj (hmake.symm.trans hagain)
  exact hasked

theorem again (h : batch.IsAccepted ctx zone plan o) (hzone : h.IsUnderway zone')
    (h' : batch.IsAccepted ctx zone' plan' o') :
    o'.shown = o.shown ∧ o'.deleted ⊆ o.deleted := by
  have hasked := h.asked_underway hzone h'.make
  refine ⟨by rw [h'.shown, h.shown, hasked], fun key hkey => ?_⟩
  rw [h'.deleted] at hkey
  rw [h.deleted]
  obtain ⟨p, hp, rfl⟩ := List.mem_map.1 hkey
  obtain ⟨hmem, hdelete⟩ := List.mem_filter.1 hp
  obtain ⟨q, hq, hsame, hdelete'⟩ := Plan.deleted_before h.make
    (Review.agrees_of_isKeyed h.isKeyed batch) h'.make
    (Review.agrees_of_isKeyed hzone.isKeyed batch) hzone.underway hasked hmem hdelete
  exact List.mem_map.2 ⟨q, List.mem_filter.2 ⟨hq, hdelete'⟩, hsame⟩

end Batch.IsAccepted

end ZoneKeeper
