import ZoneKeeper.Proofs.Batch.Order
import ZoneKeeper.Proofs.Engine.Course

namespace ZoneKeeper

def Action.left? : Action → Option Content
  | .write ttl records => if records.isEmpty then none else some (ttl, records)
  | _ => none

namespace DoneStep

theorem IsOn.content {d : DoneStep} {zone : Zone} (h : d.IsOn zone) :
    d.left.map Rrset.content = d.item.action.left? := by
  obtain ⟨now, hleft⟩ := h
  rw [hleft, Zones.leftBy, PlannedItem.ttl, PlannedItem.records]
  cases d.item.action with
  | write ttl records =>
      dsimp only [Action.left?]
      split
      · rfl
      · cases zone.rrsets.get? d.item.key <;> rfl
  | delete | keep | nothing => rfl

def changeOn (zone : Zone) (task : Key × Action) : KeyChange :=
  match task.2.left? with
  | some (ttl, records) =>
      .upserted (((zone.rrsets.get? task.1).map Rrset.key).getD task.1) ttl records
  | none => .deleted task.1

theorem IsOn.change {d : DoneStep} {zone : Zone} (h : d.IsOn zone) :
    d.change = changeOn zone d.item.task := by
  have hcontent := h.content
  obtain ⟨now, hleft⟩ := h
  rw [changeOn, PlannedItem.task, ← hcontent, DoneStep.change, hleft, Zones.leftBy]
  split
  · rfl
  · cases zone.rrsets.get? d.item.key <;> rfl

end DoneStep

section Perm

variable {zone : Zone} {done done' : List DoneStep}
  (hperm : (done'.map (·.item.task)).Perm (done.map (·.item.task)))
  (hon : ∀ d ∈ done, d.IsOn zone) (hon' : ∀ d ∈ done', d.IsOn zone)

include hperm hon hon'

theorem Zone.content_after_perm (hnodup : (done.map (·.item.key)).Nodup)
    (hnodup' : (done'.map (·.item.key)).Nodup) (key : Key) :
    (zone.after done').content key = (zone.after done).content key := by
  have hleft {done : List DoneStep} (hnodup : (done.map (·.item.key)).Nodup)
      (hon : ∀ d ∈ done, d.IsOn zone) (action : Action)
      (htask : (key, action) ∈ done.map (·.item.task)) :
      (zone.after done).content key = action.left? := by
    obtain ⟨d, hd, hsame⟩ := List.mem_map.1 htask
    obtain ⟨rfl, rfl⟩ := Prod.mk.inj hsame
    rw [Zone.content, Zone.get?_after_of_mem hnodup hd, (hon d hd).content]
  by_cases htask : ∃ action, (key, action) ∈ done.map (·.item.task)
  · obtain ⟨action, htask⟩ := htask
    rw [hleft hnodup hon action htask, hleft hnodup' hon' action (hperm.mem_iff.2 htask)]
  · have hnone {done' : List DoneStep}
        (hmem : ∀ task ∈ done'.map (·.item.task), task ∈ done.map (·.item.task)) :
        (zone.after done').content key = zone.content key := by
      rw [Zone.content, Zone.get?_after_of_ne, Zone.content]
      rintro d hd rfl
      exact htask ⟨_, hmem _ (List.mem_map_of_mem hd)⟩
    rw [hnone fun task => hperm.mem_iff.1, hnone fun task => id]

theorem DoneStep.perm_changes :
    (done'.map DoneStep.change).Perm (done.map DoneStep.change) := by
  have hchange {done : List DoneStep} (hon : ∀ d ∈ done, d.IsOn zone) :
      done.map DoneStep.change = (done.map (·.item.task)).map (changeOn zone) := by
    rw [List.map_map]
    exact List.map_congr_left fun d hd => (hon d hd).change
  rw [hchange hon, hchange hon']
  exact hperm.map _

end Perm

structure ZoneChange.SameChanges (a b : ZoneChange) : Prop where
  domain : a.domain = b.domain
  changes : a.changes.Perm b.changes

structure Course.SameEffect (s s' : Course) : Prop where
  contents : ∀ name key,
    (s.zones.zone? name).map (·.content key) = (s'.zones.zone? name).map (·.content key)
  announced : List.Forall₂ ZoneChange.SameChanges s.announced s'.announced

def Fate.commit (fate : Fate) (zones : Zones) (domain : String) (plan : Plan) (shape : BatchShape) :
    Except Error BatchOutcome × Course :=
  (Commit.run domain plan shape).run.run fate.follow (.ofZones zones)

theorem Fate.commit_of_calm {fate : Fate} (hcalm : fate.FailsAs fun _ _ => False) {zones : Zones}
    {domain : String} {zone : Zone} (hzone : zones.zone? domain = some zone) {plan : Plan}
    (hnodup : (plan.steps.map (·.key)).Nodup) (shape : BatchShape) :
    ∃ o s done time, fate.commit zones domain plan shape = (.ok o, s)
      ∧ done.map (·.item) = plan.steps ∧ (∀ d ∈ done, d.IsOn zone)
      ∧ s.zones = zones.insert domain (zone.after done.reverse)
      ∧ s.announced = Commit.announcement domain done time := by
  have hmay : fate.FailsAs fun c e => False ∧ Passes c e :=
    fun log c e he => (hcalm log c e he).elim
  have hrun := Commit.leads_run (s := .ofZones zones) hmay shape hnodup (fun h => h.elim) hzone
  rw [Fate.Leads] at hrun
  rw [Fate.commit]
  generalize (Commit.run domain plan shape).run.run fate.follow (.ofZones zones) = run at hrun ⊢
  obtain ⟨e | o, s⟩ := run
  · exact hrun.1.elim
  · obtain ⟨done, time, calls, hsteps, hon, rfl, rfl⟩ := hrun
    exact ⟨_, _, done, time, rfl, hsteps, hon, rfl, List.nil_append _⟩

theorem Commit.forall_announcement {domain : String} {done done' : List DoneStep}
    (hperm : (done'.map DoneStep.change).Perm (done.map DoneStep.change)) (time time' : Instant) :
    List.Forall₂ ZoneChange.SameChanges (announcement domain done time)
      (announcement domain done' time') := by
  have hempty : (done'.map DoneStep.change).isEmpty = (done.map DoneStep.change).isEmpty := by
    rw [Bool.eq_iff_iff, List.isEmpty_iff, List.isEmpty_iff]
    exact ⟨fun h => (h ▸ hperm).nil_eq.symm, fun h => (h ▸ hperm).eq_nil⟩
  rw [announcement, announcement, hempty]
  split
  · exact .nil
  · exact .cons ⟨rfl, hperm.symm⟩ .nil

theorem Plan.sameEffect {plan plan' : Plan}
    (hperm : (plan'.steps.map PlannedItem.task).Perm (plan.steps.map PlannedItem.task))
    (hnodup : (plan.steps.map (·.key)).Nodup) {fate fate' : Fate}
    (hcalm : fate.FailsAs fun _ _ => False) (hcalm' : fate'.FailsAs fun _ _ => False)
    {zones : Zones} {domain : String} {zone : Zone} (hzone : zones.zone? domain = some zone)
    (shape : BatchShape) :
    ∃ o o' s s', fate.commit zones domain plan shape = (.ok o, s)
      ∧ fate'.commit zones domain plan' shape = (.ok o', s') ∧ s.SameEffect s' := by
  have hkeys := hperm.map Prod.fst
  rw [List.map_map, List.map_map] at hkeys
  have hnodup' : (plan'.steps.map (·.key)).Nodup := hkeys.nodup_iff.2 hnodup
  obtain ⟨o, s, done, time, hcommit, hsteps, hon, hzones, hannounced⟩ :=
    Fate.commit_of_calm hcalm hzone hnodup shape
  obtain ⟨o', s', done', time', hcommit', hsteps', hon', hzones', hannounced'⟩ :=
    Fate.commit_of_calm hcalm' hzone hnodup' shape
  have htasks : (done'.map (·.item.task)).Perm (done.map (·.item.task)) := by
    rw [← hsteps, ← hsteps', List.map_map, List.map_map] at hperm
    exact hperm
  refine ⟨o, o', s, s', hcommit, hcommit', fun name key => ?_, ?_⟩
  · rw [hzones, hzones', Zones.zone?_insert, Zones.zone?_insert]
    split
    · have hreversed : (done'.reverse.map (·.item.task)).Perm (done.reverse.map (·.item.task)) :=
        ((List.reverse_perm done').map _).trans
          (htasks.trans ((List.reverse_perm done).map _).symm)
      refine congrArg some (Zone.content_after_perm hreversed
        (fun d hd => hon d (List.mem_reverse.1 hd)) (fun d hd => hon' d (List.mem_reverse.1 hd))
        ?_ ?_ key).symm
      · rw [List.map_reverse, List.nodup_reverse]
        rwa [← hsteps, List.map_map] at hnodup
      · rw [List.map_reverse, List.nodup_reverse]
        rwa [← hsteps', List.map_map] at hnodup'
    · rfl
  · rw [hannounced, hannounced']
    exact Commit.forall_announcement (DoneStep.perm_changes htasks hon hon') time time'

/-- The order of the items makes no difference. A batch is accepted in any order or in none. If it
is not, each item has the same errors where it is, but for the wording; if it is, and no call fails,
committing it leaves the same stored and announces the same changes. -/
theorem order_is_immaterial (ctx : ReviewContext) (snapshot : Snapshot) (batch : Batch)
    (σ : Equiv.Perm (Fin batch.items.length)) :
    match Plan.make ctx batch snapshot, Plan.make ctx (batch.permute σ) snapshot with
    | .ok plan, .ok plan' => ∀ fate fate' : Fate, fate.FailsAs (fun _ _ => False) →
        fate'.FailsAs (fun _ _ => False) → ∀ zones : Zones, (zones.zone? ctx.domain).isSome →
        ∃ o o' s s', fate.commit zones ctx.domain plan batch.shape = (.ok o, s)
          ∧ fate'.commit zones ctx.domain plan' batch.shape = (.ok o', s') ∧ s.SameEffect s'
    | .error errors, .error errors' => errors.items.length = batch.items.length
        ∧ errors'.items.length = batch.items.length
        ∧ ∀ i, ∃ own own', errors.items[(σ i : ℕ)]? = some own ∧ errors'.items[(i : ℕ)]? = some own'
          ∧ own'.Alike own
    | _, _ => False := by
  have hpermuted := batch.isPermuted σ
  by_cases hnone : ∀ i ∈ batch.positions, batch.verdict ctx snapshot i = []
  · have hmake := Plan.make_eq.trans (if_pos hnone)
    have hmake' := Plan.make_eq.trans (if_pos ((hpermuted.verdicts_eq_nil ctx snapshot).2 hnone))
    rw [hmake, hmake']
    intro fate fate' hcalm hcalm' zones hzone
    obtain ⟨zone, hzone⟩ := Option.isSome_iff_exists.1 hzone
    exact Plan.sameEffect (Plan.perm_steps hpermuted.perm hmake hmake')
      (Plan.nodup_step_keys hmake) hcalm hcalm' hzone batch.shape
  · have hmake := Plan.make_eq.trans (if_neg hnone)
    have hmake' := Plan.make_eq.trans
      (if_neg (mt (hpermuted.verdicts_eq_nil ctx snapshot).1 hnone))
    rw [hmake, hmake']
    have hlength := batch.length_permute σ
    refine ⟨by simp [Batch.positions], by simp [Batch.positions, hlength], fun i => ?_⟩
    refine ⟨batch.verdict ctx snapshot (σ i), (batch.permute σ).verdict ctx snapshot i, ?_, ?_, ?_⟩
    · simp [Batch.positions]
    · simp [Batch.positions, hlength]
    · refine .of_headings ?_
      rw [hpermuted.headings_verdict, Batch.onPositions_of_lt]

namespace Example

def swapReversed : Batch := swap.permute (Equiv.swap ⟨0, by decide⟩ ⟨1, by decide⟩)

def shuffled : Batch := received.permute (Equiv.swap ⟨1, by decide⟩ ⟨9, by decide⟩)

end Example

theorem alias_may_come_first :
    (∃ plan plan' o o' s s',
      Plan.make Example.replacing Example.swap Example.addressed.rrsets = .ok plan
        ∧ Plan.make Example.replacing Example.swapReversed Example.addressed.rrsets = .ok plan'
        ∧ Example.calm.commit (Example.stored Example.addressed) "example.com" plan .list
          = (.ok o, s)
        ∧ Example.calm.commit (Example.stored Example.addressed) "example.com" plan' .list
          = (.ok o', s')
        ∧ s.SameEffect s')
    ∧ ∃ (errors errors' : BatchErrors) (own own' : ItemErrors),
      Plan.make Example.adding Example.received Example.hosted = .error errors
        ∧ Plan.make Example.adding Example.shuffled Example.hosted = .error errors'
        ∧ errors.items[2]? = some own ∧ errors'.items[2]? = some own' ∧ own'.Alike own
        ∧ own = [⟨"non_field_errors", .conflict,
          "Same subname and type as in position(s) 1, 4, but must be unique."⟩]
        ∧ own' = [⟨"non_field_errors", .conflict,
          "Same subname and type as in position(s) 4, 9, but must be unique."⟩] := by
  constructor
  · have hmake := Plan.make_eq.trans (if_pos (show ∀ i ∈ Example.swap.positions,
      Example.swap.verdict Example.replacing Example.addressed.rrsets i = [] by decide +kernel))
    have hmake' := Plan.make_eq.trans (if_pos (show ∀ i ∈ Example.swapReversed.positions,
      Example.swapReversed.verdict Example.replacing Example.addressed.rrsets i = []
      by decide +kernel))
    have hcalm := Example.calm_failsAs fun _ _ => False
    have hzone : ((Example.stored Example.addressed).zone? "example.com").isSome = true := by
      rw [Example.stored, Zones.zone?_only]
      rfl
    have hboth := order_is_immaterial Example.replacing Example.addressed.rrsets Example.swap
      (Equiv.swap ⟨0, by decide⟩ ⟨1, by decide⟩)
    rw [show Example.swap.permute _ = Example.swapReversed from rfl, hmake, hmake'] at hboth
    obtain ⟨o, o', s, s', hcommit⟩ := hboth _ _ hcalm hcalm _ hzone
    exact ⟨_, _, o, o', s, s', hmake, hmake', hcommit⟩
  · have hmake := Plan.make_eq.trans (if_neg (show ¬ ∀ i ∈ Example.received.positions,
      Example.received.verdict Example.adding Example.hosted i = [] by decide +kernel))
    have hmake' := Plan.make_eq.trans (if_neg (show ¬ ∀ i ∈ Example.shuffled.positions,
      Example.shuffled.verdict Example.adding Example.hosted i = [] by decide +kernel))
    have hboth := order_is_immaterial Example.adding Example.hosted Example.received
      (Equiv.swap ⟨1, by decide⟩ ⟨9, by decide⟩)
    rw [show Example.received.permute _ = Example.shuffled from rfl, hmake, hmake'] at hboth
    obtain ⟨own, own', hown, hown', halike⟩ := hboth.2.2 ⟨2, by decide⟩
    refine ⟨_, _, own, own', hmake, hmake', hown, hown', halike, ?_, ?_⟩
    · exact Option.some.inj (hown.symm.trans (by decide +kernel))
    · exact Option.some.inj (hown'.symm.trans (by decide +kernel))

end ZoneKeeper
