import ZoneKeeper.Proofs.Engine.Meaning
import ZoneKeeper.Proofs.Engine.Transience

namespace ZoneKeeper

def Act.Reads : Act → Prop
  | .call c => c.isRead = true
  | .announce _ => False
  | _ => True

structure Course.OnlyReads (s later : Course) : Prop where
  zones : later.zones = s.zones
  announced : later.announced = s.announced
  calls : ∀ x ∈ later.calls, x ∈ s.calls ∨ x.call.isRead = true

namespace Course.OnlyReads

variable {s later last : Course}

theorem of_eq (hzones : later.zones = s.zones) (hannounced : later.announced = s.announced)
    (hcalls : later.calls = s.calls) : s.OnlyReads later :=
  ⟨hzones, hannounced, fun _ hx => Or.inl (hcalls ▸ hx)⟩

theorem trans (h : s.OnlyReads later) (h' : later.OnlyReads last) : s.OnlyReads last :=
  ⟨h'.zones.trans h.zones, h'.announced.trans h.announced,
    fun x hx => (h'.calls x hx).elim (h.calls x) Or.inr⟩

theorem afterCall {c : StoreCall} (h : c.isRead = true) (o : Outcome) :
    s.OnlyReads (s.afterCall c o) := by
  refine ⟨?_, rfl, fun x hx => ?_⟩
  · cases o with
    | failed e => rfl
    | carriedOut now => exact Zones.call_of_isRead h
  · rcases List.mem_append.1 hx with hx | hx
    · exact Or.inl hx
    · obtain rfl := List.mem_singleton.1 hx
      exact Or.inr h

end Course.OnlyReads

theorem Fate.leads_of_reads (fate : Fate) {α : Type} {p : EngineProgram α} (hp : p.Each Act.Reads)
    (s : Course) : fate.Leads p s fun _ later => s.OnlyReads later := by
  induction p generalizing s with
  | done a => exact .of_eq rfl rfl rfl
  | act a next ih =>
      have hact : s.OnlyReads (fate.follow a s).2 := by
        cases a with
        | call c => exact .afterCall hp.1 _
        | announce => exact hp.1.elim
        | _ => exact .of_eq rfl rfl rfl
      exact hact.trans (ih _ (hp.2 _) _)

theorem Attempt.reads_prepareWithin (milliseconds : Nat) (ctx : ReviewContext)
    (source : BatchSource) :
    EngineProgram.Each Act.Reads (prepareWithin milliseconds ctx source).run := by
  have hsuits : Act.SuitsPreparing Act.Reads ctx.domain := ⟨trivial, trivial, rfl, fun _ => rfl⟩
  refine ⟨trivial, ?_⟩
  rintro (_ | _)
  · exact (each_prepare hsuits source).bind fun _ => ⟨trivial, fun _ => trivial⟩
  · exact ⟨trivial, fun _ => trivial⟩

namespace Plan

section Again

variable {ctx : ReviewContext} {batch : Batch} {snapshot snapshot' : Snapshot} {plan plan' : Plan}
  {zone zone' : Zone}

theorem steps_eq_nil (hmake : make ctx batch snapshot = .ok plan)
    (hagrees : Review.Agrees batch snapshot zone)
    (hdone : ∀ p ∈ plan.items, zone.content p.key = p.target) : plan.steps = [] := by
  refine List.eq_nil_iff_forall_not_mem.2 fun p hp => ?_
  have hmem := (mem_steps hp).1
  have hstored : (snapshot.get? p.key).map Rrset.content = p.target := by
    rw [hagrees p.key (mem_touchedSubnames hmake hmem)]
    exact hdone p hmem
  rcases step_changes hmake hp with ⟨ttl, records, hwrite, -, hnew⟩ | ⟨hdelete, hthere⟩
  · rw [PlannedItem.target, hwrite] at hstored
    obtain ⟨r, hr, hsame⟩ := Option.map_eq_some_iff.1 hstored
    exact hnew r hr (Prod.mk.inj hsame)
  · rw [PlannedItem.target, hdelete] at hstored
    rw [Option.map_eq_none_iff.1 hstored] at hthere
    cases hthere

theorem make_after {done : List DoneStep} (hmake : make ctx batch snapshot = .ok plan)
    (hagrees : Review.Agrees batch snapshot zone) (hsteps : done.map (·.item) = plan.steps)
    (hfor : ∀ d ∈ done, d.IsFor zone)
    (hagrees' : Review.Agrees batch snapshot' (zone.after done.reverse))
    (hcreate : ctx.operation ≠ .create) :
    ∃ plan', make ctx batch snapshot' = .ok plan' ∧ plan'.steps = [] := by
  have hunderway : plan.IsUnderway zone (zone.after done.reverse) :=
    IsUnderway.after (fun _ => Or.inl rfl) hmake rfl
      (fun d hd => hsteps ▸ List.mem_map_of_mem (List.mem_reverse.1 hd))
      fun d hd => hfor d (List.mem_reverse.1 hd)
  obtain ⟨plan', hmake', hasked⟩ := make_again hmake hagrees hagrees' hunderway hcreate
  refine ⟨plan', hmake', steps_eq_nil hmake' hagrees' fun p hp => ?_⟩
  obtain ⟨q, hq, hkey, htarget⟩ := exists_asked hasked hp
  rw [← hkey, content_after hmake hagrees hsteps hfor hq, htarget]

end Again

theorem deletes_eq_nil {plan : Plan} (hidle : plan.steps = []) :
    plan.items.filter (·.action.isDelete) = [] := (List.append_eq_nil_iff.1 hidle).1

end Plan

theorem Commit.leads_run_idle (fate : Fate) {plan : Plan} (hidle : plan.steps = [])
    (domain : String) (shape : BatchShape) (s : Course) :
    fate.Leads (run domain plan shape).run s fun r later =>
      r = .ok (outcome domain plan shape []) ∧ s.OnlyReads later := by
  rw [run, hidle]
  exact ⟨rfl, .of_eq rfl rfl rfl⟩

theorem Course.Gets.eq_of_unhurt {α : Type} {right r : Except Error α} {s later : Course}
    {earlier : List (Option Error)}
    (h : Gets right { s with attempts := none :: earlier } r later)
    (hunhurt : ∀ noted ∈ later.attempts, noted = none) : r = right := by
  cases h with
  | right => rfl
  | fault => cases hunhurt _ List.mem_cons_self

namespace Attempt

section Idle

variable {calm : Fate} (hcalm : calm.FailsAs fun _ _ => False) (settings : EngineSettings)
  {found : Domain} {job : BatchJob} {zone : Zone} {plan : Plan} {shape : BatchShape} {s : Course}
  (hzone : s.zones.zone? found.name = some zone) (hunhurt : ∀ noted ∈ s.attempts, noted = none)
  (hplanned : planned (context settings found job) job.source zone = .ok (plan, shape))
  (hidle : plan.steps = [])

include hcalm hzone hunhurt hplanned hidle

theorem leads_run_idle : calm.Leads (run settings found job).run s fun r later =>
    r = .ok (Commit.outcome found.name plan shape []) ∧ s.OnlyReads later := by
  let ctx := context settings found job
  let p := (prepareWithin settings.requestTimeout ctx job.source).run
  have hgets : calm.Leads p s _ := gets_prepareWithin hcalm.passes hzone settings.requestTimeout
  have hreads : calm.Leads p s fun _ later => s.OnlyReads later :=
    calm.leads_of_reads (reads_prepareWithin settings.requestTimeout ctx job.source) s
  have hprepare : calm.Leads p s fun r later => r = .ok (plan, shape) ∧ s.OnlyReads later :=
    ⟨(hgets.eq_of_unhurt (Fate.attempts_of_calm hcalm p hunhurt)).trans hplanned, hreads⟩
  refine Fate.Leads.engine_bind hprepare ?_ ?_
  · rintro e _ ⟨⟨⟩, -⟩
  · rintro _ later ⟨⟨⟩, hlater⟩
    obtain ⟨hdone, hlast⟩ := Commit.leads_run_idle calm hidle found.name shape later
    exact ⟨hdone, hlater.trans hlast⟩

theorem leads_retrying_idle (retries attempt : Nat) :
    calm.Leads (retrying settings (run settings found job) retries attempt).run s fun r later =>
      r = .ok (Commit.outcome found.name plan shape []) ∧ s.OnlyReads later := by
  have hrun := leads_run_idle hcalm settings hzone hunhurt hplanned hidle
  cases retries with
  | zero => exact hrun
  | succ retries =>
      rw [run_retrying]
      refine hrun.bind ?_
      rintro _ later ⟨rfl, hlater⟩
      exact ⟨rfl, hlater⟩

end Idle

theorem planned_given {ctx : ReviewContext} {batch : Batch} {zone : Zone} {plan : Plan}
    {shape : BatchShape} : planned ctx (.given batch) zone = .ok (plan, shape)
      ↔ Plan.make ctx batch (.ofRrsets (zone.listAt batch.touchedSubnames)) = .ok plan
        ∧ batch.shape = shape := by
  dsimp only [planned, BatchSource.batchOn, bind, Except.bind]
  cases Plan.make ctx batch (.ofRrsets (zone.listAt batch.touchedSubnames)) <;> simp

end Attempt

namespace Request

variable {settings : EngineSettings} {zones : Zones} {principal : Principal} {name : String}

theorem Applies.exists_plan {job : BatchJob} {o : BatchOutcome} {s : Course}
    (h : Applies settings zones principal name job (.ok o) s) :
    ∃ zone plan shape done, zones.zone? (normalizeDomain name) = some zone
      ∧ principal.owns zone.domain = true
      ∧ Attempt.planned (Attempt.context settings zone.domain job) job.source zone
        = .ok (plan, shape)
      ∧ done.map (·.item) = plan.steps ∧ (∀ d ∈ done, d.IsFor zone)
      ∧ o = Commit.outcome zone.domain.name plan shape done
      ∧ s.zones = zones.insert zone.domain.name (zone.after done.reverse) := by
  cases h with
  | tried hzone howns hretried =>
      cases hretried with
      | settled _ hsettles _ _ hleft =>
          cases hsettles with
          | applied hplanned hsteps hfor =>
              exact ⟨_, _, _, _, hzone, howns, hplanned, hsteps, hfor, rfl, hleft⟩

theorem leads_applyFor_idle {calm : Fate} (hcalm : calm.FailsAs fun _ _ => False) {zone : Zone}
    (hzone : zones.zone? (normalizeDomain name) = some zone)
    (hname : zone.domain.name = normalizeDomain name) (howns : principal.owns zone.domain = true)
    {job : BatchJob} {plan : Plan} {shape : BatchShape}
    (hplanned : Attempt.planned (Attempt.context settings zone.domain job) job.source zone
      = .ok (plan, shape))
    (hidle : plan.steps = []) :
    calm.Leads (applyFor settings principal name job).run (.ofZones zones) fun r later =>
      r = .ok (Commit.outcome zone.domain.name plan shape [])
        ∧ (Course.ofZones zones).OnlyReads later := by
  refine leads_visibleDomain (fun e he => hcalm _ _ _ he) (fun calls hforeign => ?_)
    fun now own hown _ => ?_
  · exact absurd ((hforeign zone hzone).symm.trans howns) Bool.false_ne_true
  · obtain rfl := Option.some.inj (hzone.symm.trans hown)
    have hlooked : (Course.ofZones zones).OnlyReads
        ((Course.ofZones zones).afterCall (.getDomain (normalizeDomain name)) (.carriedOut now)) :=
      .afterCall rfl _
    refine (Attempt.leads_retrying_idle hcalm settings (hname ▸ hzone) (by rintro _ ⟨⟩) hplanned
      hidle settings.maxRetries 0).mono ?_
    exact fun _ _ h => ⟨h.1, hlooked.trans h.2⟩

end Request

/-- Unless it creates, a batch that is accepted while no call fails is accepted again afterwards.
The second time it only reads and announces nothing: every set stays as it is, with its dates, and
what is shown is what was shown at first, with nothing deleted. -/
theorem applied_again_changes_nothing {settings : EngineSettings} {zones : Zones}
    (hzones : zones.IsProper) {operation : Operation} (hoperation : operation ≠ .create)
    {batch : Batch} {floor : Option Nat} {principal : Principal} {name : String}
    {first second : Fate} (hfirst : first.FailsAs fun _ _ => False)
    (hsecond : second.FailsAs fun _ _ => False) {o : BatchOutcome} {s : Course}
    (haccepted : first.apply settings zones principal name ⟨operation, .given batch, floor⟩
      = (.ok o, s)) :
    ∃ o' s', second.apply settings s.zones principal name ⟨operation, .given batch, floor⟩
        = (.ok o', s')
      ∧ s'.zones = s.zones ∧ s'.announced = [] ∧ (∀ x ∈ s'.calls, x.call.isRead = true)
      ∧ o'.views = o.views ∧ o'.deleted = [] := by
  let job : BatchJob := ⟨operation, .given batch, floor⟩
  have happlies : Request.Applies settings zones principal name job _ _ :=
    Request.leads_applyFor hfirst.passes settings hzones principal job fun e he => hfirst _ _ _ he
  rw [← Fate.apply, haccepted] at happlies
  obtain ⟨zone, plan, shape, done, hzone, howns, hplanned, hsteps, hfor, rfl, hleft⟩ :=
    happlies.exists_plan
  obtain ⟨hmake, rfl⟩ := Attempt.planned_given.1 hplanned
  have hname := hzones.isNamed _ _ hzone
  have hkeyed := hzones.isKeyed _ _ hzone
  have hagrees := Review.agrees_of_isKeyed hkeyed batch
  -- what the first time has left, and the plan that is made on it
  let zone' := zone.after done.reverse
  have hdomain : zone'.domain = zone.domain := Zone.domain_after ..
  have hkeyed' : zone'.IsKeyed := hkeyed.after fun d hd => hfor d (List.mem_reverse.1 hd)
  have hagrees' := Review.agrees_of_isKeyed hkeyed' batch
  obtain ⟨plan', hmake', hidle⟩ := Plan.make_after hmake hagrees hsteps hfor hagrees' hoperation
  have hzone' : s.zones.zone? (normalizeDomain name) = some zone' := by
    rw [hleft, hname, Zones.zone?_insert_self]
  have hplanned' : Attempt.planned (Attempt.context settings zone'.domain job) job.source zone'
      = .ok (plan', batch.shape) := by
    rw [hdomain]
    exact Attempt.planned_given.2 ⟨hmake', rfl⟩
  obtain ⟨hdone, hreads⟩ := Request.leads_applyFor_idle hsecond hzone' (hdomain ▸ hname)
    (hdomain ▸ howns) hplanned' hidle
  refine ⟨_, _, Prod.ext hdone rfl, hreads.zones, hreads.announced, fun x hx => ?_, ?_, ?_⟩
  · exact (hreads.calls x hx).resolve_left List.not_mem_nil
  · have hnone : ([] : List DoneStep).map (·.item) = plan'.steps := hidle.symm
    have hviews := Commit.views_outcome hmake' hagrees' hnone (by rintro _ ⟨⟩) zone'.domain.name
      batch.shape
    rw [hviews, Commit.views_outcome hmake hagrees hsteps hfor, hdomain]
    rfl
  · exact congrArg (List.map _) (Plan.deletes_eq_nil hidle)

theorem swap_again_changes_nothing : ∃ o s o' s', Example.swapUnder Example.calm = (.ok o, s)
    ∧ o.deleted = [⟨"www", "A"⟩] ∧ s.announced ≠ []
    ∧ Example.calm.apply .default s.zones ⟨"alice"⟩ "example.com" Example.swapping = (.ok o', s')
    ∧ s'.zones = s.zones ∧ s'.announced = [] ∧ o'.views = o.views ∧ o'.deleted = [] := by
  have hdeleted : ((Example.swapUnder Example.calm).1.map (·.deleted)).toOption
      = some [⟨"www", "A"⟩] := by decide +kernel
  have hannounced : (Example.swapUnder Example.calm).2.announced ≠ [] := by decide +kernel
  have hcalm := Example.calm_failsAs fun _ _ => False
  cases hfirst : Example.swapUnder Example.calm with
  | mk r s =>
      rw [hfirst] at hdeleted hannounced
      cases r with
      | error e => cases hdeleted
      | ok o =>
          obtain ⟨o', s', hagain, hzones, hnone, -, hviews, hnothing⟩ :=
            applied_again_changes_nothing Example.isProper_addressed (by decide) hcalm hcalm hfirst
          exact ⟨o, s, o', s', rfl, Option.some.inj hdeleted, hannounced, hagain, hzones, hnone,
            hviews, hnothing⟩

end ZoneKeeper
