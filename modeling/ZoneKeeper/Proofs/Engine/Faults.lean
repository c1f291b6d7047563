import ZoneKeeper.Proofs.Engine.Acceptance
import ZoneKeeper.Proofs.Engine.Endings
import ZoneKeeper.Proofs.Traffic.Exclusivity

namespace ZoneKeeper

/-- How the calls of a request that is alone turn out, by those before, and what its clock shows. -/
structure Fate where
  outcome : List CallRecord → StoreCall → Outcome
  clock : List CallRecord → Instant

namespace Fate

def handle (fate : Fate) :
    (a : Act) → Zones × List CallRecord → a.Answer × Zones × List CallRecord
  | .call c, (zones, log) =>
      let o := fate.outcome log c
      let (answer, zones) := o.call c zones
      (answer, zones, log ++ [⟨0, c, o⟩])
  | .readClock, state => (fate.clock state.2, state)
  | .startTimer _, state => (false, state)
  | .push _, state => (true, state)
  | .lock _, state => ((), state)
  | .unlock _, state => ((), state)
  | .wait _, state => ((), state)
  | .stopTimer, state => ((), state)
  | .beginCommit, state => ((), state)
  | .endCommit, state => ((), state)
  | .announce _, state => ((), state)

def reply (fate : Fate) (settings : EngineSettings) (zones : Zones) (r : Request) :
    Except Error Reply :=
  ((Request.run settings r).run.run fate.handle (zones, [])).1

def leaves (fate : Fate) (settings : EngineSettings) (zones : Zones) (r : Request) : Zones :=
  ((Request.run settings r).run.run fate.handle (zones, [])).2.1

def FailsAs (fate : Fate) (fails : StoreCall → Error → Prop) : Prop :=
  ∀ log c e, fate.outcome log c = .failed e → fails c e

end Fate

def Watch.IsOwn (domain : String) (zone? : Option Zone) : Prop :=
  ∀ zone, zone? = some zone → zone.domain.name = domain ∧ zone.IsKeyed

def Watch.alone (fails : StoreCall → Error → Prop) (domain : String) : Watch where
  who := 0
  domain := domain
  may := fun log => ∀ x ∈ log, ∀ e, x.outcome = .failed e → fails x.call e
  keeps := IsOwn domain
  isFault := fun e => ∃ c, fails c e
  mayExpire := False
  isNamed := fun h => (h _ rfl).1
  isKeyed := fun h => (h _ rfl).2
  may_of_append := fun h x hx => h x (List.mem_append_left _ hx)
  isFault_of_may := fun h => ⟨_, h _ (List.mem_append_right _ List.mem_cons_self) _ rfl⟩

namespace Watch

variable {fails : StoreCall → Error → Prop} {domain : String}

theorem alone_suitsBatches : (alone fails domain).SuitsBatches := by
  rintro ctx batch plan zone hkeeps - log tried rest hreaches - _ ⟨⟩
  obtain ⟨hname, hkeyed⟩ := hkeeps zone rfl
  refine ⟨by rw [Zone.domain_after, hname], hkeyed.after fun d hd => ?_⟩
  exact hreaches.isFor d (((Tried.stuck_sublist tried).append_right rest).subset hd)

end Watch

theorem Undisturbed.run {α : Type} {fails : StoreCall → Error → Prop} {fate : Fate}
    (hfate : fate.FailsAs fails) {domain : String} {p : EngineProgram α} {zones : Zones}
    {log : List CallRecord} {post : α → Past → Prop}
    (h : Undisturbed (.alone fails domain) p ⟨zones.zone? domain, log⟩ post)
    (hlog : (Watch.alone fails domain).may log) :
    post (p.run fate.handle (zones, log)).1
        ⟨(p.run fate.handle (zones, log)).2.1.zone? domain, (p.run fate.handle (zones, log)).2.2⟩
      ∧ ∀ name, name ≠ domain →
        (p.run fate.handle (zones, log)).2.1.zone? name = zones.zone? name := by
  induction p generalizing zones log with
  | done a => exact ⟨h, fun _ _ => rfl⟩
  | act a next ih =>
      cases a with
      | call c =>
          obtain ⟨hdomain, hnext⟩ := h
          let o := fate.outcome log c
          have hmay : (Watch.alone fails domain).may (log ++ [⟨0, c, o⟩]) := by
            intro x hx e he
            rcases List.mem_append.1 hx with hx | hx
            · exact hlog x hx e he
            · obtain rfl := List.mem_singleton.1 hx
              exact hfate log c e he
          obtain ⟨hanswer, hafter⟩ := o.call_only hdomain zones
          obtain ⟨-, hrest⟩ := hnext o hmay
          have hlater : Undisturbed (.alone fails domain) (next (o.call c zones).1)
              ⟨(o.call c zones).2.zone? domain, log ++ [⟨0, c, o⟩]⟩ post := by
            rw [hanswer]
            exact hafter ▸ hrest
          obtain ⟨hpost, helse⟩ := ih (o.call c zones).1 hlater hmay
          refine ⟨hpost, fun name hne => (helse name hne).trans (o.zone?_call_of_ne ?_ zones)⟩
          rw [show c.domain? = some domain from hdomain]
          exact fun heq => hne (Option.some.inj heq).symm
      | startTimer => exact ih false h.1 hlog
      | _ => exact ih _ (h _) hlog

def BatchOutcome.Stands (o : BatchOutcome) : Except Error BatchOutcome → Prop
  | .ok o' => o'.shown = o.shown ∧ o'.deleted ⊆ o.deleted
  | .error e => e.kind = .storageFault

def Operation.Storms (operation : Operation) (c : StoreCall) (e : Error) : Prop :=
  e.kind = .storageFault ∧ (operation = .create → c.isRestore = false)

namespace Tried

variable {operation : Operation} {domain : String} {log : List CallRecord} {tried : List Tried}

theorem stuck_eq_nil (hcreate : operation = .create)
    (hmay : (Watch.alone operation.Storms domain).may
      (log ++ tried.map (record (.alone operation.Storms domain)))) : stuck tried = [] := by
  rw [stuck, List.map_eq_nil_iff, List.filter_eq_nil_iff]
  rintro ⟨step, outcome⟩ hx hstuck
  cases outcome with
  | carriedOut => cases hstuck
  | failed e =>
      have hfailed := hmay _ (List.mem_append_right log (List.mem_map_of_mem hx)) e rfl
      exact Bool.noConfusion (hfailed.2 hcreate)

end Tried

namespace Attempt

variable {ctx : ReviewContext} {batch : Batch} {plan : Plan} {zone zone' : Zone}
  {o : BatchOutcome} {domain : String} {past : Past}

theorem accepted_of_ended {t : Watch} {o' : BatchOutcome} {later : Past} (hkeyed : zone.IsKeyed)
    (h : Ended t ctx (.given batch) zone (.ok o') later) :
    ∃ plan, batch.IsAccepted ctx zone plan o' := by
  cases h with
  | applied hplanned hsteps hfor =>
      cases hplanned with
      | made hyields hmake =>
          obtain rfl := hyields
          exact ⟨_, hkeyed, hmake, _, hsteps, hfor, rfl⟩

theorem underway_of_undone (h : batch.IsAccepted ctx zone plan o) (hzone : h.IsUnderway zone')
    {plan' : Plan}
    (hmake : Plan.make ctx batch (.ofRrsets (zone'.listAt batch.touchedSubnames)) = .ok plan')
    (hmay : (Watch.alone ctx.operation.Storms domain).may past.log)
    (hundone : plan'.IsUndone (.alone ctx.operation.Storms domain) zone' past) :
    ∃ later, past.zone = some later ∧ h.IsUnderway later := by
  obtain ⟨log, tried, hreaches, rfl⟩ := hundone
  have hdone : ∀ d ∈ Tried.stuck tried, d ∈ tried.map (·.step) := fun d hd =>
    (Tried.stuck_sublist tried).subset hd
  have hfor : ∀ d ∈ Tried.stuck tried, d.IsFor zone' := fun d hd => hreaches.isFor d (hdone d hd)
  refine ⟨_, rfl, hzone.isKeyed.after hfor, ?_, fun hcreate => ?_⟩
  · refine hzone.underway.after hmake (h.asked_underway hzone hmake) (fun d hd => ?_) hfor
    exact hreaches.steps.subset (List.mem_map_of_mem (List.mem_reverse.2 (hdone d hd)))
  · rw [Tried.stuck_eq_nil hcreate hmay]
    exact hzone.create hcreate

theorem ended_again (h : batch.IsAccepted ctx zone plan o) (hzone : h.IsUnderway zone')
    {r : Except Error BatchOutcome} {later : Past}
    (hholds : (Watch.alone ctx.operation.Storms domain).Holds later)
    (hended : Ended (.alone ctx.operation.Storms domain) ctx (.given batch) zone' r later) :
    o.Stands r ∧ ∀ e, r = .error e → ∃ z, later.zone = some z ∧ h.IsUnderway z := by
  obtain ⟨again, hagain, -⟩ := h.make_underway hzone
  cases hended with
  | late hlate => exact hlate.elim
  | unplanned hplanned hsame =>
      refine ⟨?_, fun _ _ => ⟨zone', hsame, hzone⟩⟩
      cases hplanned with
      | faulty hfault =>
          obtain ⟨c, hkind, -⟩ := hfault
          exact hkind
      | unbuilt hnone => exact hnone.elim
      | refused hyields hmake =>
          obtain rfl := hyields
          cases hmake.symm.trans hagain
  | undone hplanned hfault hundone =>
      obtain ⟨c, hkind, -⟩ := hfault
      cases hplanned with
      | made hyields hmake =>
          obtain rfl := hyields
          exact ⟨hkind, fun _ _ => underway_of_undone h hzone hmake hholds.may hundone⟩
  | applied hplanned hsteps hfor hleft hdated =>
      obtain ⟨plan', haccepted⟩ :=
        accepted_of_ended hzone.isKeyed (.applied hplanned hsteps hfor hleft hdated)
      exact ⟨h.again hzone haccepted, by rintro _ ⟨⟩⟩

theorem undisturbed_again {settings : EngineSettings} {found : Domain} {job : BatchJob}
    (hname : found.name = domain) (hgiven : job.source = .given batch)
    (h : batch.IsAccepted (context settings found job) zone plan o)
    (hholds : (Watch.alone job.operation.Storms domain).Holds past) (hpast : past.zone = some zone)
    (retries attempt : Nat) :
    Undisturbed (.alone job.operation.Storms domain)
      (retrying settings (run settings found job) retries attempt).run past
        fun r _ => o.Stands r := by
  -- each attempt finds the zone somewhere on the way that the batch would have taken it
  refine undisturbed_retrying (I := fun now => (Watch.alone job.operation.Storms domain).Holds now
    ∧ ∃ z, now.zone = some z ∧ h.IsUnderway z) ?_ retries attempt
    ⟨hholds, zone, hpast, h.isKeyed, fun _ => Or.inl rfl, fun _ => rfl⟩
  rintro now ⟨hnow, z, hz, hunderway⟩
  refine (undisturbed_run Watch.alone_suitsBatches settings hname job hz hnow).mono ?_
  rintro r later ⟨hlater, hended⟩
  rw [hgiven] at hended
  obtain ⟨hresult, hfailed⟩ := ended_again h hunderway hlater hended
  exact ⟨hresult, fun e hr _ => ⟨hlater, hfailed e hr⟩⟩

theorem undisturbed_calm {settings : EngineSettings} {found : Domain} (job : BatchJob)
    (hname : found.name = domain) (hholds : (Watch.alone (fun _ _ => False) domain).Holds past)
    (hpast : past.zone = some zone) (retries attempt : Nat) :
    Undisturbed (.alone (fun _ _ => False) domain)
      (retrying settings (run settings found job) retries attempt).run past
        (Ended (.alone (fun _ _ => False) domain) (context settings found job) job.source zone) := by
  refine undisturbed_retrying (I := fun now => (Watch.alone (fun _ _ => False) domain).Holds now
    ∧ now.zone = some zone) ?_ retries attempt ⟨hholds, hpast⟩
  rintro now ⟨hnow, hz⟩
  refine (undisturbed_run Watch.alone_suitsBatches settings hname job hz hnow).mono ?_
  rintro r later ⟨hlater, hended⟩
  refine ⟨hended, ?_⟩
  rintro e rfl -
  cases hended with
  | late hlate => exact hlate.elim
  | unplanned _ hsame => exact ⟨hlater, hsame⟩
  | undone _ hfault => exact absurd hfault (by rintro ⟨_, ⟨⟩⟩)

end Attempt

namespace Request

variable {settings : EngineSettings} {zones : Zones} {principal : Principal} {name : String}
  {operation : Operation} {payload : Json} {floor : Option Nat}

theorem holds_alone (hzones : zones.IsProper) (fails : StoreCall → Error → Prop)
    (domain : String) : (Watch.alone fails domain).Holds ⟨zones.zone? domain, []⟩ :=
  ⟨fun zone hzone => ⟨hzones.isNamed domain zone hzone, hzones.isKeyed domain zone hzone⟩,
    by rintro _ ⟨⟩⟩

theorem ofJson_of_reply {fate : Fate} {o : BatchOutcome}
    (h : fate.reply settings zones (.write principal name operation payload floor)
      = .ok (.outcome o)) : ∃ batch, Batch.ofJson payload = .ok batch := by
  cases hread : Batch.ofJson payload with
  | ok batch => exact ⟨batch, rfl⟩
  | error errors =>
      simp only [Fate.reply, run, hread] at h
      cases h

theorem reply_of_applyFor {fails : StoreCall → Error → Prop} {fate : Fate}
    (hfate : fate.FailsAs fails) {batch : Batch} (hread : Batch.ofJson payload = .ok batch)
    {post : Except Error BatchOutcome → Prop}
    (h : Undisturbed (.alone fails (normalizeDomain name))
      (applyFor settings principal name ⟨operation, .given batch, floor⟩).run
      ⟨zones.zone? (normalizeDomain name), []⟩ fun r _ => post r) :
    ∃ r, post r ∧ fate.reply settings zones (.write principal name operation payload floor)
      = r.map Reply.outcome := by
  have hwrite : Undisturbed (.alone fails (normalizeDomain name))
      (run settings (.write principal name operation payload floor)).run
      ⟨zones.zone? (normalizeDomain name), []⟩
      fun result _ => ∃ r, post r ∧ result = r.map Reply.outcome := by
    simp only [run, hread]
    refine h.engine_bind ?_ ?_
    · exact fun e _ hpost => ⟨.error e, hpost, rfl⟩
    · exact fun o _ hpost => ⟨.ok o, hpost, rfl⟩
  exact (hwrite.run hfate (by rintro _ ⟨⟩)).1

theorem accepted_of_calm (hzones : zones.IsProper) {calm : Fate}
    (hcalm : calm.FailsAs fun _ _ => False) {batch : Batch}
    (hread : Batch.ofJson payload = .ok batch) {o : BatchOutcome}
    (h : calm.reply settings zones (.write principal name operation payload floor)
      = .ok (.outcome o)) :
    ∃ zone plan, zones.zone? (normalizeDomain name) = some zone
      ∧ principal.owns zone.domain = true
      ∧ batch.IsAccepted (Attempt.context settings zone.domain ⟨operation, .given batch, floor⟩)
          zone plan o := by
  let t := Watch.alone (fun _ _ => False) (normalizeDomain name)
  let job : BatchJob := ⟨operation, .given batch, floor⟩
  have happly : Undisturbed t (applyFor settings principal name job).run
      ⟨zones.zone? (normalizeDomain name), []⟩ fun r _ => ∀ o, r = .ok o →
        ∃ zone plan, zones.zone? (normalizeDomain name) = some zone
          ∧ principal.owns zone.domain = true
          ∧ batch.IsAccepted (Attempt.context settings zone.domain job) zone plan o := by
    refine undisturbed_visibleDomain rfl (holds_alone hzones _ _)
      (fun e later _ _ _ => by rintro _ ⟨⟩) fun zone later hlater hzone hsame howns => ?_
    have hproper := hlater.keeps zone hsame
    refine (Attempt.undisturbed_calm job hproper.1 hlater hsame _ _).mono ?_
    rintro r _ hended o rfl
    obtain ⟨plan, hplan⟩ := Attempt.accepted_of_ended hproper.2 hended
    exact ⟨zone, plan, hzone, howns, hplan⟩
  obtain ⟨r, hr, hreply⟩ := reply_of_applyFor hcalm hread happly
  rw [h] at hreply
  cases r with
  | error e => cases hreply
  | ok o' =>
      obtain rfl := Reply.outcome.inj (Except.ok.inj hreply)
      exact hr o rfl

end Request

theorem faults_do_not_reject {settings : EngineSettings} {zones : Zones} (hzones : zones.IsProper)
    {principal : Principal} {name : String} {operation : Operation} {payload : Json}
    {floor : Option Nat} {calm stormy : Fate} (hcalm : calm.FailsAs fun _ _ => False)
    (hstormy : stormy.FailsAs operation.Storms) {o : BatchOutcome}
    (haccepted : calm.reply settings zones (.write principal name operation payload floor)
      = .ok (.outcome o)) :
    (∃ o', stormy.reply settings zones (.write principal name operation payload floor)
        = .ok (.outcome o') ∧ o'.shown = o.shown ∧ o'.deleted ⊆ o.deleted)
      ∨ ∃ e, stormy.reply settings zones (.write principal name operation payload floor) = .error e
          ∧ e.kind = .storageFault := by
  obtain ⟨batch, hread⟩ := Request.ofJson_of_reply haccepted
  obtain ⟨zone, plan, hzone, howns, hplan⟩ :=
    Request.accepted_of_calm hzones hcalm hread haccepted
  let t := Watch.alone operation.Storms (normalizeDomain name)
  have happly : Undisturbed t
      (Request.applyFor settings principal name ⟨operation, .given batch, floor⟩).run
      ⟨zones.zone? (normalizeDomain name), []⟩ fun r _ => o.Stands r := by
    refine Request.undisturbed_visibleDomain rfl (Request.holds_alone hzones _ _) ?_ ?_
    · rintro e later - - (⟨c, hkind, -⟩ | ⟨-, hforeign⟩)
      · exact hkind
      · exact absurd ((hforeign zone hzone).symm.trans howns) Bool.false_ne_true
    · intro found later hlater hfound hsame _
      obtain rfl := Option.some.inj (hzone.symm.trans hfound)
      exact Attempt.undisturbed_again (t.isNamed (hsame ▸ hlater.keeps)) rfl hplan hlater hsame _ _
  -- so far it was shown of any calls that fail so; now of the ones of this fate
  obtain ⟨r, hstands, hreply⟩ := Request.reply_of_applyFor hstormy hread happly
  rw [hreply]
  cases r with
  | ok o' => exact Or.inl ⟨o', rfl, hstands⟩
  | error e => exact Or.inr ⟨e, rfl, hstands⟩

namespace Example

def calm : Fate := ⟨fun _ _ => .carriedOut ⟨0, 0⟩, fun _ => ⟨0, 0⟩⟩

def outage (calls : List Nat) : Fate where
  outcome := fun log _ =>
    if calls.contains log.length then .failed (.storage "full") else .carriedOut ⟨0, 0⟩
  clock := fun _ => ⟨0, 0⟩

def bare : Zone := ⟨addressed.domain, SortedMap.empty⟩

def stored (zone : Zone) : Zones := .only "example.com" (some zone)

def swapped (fate : Fate) : Except Error Reply :=
  fate.reply .default (stored addressed) Traffic.Example.swapWww

def created (fate : Fate) : Except Error Reply :=
  fate.reply .default (stored bare) Traffic.Example.createBoth

theorem calm_failsAs (fails : StoreCall → Error → Prop) : calm.FailsAs fails := by
  rintro _ _ _ ⟨⟩

theorem kind_of_outage {calls : List Nat} {log : List CallRecord} {c : StoreCall} {e : Error}
    (h : (outage calls).outcome log c = .failed e) : e.kind = .storageFault := by
  dsimp only [outage] at h
  split at h
  · obtain rfl := Outcome.failed.inj h
    rfl
  · cases h

theorem isProper_addressed : (stored addressed).IsProper := by
  refine Zones.isProper_only rfl (Zone.IsKeyed.put (fun _ _ hr => ?_) ?_)
  · cases hr
  · rintro _ ⟨⟩
    rfl

theorem isProper_bare : (stored bare).IsProper :=
  Zones.isProper_only rfl (by rintro _ _ ⟨⟩)

def isAccepted : Except Error Reply → Bool
  | .ok (.outcome _) => true
  | _ => false

def isRejected : Except Error Reply → Bool
  | .error (.rejected _) => true
  | _ => false

theorem exists_of_isAccepted {r : Except Error Reply} (h : isAccepted r = true) :
    ∃ o, r = .ok (.outcome o) := by
  unfold isAccepted at h
  split at h
  · exact ⟨_, rfl⟩
  · cases h

theorem exists_of_isRejected {r : Except Error Reply} (h : isRejected r = true) :
    ∃ errors, r = .error (.rejected errors) := by
  unfold isRejected at h
  split at h
  · exact ⟨_, rfl⟩
  · cases h

end Example

theorem outage_is_outlived : ∃ o o', Example.swapped Example.calm = .ok (.outcome o)
    ∧ Example.swapped (Example.outage [6, 7]) = .ok (.outcome o') ∧ o'.shown = o.shown := by
  have haccepted : Example.isAccepted (Example.swapped Example.calm) = true := by
    decide +kernel
  have houtlived : Example.isAccepted (Example.swapped (Example.outage [6, 7])) = true := by
    decide +kernel
  obtain ⟨o, ho⟩ := Example.exists_of_isAccepted haccepted
  obtain ⟨o', ho'⟩ := Example.exists_of_isAccepted houtlived
  have hstormy : (Example.outage [6, 7]).FailsAs Operation.replace.Storms :=
    fun _ _ _ h => ⟨Example.kind_of_outage h, by rintro ⟨⟩⟩
  rcases faults_do_not_reject Example.isProper_addressed (Example.calm_failsAs _) hstormy ho with
    ⟨o'', hagain, hshown, -⟩ | ⟨e, hfault, -⟩
  · exact ⟨o, o'', ho, hagain, hshown⟩
  · cases ho'.symm.trans hfault

theorem remains_are_refused : ∃ o errors, (Example.stored Example.bare).IsProper
    ∧ (Example.outage [5, 6]).FailsAs (fun _ e => e.kind = .storageFault)
    ∧ Example.created Example.calm = .ok (.outcome o)
    ∧ Example.created (Example.outage [5, 6]) = .error (.rejected errors) := by
  have haccepted : Example.isAccepted (Example.created Example.calm) = true := by
    decide +kernel
  have hrejected : Example.isRejected (Example.created (Example.outage [5, 6])) = true := by
    decide +kernel
  obtain ⟨o, ho⟩ := Example.exists_of_isAccepted haccepted
  obtain ⟨errors, herrors⟩ := Example.exists_of_isRejected hrejected
  exact ⟨o, errors, Example.isProper_bare, fun _ _ _ => Example.kind_of_outage, ho, herrors⟩

end ZoneKeeper
