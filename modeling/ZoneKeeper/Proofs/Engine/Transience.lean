import Mathlib.Algebra.Group.Nat.Defs
import ZoneKeeper.Proofs.Engine.Course
import ZoneKeeper.Proofs.Engine.Retries
import ZoneKeeper.Proofs.Text.Reader

namespace ZoneKeeper

theorem BatchSource.fault?_eq (source : BatchSource) (ctx : ReviewContext) (zone : Zone) :
    source.fault? zone = match Attempt.planned ctx source zone with
      | .ok _ => none
      | .error e => if e.isRetryable then some e else none := by
  rw [fault?, Attempt.planned]
  cases source.batchOn zone with
  | error e => rfl
  | ok batch =>
      dsimp only [bind, Except.bind]
      cases Plan.make ctx batch (.ofRrsets (zone.listAt batch.touchedSubnames)) with
      | ok plan => rfl
      | error errors => rfl

namespace Attempt

variable {fate : Fate} {s : Course} {zone zone' : Zone} {ctx : ReviewContext} {source : BatchSource}
  {r : Except Error BatchOutcome} {changes : List ZoneChange}

inductive Settles (ctx : ReviewContext) (source : BatchSource) (zone : Zone) :
    Except Error BatchOutcome → Zone → List ZoneChange → Prop where
  | refused {e : Error} (hplanned : planned ctx source zone = .error e) :
      Settles ctx source zone (.error e) zone []
  | applied {plan : Plan} {shape : BatchShape} {done : List DoneStep} {time : Instant}
      (hplanned : planned ctx source zone = .ok (plan, shape))
      (hsteps : done.map (·.item) = plan.steps) (hfor : ∀ d ∈ done, d.IsFor zone) :
      Settles ctx source zone (.ok (Commit.outcome ctx.domain plan shape done))
        (zone.after done.reverse) (Commit.announcement ctx.domain done time)

inductive Fares (ctx : ReviewContext) (source : BatchSource) (zone : Zone) (s : Course) :
    Except Error BatchOutcome → Course → Prop where
  | hit {noted : Option Error} {e : Error} {calls : List CallRecord}
      (hhit : noted.or (source.fault? zone) = some e) (hretryable : e.isRetryable = true) :
      Fares ctx source zone s (.error e)
        { s with calls := calls, attempts := noted :: s.attempts }
  | settled {r : Except Error BatchOutcome} {zone' : Zone} {changes : List ZoneChange}
      {calls : List CallRecord} (hown : source.fault? zone = none)
      (hlasting : ∀ e, r = .error e → e.isRetryable = false)
      (h : Settles ctx source zone r zone' changes) :
      Fares ctx source zone s r
        { s with
          zones := s.zones.insert ctx.domain zone', calls := calls,
          attempts := none :: s.attempts, announced := s.announced ++ changes }

theorem exists_batch {plan : Plan} {shape : BatchShape}
    (h : planned ctx source zone = .ok (plan, shape)) :
    ∃ batch : Batch, shape = batch.shape
      ∧ Plan.make ctx batch (.ofRrsets (zone.listAt batch.touchedSubnames)) = .ok plan := by
  obtain ⟨batch, -, hplan⟩ := bind_eq_ok.1 h
  split at hplan
  · next own hmake =>
      cases hplan
      exact ⟨batch, rfl, hmake⟩
  · cases hplan

theorem fares_of_refused {e : Error} {calls : List CallRecord}
    (hzone : s.zones.zone? ctx.domain = some zone) (hplanned : planned ctx source zone = .error e) :
    Fares ctx source zone s (.error e)
      { s with calls := calls, attempts := none :: s.attempts } := by
  have hown := source.fault?_eq ctx zone
  simp only [hplanned] at hown
  by_cases hretryable : e.isRetryable = true
  · rw [if_pos hretryable] at hown
    exact .hit (by rw [hown]; rfl) hretryable
  · rw [if_neg hretryable] at hown
    have hlasting : ∀ e', (Except.error e : Except Error BatchOutcome) = .error e' →
        e'.isRetryable = false := by
      rintro _ ⟨⟩
      simpa using hretryable
    have hsettled : Fares ctx source zone s (.error e)
        { s with
          zones := s.zones.insert ctx.domain zone, calls := calls,
          attempts := none :: s.attempts, announced := s.announced ++ [] } :=
      .settled hown hlasting (.refused hplanned)
    rwa [Zones.insert_of_zone? hzone, List.append_nil] at hsettled

theorem leads_run (hfate : fate.FailsAs Passes) (settings : EngineSettings) {found : Domain}
    (job : BatchJob) (hkeyed : zone.IsKeyed) (hzone : s.zones.zone? found.name = some zone) :
    fate.Leads (run settings found job).run s
      (Fares (context settings found job) job.source zone s) := by
  let ctx := context settings found job
  have hprepare : fate.Leads (prepareWithin settings.requestTimeout ctx job.source).run s _ :=
    gets_prepareWithin hfate hzone settings.requestTimeout
  refine Fate.Leads.engine_bind hprepare ?_ ?_
  · rintro e _ hlater
    generalize hr : (Except.error e : Except Error (Plan × BatchShape)) = r at hlater
    cases hlater with
    | right => exact fares_of_refused hzone hr.symm
    | fault hretryable =>
        cases hr
        exact .hit rfl hretryable
  · rintro ⟨plan, shape⟩ _ hlater
    generalize hr : (Except.ok (plan, shape) : Except Error (Plan × BatchShape)) = r at hlater
    cases hlater with
    | fault => cases hr
    | @right calls =>
        obtain ⟨batch, rfl, hmake⟩ := exists_batch hr.symm
        let planning : Course := { s with calls := calls, attempts := none :: s.attempts }
        have hprevious := previous_of_make hkeyed hmake
        have hmay : fate.FailsAs fun c e => True ∧ Passes c e :=
          fun log c e he => ⟨trivial, hfate log c e he⟩
        have hcommit : fate.Leads (Commit.run found.name plan batch.shape).run planning _ :=
          Commit.leads_run hmay batch.shape (Plan.nodup_step_keys hmake) (fun _ => hprevious) hzone
        refine hcommit.mono ?_
        rintro (e | o) _ hpost
        · obtain ⟨-, hretryable, calls, rfl⟩ := hpost
          exact .hit rfl hretryable
        · obtain ⟨done, time, calls, hsteps, hon, rfl, rfl⟩ := hpost
          have hfor : ∀ d ∈ done, d.IsFor zone := fun d hd =>
            ⟨hprevious d.item (hsteps ▸ List.mem_map_of_mem hd), hon d hd⟩
          have hown := job.source.fault?_eq ctx zone
          rw [← hr] at hown
          exact .settled hown (by rintro _ ⟨⟩) (.applied hr.symm hsteps hfor)

def hits (own : Option Error) (s : Course) : List Error :=
  s.attempts.reverse.filterMap (·.or own)

inductive Retried (settings : EngineSettings) (ctx : ReviewContext) (source : BatchSource)
    (zone : Zone) (s : Course) (retries : Nat) : Except Error BatchOutcome → Course → Prop where
  | settled {r : Except Error BatchOutcome} {later : Course} {zone' : Zone}
      {changes : List ZoneChange} {faults : List Error} (hown : source.fault? zone = none)
      (h : Settles ctx source zone r zone' changes)
      (hhits : hits none later = hits none s ++ faults) (hfew : faults.length ≤ retries)
      (hzones : later.zones = s.zones.insert ctx.domain zone')
      (hannounced : later.announced = s.announced ++ changes) :
      Retried settings ctx source zone s retries r later
  | exhausted {e : Error} {later : Course} {faults : List Error}
      (hhits : hits (source.fault? zone) later = hits (source.fault? zone) s ++ faults ++ [e])
      (hmany : faults.length = retries)
      (hattempts : later.attempts.length = s.attempts.length + (retries + 1))
      (hpauses : later.pauses = s.pauses ++ (List.range' s.attempts.length retries).map
        fun k => (k + 1, delay settings k))
      (hzones : later.zones = s.zones) (hannounced : later.announced = s.announced) :
      Retried settings ctx source zone s retries (.error e) later

theorem hits_of_hit {own noted : Option Error} {e : Error} (h : noted.or own = some e)
    {s later : Course} (hlater : later.attempts = noted :: s.attempts) :
    hits own later = hits own s ++ [e] := by
  simp [hits, hlater, h]

theorem hits_of_settled {s later : Course} (hlater : later.attempts = none :: s.attempts) :
    hits none later = hits none s ++ [] := by
  simp [hits, hlater]

theorem Retried.again {settings : EngineSettings} {retries : Nat} {begun later : Course}
    {noted : Option Error} {e : Error} (hhit : noted.or (source.fault? zone) = some e)
    (hattempts : begun.attempts = noted :: s.attempts)
    (hpauses : begun.pauses
      = s.pauses ++ [(s.attempts.length + 1, delay settings s.attempts.length)])
    (hzones : begun.zones = s.zones) (hannounced : begun.announced = s.announced)
    (h : Retried settings ctx source zone begun retries r later) :
    Retried settings ctx source zone s (retries + 1) r later := by
  have hbegun : hits (source.fault? zone) begun = hits (source.fault? zone) s ++ [e] :=
    hits_of_hit hhit hattempts
  cases h with
  | settled hown h hhits hfew hzones' hannounced' =>
      rw [← hown, hbegun, List.append_assoc, hown] at hhits
      exact .settled hown h hhits (Nat.succ_le_succ hfew) (hzones ▸ hzones')
        (hannounced ▸ hannounced')
  | exhausted hhits hmany hattempts' hpauses' hzones' hannounced' =>
      rw [hbegun, List.append_assoc (hits _ s)] at hhits
      refine .exhausted hhits (congrArg Nat.succ hmany) ?_ ?_ (hzones'.trans hzones)
        (hannounced'.trans hannounced)
      · rw [hattempts', hattempts, List.length_cons]
        omega
      · rw [hpauses', hpauses, hattempts, List.append_assoc, List.range'_succ]
        rfl

theorem leads_retrying (hfate : fate.FailsAs Passes) (settings : EngineSettings) {found : Domain}
    (job : BatchJob) (hkeyed : zone.IsKeyed) (hzone : s.zones.zone? found.name = some zone)
    (retries attempt : Nat) (hattempt : s.attempts.length = attempt) :
    fate.Leads (retrying settings (run settings found job) retries attempt).run s
      (Retried settings (context settings found job) job.source zone s retries) := by
  induction retries generalizing s attempt with
  | zero =>
      refine (leads_run hfate settings job hkeyed hzone).mono ?_
      intro r later hlater
      cases hlater with
      | @hit noted e calls hhit =>
          let ended : Course := { s with calls := calls, attempts := noted :: s.attempts }
          have hhits : hits (job.source.fault? zone) ended = hits _ s ++ [e] := hits_of_hit hhit rfl
          rw [← List.append_nil (hits _ s)] at hhits
          exact .exhausted hhits rfl rfl (List.append_nil _).symm rfl rfl
      | settled hown hlasting h =>
          exact .settled hown h (hits_of_settled rfl) (Nat.le_refl 0) rfl rfl
  | succ retries ih =>
      rw [run_retrying]
      refine (leads_run hfate settings job hkeyed hzone).bind ?_
      intro r later hlater
      cases hlater with
      | @hit noted e calls hhit hretryable =>
          rw [again, if_pos hretryable]
          subst hattempt
          let begun : Course :=
            { s with
              calls := calls, attempts := noted :: s.attempts,
              pauses := s.pauses ++ [(s.attempts.length + 1, delay settings s.attempts.length)] }
          have hbegun : begun.attempts = noted :: s.attempts := rfl
          exact Fate.Leads.mono (ih (s := begun) hzone (s.attempts.length + 1) rfl)
            fun _ _ h => h.again hhit hbegun rfl rfl rfl
      | @settled r _ _ _ hown hlasting h =>
          have hends : again settings (run settings found job) retries attempt r = .done r := by
            cases r with
            | ok o => rfl
            | error e => rw [again, hlasting e rfl]; rfl
          rw [hends]
          exact .settled hown h (hits_of_settled rfl) (Nat.zero_le _) rfl rfl

end Attempt

def BatchOutcome.told (o : BatchOutcome) :
    (BatchShape × List (String × String × Key × Content)) × List Key := (o.shown, o.deleted)

def ZoneChange.told (c : ZoneChange) : String × List KeyChange := (c.domain, c.changes)

structure Course.Resembles (s s' : Course) : Prop where
  domain_eq : ∀ name, s.zones.domain? name = s'.zones.domain? name
  content_eq : ∀ name key,
    (s.zones.get? name key).map Rrset.content = (s'.zones.get? name key).map Rrset.content
  announced_eq : s.announced.map ZoneChange.told = s'.announced.map ZoneChange.told

def PlannedItem.change (p : PlannedItem) : KeyChange :=
  match p.target with
  | some (ttl, records) => .upserted p.key ttl records
  | none => .deleted p.key

namespace Plan

variable {ctx : ReviewContext} {batch : Batch} {snapshot : Snapshot} {plan : Plan} {zone : Zone}
  {done done' : List DoneStep}

theorem changes_eq (hmake : make ctx batch snapshot = .ok plan) (hkeyed : zone.IsKeyed)
    (hsteps : done.map (·.item) = plan.steps) (hfor : ∀ d ∈ done, d.IsFor zone) :
    done.map DoneStep.change = plan.steps.map PlannedItem.change := by
  rw [← hsteps, List.map_map]
  refine List.map_congr_left fun d hd => ?_
  have htarget : d.left.map Rrset.content = d.item.target :=
    target_of_step hmake (hsteps ▸ List.mem_map_of_mem hd) (hfor d hd)
  rw [Function.comp, PlannedItem.change, ← htarget, DoneStep.change]
  cases hleft : d.left with
  | none => rfl
  | some r =>
      rw [← (hfor d hd).key_of_mem_left hkeyed r hleft]
      rfl

theorem content_after_eq (hmake : make ctx batch snapshot = .ok plan)
    (hagrees : Review.Agrees batch snapshot zone)
    (hsteps : done.map (·.item) = plan.steps) (hfor : ∀ d ∈ done, d.IsFor zone)
    (hsteps' : done'.map (·.item) = plan.steps) (hfor' : ∀ d ∈ done', d.IsFor zone) (key : Key) :
    (zone.after done.reverse).content key = (zone.after done'.reverse).content key := by
  by_cases hkey : ∃ p ∈ plan.items, p.key = key
  · obtain ⟨p, hp, rfl⟩ := hkey
    rw [content_after hmake hagrees hsteps hfor hp, content_after hmake hagrees hsteps' hfor' hp]
  · have hne : ∀ p ∈ plan.items, p.key ≠ key := fun p hp heq => hkey ⟨p, hp, heq⟩
    rw [Zone.content, Zone.content, get?_after_of_ne hsteps hne, get?_after_of_ne hsteps' hne]

end Plan

namespace Attempt

variable {ctx : ReviewContext} {source : BatchSource} {zone : Zone}

theorem told_announcement {domain : String} {done done' : List DoneStep} {time time' : Instant}
    (h : done.map DoneStep.change = done'.map DoneStep.change) :
    (Commit.announcement domain done time).map ZoneChange.told
      = (Commit.announcement domain done' time').map ZoneChange.told := by
  rw [Commit.announcement, Commit.announcement, h]
  split <;> rfl

theorem Settles.alike {r r' : Except Error BatchOutcome} {later later' : Zone}
    {changes changes' : List ZoneChange} (hkeyed : zone.IsKeyed)
    (h : Settles ctx source zone r later changes)
    (h' : Settles ctx source zone r' later' changes') :
    r.map BatchOutcome.told = r'.map BatchOutcome.told ∧ later.domain = later'.domain
      ∧ (∀ key, later.content key = later'.content key)
      ∧ changes.map ZoneChange.told = changes'.map ZoneChange.told := by
  cases h with
  | refused hplanned =>
      cases h' with
      | refused hplanned' =>
          cases hplanned.symm.trans hplanned'
          exact ⟨rfl, rfl, fun _ => rfl, rfl⟩
      | applied hplanned' => cases hplanned.symm.trans hplanned'
  | @applied _ _ done _ hplanned hsteps hfor =>
      cases h' with
      | refused hplanned' => cases hplanned.symm.trans hplanned'
      | @applied _ _ done' _ hplanned' hsteps' hfor' =>
          cases hplanned.symm.trans hplanned'
          obtain ⟨batch, rfl, hmake⟩ := exists_batch hplanned
          have hagrees := Review.agrees_of_isKeyed hkeyed batch
          refine ⟨congrArg Except.ok (Prod.ext ?_ rfl), ?_,
            Plan.content_after_eq hmake hagrees hsteps hfor hsteps' hfor', told_announcement ?_⟩
          · change BatchOutcome.shown _ = BatchOutcome.shown _
            rw [Commit.shown_outcome hmake hsteps hagrees hkeyed hfor,
              Commit.shown_outcome hmake hsteps' hagrees hkeyed hfor']
          · rw [Zone.domain_after, Zone.domain_after]
          · rw [Plan.changes_eq hmake hkeyed hsteps hfor,
              Plan.changes_eq hmake hkeyed hsteps' hfor']

end Attempt

theorem Fate.attempts_of_calm {calm : Fate} (hcalm : calm.FailsAs fun _ _ => False) {α : Type}
    (p : EngineProgram α) {s : Course} (h : ∀ noted ∈ s.attempts, noted = none) :
    ∀ noted ∈ (p.run calm.follow s).2.attempts, noted = none := by
  induction p generalizing s with
  | done a => exact h
  | act a next ih =>
      refine ih _ ?_
      cases a with
      | call c =>
          change ∀ noted ∈ (s.afterCall c (calm.outcome s.calls c)).attempts, noted = none
          cases ho : calm.outcome s.calls c with
          | failed e => exact (hcalm _ _ _ ho).elim
          | carriedOut now => exact h
      | startTimer => exact List.forall_mem_cons.2 ⟨rfl, h⟩
      | _ => exact h

namespace Request

inductive Applies (settings : EngineSettings) (zones : Zones) (principal : Principal)
    (name : String) (job : BatchJob) : Except Error BatchOutcome → Course → Prop where
  | unseen {calls : List CallRecord}
      (hforeign : ∀ zone ∈ zones.zone? (normalizeDomain name), principal.owns zone.domain = false) :
      Applies settings zones principal name job (.error (.noDomain (normalizeDomain name)))
        ⟨zones, calls, [], [], []⟩
  | tried {zone : Zone} {calls : List CallRecord} {r : Except Error BatchOutcome} {later : Course}
      (hzone : zones.zone? (normalizeDomain name) = some zone)
      (howns : principal.owns zone.domain = true)
      (h : Attempt.Retried settings (Attempt.context settings zone.domain job) job.source zone
        ⟨zones, calls, [], [], []⟩ settings.maxRetries r later) :
      Applies settings zones principal name job r later

section Looked

variable {fate : Fate} {zones : Zones} {principal : Principal} {name : String}

theorem leads_visibleDomain {α : Type} {next : Domain → Engine α}
    {post : Except Error α → Course → Prop}
    (hfirst : ∀ e, fate.outcome [] (.getDomain (normalizeDomain name)) ≠ .failed e)
    (hunseen : ∀ calls,
      (∀ zone ∈ zones.zone? (normalizeDomain name), principal.owns zone.domain = false) →
        post (.error (.noDomain (normalizeDomain name))) ⟨zones, calls, [], [], []⟩)
    (hseen : ∀ now zone, zones.zone? (normalizeDomain name) = some zone →
      principal.owns zone.domain = true →
      fate.Leads (next zone.domain).run
        ⟨zones, [⟨0, .getDomain (normalizeDomain name), .carriedOut now⟩], [], [], []⟩ post) :
    fate.Leads (visibleDomain principal name >>= next).run (.ofZones zones) post := by
  rw [run_visibleDomain]
  refine .call fun o ho => ?_
  cases o with
  | failed e => exact absurd ho (hfirst e)
  | carriedOut now =>
      rw [Outcome.call, Zones.call_getDomain]
      generalize hfound : (Course.ofZones zones).zones.zone? (normalizeDomain name) = zone?
      have hzone : zones.zone? (normalizeDomain name) = zone? := hfound
      cases zone? with
      | none => exact hunseen _ (by rw [hzone]; rintro _ ⟨⟩)
      | some zone =>
          dsimp only [Option.map_some]
          split
          · next howns => exact hseen now zone hzone howns
          · next hforeign =>
              refine hunseen _ ?_
              rw [hzone]
              rintro _ ⟨⟩
              simpa using hforeign

theorem leads_applyFor (hfate : fate.FailsAs Passes) (settings : EngineSettings)
    (hzones : zones.IsProper) (principal : Principal) (job : BatchJob)
    (hfirst : ∀ e, fate.outcome [] (.getDomain (normalizeDomain name)) ≠ .failed e) :
    fate.Leads (applyFor settings principal name job).run (.ofZones zones)
      (Applies settings zones principal name job) := by
  refine leads_visibleDomain hfirst (fun _ => .unseen) fun now zone hzone howns => ?_
  have hfound : zones.zone? zone.domain.name = some zone := (hzones.isNamed _ _ hzone).symm ▸ hzone
  exact (Attempt.leads_retrying hfate settings job (hzones.isKeyed _ _ hzone) hfound
    settings.maxRetries 0 rfl).mono fun _ _ => .tried hzone howns

end Looked

end Request

theorem Course.resembles_of_insert {s s' : Course} {zones : Zones} {domain : String}
    {zone zone' : Zone} (hs : s.zones = zones.insert domain zone)
    (hs' : s'.zones = zones.insert domain zone') (hdomain : zone.domain = zone'.domain)
    (hcontent : ∀ key, zone.content key = zone'.content key)
    (hannounced : s.announced.map ZoneChange.told = s'.announced.map ZoneChange.told) :
    s.Resembles s' := by
  refine ⟨fun name => ?_, fun name key => ?_, hannounced⟩
  · rw [Zones.domain?_eq, Zones.domain?_eq, hs, hs', Zones.zone?_insert, Zones.zone?_insert]
    split
    · exact congrArg some hdomain
    · rfl
  · change (((s.zones.zone? name).bind fun z => z.rrsets.get? key).map Rrset.content)
      = (((s'.zones.zone? name).bind fun z => z.rrsets.get? key).map Rrset.content)
    rw [hs, hs', Zones.zone?_insert, Zones.zone?_insert]
    split
    · exact hcontent key
    · rfl

namespace Attempt

theorem hits_eq_nil {s : Course} (h : ∀ noted ∈ s.attempts, noted = none) : hits none s = [] := by
  refine List.filterMap_eq_nil_iff.2 fun noted hnoted => ?_
  rw [h noted (List.mem_reverse.1 hnoted)]
  rfl

section Retried

variable {settings : EngineSettings} {ctx : ReviewContext} {source : BatchSource} {zone : Zone}
  {zones : Zones} {calls : List CallRecord} {retries : Nat} {r : Except Error BatchOutcome}
  {later : Course}
  (h : Retried settings ctx source zone ⟨zones, calls, [], [], []⟩ retries r later)

include h

theorem Retried.resembles {calls' : List CallRecord} {r' : Except Error BatchOutcome}
    {later' : Course} (hkeyed : zone.IsKeyed)
    (hfew : (hits (source.fault? zone) later).length ≤ retries)
    (h' : Retried settings ctx source zone ⟨zones, calls', [], [], []⟩ retries r' later')
    (hunhurt : ∀ noted ∈ later'.attempts, noted = none) :
    r.map BatchOutcome.told = r'.map BatchOutcome.told ∧ later.Resembles later' := by
  cases h with
  | exhausted hhits hmany =>
      rw [hhits, List.length_append, List.length_append, hmany, List.length_singleton] at hfew
      omega
  | settled hown hsettles _ _ hzones hannounced =>
      cases h' with
      | exhausted hhits' =>
          rw [hown, hits_eq_nil hunhurt] at hhits'
          exact absurd hhits'.symm (List.append_ne_nil_of_right_ne_nil _ (List.cons_ne_nil _ _))
      | settled _ hsettles' _ _ hzones' hannounced' =>
          obtain ⟨hresult, hdomain, hcontent, htold⟩ := hsettles.alike hkeyed hsettles'
          refine ⟨hresult, Course.resembles_of_insert hzones hzones' hdomain hcontent ?_⟩
          rw [hannounced, hannounced']
          exact htold

theorem Retried.exhausts (hmany : retries < (hits (source.fault? zone) later).length) :
    (∃ e, (hits (source.fault? zone) later).getLast? = some e ∧ r = .error e)
      ∧ later.attempts.length = retries + 1
      ∧ later.pauses = (List.range retries).map (fun k => (k + 1, delay settings k))
      ∧ later.zones = zones ∧ later.announced = [] := by
  cases h with
  | settled hown _ hhits hfew =>
      rw [hown, hhits] at hmany
      exact absurd hmany (Nat.not_lt.2 hfew)
  | @exhausted e _ _ hhits _ hattempts hpauses hzones hannounced =>
      refine ⟨⟨e, ?_, rfl⟩, ?_, ?_, hzones, hannounced⟩
      · rw [hhits, List.getLast?_concat]
      · rw [hattempts, List.length_nil, Nat.zero_add]
      · rw [hpauses, List.length_nil, ← List.range_eq_range']
        rfl

end Retried

end Attempt

/-- Faults of the store that pass are outlived as long as another attempt may follow: the batch then
ends as it does without them, but for times. When as many attempts as there may be hit a fault, it
ends with the last one after all its pauses. -/
theorem passing_faults_are_outlived (settings : EngineSettings) {zones : Zones}
    (hzones : zones.IsProper) (principal : Principal) (name : String) (job : BatchJob)
    {calm stormy : Fate} (hcalm : calm.FailsAs fun _ _ => False) (hstormy : stormy.FailsAs Passes)
    (hfirst : ∀ e, stormy.outcome [] (.getDomain (normalizeDomain name)) ≠ .failed e) :
    let quiet := calm.apply settings zones principal name job
    let rough := stormy.apply settings zones principal name job
    let faults := Attempt.hits ((zones.zone? (normalizeDomain name)).bind job.source.fault?) rough.2
    (faults.length ≤ settings.maxRetries →
        rough.1.map BatchOutcome.told = quiet.1.map BatchOutcome.told ∧ rough.2.Resembles quiet.2)
      ∧ (settings.maxRetries < faults.length →
        (∃ e, faults.getLast? = some e ∧ rough.1 = .error e)
          ∧ rough.2.attempts.length = settings.maxRetries + 1
          ∧ rough.2.pauses = (List.range settings.maxRetries).map
              (fun k => (k + 1, settings.retryDelay * 2 ^ min k 16))
          ∧ rough.2.zones = zones ∧ rough.2.announced = []) := by
  intro quiet rough faults
  have hrough : Request.Applies settings zones principal name job rough.1 rough.2 :=
    Request.leads_applyFor hstormy settings hzones principal job hfirst
  have hquiet : Request.Applies settings zones principal name job quiet.1 quiet.2 :=
    Request.leads_applyFor hcalm.passes settings hzones principal job fun e he => hcalm _ _ _ he
  have hunhurt : ∀ noted ∈ quiet.2.attempts, noted = none :=
    Fate.attempts_of_calm hcalm _ (by rintro _ ⟨⟩)
  clear_value rough quiet
  obtain ⟨r, s⟩ := rough
  obtain ⟨r', s'⟩ := quiet
  dsimp only at hrough hquiet hunhurt faults ⊢
  cases hrough with
  | unseen hforeign =>
      have hnone : faults = [] := rfl
      refine ⟨fun _ => ?_, fun hmany => absurd (hnone ▸ hmany) (Nat.not_lt_zero _)⟩
      cases hquiet with
      | unseen => exact ⟨rfl, fun _ => rfl, fun _ _ => rfl, rfl⟩
      | tried hzone howns => exact absurd ((hforeign _ hzone).symm.trans howns) Bool.false_ne_true
  | @tried zone _ _ _ hzone howns hretried =>
      have hfaults : faults = Attempt.hits (job.source.fault? zone) s := by
        dsimp only [faults]
        rw [hzone, Option.bind_some]
      rw [hfaults]
      refine ⟨fun hfew => ?_, fun hmany => ?_⟩
      · cases hquiet with
        | unseen hforeign =>
            exact absurd ((hforeign _ hzone).symm.trans howns) Bool.false_ne_true
        | tried hzone' _ hretried' =>
            obtain rfl := Option.some.inj (hzone.symm.trans hzone')
            exact hretried.resembles (hzones.isKeyed _ _ hzone) hfew hretried' hunhurt
      · obtain ⟨hlast, hattempts, hpauses, hrest⟩ := hretried.exhausts hmany
        refine ⟨hlast, hattempts, ?_, hrest⟩
        rw [hpauses]
        exact List.map_congr_left fun k _ => by rw [Attempt.delay, Nat.shiftLeft_eq]

namespace Example

def flicker (calls : List Nat) : Fate where
  outcome := fun log c =>
    if calls.contains log.length && !c.isRestore then .failed (.io "timed out")
    else .carriedOut ⟨0, 0⟩
  clock := fun _ => ⟨0, 0⟩

def swapping : BatchJob := ⟨.replace, .given swap, none⟩

def swapUnder (fate : Fate) : Except Error BatchOutcome × Course :=
  fate.apply .default (stored addressed) ⟨"alice"⟩ "example.com" swapping

theorem passes_of_flicker (calls : List Nat) : (flicker calls).FailsAs Passes := by
  intro log c e h
  dsimp only [flicker] at h
  split at h
  · next hfails =>
      obtain rfl := Outcome.failed.inj h
      exact ⟨by simpa using (Bool.and_eq_true_iff.1 hfails).2, rfl⟩
  · cases h

end Example

theorem flicker_is_outlived :
    (Example.swapUnder (Example.flicker [4, 6])).2.attempts
        = [none, some (.io "timed out"), some (.io "timed out")]
      ∧ (Example.swapUnder (Example.flicker [4, 6])).1.map BatchOutcome.told
        = (Example.swapUnder Example.calm).1.map BatchOutcome.told
      ∧ (Example.swapUnder (Example.flicker [4, 6])).2.Resembles (Example.swapUnder Example.calm).2
      ∧ (Example.swapUnder (Example.flicker [4, 6, 7, 8])).1 = .error (.io "timed out")
      ∧ (Example.swapUnder (Example.flicker [4, 6, 7, 8])).2.pauses = [(1, 100), (2, 200), (3, 400)]
      ∧ (Example.swapUnder (Example.flicker [4, 6, 7, 8])).2.announced = [] := by
  have hcalm := Example.calm_failsAs fun _ _ => False
  have hfirst (calls : List Nat) (h : calls.contains 0 = false) (e : Error) :
      (Example.flicker calls).outcome [] (.getDomain (normalizeDomain "example.com"))
        ≠ .failed e := by
    simp only [Example.flicker, List.length_nil, h]
    rintro ⟨⟩
  have houtlived := passing_faults_are_outlived .default Example.isProper_addressed ⟨"alice"⟩
    "example.com" Example.swapping hcalm (Example.passes_of_flicker [4, 6]) (hfirst [4, 6] rfl)
  have hlost := passing_faults_are_outlived .default Example.isProper_addressed ⟨"alice"⟩
    "example.com" Example.swapping hcalm (Example.passes_of_flicker [4, 6, 7, 8])
    (hfirst [4, 6, 7, 8] rfl)
  obtain ⟨hresult, hcourse⟩ := houtlived.1 (by decide +kernel)
  obtain ⟨⟨e, hlast, hend⟩, -, hpauses, -, hannounced⟩ := hlost.2 (by decide +kernel)
  have hio : some (.io "timed out") = some e := hlast ▸ by decide +kernel
  obtain rfl := Option.some.inj hio
  exact ⟨by decide +kernel, hresult, hcourse, hend, hpauses, hannounced⟩

end ZoneKeeper
