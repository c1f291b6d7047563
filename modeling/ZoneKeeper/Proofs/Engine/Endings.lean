import ZoneKeeper.Proofs.Engine.Guard
import ZoneKeeper.Proofs.Engine.Request
import ZoneKeeper.Proofs.Engine.Undisturbed

namespace ZoneKeeper

def BatchSource.Refuses (source : BatchSource) (zone : Zone) (e : Error) : Prop :=
  match source with
  | .given _ => False
  | .derived subname build =>
      build (zone.rrsets.values.filter (Filter.ofSubname subname).accepts) = .error e

def Watch.SuitsBatches (t : Watch) : Prop :=
  ∀ ⦃ctx : ReviewContext⦄ ⦃batch : Batch⦄ ⦃plan : Plan⦄ ⦃zone : Zone⦄, t.keeps (some zone) →
    Plan.make ctx batch (.ofRrsets (zone.listAt batch.touchedSubnames)) = .ok plan →
      t.Tolerates plan zone

namespace Attempt

open Engine

variable {t : Watch} {past : Past} {zone : Zone} {ctx : ReviewContext} {source : BatchSource}

inductive Planned (t : Watch) (ctx : ReviewContext) (source : BatchSource) (zone : Zone) :
    Except Error (Plan × BatchShape) → Prop where
  | faulty {e : Error} (hfault : t.isFault e) : Planned t ctx source zone (.error e)
  | unbuilt {e : Error} (hnone : source.Refuses zone e) : Planned t ctx source zone (.error e)
  | refused {batch : Batch} {errors : BatchErrors} (hyields : source.Yields zone batch)
      (hmake : Plan.make ctx batch (.ofRrsets (zone.listAt batch.touchedSubnames))
        = .error errors) : Planned t ctx source zone (.error (.rejected errors))
  | made {batch : Batch} {plan : Plan} (hyields : source.Yields zone batch)
      (hmake : Plan.make ctx batch (.ofRrsets (zone.listAt batch.touchedSubnames)) = .ok plan) :
      Planned t ctx source zone (.ok (plan, batch.shape))

inductive Ended (t : Watch) (ctx : ReviewContext) (source : BatchSource) (zone : Zone) :
    Except Error BatchOutcome → Past → Prop where
  | late {milliseconds : Nat} {later : Past} (hlate : t.mayExpire) :
      Ended t ctx source zone (.error (timeout ctx.domain milliseconds)) later
  | unplanned {e : Error} {later : Past} (hplanned : Planned t ctx source zone (.error e))
      (hsame : later.zone = some zone) : Ended t ctx source zone (.error e) later
  | undone {plan : Plan} {shape : BatchShape} {e : Error} {later : Past}
      (hplanned : Planned t ctx source zone (.ok (plan, shape))) (hfault : t.isFault e)
      (hundone : plan.IsUndone t zone later) : Ended t ctx source zone (.error e) later
  | applied {plan : Plan} {shape : BatchShape} {done : List DoneStep} {later : Past}
      (hplanned : Planned t ctx source zone (.ok (plan, shape)))
      (hsteps : done.map (·.item) = plan.steps) (hfor : ∀ d ∈ done, d.IsFor zone)
      (hleft : later.zone = some (zone.after done.reverse))
      (hdated : ∀ d ∈ done, d.IsDated t zone later.log) :
      Ended t ctx source zone (.ok (Commit.outcome ctx.domain plan shape done)) later

theorem undisturbed_list (hzone : past.zone = some zone) (hholds : t.Holds past) (filter : Filter) :
    Undisturbed t (call (.list t.domain filter)).run past fun r later => t.Holds later
      ∧ later.zone = past.zone ∧ t.Answers (zone.rrsets.values.filter filter.accepts) r := by
  refine Undisturbed.read rfl rfl hholds (fun e later hlater hsame hfault =>
    ⟨hlater, hsame, hfault⟩) fun now later hlater hsame => ?_
  rw [Past.answer, hzone, Outcome.call, Zones.call_list, Zones.zone?_only]
  exact ⟨hlater, hsame.trans hzone, rfl⟩

theorem undisturbed_listAt (hzone : past.zone = some zone) (hholds : t.Holds past)
    (subnames : List String) :
    Undisturbed t (listAt t.domain subnames).run past fun r later => t.Holds later
      ∧ later.zone = past.zone ∧ t.Answers (zone.listAt subnames) r := by
  induction subnames generalizing past with
  | nil => exact ⟨hholds, rfl, rfl⟩
  | cons subname rest ih =>
      refine (undisturbed_list hzone hholds _).engine_bind (fun e later hlater => hlater) ?_
      rintro here later ⟨hlater, hsame, hhere⟩
      refine (ih (hsame.trans hzone) hlater).engine_bind ?_ ?_
      · rintro e final ⟨hfinal, hsame', hfault⟩
        exact ⟨hfinal, hsame'.trans hsame, hfault⟩
      · rintro others final ⟨hfinal, hsame', hothers⟩
        refine ⟨hfinal, hsame'.trans hsame, ?_⟩
        rw [hhere, hothers]
        rfl

theorem undisturbed_batch (hzone : past.zone = some zone) (hholds : t.Holds past) :
    Undisturbed t (batch t.domain source).run past fun r later => t.Holds later
      ∧ later.zone = past.zone ∧ match r with
        | .ok own => source.Yields zone own
        | .error e => t.isFault e ∨ source.Refuses zone e := by
  cases source with
  | given own => exact ⟨hholds, rfl, rfl⟩
  | derived subname build =>
      refine (undisturbed_list hzone hholds _).engine_bind ?_ ?_
      · rintro e later ⟨hlater, hsame, hfault⟩
        exact ⟨hlater, hsame, Or.inl hfault⟩
      · rintro stored later ⟨hlater, hsame, rfl⟩
        refine ⟨hlater, hsame, ?_⟩
        cases hbuild : build (zone.rrsets.values.filter (Filter.ofSubname subname).accepts) with
        | ok own => exact hbuild
        | error e => exact Or.inr hbuild

theorem undisturbed_plan (hdomain : ctx.domain = t.domain) (hzone : past.zone = some zone)
    (hholds : t.Holds past) :
    Undisturbed t (plan ctx source).run past fun r later => t.Holds later
      ∧ later.zone = some zone ∧ Planned t ctx source zone r := by
  rw [plan, hdomain]
  refine (Undisturbed.getDomain hholds).engine_bind ?_ ?_
  · rintro e later ⟨hlater, hsame, hfault⟩
    exact ⟨hlater, hsame.trans hzone, .faulty hfault⟩
  · rintro found? later ⟨hlater, hsame, hfound⟩
    rw [hzone] at hsame hfound
    obtain rfl : found? = some zone.domain := hfound
    refine (undisturbed_batch hsame hlater).engine_bind ?_ ?_
    · rintro e final ⟨hfinal, hsame', hfault | hrefuses⟩
      · exact ⟨hfinal, hsame'.trans hsame, .faulty hfault⟩
      · exact ⟨hfinal, hsame'.trans hsame, .unbuilt hrefuses⟩
    · rintro own middle ⟨hmiddle, hsame', hyields⟩
      refine (undisturbed_listAt (hsame'.trans hsame) hmiddle _).engine_bind ?_ ?_
      · rintro e final ⟨hfinal, hsame'', hfault⟩
        exact ⟨hfinal, hsame''.trans (hsame'.trans hsame), .faulty hfault⟩
      · rintro _ final ⟨hfinal, hsame'', rfl⟩
        have hstill := hsame''.trans (hsame'.trans hsame)
        split
        · next made hmake => exact ⟨hfinal, hstill, .made hyields hmake⟩
        · next errors hmake => exact ⟨hfinal, hstill, .refused hyields hmake⟩

theorem undisturbed_prepareWithin (hdomain : ctx.domain = t.domain) (hzone : past.zone = some zone)
    (hholds : t.Holds past) (milliseconds : Nat) :
    Undisturbed t (prepareWithin milliseconds ctx source).run past fun r later => t.Holds later
      ∧ ((later.zone = some zone ∧ Planned t ctx source zone r)
        ∨ (t.mayExpire ∧ r = .error (timeout ctx.domain milliseconds))) := by
  constructor
  · refine Undisturbed.bind (P := fun r later => t.Holds later ∧ later.zone = some zone
      ∧ Planned t ctx source zone r) (fun _ => ?_) ?_
    · refine (undisturbed_plan hdomain hzone hholds).bind ?_
      rintro (e | made) later hlater
      · exact fun _ => hlater
      · exact hlater
    · rintro r later ⟨hlater, hplanned⟩ _
      exact ⟨hlater, Or.inl hplanned⟩
  · intro hexpires later hlater _
    exact ⟨hlater, Or.inr ⟨hexpires, rfl⟩⟩

theorem previous_of_make {batch : Batch} {plan : Plan} (hkeyed : zone.IsKeyed)
    (hmake : Plan.make ctx batch (.ofRrsets (zone.listAt batch.touchedSubnames)) = .ok plan) :
    ∀ item ∈ plan.steps, item.previous = zone.rrsets.get? item.key := by
  intro item hitem
  have hmem := (Plan.mem_steps hitem).1
  rw [Plan.previous_eq hmake hmem,
    Zone.get?_snapshot hkeyed (Plan.mem_touchedSubnames hmake hmem)]

theorem undisturbed_run (ht : t.SuitsBatches) (settings : EngineSettings) {found : Domain}
    (hname : found.name = t.domain) (job : BatchJob) (hzone : past.zone = some zone)
    (hholds : t.Holds past) :
    Undisturbed t (run settings found job).run past fun r later => t.Holds later
      ∧ Ended t (context settings found job) job.source zone r later := by
  have hkeyed : zone.IsKeyed := t.isKeyed (hzone ▸ hholds.keeps)
  refine (undisturbed_prepareWithin hname hzone hholds settings.requestTimeout).engine_bind ?_ ?_
  · rintro e later ⟨hlater, ⟨hsame, hplanned⟩ | ⟨hexpires, ⟨⟩⟩⟩
    · exact ⟨hlater, .unplanned hplanned hsame⟩
    · exact ⟨hlater, .late hexpires⟩
  · rintro ⟨plan, shape⟩ later ⟨hlater, ⟨hsame, hplanned⟩ | ⟨-, ⟨⟩⟩⟩
    have hcommit : t.Tolerates plan zone ∧ (plan.steps.map (·.key)).Nodup
        ∧ ∀ item ∈ plan.steps, item.previous = zone.rrsets.get? item.key := by
      cases hplanned with
      | made hyields hmake =>
          exact ⟨ht (hsame ▸ hlater.keeps) hmake, Plan.nodup_step_keys hmake,
            previous_of_make hkeyed hmake⟩
    obtain ⟨htolerates, hnodup, hprevious⟩ := hcommit
    rw [hname]
    refine (Commit.undisturbed_run htolerates hnodup hprevious hsame hlater shape).mono ?_
    rintro (e | o) final ⟨hfinal, hpost⟩
    · exact ⟨hfinal, .undone hplanned hpost.1 hpost.2⟩
    · obtain ⟨done, hsteps, hfor, hdated, hleft, rfl⟩ := hpost
      rw [← hname]
      exact ⟨hfinal, .applied hplanned hsteps hfor hleft hdated⟩

theorem undisturbed_retrying {α : Type} {settings : EngineSettings} {p : Engine α}
    {I : Past → Prop} {Q : Except Error α → Past → Prop}
    (h : ∀ past, I past → Undisturbed t p.run past fun r later => Q r later
      ∧ ∀ e, r = .error e → e.isRetryable = true → I later)
    (retries attempt : Nat) (hpast : I past) :
    Undisturbed t (retrying settings p retries attempt).run past Q := by
  induction retries generalizing past attempt with
  | zero => exact (h past hpast).mono fun _ _ hlater => hlater.1
  | succ retries ih =>
      refine (h past hpast).bind ?_
      rintro (e | a) later ⟨hq, hagain⟩
      · dsimp only
        split
        · next hretryable => exact fun _ => ih (attempt + 1) (hagain e rfl hretryable)
        · exact hq
      · exact hq

end Attempt

namespace Request

open Engine

variable {t : Watch} {past : Past} {settings : EngineSettings} {principal : Principal}
  {name : String}

def IsUnseen (t : Watch) (principal : Principal) (zone : Option Zone) (e : Error) : Prop :=
  t.isFault e ∨ (e = .noDomain t.domain ∧ ∀ z ∈ zone, principal.owns z.domain = false)

theorem undisturbed_visibleDomain {α : Type} {next : Domain → Engine α}
    {post : Except Error α → Past → Prop} (hname : normalizeDomain name = t.domain)
    (hholds : t.Holds past)
    (herror : ∀ e later, t.Holds later → later.zone = past.zone →
      IsUnseen t principal past.zone e → post (.error e) later)
    (hnext : ∀ zone later, t.Holds later → past.zone = some zone → later.zone = some zone →
      principal.owns zone.domain = true → Undisturbed t (next zone.domain).run later post) :
    Undisturbed t (visibleDomain principal name >>= next).run past post := by
  rw [run_visibleDomain, hname]
  refine (Undisturbed.getDomain hholds).bind ?_
  rintro (e | found?) later ⟨hlater, hsame, hfound⟩
  · exact herror e later hlater hsame (Or.inl hfound)
  · cases hzone : past.zone with
    | none =>
        rw [hzone] at hfound
        obtain rfl : found? = none := hfound
        exact herror _ later hlater hsame (Or.inr ⟨rfl, by rw [hzone]; rintro _ ⟨⟩⟩)
    | some zone =>
        rw [hzone] at hfound
        obtain rfl : found? = some zone.domain := hfound
        dsimp only
        split
        · next howns => exact hnext zone later hlater hzone (hsame.trans hzone) howns
        · next hforeign =>
            refine herror _ later hlater hsame (Or.inr ⟨rfl, ?_⟩)
            rw [hzone]
            rintro _ ⟨⟩
            simpa using hforeign

abbrev Stays {α : Type} (t : Watch) (p : EngineProgram α) (past : Past) : Prop :=
  Undisturbed t p past fun _ later => t.Holds later

theorem stays_map {α β : Type} {p : Engine α} (h : Stays t p.run past) (f : α → β) :
    Stays t (p >>= fun a => pure (f a)).run past :=
  h.engine_bind (fun _ _ hlater => hlater) fun _ _ hlater => hlater

theorem stays_check {α : Type} {error? : Option Error} {p : Engine α} (hholds : t.Holds past)
    (hp : Stays t p.run past) : Stays t (check error? >>= fun _ => p).run past := by
  cases error? with
  | none => exact hp
  | some e => exact hholds

theorem stays_read {c : StoreCall} (hdomain : c.domain? = some t.domain) (hread : c.isRead = true)
    (hholds : t.Holds past) : Stays t (EngineProgram.call c) past :=
  Undisturbed.read hdomain hread hholds (fun _ _ hlater _ _ => hlater) fun _ _ hlater _ => hlater

theorem stays_applyFor (ht : t.SuitsBatches) (hname : normalizeDomain name = t.domain)
    (hholds : t.Holds past) (job : BatchJob) :
    Stays t (applyFor settings principal name job).run past := by
  refine undisturbed_visibleDomain hname hholds (fun _ _ hlater _ _ => hlater)
    fun zone later hlater _ hzone _ => ?_
  have hdomain : zone.domain.name = t.domain := t.isNamed (hzone ▸ hlater.keeps)
  refine Attempt.undisturbed_retrying (I := fun now => t.Holds now ∧ now.zone.isSome = true) ?_ _ _
    ⟨hlater, by rw [hzone]; rfl⟩
  rintro now ⟨hnow, hsome⟩
  obtain ⟨z, hz⟩ := Option.isSome_iff_exists.1 hsome
  refine (Attempt.undisturbed_run ht settings hdomain job hz hnow).mono ?_
  rintro r final ⟨hfinal, hended⟩
  refine ⟨hfinal, fun e hr hretryable => ⟨hfinal, ?_⟩⟩
  subst hr
  cases hended with
  | late => cases hretryable
  | unplanned _ hsame => rw [hsame]; rfl
  | undone _ _ hundone =>
      obtain ⟨log, tried, -, rfl⟩ := hundone
      rfl

theorem stays_createDomainFor (hempty : ∀ domain : Domain, domain.name = t.domain →
      t.keeps (some ⟨domain, SortedMap.empty⟩)) (hname : normalizeDomain name = t.domain)
    (hholds : t.Holds past) {minimumTtl : Option Nat} {create : Engine Domain}
    (hcreate : createDomainFor settings principal name minimumTtl = create) :
    Stays t create.run past := by
  rw [← hcreate, createDomainFor]
  generalize nameError? (normalizeDomain name) = nameError?
  generalize floorError? settings _ = floorError?
  refine stays_check hholds (stays_check hholds (Undisturbed.locked fun now => ?_))
  let domain := Domain.make (normalizeDomain name) principal.id
    (minimumTtl.getD settings.minimumTtl) now
  have hdomain : domain.name = t.domain := (normalizeDomain_normalizeDomain name).trans hname
  refine Undisturbed.bind (p := EngineProgram.call (.createDomain domain))
    (P := fun _ later => t.Holds later) ⟨congrArg some hdomain, fun o hmay => ?_⟩ ?_
  · suffices hkeeps : t.keeps (past.after t (.createDomain domain) o).zone from
      ⟨hkeeps, hkeeps, hmay⟩
    cases o with
    | failed e =>
        rw [Past.after_failed]
        exact hholds.keeps
    | carriedOut now =>
        rw [Past.after, Outcome.call, Zones.call_createDomain]
        split
        · rw [Zones.zone?_only]
          exact hholds.keeps
        · rw [hdomain, Zones.zone?_insert_self]
          exact hempty domain hdomain
  · rintro (e | _) later hlater
    · exact hlater
    · exact hlater

theorem stays_deleteDomainFor (hnone : t.keeps none) (hname : normalizeDomain name = t.domain)
    (hholds : t.Holds past) : Stays t (deleteDomainFor principal name).run past := by
  refine undisturbed_visibleDomain hname hholds (fun _ _ hlater _ _ => hlater)
    fun zone later hlater _ hzone _ => ?_
  rw [t.isNamed (hzone ▸ hlater.keeps)]
  refine Undisturbed.locked (Undisturbed.engine_bind
    (stays_read (c := .list t.domain .all) rfl rfl hlater) (fun _ _ hnext => hnext) ?_)
  intro rrsets next hnext
  refine Undisturbed.bind (p := EngineProgram.call (.deleteDomain t.domain))
    (P := fun _ final => t.Holds final) ⟨rfl, fun o hmay => ?_⟩ ?_
  · suffices hkeeps : t.keeps (next.after t (.deleteDomain t.domain) o).zone from
      ⟨hkeeps, hkeeps, hmay⟩
    cases o with
    | failed e =>
        rw [Past.after_failed]
        exact hnext.keeps
    | carriedOut now =>
        rw [Past.after, Outcome.call, Zones.call_deleteDomain, Zones.zone?_erase_self]
        exact hnone
  · rintro (e | _ | _) final hfinal
    · exact hfinal
    · exact hfinal
    · exact fun _ _ => hfinal

theorem stays_run (ht : t.SuitsBatches) (hnone : t.keeps none)
    (hempty : ∀ domain : Domain, domain.name = t.domain →
      t.keeps (some ⟨domain, SortedMap.empty⟩))
    {r : Request} (hname : r.domainName = t.domain) (hholds : t.Holds past) :
    Stays t (run settings r).run past := by
  cases r with
  | createDomain principal name minimumTtl =>
      rw [run]
      generalize hcreate : createDomainFor settings principal name minimumTtl = create
      exact stays_map (stays_createDomainFor hempty hname hholds hcreate) _
  | deleteDomain principal name => exact stays_map (stays_deleteDomainFor hnone hname hholds) _
  | domain principal name =>
      exact undisturbed_visibleDomain hname hholds (fun _ _ hlater _ _ => hlater)
        fun _ _ hlater _ _ _ => hlater
  | get principal name key =>
      refine stays_map (undisturbed_visibleDomain hname hholds (fun _ _ hlater _ _ => hlater)
        fun zone later hlater _ hzone _ => stays_check hlater ?_) _
      rw [t.isNamed (hzone ▸ hlater.keeps)]
      refine (stays_read (c := .get t.domain key) rfl rfl hlater).engine_bind
        (fun _ _ hnext => hnext) ?_
      rintro (_ | rrset) next hnext <;> exact hnext
  | list principal name filter =>
      refine stays_map (undisturbed_visibleDomain hname hholds (fun _ _ hlater _ _ => hlater)
        fun zone later hlater _ hzone _ => stays_check hlater ?_) _
      rw [t.isNamed (hzone ▸ hlater.keeps)]
      exact stays_map (stays_read (c := .list t.domain filter) rfl rfl hlater) _
  | delete principal name key =>
      exact stays_map (stays_check hholds (stays_map (stays_applyFor ht hname hholds _) _)) _
  | write principal name operation payload minimumTtl =>
      rw [run]
      split
      · exact hholds
      · exact stays_map (stays_applyFor ht hname hholds _) _
  | derive principal name operation subname build minimumTtl =>
      exact stays_map (stays_applyFor ht hname hholds _) _
  | checkIn principal name asked =>
      cases principal with
      | none => exact hholds
      | some principal =>
          have hmerge : Stays t (mergeCheckIn settings principal name asked).run past := by
            refine undisturbed_visibleDomain hname hholds (fun _ _ hlater _ _ => hlater)
              fun zone later hlater _ _ _ => ?_
            split
            · exact hlater
            · exact hlater
            · exact stays_map (stays_applyFor ht hname hlater _) _
          have hcheckIn : Stays t (checkInFor settings (some principal) name asked) past :=
            hmerge.bind (by rintro (e | status) later hlater <;> exact hlater)
          exact stays_map (Undisturbed.lift hcheckIn) _

end Request

end ZoneKeeper
