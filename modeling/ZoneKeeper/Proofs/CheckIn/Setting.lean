import ZoneKeeper.Proofs.CheckIn.Batch
import ZoneKeeper.Proofs.Engine.Faults

namespace ZoneKeeper

theorem EngineSettings.ttl_of_validate {settings : EngineSettings}
    (h : settings.validate = .ok ()) : settings.checkIn.minimumTtl ≤ settings.checkIn.ttl
      ∧ settings.checkIn.ttl ≤ settings.maximumTtl := by
  unfold validate CheckInSettings.validate at h
  repeat' split at h
  all_goals cases h
  next hfloor hceiling =>
    simp only [Bool.or_eq_true, decide_eq_true_eq, not_or] at hfloor
    omega

namespace CheckIn

def AllStorable (wanted : Family → Option (List String)) (domain : String) : Prop :=
  ∀ family addresses, wanted family = some addresses → AreStorable family domain addresses

inductive Settled {α : Type} (settings : CheckInSettings) (wanted : Family → Option (List String))
    (zone : Zone) : Except Error α → Option Zone → Prop where
  | stored {a : α} {zone' : Zone} (hall : AllStorable wanted zone.domain.name)
      (hsets : Sets settings wanted zone zone') : Settled settings wanted zone (.ok a) (some zone')
  | refused {errors : BatchErrors} (hnot : ¬ AllStorable wanted zone.domain.name) :
      Settled settings wanted zone (.error (.rejected errors)) (some zone)

section Program

open Engine

variable {c : CheckIn} {settings : EngineSettings} {principal : Principal} {name : String}
  {past : Past} {zone : Zone} {wanted : Family → Option (List String)}

theorem undisturbed_setting (hsettings : settings.validate = .ok ())
    (hpast : past.zone = some zone)
    (hholds : (Watch.alone (fun _ _ => False) (normalizeDomain name)).Holds past)
    (howns : principal.owns zone.domain = true) (hnone : ¬ zone.HasSet .apexAlias)
    {build : List Rrset → Batch}
    (hbuild : build (zone.rrsets.values.filter (Filter.ofSubname "").accepts)
      = setting settings.checkIn wanted) :
    Undisturbed (.alone (fun _ _ => False) (normalizeDomain name))
      (Request.applyFor settings principal name ⟨.update, .derived "" fun apex => .ok (build apex),
        some settings.checkIn.minimumTtl⟩).run past fun r later =>
      Settled settings.checkIn wanted zone r later.zone := by
  obtain ⟨hminimum, hmaximum⟩ := EngineSettings.ttl_of_validate hsettings
  refine Request.undisturbed_visibleDomain rfl hholds ?_ ?_
  · rintro e later - - (⟨_, ⟨⟩⟩ | ⟨-, hforeign⟩)
    exact absurd ((hforeign zone hpast).symm.trans howns) Bool.false_ne_true
  · intro found later hlater hfound hsame _
    obtain rfl := Option.some.inj (hpast.symm.trans hfound)
    obtain ⟨hname, hkeyed⟩ := hlater.keeps zone hsame
    let job : BatchJob := ⟨.update, .derived "" fun apex => .ok (build apex),
      some settings.checkIn.minimumTtl⟩
    have hyields {own : Batch} (h : job.source.Yields zone own) :
        own = setting settings.checkIn wanted :=
      (Except.ok.inj h).symm.trans hbuild
    have hagrees := Review.agrees_of_isKeyed hkeyed (setting settings.checkIn wanted)
    have hupdate : (Attempt.context settings zone.domain job).operation = .update := rfl
    have hmade := exists_make_iff hupdate hminimum hmaximum hagrees hnone
    refine (Attempt.undisturbed_calm job hname hlater hsame _ _).mono ?_
    intro r final hended
    cases hended with
    | late hlate => exact hlate.elim
    | undone _ hfault => exact absurd hfault (by rintro ⟨_, ⟨⟩⟩)
    | unplanned hplanned hstill =>
        rw [hstill]
        cases hplanned with
        | faulty hfault => exact absurd hfault (by rintro ⟨_, ⟨⟩⟩)
        | unbuilt hrefuses => cases hrefuses
        | refused hown hmake =>
            obtain rfl := hyields hown
            refine .refused fun hall => ?_
            obtain ⟨plan, hplan⟩ := hmade.2 hall
            cases hmake.symm.trans hplan
    | applied hplanned hsteps hfor hleft =>
        cases hplanned with
        | made hown hmake =>
            obtain rfl := hyields hown
            rw [hleft]
            exact .stored (hmade.1 ⟨_, hmake⟩) (sets_after hmake rfl rfl hagrees hkeyed hsteps hfor)

def statusOf : Except Error CheckInStatus → CheckInStatus
  | .ok status => status
  | .error e => .ofError e

theorem undisturbed_run_of_merge {t : Watch} {Q : CheckInStatus → Past → Prop}
    (h : Undisturbed t (Request.mergeCheckIn settings principal name c).run past fun r later =>
      Q (statusOf r) later) :
    Undisturbed t (Request.run settings (.checkIn (some principal) name c)).run past
      fun result later => ∃ status, result = .ok (.status status) ∧ Q status later := by
  have hcheckIn : Undisturbed t (Request.checkInFor settings (some principal) name c) past Q := by
    refine h.bind ?_
    rintro (e | status) later hQ <;> exact hQ
  have hlifted : Undisturbed t
      (liftM (Request.checkInFor settings (some principal) name c) : Engine CheckInStatus).run past
      fun result later => ∃ status, result = .ok status ∧ Q status later :=
    .lift (hcheckIn.mono fun status _ hQ => ⟨status, rfl, hQ⟩)
  refine hlifted.engine_bind ?_ ?_
  · rintro e later ⟨_, ⟨⟩, -⟩
  · rintro status later ⟨_, ⟨⟩, hQ⟩
    exact ⟨status, rfl, hQ⟩

end Program

end CheckIn

end ZoneKeeper
