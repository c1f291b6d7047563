import ZoneKeeper.Proofs.Engine.Guard
import ZoneKeeper.Proofs.Engine.Request

namespace ZoneKeeper

inductive Phase (α : Type) where
  | looking
  | trying (again : EngineProgram α)
  | pausing (again : EngineProgram α)

def Repeats {α : Type} : EngineProgram α → Phase α → EngineProgram α → Prop
  | .done a, .looking, q => q = .done a
  | .done a, .trying _, q => q = .done a
  | .act (.call c) next, .looking, q => (∃ name, c = .getDomain name)
      ∧ ∃ nextq, q = .act (.call c) nextq ∧ ∀ answer, Repeats (next answer) .looking (nextq answer)
  | .act (.startTimer _) _, .trying _, _ => False
  | .act (.startTimer milliseconds) next, _, q => ∃ nextq, q = .act (.startTimer milliseconds) nextq
      ∧ (∃ domain a, next true = .act (.unlock domain) fun _ => .done a)
      ∧ Repeats (next false) (.trying q) (nextq false)
  | .act (.wait _) next, .trying again, q => (∃ a, q = .done a)
      ∧ Repeats (next ()) (.pausing again) again
  | .act .endCommit next, .trying again, q => ∃ nextq, q = .act .endCommit nextq
      ∧ (∃ a, nextq () = .done a) ∧ Repeats (next ()) (.trying again) (nextq ())
  | .act a next, .trying again, q => ∃ nextq, q = .act a nextq
      ∧ ∀ answer, Repeats (next answer) (.trying again) (nextq answer)
  | _, _, _ => False

namespace Attempt

variable {α : Type}

def again (settings : EngineSettings) (p : Engine α) (retries attempt : Nat) :
    Except Error α → EngineProgram (Except Error α)
  | .ok a => .done (.ok a)
  | .error e =>
      if e.isRetryable then
        .act (.wait (delay settings attempt)) fun _ =>
          (retrying settings p retries (attempt + 1)).run
      else .done (.error e)

theorem run_retrying (settings : EngineSettings) (p : Engine α) (retries attempt : Nat) :
    (retrying settings p (retries + 1) attempt).run
      = p.run >>= again settings p retries attempt := by
  refine congrArg (p.run >>= ·) (funext ?_)
  rintro (e | a) <;> rfl

end Attempt

def EngineSettings.once (settings : EngineSettings) : EngineSettings :=
  { settings with maxRetries := 0 }

namespace Repeats

variable {α β : Type} {again : EngineProgram β}

theorem of_done {p : EngineProgram β} (hp : ∃ b, p = .done b) : Repeats p (.trying again) p := by
  obtain ⟨b, rfl⟩ := hp
  exact rfl

theorem bind_tame {domain : String} {p : EngineProgram α} {f g : α → EngineProgram β}
    (hp : Tame domain p) (hg : ∀ a, ∃ b, g a = .done b)
    (hfg : ∀ a, Repeats (f a) (.trying again) (g a)) :
    Repeats (p >>= f) (.trying again) (p >>= g) := by
  change Repeats (p.bind f) (.trying again) (p.bind g)
  induction p with
  | done a => exact hfg a
  | act a next ih =>
      cases a with
      | endCommit =>
          obtain ⟨result, hresult⟩ := hp
          have hend {γ : Type} (k : α → EngineProgram γ) : (next ()).bind k = k result := by
            rw [hresult]
            rfl
          refine ⟨_, rfl, ?_, ?_⟩
          · exact (hend g).symm ▸ hg result
          · change Repeats ((next ()).bind f) (.trying again) ((next ()).bind g)
            rw [hend, hend]
            exact hfg result
      | wait | startTimer | push => exact hp.1.elim
      | _ => exact ⟨_, rfl, fun answer => ih answer (hp.2 answer)⟩

section Attempts

variable {settings : EngineSettings} {found : Domain} {job : BatchJob}
  {f : Except Error BatchOutcome → EngineProgram β} {phase : Phase β}

theorem attempt_bind {k : Except Error BatchOutcome → EngineProgram β}
    (hphase : phase = .looking
      ∨ phase = .pausing ((Attempt.run settings found job).run >>= f))
    (hf : ∀ r, ∃ b, f r = .done b)
    (hlate : ∀ e : Error, e.isRetryable = false → k (.error e) = f (.error e))
    (hk : ∀ r, Repeats (k r) (.trying ((Attempt.run settings found job).run >>= f)) (f r)) :
    Repeats ((Attempt.run settings found job).run >>= k) phase
      ((Attempt.run settings found job).run >>= f) := by
  obtain ⟨body, hbody, hrun⟩ := Attempt.exists_run_eq settings found job
  have hnext := bind_tame hbody hf hk
  let timeout := Attempt.timeout found.name settings.requestTimeout
  obtain ⟨b, hb⟩ := hf (.error timeout)
  have hend : k (.error timeout) = .done b := (hlate timeout rfl).trans hb
  rw [hrun] at hnext ⊢
  rcases hphase with rfl | rfl
  · exact ⟨_, rfl, ⟨found.name, b, congrArg _ (funext fun _ => hend)⟩, hnext⟩
  · exact ⟨_, rfl, ⟨found.name, b, congrArg _ (funext fun _ => hend)⟩, hnext⟩

theorem retrying (hf : ∀ r, ∃ b, f r = .done b) (retries attempt : Nat)
    (hphase : phase = .looking
      ∨ phase = .pausing ((Attempt.run settings found job).run >>= f)) :
    Repeats ((Attempt.retrying settings (Attempt.run settings found job) retries attempt).run >>= f)
      phase ((Attempt.run settings found job).run >>= f) := by
  induction retries generalizing attempt phase with
  | zero => exact attempt_bind hphase hf (fun _ _ => rfl) fun r => of_done (hf r)
  | succ retries ih =>
      rw [Attempt.run_retrying, bind_assoc]
      refine attempt_bind hphase hf ?_ ?_
      · intro e he
        rw [Attempt.again, he]
        rfl
      · rintro (e | outcome)
        · rw [Attempt.again]
          split
          · exact ⟨hf _, ih (attempt + 1) (Or.inr rfl)⟩
          · exact of_done (hf _)
        · exact of_done (hf _)

end Attempts

end Repeats

namespace Request

variable {α β : Type} {settings : EngineSettings} {principal : Principal} {name : String}

theorem repeats_looking {p : EngineProgram β} (hp : ∃ b, p = .done b) : Repeats p .looking p := by
  obtain ⟨b, rfl⟩ := hp
  exact rfl

theorem repeats_visibleDomain {next next' : Domain → Engine α}
    {f : Except Error α → EngineProgram β}
    (hf : ∀ r, ∃ b, f r = .done b)
    (hnext : ∀ found, Repeats ((next found).run >>= f) .looking ((next' found).run >>= f)) :
    Repeats ((visibleDomain principal name >>= next).run >>= f) .looking
      ((visibleDomain principal name >>= next').run >>= f) := by
  rw [run_visibleDomain, run_visibleDomain]
  refine ⟨⟨_, rfl⟩, _, rfl, ?_⟩
  rintro (e | _ | found)
  · exact repeats_looking (hf _)
  · exact repeats_looking (hf _)
  · dsimp only
    by_cases howns : principal.owns found = true
    · rw [if_pos howns, if_pos howns]
      exact hnext found
    · rw [if_neg howns, if_neg howns]
      exact repeats_looking (hf _)

theorem repeats_applyFor {job : BatchJob} {f : Except Error BatchOutcome → EngineProgram β}
    (hf : ∀ r, ∃ b, f r = .done b) :
    Repeats ((applyFor settings principal name job).run >>= f) .looking
      ((applyFor settings.once principal name job).run >>= f) :=
  repeats_visibleDomain hf fun _ => Repeats.retrying hf settings.maxRetries 0 (Or.inl rfl)

theorem repeats_applyFor_map {job : BatchJob} (reply : BatchOutcome → α)
    {f : Except Error α → EngineProgram β} (hf : ∀ r, ∃ b, f r = .done b) :
    Repeats ((applyFor settings principal name job >>= fun o => pure (reply o)).run >>= f) .looking
      ((applyFor settings.once principal name job >>= fun o => pure (reply o)).run >>= f) := by
  rw [ExceptT.run_bind, ExceptT.run_bind, bind_assoc, bind_assoc]
  refine repeats_applyFor ?_
  rintro (e | o) <;> exact hf _

theorem repeats_mergeCheckIn {asked : CheckIn} {f : Except Error CheckInStatus → EngineProgram β}
    (hf : ∀ r, ∃ b, f r = .done b) :
    Repeats ((mergeCheckIn settings principal name asked).run >>= f) .looking
      ((mergeCheckIn settings.once principal name asked).run >>= f) := by
  refine repeats_visibleDomain hf fun _ => ?_
  split
  · exact repeats_looking (hf _)
  · exact repeats_looking (hf _)
  · exact repeats_applyFor_map _ hf

theorem run_checkIn (settings : EngineSettings) (principal : Principal) (name : String)
    (asked : CheckIn) : (run settings (.checkIn (some principal) name asked)).run
      = (mergeCheckIn settings principal name asked).run >>= fun
          | .ok status => .done (.ok (.status status))
          | .error e => .done (.ok (.status (.ofError e))) := by
  rw [run, checkInFor, ExceptT.run_bind]
  refine (bind_assoc (m := EngineProgram) _ _ _).trans ?_
  refine (bind_assoc (m := EngineProgram) _ _ _).trans ?_
  refine congrArg (_ >>= ·) (funext ?_)
  rintro (e | status) <;> rfl

theorem repeats_run (settings : EngineSettings) {r : Request} (hbatch : r.isBatch = true) :
    Repeats (run settings r).run .looking (run settings.once r).run := by
  have hpure {γ δ : Type} (g : γ → δ) (r : Except Error γ) :
      ∃ b, ExceptT.bindCont (m := EngineProgram) (fun a => pure (g a)) r = .done b := by
    rcases r with e | a <;> exact ⟨_, rfl⟩
  cases r with
  | delete principal name key =>
      rw [run, run, deleteFor, deleteFor]
      cases (RecordType.refusal? key.type).map _ with
      | some e => exact rfl
      | none => exact repeats_applyFor_map (fun o => !o.deleted.isEmpty) (hpure Reply.removed)
  | write principal name operation payload minimumTtl =>
      rw [run, run]
      split
      · exact rfl
      · exact repeats_applyFor (hpure _)
  | derive principal name operation subname build minimumTtl => exact repeats_applyFor (hpure _)
  | checkIn principal name asked =>
      cases principal with
      | none => exact rfl
      | some principal =>
          rw [run_checkIn, run_checkIn]
          refine repeats_mergeCheckIn ?_
          rintro (e | status) <;> exact ⟨_, rfl⟩
  | _ => exact (Bool.false_ne_true hbatch).elim

end Request

end ZoneKeeper
