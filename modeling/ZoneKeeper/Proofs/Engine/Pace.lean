import ZoneKeeper.Proofs.Engine.Guard
import ZoneKeeper.Proofs.Engine.Request

namespace ZoneKeeper

def StoreCall.isWrite : StoreCall → Bool
  | .upsert .. => true
  | .restore .. => true
  | _ => false

namespace Act

def isWrite : Act → Bool
  | .call c => c.isWrite
  | _ => false

def isQuiet : Act → Bool
  | .call c => !c.isWrite
  | .startTimer _ => false
  | .beginCommit => false
  | .endCommit => false
  | _ => true

def isSettled : (a : Act) → a.Answer → Bool
  | .call _, .error e => !e.isRetryable
  | _, _ => true

end Act

inductive Stage where
  | unwritten
  | writing
  | written

structure Pace where
  spans : Prop
  mayWrite : Stage → Prop
  mayAnswer : (c : StoreCall) → c.Answer → Prop
  next : Stage → (a : Act) → a.Answer → Stage
  next_of_isQuiet : ∀ now (a : Act) answer, a.isQuiet = true → next now a answer = now
  of_next_unwritten : ∀ now (a : Act) answer, next now a answer = .unwritten → now = .unwritten
    ∧ (a.isWrite = true → mayWrite now → a.isSettled answer = false)
  of_next_writing : ∀ now (a : Act) answer, next now a answer = .writing →
    (spans ∧ a = .beginCommit) ∨ (now = .writing ∧ (spans → a ≠ .endCommit))
  next_written : ∀ (a : Act) answer, next .written a answer = .written
  not_mayWrite_written : ¬ mayWrite .written

def Paced {α : Type} (t : Pace) :
    EngineProgram α → Stage → (α → Stage → Prop) → Prop
  | .done a, now, post => post a now
  | .act (.call c) next, now, post => (c.isWrite = true → t.mayWrite now)
      ∧ ∀ answer, t.mayAnswer c answer → Paced t (next answer) (t.next now (.call c) answer) post
  | .act (.startTimer _) next, now, post =>
      Paced t (next false) now post ∧ ∀ later, Paced t (next true) later post
  | .act a next, now, post => ∀ answer, Paced t (next answer) (t.next now a answer) post

def Quiet {α : Type} : EngineProgram α → (α → Prop) → Prop
  | .done a, post => post a
  | .act a next, post => a.isQuiet = true ∧ ∀ answer, Quiet (next answer) post

namespace Quiet

variable {α β : Type}

theorem bind {p : EngineProgram α} {f : α → EngineProgram β} {P : α → Prop} {post : β → Prop}
    (hp : Quiet p P) (hf : ∀ a, P a → Quiet (f a) post) : Quiet (p >>= f) post := by
  change Quiet (p.bind f) post
  induction p with
  | done a => exact hf a hp
  | act a next ih => exact ⟨hp.1, fun answer => ih answer (hp.2 answer)⟩

theorem engine_bind {p : Engine α} {f : α → Engine β} {P : Except Error α → Prop}
    {post : Except Error β → Prop} (hp : Quiet p.run P)
    (herror : ∀ e, P (.error e) → post (.error e))
    (hf : ∀ a, P (.ok a) → Quiet (f a).run post) : Quiet (p >>= f).run post := by
  rw [ExceptT.run_bind]
  refine hp.bind ?_
  rintro (e | a) ha
  · exact herror e ha
  · exact hf a ha

theorem perform {a : Act} (ha : a.isQuiet = true) : Quiet (.act a .done) fun _ => True :=
  ⟨ha, fun _ => trivial⟩

theorem check {α : Type} {error? : Option Error} {p : Engine α} (hp : Quiet p.run fun _ => True) :
    Quiet (Request.check error? >>= fun _ => p).run fun _ => True := by
  cases error? with
  | none => exact hp
  | some e => trivial

theorem locked {α : Type} {name : String} {p : Engine α} (hp : Quiet p.run fun _ => True) :
    Quiet (Engine.locked name p).run fun _ => True :=
  (perform (a := .lock name) rfl).bind fun _ _ => hp.bind fun _ _ =>
    (perform (a := .unlock name) rfl).bind fun _ _ => trivial

theorem list (domain : String) (filter : Filter) :
    Quiet (Engine.call (.list domain filter)).run fun _ => True :=
  perform (a := .call (.list domain filter)) rfl

theorem listAt (domain : String) (subnames : List String) :
    Quiet (Attempt.listAt domain subnames).run fun _ => True := by
  induction subnames with
  | nil => trivial
  | cons subname rest ih =>
      refine (list domain _).engine_bind (fun _ _ => trivial) fun _ _ => ?_
      exact ih.engine_bind (fun _ _ => trivial) fun _ _ => trivial

end Quiet

def BatchSource.Gives (source : BatchSource) (batch : Batch) : Prop :=
  match source with
  | .given own => batch = own
  | .derived _ build => ∃ stored, build stored = .ok batch

def BatchSource.MayPlan (source : BatchSource) (plan : Plan) : Prop :=
  ∃ ctx batch snapshot, source.Gives batch ∧ Plan.make ctx batch snapshot = .ok plan

namespace Quiet

variable {α β : Type}

theorem batch (domain : String) (source : BatchSource) :
    Quiet (Attempt.batch domain source).run fun r => ∀ b, r = .ok b → source.Gives b := by
  cases source with
  | given own =>
      rintro b ⟨⟩
      rfl
  | derived subname build =>
      refine (list domain _).engine_bind (fun e _ => by rintro _ ⟨⟩) fun stored _ => ?_
      exact fun b hb => ⟨stored, hb⟩

theorem plan (ctx : ReviewContext) (source : BatchSource) :
    Quiet (Attempt.plan ctx source).run fun r => ∀ made, r = .ok made → source.MayPlan made.1 := by
  refine engine_bind (perform (a := .call (.getDomain ctx.domain)) rfl)
    (fun e _ => by rintro _ ⟨⟩) ?_
  rintro (_ | found) -
  · rintro _ ⟨⟩
  · refine (batch ctx.domain source).engine_bind (fun e _ => by rintro _ ⟨⟩) fun own hown => ?_
    refine (listAt ctx.domain _).engine_bind (fun e _ => by rintro _ ⟨⟩) fun stored _ => ?_
    split
    · next made hmake =>
        rintro _ ⟨⟩
        exact ⟨ctx, own, _, hown own rfl, hmake⟩
    · rintro _ ⟨⟩

theorem prepare (ctx : ReviewContext) (source : BatchSource) :
    Quiet (Attempt.prepare ctx source).run
      fun r => ∀ made, r = .ok made → source.MayPlan made.1 := by
  refine (perform (a := .lock ctx.domain) rfl).bind fun _ _ => (plan ctx source).bind ?_
  rintro (e | made) hmade
  · exact (perform (a := .unlock ctx.domain) rfl).bind fun _ _ => by rintro _ ⟨⟩
  · exact hmade

end Quiet

namespace Paced

variable {α β : Type} {t : Pace} {now : Stage}

theorem bind {p : EngineProgram α} {f : α → EngineProgram β} {P : α → Stage → Prop}
    {post : β → Stage → Prop} (hp : Paced t p now P)
    (hf : ∀ a later, P a later → Paced t (f a) later post) : Paced t (p >>= f) now post := by
  change Paced t (p.bind f) now post
  induction p generalizing now with
  | done a => exact hf a now hp
  | act a next ih =>
      cases a with
      | call c => exact ⟨hp.1, fun answer hanswer => ih answer (hp.2 answer hanswer)⟩
      | startTimer => exact ⟨ih _ hp.1, fun later => ih _ (hp.2 later)⟩
      | _ => exact fun answer => ih answer (hp answer)

theorem mono {p : EngineProgram α} {P Q : α → Stage → Prop} (h : Paced t p now P)
    (himp : ∀ a later, P a later → Q a later) : Paced t p now Q := by
  have hbind : Paced t (p >>= pure) now Q := h.bind himp
  rwa [bind_pure] at hbind

theorem engine_bind {p : Engine α} {f : α → Engine β} {P : Except Error α → Stage → Prop}
    {post : Except Error β → Stage → Prop} (hp : Paced t p.run now P)
    (herror : ∀ e later, P (.error e) later → post (.error e) later)
    (hf : ∀ a later, P (.ok a) later → Paced t (f a).run later post) :
    Paced t (p >>= f).run now post := by
  rw [ExceptT.run_bind]
  refine hp.bind ?_
  rintro (e | a) later hlater
  · exact herror e later hlater
  · exact hf a later hlater

theorem of_quiet {p : EngineProgram α} {P : α → Prop} (h : Quiet p P) (now : Stage) :
    Paced t p now fun a later => P a ∧ later = now := by
  induction p with
  | done a => exact ⟨h, rfl⟩
  | act a next ih =>
      obtain ⟨hquiet, hnext⟩ := h
      have hrest (answer : a.Answer) : Paced t (next answer) (t.next now a answer)
          fun a later => P a ∧ later = now := by
        rw [t.next_of_isQuiet now a answer hquiet]
        exact ih answer (hnext answer)
      cases a with
      | startTimer => cases hquiet
      | call c =>
          refine ⟨fun hwrite => ?_, fun answer _ => hrest answer⟩
          rw [Act.isQuiet, hwrite] at hquiet
          cases hquiet
      | _ => exact hrest

end Paced

def Unwritten {α : Type} (again : Prop) (r : Except Error α) (now : Stage) : Prop :=
  again → ∀ e, r = .error e → e.isRetryable = true → now = .unwritten

theorem unwritten_ok {α : Type} {again : Prop} (a : α) (now : Stage) :
    Unwritten again (.ok a : Except Error α) now := by
  rintro - _ ⟨⟩

namespace Paced

variable {α β : Type} {t : Pace} {again : Prop}

theorem attempt {settings : EngineSettings} {found : Domain} {job : BatchJob}
    (hcommit : ∀ domain plan shape, job.source.MayPlan plan →
      Paced t (Commit.run domain plan shape).run .unwritten (Unwritten again)) :
    Paced t (Attempt.run settings found job).run .unwritten (Unwritten again) := by
  let ctx := Attempt.context settings found job
  refine engine_bind (P := fun r later => Unwritten again r later ∧ ∀ made, r = .ok made →
    job.source.MayPlan made.1 ∧ later = .unwritten) ?_ ?_ ?_
  · constructor
    · refine (of_quiet (Quiet.prepare ctx job.source) _).bind fun r later hlater => ?_
      obtain ⟨hplan, rfl⟩ := hlater
      refine (of_quiet (Quiet.perform (a := .stopTimer) rfl) _).bind fun _ last hlast => ?_
      obtain ⟨-, rfl⟩ := hlast
      exact ⟨fun _ _ _ _ => rfl, fun made hmade => ⟨hplan made hmade, rfl⟩⟩
    · refine fun later => (of_quiet (Quiet.perform (a := .unlock ctx.domain) rfl) _).bind ?_
      refine fun _ _ _ => ⟨?_, by rintro _ ⟨⟩⟩
      rintro - _ ⟨⟩ ⟨⟩
  · exact fun e later hlater _ _ he => hlater.1 ‹_› _ (by rw [Except.error.inj he])
  · rintro ⟨plan, shape⟩ later ⟨-, hmade⟩
    obtain ⟨hplan, rfl⟩ := hmade _ rfl
    exact hcommit _ plan shape hplan

theorem retrying {settings : EngineSettings} {p : Engine α}
    (hp : Paced t p.run .unwritten (Unwritten again)) (retries attempt : Nat)
    (hagain : 0 < retries → again) :
    Paced t (Attempt.retrying settings p retries attempt).run .unwritten fun _ _ => True := by
  induction retries generalizing attempt with
  | zero => exact hp.mono fun _ _ _ => trivial
  | succ retries ih =>
      refine hp.bind ?_
      rintro (e | a) later hlater
      · dsimp only
        split
        · next hretryable =>
            obtain rfl := hlater (hagain (Nat.succ_pos retries)) e rfl hretryable
            refine (of_quiet (Quiet.perform (a := .wait _) rfl) _).bind ?_
            rintro - _ ⟨-, rfl⟩
            exact ih (attempt + 1) fun _ => hagain (Nat.succ_pos retries)
        · trivial
      · trivial

theorem visible {principal : Principal} {name : String} {next : Domain → Engine α}
    (hnext : ∀ found, Paced t (next found).run .unwritten fun _ _ => True) :
    Paced t (Request.visibleDomain principal name >>= next).run .unwritten fun _ _ => True := by
  rw [Request.run_visibleDomain]
  refine bind (p := EngineProgram.call (.getDomain (normalizeDomain name)))
    (of_quiet (Quiet.perform (a := .call (.getDomain (normalizeDomain name))) rfl) _) ?_
  rintro (e | _ | found) later ⟨-, rfl⟩
  · trivial
  · trivial
  · dsimp only
    split
    · exact hnext found
    · trivial

theorem of_check {error? : Option Error} {p : Engine α}
    (hp : Paced t p.run .unwritten fun _ _ => True) :
    Paced t (Request.check error? >>= fun _ => p).run .unwritten fun _ _ => True := by
  cases error? with
  | none => exact hp
  | some e => trivial

theorem map {p : Engine α} (hp : Paced t p.run .unwritten fun _ _ => True) (f : α → β) :
    Paced t (p >>= fun a => pure (f a)).run .unwritten fun _ _ => True :=
  hp.engine_bind (fun _ _ _ => trivial) fun _ _ _ => trivial

theorem lift {p : EngineProgram α} (hp : Paced t p .unwritten fun _ _ => True) :
    Paced t (liftM p : Engine α).run .unwritten fun _ _ => True :=
  hp.bind (f := fun a => Program.done (Except.ok a : Except Error α)) fun _ _ _ => trivial

theorem of_quiet_run {p : EngineProgram α} (h : Quiet p fun _ => True) :
    Paced t p .unwritten fun _ _ => True :=
  (of_quiet h _).mono fun _ _ _ => trivial

end Paced

namespace Request

variable {t : Pace} {settings : EngineSettings}

theorem paced_applyFor {job : BatchJob} (hattempt : ∀ found,
      Paced t (Attempt.run settings found job).run .unwritten (Unwritten (0 < settings.maxRetries)))
    (principal : Principal) (name : String) :
    Paced t (applyFor settings principal name job).run .unwritten fun _ _ => True :=
  Paced.visible fun found => Paced.retrying (hattempt found) _ _ id

theorem quiet_createDomainFor {principal : Principal} {name : String} {minimumTtl : Option Nat}
    {create : Engine Domain}
    (hcreate : createDomainFor settings principal name minimumTtl = create) :
    Quiet create.run fun _ => True := by
  rw [← hcreate, createDomainFor]
  generalize nameError? (normalizeDomain name) = nameError?
  generalize floorError? settings _ = floorError?
  refine Quiet.check (Quiet.check (Quiet.locked ?_))
  refine (Quiet.perform (a := .readClock) rfl).bind fun now _ => ?_
  exact (Quiet.perform (a := .call (.createDomain _)) rfl).engine_bind (fun _ _ => trivial)
    fun _ _ => trivial

theorem paced_deleteDomainFor (principal : Principal) (name : String) :
    Paced t (deleteDomainFor principal name).run .unwritten fun _ _ => True := by
  refine Paced.visible fun found => Paced.of_quiet_run (Quiet.locked ?_)
  refine (Quiet.list found.name .all).engine_bind (fun _ _ => trivial) fun rrsets _ => ?_
  refine (Quiet.perform (a := .call (.deleteDomain found.name)) rfl).engine_bind
    (fun _ _ => trivial) ?_
  rintro (_ | _) -
  · trivial
  · exact (Quiet.perform (a := .readClock) rfl).bind fun _ _ => Quiet.perform (a := .announce _) rfl

theorem paced_run {r : Request} (hattempt : ∀ found job, r.job? settings = some job →
      Paced t (Attempt.run settings found job).run .unwritten
        (Unwritten (0 < settings.maxRetries))) :
    Paced t (run settings r).run .unwritten fun _ _ => True := by
  cases r with
  | createDomain principal name minimumTtl =>
      rw [run]
      generalize hcreate : createDomainFor settings principal name minimumTtl = create
      exact .map (.of_quiet_run (quiet_createDomainFor hcreate)) _
  | deleteDomain principal name => exact .map (paced_deleteDomainFor principal name) _
  | domain principal name => exact Paced.visible fun _ => trivial
  | get principal name key =>
      refine .map (Paced.visible fun found => .of_check (.of_quiet_run ?_)) _
      refine (Quiet.perform (a := .call (.get found.name key)) rfl).engine_bind
        (fun _ _ => trivial) ?_
      rintro (_ | rrset) - <;> trivial
  | list principal name filter =>
      refine .map (Paced.visible fun found => .of_check (.of_quiet_run ?_)) _
      exact (Quiet.list found.name filter).engine_bind (fun _ _ => trivial) fun _ _ => trivial
  | delete principal name key =>
      exact .map (.of_check (.map (paced_applyFor (fun found => hattempt found _ rfl) _ _) _)) _
  | write principal name operation payload minimumTtl =>
      rw [run]
      split
      · trivial
      · next batch hread =>
          exact .map (paced_applyFor (fun found => hattempt found _ (by rw [job?, hread])) _ _) _
  | derive principal name operation subname build minimumTtl =>
      exact .map (paced_applyFor (fun found => hattempt found _ rfl) _ _) _
  | checkIn principal name asked =>
      cases principal with
      | none => trivial
      | some principal =>
          have hmerge : Paced t (mergeCheckIn settings principal name asked).run .unwritten
              fun _ _ => True := by
            refine Paced.visible fun _ => ?_
            split
            · trivial
            · trivial
            · next updates hsome hupdates =>
                refine .map (paced_applyFor (fun found => hattempt found _ ?_) _ _) _
                rw [job?, hupdates]
                cases updates with
                | nil => exact (hsome rfl).elim
                | cons => rfl
          have hcheckIn : Paced t (checkInFor settings (some principal) name asked) .unwritten
              fun _ _ => True :=
            hmerge.bind (by rintro (e | status) later - <;> trivial)
          exact .map (.lift hcheckIn) _

end Request

namespace Pace

def once : Pace where
  spans := False
  mayWrite := fun now => now = .unwritten
  mayAnswer := fun _ _ => True
  next := fun now a answer =>
    match now with
    | .unwritten => if a.isWrite && a.isSettled answer then .written else .unwritten
    | now => now
  next_of_isQuiet := by
    rintro (_ | _ | _) a answer hquiet
    · have hread : a.isWrite = false := by
        cases a with
        | call c => exact Bool.not_eq_eq_eq_not.1 hquiet
        | _ => rfl
      simp [hread]
    · rfl
    · rfl
  of_next_unwritten := by
    rintro (_ | _ | _) a answer hnext
    · refine ⟨rfl, fun hwrite _ => ?_⟩
      simpa [hwrite] using hnext
    · cases hnext
    · cases hnext
  of_next_writing := by
    rintro (_ | _ | _) a answer hnext
    · dsimp only at hnext
      split at hnext <;> cases hnext
    · exact Or.inr ⟨rfl, False.elim⟩
    · cases hnext
  next_written := fun _ _ => rfl
  not_mayWrite_written := by rintro ⟨⟩

def inCommit (again : Prop) : Pace where
  spans := True
  mayWrite := fun now => now = .writing
  mayAnswer := fun c answer => again → (Act.call c).isSettled answer = true
  next := fun now a _ =>
    match a, now with
    | .beginCommit, .unwritten => .writing
    | .endCommit, _ => .written
    | _, now => now
  next_of_isQuiet := by
    intro now a answer hquiet
    cases a with
    | beginCommit | endCommit => cases hquiet
    | _ => rfl
  of_next_unwritten := by
    rintro now a answer hnext
    cases a with
    | beginCommit => cases now <;> cases hnext
    | endCommit => cases hnext
    | _ =>
        obtain rfl : now = .unwritten := hnext
        exact ⟨rfl, by rintro - ⟨⟩⟩
  of_next_writing := by
    rintro now a answer hnext
    cases a with
    | beginCommit => exact Or.inl ⟨trivial, rfl⟩
    | endCommit => cases hnext
    | _ => exact Or.inr ⟨hnext, by rintro - ⟨⟩⟩
  next_written := fun a _ => by cases a <;> rfl
  not_mayWrite_written := by rintro ⟨⟩

end Pace

namespace Commit

variable {again : Prop}

theorem quiet_announceChanges (domain : String) (changes : List KeyChange) :
    Quiet (announceChanges domain changes) fun _ => True := by
  cases changes with
  | nil => trivial
  | cons change rest =>
      exact (Quiet.perform (a := .readClock) rfl).bind fun _ _ =>
        Quiet.perform (a := .announce _) rfl

theorem paced_end {t : Pace} {domain : String} {result : Except Error BatchOutcome}
    {now : Stage} {post : Except Error BatchOutcome → Stage → Prop}
    (h : post result (t.next now .endCommit ())) :
    Paced t (do
      EngineProgram.unlock domain
      EngineProgram.endCommit
      return result) now post := by
  refine (Paced.of_quiet (Quiet.perform (a := .unlock domain) rfl) now).bind ?_
  rintro - _ ⟨-, rfl⟩
  exact fun _ => h

theorem paced_run {t : Pace} {domain : String} {plan : Plan} {shape : BatchShape}
    {P : Except Error (List DoneStep) → Stage → Prop}
    (hsteps : Paced t (carryOut domain plan.steps []).run (t.next .unwritten .beginCommit ()) P)
    (hfailed : ∀ e later, P (.error e) later →
      Unwritten again (.error e : Except Error BatchOutcome) (t.next later .endCommit ())) :
    Paced t (run domain plan shape).run .unwritten (Unwritten again) := by
  refine fun _ => hsteps.bind ?_
  rintro (e | done) later hlater
  · exact paced_end (hfailed e later hlater)
  · refine (Paced.of_quiet (quiet_announceChanges domain _) later).bind ?_
    rintro - _ ⟨-, rfl⟩
    exact paced_end (unwritten_ok _ _)

theorem paced_once {domain : String} {plan : Plan} (hfew : plan.steps.length ≤ 1)
    (shape : BatchShape) :
    Paced .once (run domain plan shape).run .unwritten (Unwritten again) := by
  refine paced_run (P := Unwritten again) ?_ ?_
  · rcases hsteps : plan.steps with _ | ⟨item, _ | ⟨other, rest⟩⟩
    · exact unwritten_ok _ _
    · refine ⟨fun _ => rfl, ?_⟩
      rintro (e | left) -
      · -- there is nothing to undo, and nothing counts as written if this is tried again
        rintro - _ ⟨⟩ hretryable
        have hunsettled : (Act.call (.upsert domain item.key item.ttl item.records)).isSettled
            (.error e) = false := by
          rw [Act.isSettled, hretryable]
          rfl
        exact if_neg (by rw [hunsettled, Bool.and_false]; exact Bool.false_ne_true)
      · exact unwritten_ok _ _
    · rw [hsteps] at hfew
      simp at hfew
  · intro e later hlater hagain e' he hretryable
    obtain rfl := hlater hagain e' (by rw [Except.error.inj he]) hretryable
    rfl

theorem paced_undo (domain : String) (done : List DoneStep) :
    Paced (.inCommit again) (undo domain done) .writing fun _ later => later = .writing := by
  induction done with
  | nil => rfl
  | cons d rest ih => exact ⟨fun _ => rfl, fun _ _ => ih⟩

theorem paced_carryOut (domain : String) (steps : List PlannedItem) (done : List DoneStep) :
    Paced (.inCommit again) (carryOut domain steps done).run .writing fun r later =>
      later = .writing ∧ (again → ∀ e, r = .error e → e.isRetryable = false) := by
  induction steps generalizing done with
  | nil => exact ⟨rfl, by rintro - _ ⟨⟩⟩
  | cons item rest ih =>
      refine ⟨fun _ => rfl, ?_⟩
      rintro (e | left) hanswer
      · refine (paced_undo domain done).bind ?_
        rintro - _ rfl
        refine ⟨rfl, ?_⟩
        rintro hagain _ ⟨⟩
        exact Bool.not_eq_eq_eq_not.1 (hanswer hagain)
      · exact ih _

theorem paced_inCommit (domain : String) (plan : Plan) (shape : BatchShape) :
    Paced (.inCommit again) (run domain plan shape).run .unwritten (Unwritten again) := by
  refine paced_run (paced_carryOut domain plan.steps []) ?_
  rintro e later ⟨-, hfinal⟩ hagain _ ⟨⟩ hretryable
  exact absurd (hretryable.symm.trans (hfinal hagain e rfl)) (by decide)

end Commit

def BatchSource.IsSingle (source : BatchSource) : Prop :=
  ∀ batch, source.Gives batch → batch.items.length ≤ 1

theorem Plan.length_steps_le_one {plan : Plan} (h : plan.items.length ≤ 1) :
    plan.steps.length ≤ 1 := by
  rw [steps]
  rcases hitems : plan.items with _ | ⟨p, _ | ⟨q, rest⟩⟩
  · simp
  · cases haction : p.action <;> simp [haction, Action.isDelete, Action.isWrite]
  · rw [hitems] at h
    simp at h

theorem BatchSource.IsSingle.length_steps {source : BatchSource} (h : source.IsSingle)
    {plan : Plan} (hplan : source.MayPlan plan) : plan.steps.length ≤ 1 := by
  obtain ⟨ctx, batch, snapshot, hgives, hmake⟩ := hplan
  refine Plan.length_steps_le_one ?_
  calc plan.items.length
      ≤ (Review.ofItems ctx snapshot batch.items).zipIdx.length := by
        rw [(Plan.items_of_make hmake).1]
        exact List.length_filterMap_le ..
    _ = batch.items.length := by rw [List.length_zipIdx, Review.length_ofItems]
    _ ≤ 1 := h batch hgives

namespace Request

variable {settings : EngineSettings} {r : Request}

def IsSingle (settings : EngineSettings) (r : Request) : Prop :=
  ∀ job, r.job? settings = some job → job.source.IsSingle

theorem isSingle_of_job? (h : r.job? settings = none) : r.IsSingle settings := by
  intro job hjob
  cases h.symm.trans hjob

theorem isSingle_write_object (settings : EngineSettings) (principal : Principal) (name : String)
    (operation : Operation) (members : List (String × Json)) (minimumTtl : Option Nat) :
    (write principal name operation (.object members) minimumTtl).IsSingle settings := by
  intro job hjob batch hgives
  obtain rfl := Option.some.inj hjob
  obtain rfl : batch = ⟨[BatchItem.ofJson (.object members)], .single⟩ := hgives
  exact Nat.le_refl 1

theorem paced_once (h : r.IsSingle settings) :
    Paced .once (run settings r).run .unwritten fun _ _ => True :=
  paced_run fun _ job hjob => .attempt fun _ _ shape hplan =>
    Commit.paced_once ((h job hjob).length_steps hplan) shape

theorem paced_inCommit (settings : EngineSettings) (r : Request) :
    Paced (.inCommit (0 < settings.maxRetries)) (run settings r).run .unwritten
      fun _ _ => True :=
  paced_run fun _ _ _ => .attempt fun domain plan shape _ => Commit.paced_inCommit domain plan shape

end Request

end ZoneKeeper
