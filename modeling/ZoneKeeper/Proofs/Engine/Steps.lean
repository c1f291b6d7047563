import ZoneKeeper.Engine.Attempt
import ZoneKeeper.Proofs.Zone.Table

namespace ZoneKeeper

namespace EngineProgram

variable {α β : Type} {P : Act → Prop}

def Each (P : Act → Prop) : EngineProgram α → Prop
  | .done _ => True
  | .act a next => P a ∧ ∀ answer, Each P (next answer)

theorem each_perform {a : Act} (ha : P a) : Each P (.act a .done) := ⟨ha, fun _ => trivial⟩

theorem Each.bind {p : EngineProgram α} {f : α → EngineProgram β} (hp : p.Each P)
    (hf : ∀ a, (f a).Each P) : (p >>= f).Each P := by
  change Each P (p.bind f)
  induction p with
  | done a => exact hf a
  | act a next ih => exact ⟨hp.1, fun answer => ih answer (hp.2 answer)⟩

theorem Each.engine_bind {p : Engine α} {f : α → Engine β} (hp : Each P p.run)
    (hf : ∀ a, Each P (f a).run) : Each P (p >>= f).run := by
  rw [ExceptT.run_bind]
  refine Each.bind hp ?_
  rintro (e | a)
  · trivial
  · exact hf a

end EngineProgram

structure Act.SuitsPreparing (P : Act → Prop) (domain : String) : Prop where
  lock : P (.lock domain)
  unlock : P (.unlock domain)
  getDomain : P (.call (.getDomain domain))
  list : ∀ filter, P (.call (.list domain filter))

namespace Attempt

open EngineProgram

section Preparing

variable {P : Act → Prop} {ctx : ReviewContext} (h : Act.SuitsPreparing P ctx.domain)

include h

theorem each_list (filter : Filter) : Each P (Engine.call (.list ctx.domain filter)).run :=
  each_perform (h.list filter)

theorem each_listAt (subnames : List String) : Each P (listAt ctx.domain subnames).run := by
  induction subnames with
  | nil => trivial
  | cons subname rest ih =>
      exact (each_list h _).engine_bind fun _ => ih.engine_bind fun _ => trivial

theorem each_batch (source : BatchSource) : Each P (batch ctx.domain source).run := by
  cases source with
  | given own => trivial
  | derived subname build => exact (each_list h _).engine_bind fun _ => trivial

theorem each_plan (source : BatchSource) : Each P (plan ctx source).run := by
  refine Each.engine_bind (each_perform (a := .call (.getDomain ctx.domain)) h.getDomain) ?_
  rintro (_ | found)
  · trivial
  · refine (each_batch h source).engine_bind fun b => (each_listAt h _).engine_bind fun stored => ?_
    split <;> trivial

theorem each_prepare (source : BatchSource) : Each P (prepare ctx source).run := by
  refine Each.bind (each_perform h.lock) fun _ => (each_plan h source).bind ?_
  rintro (e | made)
  · exact Each.bind (each_perform h.unlock) fun _ => trivial
  · trivial

end Preparing

end Attempt

def Act.IsStep (domain : String) : Act → Prop
  | .call c => c.domain? = some domain ∧ c.touchesDomains = false
  | .lock name => name = domain
  | .unlock name => name = domain
  | .announce change => change.domain = domain
  | .readClock => True
  | .stopTimer => True
  | .beginCommit => True
  | _ => False

def Stepwise {α : Type} (domain : String) : EngineProgram α → Prop
  | .done _ => True
  | .act a next => a.IsStep domain ∧ ∀ answer, Stepwise domain (next answer)

def Tame {α : Type} (domain : String) : EngineProgram α → Prop
  | .done _ => True
  | .act .endCommit next => ∃ result, next () = .done result
  | .act a next => a.IsStep domain ∧ ∀ answer, Tame domain (next answer)

namespace Stepwise

variable {α β : Type} {domain : String}

theorem iff_each {p : EngineProgram α} : Stepwise domain p ↔ p.Each (Act.IsStep domain) := by
  induction p with
  | done a => exact Iff.rfl
  | act a next ih => exact and_congr_right fun _ => forall_congr' ih

theorem bind {p : EngineProgram α} {f : α → EngineProgram β} (hp : Stepwise domain p)
    (hf : ∀ a, Stepwise domain (f a)) : Stepwise domain (p >>= f) :=
  iff_each.2 ((iff_each.1 hp).bind fun a => iff_each.1 (hf a))

theorem bind_tame {p : EngineProgram α} {f : α → EngineProgram β} (hp : Stepwise domain p)
    (hf : ∀ a, Tame domain (f a)) : Tame domain (p >>= f) := by
  change Tame domain (p.bind f)
  induction p with
  | done a => exact hf a
  | act a next ih =>
      have hnext := fun answer => ih answer (hp.2 answer)
      cases a with
      | endCommit => exact hp.1.elim
      | _ => exact ⟨hp.1, hnext⟩

theorem perform {a : Act} (ha : a.IsStep domain) : Stepwise domain (.act a .done) :=
  ⟨ha, fun _ => trivial⟩

theorem undo (done : List DoneStep) : Stepwise domain (Commit.undo domain done) := by
  induction done with
  | nil => trivial
  | cons d rest ih =>
      exact (perform (a := .call (.restore domain d.item.key d.item.previous))
        ⟨rfl, rfl⟩).bind fun _ => ih

theorem carryOut (steps : List PlannedItem) (done : List DoneStep) :
    Stepwise domain (Commit.carryOut domain steps done).run := by
  induction steps generalizing done with
  | nil => trivial
  | cons item rest ih =>
      refine (perform (a := .call (.upsert domain item.key item.ttl item.records))
        ⟨rfl, rfl⟩).bind ?_
      rintro (e | left)
      · exact (undo done).bind fun _ => trivial
      · exact ih _

theorem announceChanges (changes : List KeyChange) :
    Stepwise domain (Commit.announceChanges domain changes) := by
  cases changes with
  | nil => trivial
  | cons change rest =>
      exact (perform (a := .readClock) trivial).bind fun _ => perform (a := .announce _) rfl

theorem prepare (ctx : ReviewContext) (source : BatchSource) :
    Stepwise ctx.domain (Attempt.prepare ctx source).run := by
  have hsuits : Act.SuitsPreparing (Act.IsStep ctx.domain) ctx.domain :=
    ⟨rfl, rfl, ⟨rfl, rfl⟩, fun _ => ⟨rfl, rfl⟩⟩
  exact iff_each.2 (Attempt.each_prepare hsuits source)

end Stepwise

theorem Commit.tame_run {domain : String} (plan : Plan) (shape : BatchShape) :
    Tame domain (Commit.run domain plan shape).run := by
  have hend : ∀ result : Except Error BatchOutcome, Tame domain (do
      EngineProgram.unlock domain
      EngineProgram.endCommit
      return result) := fun result => ⟨rfl, fun _ => ⟨result, rfl⟩⟩
  refine Stepwise.bind_tame (Stepwise.perform (a := .beginCommit) trivial) fun _ => ?_
  refine (Stepwise.carryOut plan.steps []).bind_tame ?_
  rintro (e | done)
  · exact hend _
  · exact (Stepwise.announceChanges _).bind_tame fun _ => hend _

theorem Attempt.exists_run_eq (settings : EngineSettings) (found : Domain) (job : BatchJob) :
    ∃ body, Tame found.name body ∧ (Attempt.run settings found job).run
      = .act (.startTimer settings.requestTimeout) fun isLate : Bool =>
          if isLate then .act (.unlock found.name) fun _ =>
            .done (.error (timeout found.name settings.requestTimeout))
          else body := by
  let ctx := context settings found job
  refine ⟨(do
      let result ← (prepare ctx job.source).run
      EngineProgram.stopTimer
      return result) >>= ExceptT.bindCont fun made => Commit.run found.name made.1 made.2,
    ?_, ?_⟩
  · refine Stepwise.bind_tame ((Stepwise.prepare ctx job.source).bind fun _ =>
      (Stepwise.perform (a := .stopTimer) trivial).bind fun _ => trivial) ?_
    rintro (e | ⟨plan, shape⟩)
    · trivial
    · exact Commit.tame_run plan shape
  · refine congrArg (Program.act _) (funext ?_)
    rintro (_ | _) <;> rfl

end ZoneKeeper
