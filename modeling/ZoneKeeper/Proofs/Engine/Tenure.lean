import ZoneKeeper.Proofs.Engine.Guard
import ZoneKeeper.Proofs.Zone.Spelling

namespace ZoneKeeper

inductive Tenure where
  | outside
  /-- Under the lock, with the last reading of the clock as long as nothing is marked by it. -/
  | inside (reading : Option Instant)

namespace Tenure

def read (now : Instant) : Tenure → Tenure
  | .outside => .outside
  | .inside _ => .inside (some now)

def spend : Tenure → Tenure
  | .outside => .outside
  | .inside _ => .inside none

def after (t : Tenure) : (a : Act) → a.Answer → Tenure
  | .lock _, _ => .inside none
  | .unlock _, _ => .outside
  | .readClock, now => t.read now
  | .call (.createDomain _), _ => t.spend
  | .announce _, _ => t.spend
  | _, _ => t

def Allows (t : Tenure) (domain : String) : Act → Prop
  | .call (.createDomain new) => new.name = domain ∧ IsRegistrable domain ∧ new.published = none
      ∧ t = .inside (some new.created)
  | .call (.markPublished ..) => False
  | .lock name => name = domain ∧ t = .outside
  | .unlock name => name = domain
  | .startTimer _ => t = .outside
  | .announce change => change.domain = domain ∧ t = .inside (some change.committedAt)
  | .push _ => False
  | _ => True

end Tenure

def Timely {α : Type} (domain : String) :
    EngineProgram α → Tenure → (α → Tenure → Prop) → Prop
  | .done a, t, post => post a t
  | .act a next, t, post => t.Allows domain a
      ∧ ∀ answer, a.IsNamed answer → Timely domain (next answer) (t.after a answer) post

namespace Timely

variable {α β : Type} {domain : String} {t : Tenure}

theorem bind {p : EngineProgram α} {f : α → EngineProgram β} {P : α → Tenure → Prop}
    {post : β → Tenure → Prop} (hp : Timely domain p t P)
    (hf : ∀ a later, P a later → Timely domain (f a) later post) :
    Timely domain (p >>= f) t post := by
  change Timely domain (p.bind f) t post
  induction p generalizing t with
  | done a => exact hf a t hp
  | act a next ih => exact ⟨hp.1, fun answer hnamed => ih answer (hp.2 answer hnamed)⟩

theorem mono {p : EngineProgram α} {P post : α → Tenure → Prop} (h : Timely domain p t P)
    (himp : ∀ a later, P a later → post a later) : Timely domain p t post := by
  have hbind := h.bind (f := .done) himp
  rwa [show (p >>= .done) = p from Program.bind_done p] at hbind

theorem act {a : Act} {f : a.Answer → EngineProgram β} {post : β → Tenure → Prop}
    (ha : t.Allows domain a) (hf : ∀ answer, Timely domain (f answer) (t.after a answer) post) :
    Timely domain (Program.act a .done >>= f) t post :=
  ⟨ha, fun answer _ => hf answer⟩

end Timely

abbrev Steady {α : Type} (domain : String) (t : Tenure) (p : EngineProgram α) : Prop :=
  Timely domain p t fun _ later => later = t

namespace Steady

variable {α β : Type} {domain : String} {t : Tenure}

theorem bind {p : EngineProgram α} {f : α → EngineProgram β} (hp : Steady domain t p)
    (hf : ∀ a, Steady domain t (f a)) : Steady domain t (p >>= f) :=
  Timely.bind hp fun a _ hlater => hlater ▸ hf a

theorem engine_bind {p : Engine α} {f : α → Engine β} (hp : Steady domain t p.run)
    (hf : ∀ a, Steady domain t (f a).run) : Steady domain t (p >>= f).run := by
  rw [ExceptT.run_bind]
  refine hp.bind ?_
  rintro (e | a)
  · rfl
  · exact hf a

theorem map {p : Engine α} (hp : Steady domain t p.run) (f : α → β) :
    Steady domain t (p >>= fun a => pure (f a)).run :=
  hp.engine_bind fun _ => rfl

theorem lift {p : EngineProgram α} (hp : Steady domain t p) :
    Steady domain t (liftM p : Engine α).run :=
  hp.bind (f := fun a => Program.done (Except.ok a : Except Error α)) fun _ => rfl

theorem call {c : StoreCall} (hc : c.touchesDomains = false) :
    Steady domain t (EngineProgram.call c) := by
  cases c with
  | createDomain | deleteDomain | markPublished => cases hc
  | _ => exact ⟨trivial, fun _ _ => rfl⟩

theorem check {error? : Option Error} {p : Engine α}
    (hp : error? = none → Steady domain t p.run) :
    Steady domain t (Request.check error? >>= fun _ => p).run := by
  cases error? with
  | none => exact hp rfl
  | some e => rfl

theorem listAt (subnames : List String) :
    Steady domain t (Attempt.listAt domain subnames).run := by
  induction subnames with
  | nil => rfl
  | cons subname rest ih =>
      exact (call (c := .list domain (.ofSubname subname)) rfl).engine_bind fun _ => ih.map _

theorem batch (source : BatchSource) : Steady domain t (Attempt.batch domain source).run := by
  cases source with
  | given own => rfl
  | derived subname build =>
      exact (call (c := .list domain (.ofSubname subname)) rfl).engine_bind fun _ => rfl

theorem plan {ctx : ReviewContext} {source : BatchSource} (hctx : ctx.domain = domain) :
    Steady domain t (Attempt.plan ctx source).run := by
  rw [Attempt.plan, hctx]
  refine engine_bind (call (c := .getDomain domain) rfl) ?_
  rintro (_ | found)
  · rfl
  · refine (batch source).engine_bind fun b => (listAt _).engine_bind fun stored => ?_
    split <;> rfl

theorem undo (done : List DoneStep) : Steady domain t (Commit.undo domain done) := by
  induction done with
  | nil => rfl
  | cons d rest ih =>
      exact (call (c := .restore domain d.item.key d.item.previous) rfl).bind fun _ => ih

theorem carryOut (steps : List PlannedItem) (done : List DoneStep) :
    Steady domain t (Commit.carryOut domain steps done).run := by
  induction steps generalizing done with
  | nil => rfl
  | cons item rest ih =>
      refine (call (c := .upsert domain item.key item.ttl item.records) rfl).bind ?_
      rintro (e | left)
      · exact (undo done).bind fun _ => rfl
      · exact ih _

theorem announceChanges (changes : List KeyChange) :
    Steady domain (.inside none) (Commit.announceChanges domain changes) := by
  cases changes with
  | nil => rfl
  | cons change rest =>
      exact ⟨trivial, fun _ _ => ⟨⟨rfl, rfl⟩, fun _ _ => rfl⟩⟩

theorem locked {p : Engine α} {P : Except Error α → Tenure → Prop}
    (hp : Timely domain p.run (.inside none) P) :
    Steady domain .outside (Engine.locked domain p).run :=
  ⟨⟨rfl, rfl⟩, fun _ _ => hp.bind fun _ _ _ => ⟨rfl, fun _ _ => rfl⟩⟩

theorem commit (plan : Plan) (shape : BatchShape) :
    Timely domain (Commit.run domain plan shape).run (.inside none)
      fun _ later => later = .outside := by
  have hend (result : Except Error BatchOutcome) : Timely domain (do
      EngineProgram.unlock domain
      EngineProgram.endCommit
      return result) (.inside none) fun _ later => later = .outside :=
    ⟨rfl, fun _ _ => ⟨trivial, fun _ _ => rfl⟩⟩
  refine Timely.act (a := .beginCommit) trivial fun _ => Timely.bind (carryOut plan.steps []) ?_
  rintro (e | done) _ rfl
  · exact hend _
  · refine Timely.bind (announceChanges _) ?_
    rintro - _ rfl
    exact hend _

theorem prepare {ctx : ReviewContext} {source : BatchSource} (hctx : ctx.domain = domain) :
    Timely domain (Attempt.prepare ctx source).run .outside
      fun r later => later = match r with
        | .ok _ => .inside none
        | .error _ => .outside := by
  refine Timely.act (a := .lock ctx.domain) ⟨hctx, rfl⟩ fun _ => Timely.bind (plan hctx) ?_
  rintro (e | made) _ rfl
  · exact ⟨hctx, fun _ _ => rfl⟩
  · rfl

theorem attempt {settings : EngineSettings} {found : Domain} {job : BatchJob}
    (hname : found.name = domain) :
    Steady domain .outside (Attempt.run settings found job).run := by
  refine Timely.bind (P := fun r later => later = match r with
    | .ok _ => .inside none
    | .error _ => .outside) ⟨rfl, ?_⟩ ?_
  · rintro (_ | _) -
    · refine (prepare hname).bind fun r later hlater => ⟨trivial, fun _ _ => hlater⟩
    · exact ⟨hname, fun _ _ => rfl⟩
  · rintro (e | made) _ rfl
    · rfl
    · exact hname ▸ commit made.1 made.2

theorem retrying {settings : EngineSettings} {p : Engine α} (hp : Steady domain .outside p.run)
    (retries attempt : Nat) :
    Steady domain .outside (Attempt.retrying settings p retries attempt).run := by
  induction retries generalizing attempt with
  | zero => exact hp
  | succ retries ih =>
      refine hp.bind ?_
      rintro (e | a)
      · dsimp only
        split
        · exact ⟨trivial, fun _ _ => ih (attempt + 1)⟩
        · rfl
      · rfl

theorem visible {principal : Principal} {name : String} {next : Domain → Engine α}
    (hnext : ∀ found : Domain, found.name = normalizeDomain name →
      Steady domain .outside (next found).run) :
    Steady domain .outside (Request.visibleDomain principal name >>= next).run := by
  rw [Request.run_visibleDomain]
  refine ⟨trivial, ?_⟩
  rintro (e | _ | found) hnamed
  · rfl
  · rfl
  · dsimp only
    split
    · exact hnext found hnamed
    · rfl

end Steady

namespace Request

open Steady

variable {settings : EngineSettings} {principal : Principal} {name : String}

theorem steady_createDomainFor {minimumTtl : Option Nat} {create : Engine Domain}
    (hcreate : createDomainFor settings principal name minimumTtl = create) :
    Steady (normalizeDomain name) .outside create.run := by
  have hnormal := normalizeDomain_normalizeDomain name
  rw [← hcreate, createDomainFor]
  refine Steady.check fun hvalid => Steady.check fun _ => locked (P := fun _ _ => True) ?_
  refine ⟨trivial, fun now _ => ⟨⟨hnormal, ⟨hnormal, hvalid⟩, rfl, rfl⟩, ?_⟩⟩
  rintro (e | _) - <;> trivial

theorem steady_deleteDomainFor :
    Steady (normalizeDomain name) .outside (deleteDomainFor principal name).run := by
  refine visible fun found hname => ?_
  rw [hname]
  refine locked (P := fun _ _ => True) ?_
  refine Timely.bind (P := fun _ later => later = .inside none)
    (call (c := .list (normalizeDomain name) .all) rfl) ?_
  rintro (e | rrsets) _ rfl
  · trivial
  · refine ⟨trivial, ?_⟩
    rintro (e | _ | _) -
    · trivial
    · trivial
    · exact ⟨trivial, fun _ _ => ⟨⟨rfl, rfl⟩, fun _ _ => trivial⟩⟩

theorem steady_applyFor {job : BatchJob} :
    Steady (normalizeDomain name) .outside (applyFor settings principal name job).run :=
  visible fun _ hname => retrying (attempt hname) _ _

theorem steady_mergeCheckIn {asked : CheckIn} :
    Steady (normalizeDomain name) .outside (mergeCheckIn settings principal name asked).run := by
  refine visible fun _ _ => ?_
  split
  · rfl
  · rfl
  · exact steady_applyFor.map _

theorem steady_run (settings : EngineSettings) (r : Request) :
    Steady r.domainName .outside (run settings r).run := by
  cases r with
  | createDomain principal name minimumTtl =>
      rw [run]
      generalize hcreate : createDomainFor settings principal name minimumTtl = create
      exact (steady_createDomainFor hcreate).map _
  | deleteDomain principal name => exact steady_deleteDomainFor.map _
  | domain principal name => exact visible fun _ _ => rfl
  | get principal name key =>
      refine map (visible fun found _ => Steady.check fun _ => ?_) _
      refine (call (c := .get found.name key) rfl).engine_bind ?_
      rintro (_ | rrset) <;> rfl
  | list principal name filter =>
      exact map (visible fun found _ => Steady.check fun _ =>
        map (call (c := .list found.name filter) rfl) _) _
  | delete principal name key => exact map (Steady.check fun _ => map steady_applyFor _) _
  | write principal name operation payload minimumTtl =>
      rw [run]
      split
      · rfl
      · exact map steady_applyFor _
  | derive principal name operation subname build minimumTtl => exact map steady_applyFor _
  | checkIn principal name asked =>
      refine map (lift ?_) _
      cases principal with
      | none => rfl
      | some principal =>
          refine steady_mergeCheckIn.bind ?_
          rintro (e | status) <;> rfl

end Request

end ZoneKeeper
