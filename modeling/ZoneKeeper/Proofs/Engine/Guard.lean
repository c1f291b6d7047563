import ZoneKeeper.Proofs.Engine.Steps
import ZoneKeeper.Proofs.Traffic.Basic

namespace ZoneKeeper

def StoreCall.changed? : StoreCall → Option String
  | .deleteDomain name => some name
  | .upsert domain _ _ _ => some domain
  | .restore domain _ _ => some domain
  | _ => none

namespace Act

def Shows (principal : Principal) (domain : String) : (a : Act) → a.Answer → Prop
  | .call (.getDomain name), .ok (some found) => name = domain ∧ principal.owns found = true
  | _, _ => False

def IsNamed : (a : Act) → a.Answer → Prop
  | .call (.getDomain name), .ok (some found) => found.name = name
  | _, _ => True

end Act

def Confined {α : Type} (domain : String) : EngineProgram α → Prop
  | .done _ => True
  | .act a next => (∀ c name, a = .call c → c.changed? = some name → name = domain)
      ∧ ∀ answer, a.IsNamed answer → Confined domain (next answer)

def Guarded {α : Type} (principal : Principal) (domain : String) : EngineProgram α → Prop
  | .done _ => True
  | .act a next => (∀ c, a = .call c → c.changed? = none)
      ∧ ∀ answer, a.IsNamed answer → Guarded principal domain (next answer)
        ∨ (a.Shows principal domain answer ∧ Confined domain (next answer))

theorem Request.run_visibleDomain {α : Type} (principal : Principal) (name : String)
    (next : Domain → Engine α) : (visibleDomain principal name >>= next).run
      = .act (.call (.getDomain (normalizeDomain name)))
          fun answer : Except Error (Option Domain) =>
          match answer with
          | .ok (some found) =>
              if principal.owns found then (next found).run
              else .done (.error (.noDomain (normalizeDomain name)))
          | .ok none => .done (.error (.noDomain (normalizeDomain name)))
          | .error e => .done (.error e) := by
  refine congrArg (Program.act _) (funext ?_)
  rintro (e | _ | found)
  · rfl
  · rfl
  · change ((if principal.owns found then pure found
        else throw (.noDomain (normalizeDomain name)) : Engine Domain) >>= next).run
      = if principal.owns found then (next found).run
        else .done (.error (.noDomain (normalizeDomain name)))
    split <;> rfl

namespace Confined

variable {α β : Type} {domain : String}

theorem bind {p : EngineProgram α} {f : α → EngineProgram β} (hp : Confined domain p)
    (hf : ∀ a, Confined domain (f a)) : Confined domain (p >>= f) := by
  change Confined domain (p.bind f)
  induction p with
  | done a => exact hf a
  | act a next ih => exact ⟨hp.1, fun answer hnamed => ih answer (hp.2 answer hnamed)⟩

theorem engine_bind {p : Engine α} {f : α → Engine β} (hp : Confined domain p.run)
    (hf : ∀ a, Confined domain (f a).run) : Confined domain (p >>= f).run := by
  rw [ExceptT.run_bind]
  refine hp.bind ?_
  rintro (e | a)
  · trivial
  · exact hf a

theorem call {c : StoreCall} (hc : ∀ name, c.changed? = some name → name = domain) :
    Confined domain (EngineProgram.call c) := by
  refine ⟨?_, fun _ _ => trivial⟩
  rintro _ name ⟨⟩ hname
  exact hc name hname

theorem perform {a : Act} (ha : ∀ c, a ≠ .call c) : Confined domain (.act a .done) :=
  ⟨fun c _ hc => absurd hc (ha c), fun _ _ => trivial⟩

theorem of_tame {p : EngineProgram α} (hp : Tame domain p) : Confined domain p := by
  induction p with
  | done a => trivial
  | act a next ih =>
      cases a with
      | endCommit =>
          obtain ⟨result, hresult⟩ := hp
          refine ⟨(by rintro _ _ ⟨⟩), fun (_ : Unit) _ => ?_⟩
          rw [hresult]
          trivial
      | call c =>
          refine ⟨?_, fun answer _ => ih answer (hp.2 answer)⟩
          rintro _ name ⟨⟩ hname
          have hdomain := hp.1.1
          cases c with
          | deleteDomain | upsert | restore =>
              exact (Option.some.inj hname).symm.trans (Option.some.inj hdomain)
          | _ => cases hname
      | _ => exact ⟨(by rintro _ _ ⟨⟩), fun answer _ => ih answer (hp.2 answer)⟩

theorem attempt {settings : EngineSettings} {found : Domain} {job : BatchJob}
    (hname : found.name = domain) : Confined domain (Attempt.run settings found job).run := by
  obtain ⟨body, hbody, hrun⟩ := Attempt.exists_run_eq settings found job
  rw [hrun]
  refine ⟨by rintro _ _ ⟨⟩, ?_⟩
  rintro (_ | _) -
  · exact of_tame (hname ▸ hbody)
  · exact (perform (by rintro _ ⟨⟩)).bind fun _ => trivial

theorem check {error? : Option Error} : Confined domain (Request.check error?).run := by
  cases error? <;> trivial

theorem retrying {settings : EngineSettings} {p : Engine α} (hp : Confined domain p.run)
    (retries attempt : Nat) :
    Confined domain (Attempt.retrying settings p retries attempt).run := by
  induction retries generalizing attempt with
  | zero => exact hp
  | succ retries ih =>
      refine hp.bind ?_
      rintro (e | a)
      · dsimp only
        split
        · exact (perform (by rintro _ ⟨⟩)).bind fun _ => ih (attempt + 1)
        · trivial
      · trivial

theorem of_visible {principal : Principal} {name : String} {next : Domain → Engine α}
    (hnext : ∀ found : Domain, found.name = normalizeDomain name →
      Confined domain (next found).run) :
    Confined domain (Request.visibleDomain principal name >>= next).run := by
  rw [Request.run_visibleDomain]
  refine ⟨by rintro _ _ ⟨⟩ ⟨⟩, ?_⟩
  rintro (e | _ | found) hnamed
  · trivial
  · trivial
  · dsimp only
    split
    · exact hnext found hnamed
    · trivial

end Confined

namespace Guarded

open Request

variable {α β : Type} {principal : Principal} {domain : String}

theorem act {a : Act} {next : a.Answer → EngineProgram α}
    (ha : ∀ c, a = .call c → c.changed? = none)
    (hnext : ∀ answer, Guarded principal domain (next answer)) :
    Guarded principal domain (.act a next) :=
  ⟨ha, fun answer _ => Or.inl (hnext answer)⟩

theorem bind_done {p : EngineProgram α} {f : α → EngineProgram β}
    (hp : Guarded principal domain p) (hf : ∀ a, ∃ b, f a = .done b) :
    Guarded principal domain (p >>= f) := by
  change Guarded principal domain (p.bind f)
  induction p with
  | done a =>
      obtain ⟨b, hb⟩ := hf a
      rw [Program.bind, hb]
      trivial
  | act a next ih =>
      refine ⟨hp.1, fun answer hnamed => (hp.2 answer hnamed).imp (ih answer) ?_⟩
      rintro ⟨hshows, hconfined⟩
      refine ⟨hshows, hconfined.bind fun a => ?_⟩
      obtain ⟨b, hb⟩ := hf a
      rw [hb]
      trivial

theorem engine_bind_pure {p : Engine α} (hp : Guarded principal domain p.run) (f : α → β) :
    Guarded principal domain (p >>= fun a => pure (f a)).run := by
  rw [ExceptT.run_bind]
  refine hp.bind_done ?_
  rintro (e | a)
  · exact ⟨_, rfl⟩
  · exact ⟨_, rfl⟩

theorem of_check {p : Engine α} (error? : Option Error) (hp : Guarded principal domain p.run) :
    Guarded principal domain (check error? >>= fun _ => p).run := by
  cases error? with
  | none => exact hp
  | some e => trivial

theorem of_visible {name : String} {next : Domain → Engine α}
    (hnext : ∀ found : Domain, found.name = normalizeDomain name →
      Confined (normalizeDomain name) (next found).run) :
    Guarded principal (normalizeDomain name) (visibleDomain principal name >>= next).run := by
  rw [run_visibleDomain]
  refine ⟨by rintro _ ⟨⟩; rfl, ?_⟩
  rintro (e | _ | found) hnamed
  · exact Or.inl trivial
  · exact Or.inl trivial
  · dsimp only
    split
    · next howns => exact Or.inr ⟨⟨rfl, howns⟩, hnext found hnamed⟩
    · exact Or.inl trivial

theorem applyFor {settings : EngineSettings} {name : String} {job : BatchJob} :
    Guarded principal (normalizeDomain name) (applyFor settings principal name job).run :=
  of_visible fun _ hname => Confined.retrying (Confined.attempt hname) _ _

theorem createDomainFor {settings : EngineSettings} {name : String} {minimumTtl : Option Nat}
    {create : Engine Domain}
    (hcreate : Request.createDomainFor settings principal name minimumTtl = create) :
    Guarded principal domain create.run := by
  rw [← hcreate, Request.createDomainFor]
  generalize nameError? (normalizeDomain name) = nameError?
  generalize floorError? settings _ = floorError?
  refine of_check _ (of_check _ ?_)
  refine act (by rintro _ ⟨⟩) fun _ => act (by rintro _ ⟨⟩) fun now => act ?_ ?_
  · rintro _ ⟨⟩
    rfl
  · rintro (e | _)
    · exact act (by rintro _ ⟨⟩) fun _ => trivial
    · exact act (by rintro _ ⟨⟩) fun _ => trivial

theorem deleteDomainFor {name : String} :
    Guarded principal (normalizeDomain name) (deleteDomainFor principal name).run := by
  refine of_visible fun found hname => ?_
  rw [hname]
  refine (Confined.perform (a := .lock _) (by rintro _ ⟨⟩)).bind fun _ => Confined.bind ?_
    fun _ => (Confined.perform (by rintro _ ⟨⟩)).bind fun _ => trivial
  refine Confined.engine_bind (Confined.call (c := .list _ .all) (by rintro _ ⟨⟩)) fun rrsets =>
    Confined.engine_bind
      (Confined.call (c := .deleteDomain _) fun _ h => (Option.some.inj h).symm) ?_
  rintro (_ | _)
  · trivial
  · exact (Confined.perform (a := .readClock) (by rintro _ ⟨⟩)).bind fun _ =>
      Confined.perform (by rintro _ ⟨⟩)

theorem mergeCheckIn {settings : EngineSettings} {name : String} {asked : CheckIn} :
    Guarded principal (normalizeDomain name) (mergeCheckIn settings principal name asked).run := by
  refine of_visible fun _ _ => ?_
  split
  · trivial
  · trivial
  · refine Confined.engine_bind (Confined.of_visible fun _ hname => ?_) fun _ => trivial
    exact Confined.retrying (Confined.attempt hname) _ _

end Guarded

namespace Request

def principal? : Request → Option Principal
  | .createDomain principal .. => some principal
  | .deleteDomain principal .. => some principal
  | .domain principal .. => some principal
  | .get principal .. => some principal
  | .list principal .. => some principal
  | .delete principal .. => some principal
  | .write principal .. => some principal
  | .derive principal .. => some principal
  | .checkIn principal .. => principal

theorem guarded_run (settings : EngineSettings) {r : Request} {principal : Principal}
    (h : r.principal? = some principal) :
    Guarded principal r.domainName (run settings r).run := by
  cases r with
  | createDomain p name minimumTtl =>
      obtain rfl := Option.some.inj h
      rw [run]
      generalize hcreate : createDomainFor settings p name minimumTtl = create
      exact (Guarded.createDomainFor hcreate).engine_bind_pure _
  | deleteDomain p name =>
      obtain rfl := Option.some.inj h
      exact Guarded.deleteDomainFor.engine_bind_pure _
  | domain p name =>
      obtain rfl := Option.some.inj h
      have hsafe : Guarded p (normalizeDomain name)
          (visibleDomain p name >>= fun found => pure (Reply.domain found)).run :=
        Guarded.of_visible fun _ _ => trivial
      exact hsafe
  | get p name key =>
      obtain rfl := Option.some.inj h
      refine Guarded.engine_bind_pure (Guarded.of_visible fun found _ => ?_) _
      refine Confined.engine_bind Confined.check fun _ =>
        (Confined.call (c := .get found.name key) (by rintro _ ⟨⟩)).engine_bind ?_
      rintro (_ | rrset) <;> trivial
  | list p name filter =>
      obtain rfl := Option.some.inj h
      refine Guarded.engine_bind_pure (Guarded.of_visible fun found _ => ?_) _
      exact Confined.engine_bind Confined.check fun _ =>
        (Confined.call (c := .list found.name filter) (by rintro _ ⟨⟩)).engine_bind fun _ => trivial
  | delete p name key =>
      obtain rfl := Option.some.inj h
      refine Guarded.engine_bind_pure (Guarded.of_check _ ?_) _
      exact Guarded.applyFor.engine_bind_pure _
  | write p name operation payload minimumTtl =>
      obtain rfl := Option.some.inj h
      rw [run]
      split
      · trivial
      · exact Guarded.applyFor.engine_bind_pure _
  | derive p name operation subname build minimumTtl =>
      obtain rfl := Option.some.inj h
      exact Guarded.applyFor.engine_bind_pure _
  | checkIn p name asked =>
      obtain rfl : p = some principal := h
      refine Guarded.bind_done (Guarded.bind_done (Guarded.bind_done Guarded.mergeCheckIn ?_) ?_) ?_
      · rintro (e | status) <;> exact ⟨_, rfl⟩
      · exact fun status => ⟨_, rfl⟩
      · rintro (e | status) <;> exact ⟨_, rfl⟩

end Request

end ZoneKeeper
