import ZoneKeeper.Proofs.Engine.Faults
import ZoneKeeper.Proofs.Engine.Guard
import ZoneKeeper.Service.Line

namespace ZoneKeeper

theorem Zones.exists_before_call {zones : Zones} {c : StoreCall} {now : Instant} {name : String}
    (hc : c.domain? = some name) (hnew : ∀ domain, c ≠ .createDomain domain) {zone : Zone}
    (h : (zones.call now c).2.zone? name = some zone) :
    ∃ before, zones.zone? name = some before ∧ before.domain.name = zone.domain.name
      ∧ before.domain.owner = zone.domain.owner := by
  rcases zone?_call_cases zones now hc with
    hsame | ⟨domain, rfl, -⟩ | ⟨rfl, hgone⟩ | ⟨before, hbefore, hchanged⟩
  · exact ⟨zone, hsame ▸ h, rfl, rfl⟩
  · exact absurd rfl (hnew domain)
  · rw [hgone] at h
    cases h
  · refine ⟨before, hbefore, ?_⟩
    rcases hchanged with ⟨time, -, hafter⟩ | ⟨key, ttl, records, -, hafter⟩
      | ⟨key, previous, -, hafter⟩
    all_goals
      obtain rfl := Option.some.inj (hafter.symm.trans h)
      simp

namespace Principal

variable {principal : Principal} {zones zones' after after' : Zones} {domain : String}

def zone? (principal : Principal) (zones : Zones) (name : String) : Option Zone :=
  (zones.zone? name).filter fun zone => principal.owns zone.domain

theorem zone?_eq_some_iff {name : String} {zone : Zone} :
    principal.zone? zones name = some zone
      ↔ zones.zone? name = some zone ∧ principal.owns zone.domain = true :=
  Option.filter_eq_some_iff

structure SeesSame (principal : Principal) (zones zones' : Zones) : Prop where
  same : ∀ name, principal.zone? zones name = principal.zone? zones' name
  named : ∀ name zone, principal.zone? zones name = some zone → zone.domain.name = name

structure Holds (principal : Principal) (domain : String) (zones zones' : Zones) : Prop
    extends principal.SeesSame zones zones' where
  here : zones.zone? domain = zones'.zone? domain
  isOwn : ∀ zone, zones.zone? domain = some zone → principal.owns zone.domain = true

def LeavesOthers (principal : Principal) (zones after : Zones) : Prop :=
  ∀ name zone, principal.owns zone.domain = false →
    (after.zone? name = some zone ↔ zones.zone? name = some zone)

theorem leavesOthers_refl (principal : Principal) (zones : Zones) :
    principal.LeavesOthers zones zones := fun _ _ _ => Iff.rfl

theorem LeavesOthers.trans (h : principal.LeavesOthers zones after)
    (h' : principal.LeavesOthers after after') : principal.LeavesOthers zones after' :=
  fun name zone howns => (h' name zone howns).trans (h name zone howns)

theorem Holds.call (h : principal.Holds domain zones zones') {c : StoreCall}
    (hc : c.domain? = some domain) (hnew : ∀ d, c ≠ .createDomain d) (o : Outcome) :
    (o.call c zones).1 = (o.call c zones').1
      ∧ principal.Holds domain (o.call c zones).2 (o.call c zones').2 := by
  have hcongr := o.call_only hc zones
  have hcongr' := o.call_only hc zones'
  rw [← h.here] at hcongr'
  have hhere := hcongr.2.trans hcongr'.2.symm
  have hother {name : String} (hne : name ≠ domain) (z : Zones) :
      (o.call c z).2.zone? name = z.zone? name :=
    o.zone?_call_of_ne (fun heq => hne (Option.some.inj (heq.symm.trans hc))) z
  have hbefore {zone : Zone} (hzone : (o.call c zones).2.zone? domain = some zone) :
      ∃ before, zones.zone? domain = some before ∧ before.domain.name = zone.domain.name
        ∧ before.domain.owner = zone.domain.owner := by
    cases o with
    | carriedOut now => exact Zones.exists_before_call hc hnew hzone
    | failed e => exact ⟨zone, hzone, rfl, rfl⟩
  refine ⟨hcongr.1.trans hcongr'.1.symm, ⟨fun name => ?_, fun name zone hzone => ?_⟩, hhere,
    fun zone hzone => ?_⟩
  · by_cases hname : name = domain
    · rw [hname, zone?, zone?, hhere]
    · have hsame := h.same name
      rw [zone?, zone?] at hsame ⊢
      rw [hother hname, hother hname, hsame]
  · obtain ⟨hthere, howns⟩ := zone?_eq_some_iff.1 hzone
    by_cases hname : name = domain
    · subst hname
      obtain ⟨before, hwas, hsame, -⟩ := hbefore hthere
      rw [← hsame]
      exact h.named name before (zone?_eq_some_iff.2 ⟨hwas, h.isOwn before hwas⟩)
    · rw [hother hname] at hthere
      exact h.named name zone (zone?_eq_some_iff.2 ⟨hthere, howns⟩)
  · obtain ⟨before, hwas, -, hsame⟩ := hbefore hzone
    have howns := h.isOwn before hwas
    rw [owns, hsame] at howns
    exact howns

theorem SeesSame.symm (h : principal.SeesSame zones zones') : principal.SeesSame zones' zones :=
  ⟨fun name => (h.same name).symm, fun name zone hzone => h.named name zone (h.same name ▸ hzone)⟩

theorem Holds.symm (h : principal.Holds domain zones zones') :
    principal.Holds domain zones' zones :=
  ⟨h.toSeesSame.symm, h.here.symm, fun zone hzone => h.isOwn zone (h.here ▸ hzone)⟩

theorem Holds.leavesOthers (h : principal.Holds domain zones zones') {c : StoreCall}
    (hc : c.domain? = some domain) (hnew : ∀ d, c ≠ .createDomain d) (o : Outcome) :
    principal.LeavesOthers zones (o.call c zones).2 := by
  intro name zone hforeign
  by_cases hname : name = domain
  · subst hname
    have hnone {z : Option Zone} (hown : ∀ x, z = some x → principal.owns x.domain = true) :
        ¬ z = some zone := fun hz => Bool.false_ne_true (hforeign.symm.trans (hown zone hz))
    exact iff_of_false (hnone (h.call hc hnew o).2.isOwn) (hnone h.isOwn)
  · rw [o.zone?_call_of_ne (fun heq => hname (Option.some.inj (heq.symm.trans hc)))]

theorem seesSame_insert {name : String} {zone : Zone}
    (hnamed : ∀ n z, principal.zone? zones n = some z → z.domain.name = n)
    (hmissing : principal.zone? zones name = none) (hforeign : principal.owns zone.domain = false) :
    principal.SeesSame zones (zones.insert name zone) := by
  refine ⟨fun n => ?_, hnamed⟩
  by_cases hn : n = name
  · subst hn
    rw [hmissing, zone?, Zones.zone?_insert_self, Option.filter_some, if_neg]
    rw [hforeign]
    exact Bool.false_ne_true
  · rw [zone?, zone?, Zones.zone?_insert, if_neg hn]

end Principal

structure SameEnd {α : Type} (principal : Principal) (alike : Zones → Zones → Prop)
    (zones zones' : Zones) (e e' : α × Zones × List CallRecord) : Prop where
  answer : e.1 = e'.1
  log : e.2.2 = e'.2.2
  alike : alike e.2.1 e'.2.1
  others : principal.LeavesOthers zones e.2.1
  others' : principal.LeavesOthers zones' e'.2.1

theorem SameEnd.of_alike {α : Type} {principal : Principal} {alike : Zones → Zones → Prop}
    {zones zones' : Zones} (h : alike zones zones') (a : α) (log : List CallRecord) :
    SameEnd principal alike zones zones' (a, zones, log) (a, zones', log) :=
  ⟨rfl, rfl, h, principal.leavesOthers_refl zones, principal.leavesOthers_refl zones'⟩

theorem SameEnd.mono {α : Type} {principal : Principal} {alike alike' : Zones → Zones → Prop}
    {zones zones' : Zones} {e e' : α × Zones × List CallRecord}
    (h : SameEnd principal alike zones zones' e e')
    (himp : ∀ after after', alike after after' → alike' after after') :
    SameEnd principal alike' zones zones' e e' :=
  ⟨h.answer, h.log, himp _ _ h.alike, h.others, h.others'⟩

def Discreet {α : Type} (fate : Fate) (principal : Principal) (alike : Zones → Zones → Prop)
    (p : EngineProgram α) : Prop :=
  ∀ zones zones' log, alike zones zones' →
    SameEnd principal alike zones zones' (p.run fate.handle (zones, log))
      (p.run fate.handle (zones', log))

namespace Discreet

variable {α β : Type} {fate : Fate} {principal : Principal} {alike : Zones → Zones → Prop}
  {domain : String}

theorem done (a : α) : Discreet fate principal alike (.done a) :=
  fun _ _ log h => .of_alike h a log

theorem bind {p : EngineProgram α} {f : α → EngineProgram β} (hp : Discreet fate principal alike p)
    (hf : ∀ a, Discreet fate principal alike (f a)) : Discreet fate principal alike (p >>= f) := by
  intro zones zones' log h
  obtain ⟨hanswer, hlog, halike, hothers, hothers'⟩ := hp zones zones' log h
  rw [Program.run_bind, Program.run_bind]
  generalize p.run fate.handle (zones, log) = e at *
  generalize p.run fate.handle (zones', log) = e' at *
  obtain ⟨a, after, log⟩ := e
  obtain ⟨a', after', log'⟩ := e'
  obtain rfl : a = a' := hanswer
  obtain rfl : log = log' := hlog
  have hend := hf a after after' log halike
  exact ⟨hend.answer, hend.log, hend.alike, hothers.trans hend.others,
    hothers'.trans hend.others'⟩

theorem engine_bind {p : Engine α} {f : α → Engine β} (hp : Discreet fate principal alike p.run)
    (hf : ∀ a, Discreet fate principal alike (f a).run) :
    Discreet fate principal alike (p >>= f).run := by
  rw [ExceptT.run_bind]
  refine hp.bind ?_
  rintro (e | a)
  · exact done _
  · exact hf a

theorem perform {a : Act} (ha : ∀ c, a ≠ .call c) :
    Discreet fate principal alike (.act a .done) := by
  intro zones zones' log h
  cases a with
  | call c => exact absurd rfl (ha c)
  | _ => exact .of_alike h _ log

theorem check (error? : Option Error) :
    Discreet fate principal alike (Request.check error?).run := by
  cases error? <;> exact done _

theorem call {c : StoreCall} (hc : c.domain? = some domain) (hnew : ∀ d, c ≠ .createDomain d) :
    Discreet fate principal (principal.Holds domain) (EngineProgram.call c) := by
  intro zones zones' log h
  obtain ⟨hanswer, hafter⟩ := h.call hc hnew (fate.outcome log c)
  exact ⟨hanswer, rfl, hafter, h.leavesOthers hc hnew _, h.symm.leavesOthers hc hnew _⟩

theorem of_tame {p : EngineProgram α} (hp : Tame domain p) :
    Discreet fate principal (principal.Holds domain) p := by
  induction p with
  | done a => exact done a
  | act a next ih =>
      have hrest (hnext : ∀ answer, Discreet fate principal (principal.Holds domain) (next answer))
          (hact : Discreet fate principal (principal.Holds domain) (.act a .done)) :
          Discreet fate principal (principal.Holds domain) (.act a next) := hact.bind hnext
      cases a with
      | endCommit =>
          obtain ⟨result, hresult⟩ := hp
          refine hrest (fun (_ : Unit) => ?_) (perform (by rintro _ ⟨⟩))
          rw [hresult]
          exact done result
      | call c =>
          refine hrest (fun answer => ih answer (hp.2 answer)) (call hp.1.1 ?_)
          rintro d rfl
          cases hp.1.2
      | _ => exact hrest (fun answer => ih answer (hp.2 answer)) (perform (by rintro _ ⟨⟩))

theorem attempt {settings : EngineSettings} {found : Domain} {job : BatchJob}
    (hname : found.name = domain) :
    Discreet fate principal (principal.Holds domain) (Attempt.run settings found job).run := by
  obtain ⟨body, hbody, hrun⟩ := Attempt.exists_run_eq settings found job
  rw [hrun]
  refine bind (perform (a := .startTimer settings.requestTimeout) (by rintro _ ⟨⟩)) ?_
  rintro (_ | _)
  · exact of_tame (hname ▸ hbody)
  · exact (perform (a := .unlock found.name) (by rintro _ ⟨⟩)).bind fun _ => done _

theorem retrying {settings : EngineSettings} {p : Engine α}
    (hp : Discreet fate principal alike p.run) (retries attempt : Nat) :
    Discreet fate principal alike (Attempt.retrying settings p retries attempt).run := by
  induction retries generalizing attempt with
  | zero => exact hp
  | succ retries ih =>
      refine hp.bind ?_
      rintro (e | a)
      · dsimp only
        split
        · exact (perform (by rintro _ ⟨⟩)).bind fun _ => ih (attempt + 1)
        · exact done _
      · exact done _

theorem run_visible (principal : Principal) (name : String) (next : Domain → Engine α)
    (zones : Zones) (log : List CallRecord) :
    (Request.visibleDomain principal name >>= next).run.run fate.handle (zones, log)
      = let c := StoreCall.getDomain (normalizeDomain name)
        let log' := log ++ [⟨0, c, fate.outcome log c⟩]
        match fate.outcome log c, principal.zone? zones (normalizeDomain name) with
        | .failed e, _ => (.error e, zones, log')
        | .carriedOut _, some zone => (next zone.domain).run.run fate.handle (zones, log')
        | .carriedOut _, none => (.error (.noDomain (normalizeDomain name)), zones, log') := by
  rw [Request.run_visibleDomain]
  simp only [Program.run, Fate.handle]
  generalize log ++ _ = log'
  cases fate.outcome log (.getDomain (normalizeDomain name)) with
  | failed e => rfl
  | carriedOut now =>
      dsimp only [Outcome.call, Zones.call_getDomain, Principal.zone?]
      cases zones.zone? (normalizeDomain name) with
      | none => rfl
      | some zone =>
          rw [Option.filter_some]
          dsimp only [Option.map_some]
          split <;> rfl

theorem of_visible {name : String} {next : Domain → Engine α}
    (hnext : ∀ found : Domain, found.name = normalizeDomain name →
      Discreet fate principal (principal.Holds (normalizeDomain name)) (next found).run) :
    Discreet fate principal principal.SeesSame
      (Request.visibleDomain principal name >>= next).run := by
  intro zones zones' log h
  have hsame := h.same (normalizeDomain name)
  rw [run_visible, run_visible, ← hsame]
  dsimp only
  split
  · exact .of_alike h _ _
  · next zone _ hown =>
      obtain ⟨hzone, howns⟩ := Principal.zone?_eq_some_iff.1 hown
      obtain ⟨hzone', -⟩ := Principal.zone?_eq_some_iff.1 (hsame ▸ hown)
      have hholds : principal.Holds (normalizeDomain name) zones zones' :=
        ⟨h, hzone.trans hzone'.symm, fun z hz => Option.some.inj (hzone.symm.trans hz) ▸ howns⟩
      exact (hnext zone.domain (h.named _ zone hown) zones zones' _ hholds).mono
        fun _ _ hafter => hafter.toSeesSame
  · exact .of_alike h _ _

variable {settings : EngineSettings}

theorem applyFor {name : String} {job : BatchJob} :
    Discreet fate principal principal.SeesSame
      (Request.applyFor settings principal name job).run :=
  of_visible fun _ hname => retrying (attempt hname) _ _

theorem deleteDomainFor {name : String} :
    Discreet fate principal principal.SeesSame (Request.deleteDomainFor principal name).run := by
  refine of_visible fun found hname => ?_
  rw [hname]
  refine (perform (a := .lock _) (by rintro _ ⟨⟩)).bind fun _ => bind ?_ fun result =>
    (perform (a := .unlock _) (by rintro _ ⟨⟩)).bind fun _ => done result
  refine engine_bind (call (c := .list _ .all) rfl (by rintro _ ⟨⟩)) fun rrsets => ?_
  refine engine_bind (call (c := .deleteDomain _) rfl (by rintro _ ⟨⟩)) ?_
  rintro (_ | _)
  · exact done _
  · exact (perform (a := .readClock) (by rintro _ ⟨⟩)).bind fun now =>
      (perform (a := .announce _) (by rintro _ ⟨⟩)).bind fun _ => done _

theorem mergeCheckIn {name : String} {asked : CheckIn} :
    Discreet fate principal principal.SeesSame
      (Request.mergeCheckIn settings principal name asked).run := by
  have hlook : Discreet fate principal principal.SeesSame
      (Request.visibleDomain principal name >>= pure).run := of_visible fun _ _ => done _
  rw [bind_pure] at hlook
  refine hlook.engine_bind fun _ => ?_
  split
  · exact done _
  · exact done _
  · exact applyFor.engine_bind fun _ => done _

end Discreet

namespace Request

def creates : Request → Bool
  | .createDomain .. => true
  | _ => false

theorem discreet_run (fate : Fate) (settings : EngineSettings) {r : Request}
    {principal : Principal} (h : r.principal? = some principal) (hnew : r.creates = false) :
    Discreet fate principal principal.SeesSame (run settings r).run := by
  have hpure {α β : Type} {p : Engine α} (hp : Discreet fate principal principal.SeesSame p.run)
      (f : α → β) : Discreet fate principal principal.SeesSame (p >>= fun a => pure (f a)).run :=
    hp.engine_bind fun a => .done (Except.ok (f a))
  cases r with
  | createDomain => cases hnew
  | deleteDomain p name =>
      obtain rfl := Option.some.inj h
      exact hpure Discreet.deleteDomainFor _
  | domain p name =>
      obtain rfl := Option.some.inj h
      exact Discreet.of_visible fun _ _ => .done _
  | get p name key =>
      obtain rfl := Option.some.inj h
      refine hpure (Discreet.of_visible fun found hname => ?_) _
      refine Discreet.engine_bind (.check _) fun _ => ?_
      refine (Discreet.call (c := .get found.name key) (congrArg some hname)
        (by rintro _ ⟨⟩)).engine_bind ?_
      rintro (_ | rrset) <;> exact .done _
  | list p name filter =>
      obtain rfl := Option.some.inj h
      refine hpure (Discreet.of_visible fun found hname => ?_) _
      refine Discreet.engine_bind (.check _) fun _ => ?_
      exact (Discreet.call (c := .list found.name filter) (congrArg some hname)
        (by rintro _ ⟨⟩)).engine_bind fun _ => .done _
  | delete p name key =>
      obtain rfl := Option.some.inj h
      refine hpure (Discreet.engine_bind (.check _) fun _ => ?_) _
      exact hpure Discreet.applyFor _
  | write p name operation payload minimumTtl =>
      obtain rfl := Option.some.inj h
      rw [run]
      split
      · exact .done _
      · exact hpure Discreet.applyFor _
  | derive p name operation subname build minimumTtl =>
      obtain rfl := Option.some.inj h
      exact hpure Discreet.applyFor _
  | checkIn p name asked =>
      obtain rfl : p = some principal := h
      refine Discreet.bind (Discreet.bind (Discreet.bind Discreet.mergeCheckIn ?_) ?_) ?_
      · rintro (e | status) <;> exact .done _
      · exact fun status => .done _
      · rintro (e | status) <;> exact .done _

end Request

namespace Fate

def serve (fate : Fate) (settings : EngineSettings) :
    List String → Zones × List CallRecord → List Response × Zones × List CallRecord
  | [], state => ([], state)
  | line :: rest, state =>
      let (response, state) := (answerLine settings line).run fate.handle state
      let (responses, state) := serve fate settings rest state
      (response :: responses, state)

end Fate

def Principal.Sends (principal : Principal) (line : String) : Prop :=
  ∀ r, RequestLine.read line = .ok r → r.principal? = some principal ∧ r.creates = false

instance (principal : Principal) (line : String) : Decidable (principal.Sends line) :=
  match hread : RequestLine.read line with
  | .ok r =>
      decidable_of_iff (r.principal? = some principal ∧ r.creates = false)
        ⟨fun h _ hr => Except.ok.inj (hread.symm.trans hr) ▸ h, fun h => h r hread⟩
  | .error _ => isTrue fun _ hr => nomatch hread.symm.trans hr

theorem discreet_answerLine (fate : Fate) (settings : EngineSettings) {principal : Principal}
    {line : String} (h : principal.Sends line) :
    Discreet fate principal principal.SeesSame (answerLine settings line) := by
  unfold answerLine
  split
  · exact .done _
  · next r hread =>
      obtain ⟨hprincipal, hnew⟩ := h r hread
      exact (Request.discreet_run fate settings hprincipal hnew).bind fun _ => .done _

theorem sameEnd_serve (fate : Fate) (settings : EngineSettings) {principal : Principal}
    {lines : List String} (hlines : ∀ line ∈ lines, principal.Sends line) {zones zones' : Zones}
    (h : principal.SeesSame zones zones') (log : List CallRecord) :
    SameEnd principal principal.SeesSame zones zones' (fate.serve settings lines (zones, log))
      (fate.serve settings lines (zones', log)) := by
  induction lines generalizing zones zones' log with
  | nil => exact .of_alike h [] log
  | cons line rest ih =>
      obtain ⟨hanswer, hlog, hsame, hothers, hothers'⟩ :=
        discreet_answerLine fate settings (hlines line List.mem_cons_self) zones zones' log h
      rw [Fate.serve, Fate.serve]
      generalize (answerLine settings line).run fate.handle (zones, log) = e at *
      generalize (answerLine settings line).run fate.handle (zones', log) = e' at *
      obtain ⟨response, after, log⟩ := e
      obtain ⟨response', after', log'⟩ := e'
      obtain rfl : response = response' := hanswer
      obtain rfl : log = log' := hlog
      have hrest := ih (fun other hother => hlines other (List.mem_cons_of_mem _ hother)) hsame log
      exact ⟨congrArg (response :: ·) hrest.answer, hrest.log, hrest.alike,
        hothers.trans hrest.others, hothers'.trans hrest.others'⟩

theorem foreign_domains_are_hidden (fate : Fate) (settings : EngineSettings)
    {principal : Principal} {lines : List String} (hlines : ∀ line ∈ lines, principal.Sends line)
    {zones zones' : Zones} (h : principal.SeesSame zones zones') (log : List CallRecord) :
    (fate.serve settings lines (zones, log)).1 = (fate.serve settings lines (zones', log)).1
      ∧ principal.LeavesOthers zones (fate.serve settings lines (zones, log)).2.1
      ∧ principal.LeavesOthers zones' (fate.serve settings lines (zones', log)).2.1 := by
  have hend := sameEnd_serve fate settings hlines h log
  exact ⟨hend.answer, hend.others, hend.others'⟩

namespace Example

def alice : Principal := ⟨"alice"⟩

def foreign : Zone := ⟨⟨"example.org", "bob", 60, ⟨0, 0⟩, none⟩, SortedMap.empty⟩

def inquiry (action domain : String) : String :=
  (Json.object [("action", .string action), ("principal", .string "alice"),
    ("domain", .string domain), ("subname", .string "www"), ("type", .string "A")]).compact

def inquiries : List String := [inquiry "get" "example.org", inquiry "delete_domain" "example.org",
  inquiry "delete" "example.com", inquiry "list" "example.com"]

end Example

theorem foreign_domain_looks_missing :
    Example.alice.SeesSame (Example.stored Example.addressed)
        ((Example.stored Example.addressed).insert "example.org" Example.foreign)
      ∧ (∀ line ∈ Example.inquiries, Example.alice.Sends line)
      ∧ (Example.calm.serve .default Example.inquiries (Example.stored Example.addressed, [])).1
        = (Example.calm.serve .default Example.inquiries
            ((Example.stored Example.addressed).insert "example.org" Example.foreign, [])).1 := by
  have hsame : Example.alice.SeesSame (Example.stored Example.addressed)
      ((Example.stored Example.addressed).insert "example.org" Example.foreign) := by
    refine Principal.seesSame_insert (fun name zone hzone => ?_) rfl rfl
    exact Example.isProper_addressed.isNamed name zone (Principal.zone?_eq_some_iff.1 hzone).1
  have hsent : ∀ line ∈ Example.inquiries, Example.alice.Sends line := by
    decide +kernel
  exact ⟨hsame, hsent, (foreign_domains_are_hidden Example.calm .default hsent hsame []).1⟩

end ZoneKeeper
