import ZoneKeeper.Proofs.Engine.Upkeep
import ZoneKeeper.Proofs.Traffic.Regimes

namespace ZoneKeeper

structure Worker.Maintains (w : Worker) (I : Option Zone → Prop) (zones : Zones) : Prop where
  holds : I (zones.zone? w.domain)
  program : Upholds I w.domain w.program fun _ => True
  fallback : ∀ p, w.fallback = some p → Upholds I w.domain p fun _ => True

def Worker.IsUpholding (w : Worker) (settings : EngineSettings) (zones : Zones) : Prop :=
  ∃ may : Domain → Prop, (∀ d, may d → d.name = w.domain)
    ∧ w.Maintains (IsUpheld settings.charter may) zones

namespace Traffic

variable {s s' : Traffic} {who : Nat} {w : Worker} {settings : EngineSettings}

/-- Carries out events, where a request comes in only when all before it are over. -/
def runInTurn : Traffic → List Event → Option Traffic
  | s, [] => some s
  | s, .arrive request :: rest =>
      if s.workers.all Worker.isOver then (s.arrive request).runInTurn rest else none
  | s, e :: rest => do (← s.step? e).runInTurn rest

theorem run_of_runInTurn {events : List Event} (h : s.runInTurn events = some s') :
    s.run events = some s' := by
  induction events generalizing s with
  | nil => exact h
  | cons e rest ih =>
      cases e with
      | arrive request =>
          rw [runInTurn] at h
          split at h
          · exact ih h
          · cases h
      | move who m =>
          obtain ⟨next, hnext, h⟩ := Option.bind_eq_some_iff.1 h
          exact Option.bind_eq_some_iff.2 ⟨next, hnext, ih h⟩

structure IsUpkept (settings : EngineSettings) (s : Traffic) : Prop where
  hasSettings : s.settings = settings
  named : s.zones.IsNamed
  sound : ∀ name zone, s.zones.zone? name = some zone → zone.IsSound settings.charter
  upholding : ∀ (i : Nat) (u : Worker), s.workers[i]? = some u → u.isOver = false →
    u.IsUpholding settings s.zones
  alone : ∀ (i j : Nat) (u v : Worker), s.workers[i]? = some u → s.workers[j]? = some v →
    u.isOver = false → v.isOver = false → i = j

theorem settings_of_moved (h : Moved s who w s') : s'.settings = s.settings := by
  cases h with
  | @unlock domain =>
      obtain ⟨locks, hback, -⟩ := s.giveBack_eq who domain
      rw [hback]
      rfl
  | _ => rfl

theorem maintains_of_moved {I : Option Zone → Prop} (hmoved : Moved s who w s')
    (hw : s.workers[who]? = some w) (h : w.Maintains I s.zones) :
    ∃ w', s'.workers = s.workers.set who w' ∧ w'.domain = w.domain ∧ w'.Maintains I s'.zones
      ∧ ∀ name, name ≠ w.domain → s'.zones.zone? name = s.zones.zone? name := by
  have hsame : s.workers.set who w = s.workers := by
    obtain ⟨hlt, rfl⟩ := List.getElem?_eq_some_iff.1 hw
    exact List.set_getElem_self hlt
  obtain ⟨hholds, hprogram, hfallback⟩ := h
  cases hmoved with
  | @call c next o hcall hfor =>
      rw [hcall] at hprogram
      obtain ⟨hdomain, hnext⟩ := hprogram
      obtain ⟨hzone, hrest⟩ := hnext o _ hholds
      obtain ⟨hanswer, hafter⟩ := o.call_only hdomain s.zones
      refine ⟨_, rfl, rfl, ⟨hafter ▸ hzone, hanswer ▸ hrest, hfallback⟩, fun name hne => ?_⟩
      refine o.zone?_call_of_ne ?_ s.zones
      rw [hdomain]
      exact fun heq => hne (Option.some.inj heq).symm
  | @unlock domain next hact =>
      rw [hact] at hprogram
      obtain ⟨locks, hback, -⟩ := s.giveBack_eq who domain
      rw [hback]
      exact ⟨_, rfl, rfl, ⟨hholds, hprogram _, hfallback⟩, fun _ _ => rfl⟩
  | startTimer hact =>
      rw [hact] at hprogram
      refine ⟨_, rfl, rfl, ⟨hholds, hprogram false, ?_⟩, fun _ _ => rfl⟩
      rintro _ ⟨⟩
      exact hprogram true
  | stopTimer hact =>
      rw [hact] at hprogram
      exact ⟨_, rfl, rfl, ⟨hholds, hprogram _, by rintro _ ⟨⟩⟩, fun _ _ => rfl⟩
  | readClock hact | lock hact | wait hact | beginCommit hact | endCommit hact | announce hact =>
      rw [hact] at hprogram
      exact ⟨_, rfl, rfl, ⟨hholds, hprogram _, hfallback⟩, fun _ _ => rfl⟩
  | timeUp hrest =>
      exact ⟨_, rfl, rfl, ⟨hholds, hfallback _ hrest, by rintro _ ⟨⟩⟩, fun _ _ => rfl⟩
  | refer | join => exact ⟨w, hsame.symm, rfl, ⟨hholds, hprogram, hfallback⟩, fun _ _ => rfl⟩
  | desertCommit | giveUp =>
      exact ⟨_, rfl, rfl, ⟨hholds, hprogram, hfallback⟩, fun _ _ => rfl⟩

theorem upholding_of_moved (hmoved : Moved s who w s') (hw : s.workers[who]? = some w)
    (h : w.IsUpholding settings s.zones) : ∃ w', s'.workers = s.workers.set who w'
      ∧ w'.domain = w.domain ∧ w'.IsUpholding settings s'.zones
      ∧ ∀ name, name ≠ w.domain → s'.zones.zone? name = s.zones.zone? name := by
  obtain ⟨may, hname, hmaintains⟩ := h
  obtain ⟨w', hworkers, hdomain, hafter, helse⟩ := maintains_of_moved hmoved hw hmaintains
  exact ⟨w', hworkers, hdomain, ⟨may, hdomain ▸ hname, hafter⟩, helse⟩

theorem program_of_isOver (hgone : w.isGone = false) (hover : w.isOver = true) :
    ∃ result, w.program = .done result := by
  simp only [Worker.isOver, hgone, Bool.false_or, Worker.result?] at hover
  split at hover
  · next result hprogram => exact ⟨result, hprogram⟩
  · cases hover

theorem over_of_moved (hmoved : Moved s who w s') (hgone : w.isGone = false)
    (hover : w.isOver = true) : s' = s.keep who { w with isDeserted := true } := by
  obtain ⟨result, hdone⟩ := program_of_isOver hgone hover
  have hwaits : w.isWaiting = false := by rw [Worker.isWaiting, hdone]
  cases hmoved <;> simp_all

theorem arrived_of_busy (hquiet : s.workers.all Worker.isOver = true) {r : Request} {i : Nat}
    {u : Worker} (hu : (s.arrive r).workers[i]? = some u) (hbusy : u.isOver = false) :
    i = s.workers.length ∧ u = ⟨r, (Request.run s.settings r).run, none, .fresh, false, false,
      s.creations.length⟩ := by
  rcases arrive_cases hu with hold | hnew
  · have hover := List.all_eq_true.1 hquiet u (List.mem_of_getElem? hold)
    exact absurd (hbusy.symm.trans hover) Bool.false_ne_true
  · exact hnew

theorem unmoved_of_busy (hover : w.isOver = true) {i : Nat} {u : Worker}
    (hu : (s.keep who { w with isDeserted := true }).workers[i]? = some u)
    (hbusy : u.isOver = false) : s.workers[i]? = some u := by
  rcases set_cases rfl hu with ⟨-, rfl⟩ | ⟨-, hu⟩
  · exact absurd (hbusy.symm.trans hover) Bool.false_ne_true
  · exact hu

theorem moved_of_busy {w' : Worker} (hworkers : s'.workers = s.workers.set who w')
    (halone : ∀ (i : Nat) (u : Worker), s.workers[i]? = some u → u.isOver = false → i = who)
    {i : Nat} {u : Worker} (hu : s'.workers[i]? = some u) (hbusy : u.isOver = false) :
    i = who ∧ u = w' := by
  rcases set_cases hworkers hu with hmine | ⟨hne, hu⟩
  · exact hmine
  · exact absurd (halone i u hu hbusy) hne

namespace IsUpkept

theorem start (settings : EngineSettings) (mayFail : StoreCall → Bool) :
    (start settings mayFail .empty []).IsUpkept settings where
  hasSettings := rfl
  named := Zones.isProper_empty.isNamed
  sound := by rintro name zone ⟨⟩
  upholding := by rintro i u ⟨⟩
  alone := by rintro i j u v ⟨⟩

theorem upholds_arriving (h : s.IsUpkept settings) {r : Request}
    (hfloor : ∀ job floor, r.job? settings = some job →
      job.minimumTtl = some floor → settings.checkIn.minimumTtl ≤ floor) :
    ∃ may : Domain → Prop, (∀ d, may d → d.name = r.domainName)
      ∧ IsUpheld settings.charter may (s.zones.zone? r.domainName)
      ∧ Upholds (IsUpheld settings.charter may) r.domainName (Request.run settings r).run
          fun _ => True := by
  refine ⟨fun d => d.name = r.domainName
    ∧ (r.isBatch = true → s.zones.domain? r.domainName = some d), fun d hd => hd.1, ?_, ?_⟩
  · intro zone hzone
    refine ⟨⟨h.named _ _ hzone, fun _ => ?_⟩, h.sound _ _ hzone⟩
    rw [Zones.domain?_eq, hzone]
    rfl
  · refine Request.upholds_run (fun d hd => hd.1) ?_ ?_ fun job hjob =>
      BatchJob.honours_of_floor fun floor => hfloor job floor hjob
    · intro hbatch d d' hd hd'
      rw [Option.some.inj ((hd'.2 hbatch).symm.trans (hd.2 hbatch))]
    · intro hbatch d hd
      exact ⟨hd, fun hbatch' => absurd (hbatch.symm.trans hbatch') Bool.false_ne_true⟩

theorem arrive (h : s.IsUpkept settings) (hquiet : s.workers.all Worker.isOver = true)
    {r : Request} (hfloor : ∀ job floor, r.job? settings = some job →
      job.minimumTtl = some floor → settings.checkIn.minimumTtl ≤ floor) :
    (s.arrive r).IsUpkept settings := by
  refine ⟨h.hasSettings, h.named, h.sound, ?_, ?_⟩
  · intro i u hu hbusy
    obtain ⟨-, rfl⟩ := arrived_of_busy hquiet hu hbusy
    obtain ⟨may, hname, hupheld, hprogram⟩ := h.upholds_arriving hfloor
    rw [← h.hasSettings] at hprogram ⊢
    refine ⟨may, hname, h.hasSettings ▸ hupheld, hprogram, ?_⟩
    rintro _ ⟨⟩
  · intro i j u v hu hv hbusy hbusy'
    rw [(arrived_of_busy hquiet hu hbusy).1, (arrived_of_busy hquiet hv hbusy').1]

theorem moved (h : s.IsUpkept settings) (hw : s.workers[who]? = some w)
    (hgone : w.isGone = false) (hmoved : Moved s who w s') : s'.IsUpkept settings := by
  cases hover : w.isOver with
  | true =>
      obtain rfl := over_of_moved hmoved hgone hover
      refine ⟨h.hasSettings, h.named, h.sound, fun i u hu hbusy => ?_,
        fun i j u v hu hv hbusy hbusy' => ?_⟩
      · exact h.upholding i u (unmoved_of_busy hover hu hbusy) hbusy
      · exact h.alone i j u v (unmoved_of_busy hover hu hbusy) (unmoved_of_busy hover hv hbusy')
          hbusy hbusy'
  | false =>
      obtain ⟨w', hworkers, hdomain, hupholds, helse⟩ :=
        upholding_of_moved hmoved hw (h.upholding who w hw hover)
      have halone : ∀ (i : Nat) (u : Worker), s.workers[i]? = some u → u.isOver = false → i = who :=
        fun i u hu hbusy => h.alone i who u w hu hw hbusy hover
      have hzones : ∀ name zone, s'.zones.zone? name = some zone →
          zone.domain.name = name ∧ zone.IsSound settings.charter := by
        intro name zone hzone
        by_cases hname : name = w.domain
        · obtain ⟨may, hmay, hmaintains⟩ := hupholds
          have hupheld := hmaintains.holds
          rw [hname] at hzone ⊢
          rw [hdomain] at hmay hupheld
          obtain ⟨hcan, hsound⟩ := hupheld zone hzone
          exact ⟨hmay _ hcan, hsound⟩
        · rw [helse name hname] at hzone
          exact ⟨h.named name zone hzone, h.sound name zone hzone⟩
      refine ⟨(settings_of_moved hmoved).trans h.hasSettings, fun name zone hzone =>
        (hzones name zone hzone).1, fun name zone hzone => (hzones name zone hzone).2, ?_, ?_⟩
      · intro i u hu hnot
        obtain ⟨-, rfl⟩ := moved_of_busy hworkers halone hu hnot
        exact hupholds
      · intro i j u v hu hv hnot hnot'
        rw [(moved_of_busy hworkers halone hu hnot).1, (moved_of_busy hworkers halone hv hnot').1]

theorem run {events : List Event} (h : s.IsUpkept settings)
    (hfloor : ∀ r job floor, .arrive r ∈ events → r.job? settings = some job →
      job.minimumTtl = some floor → settings.checkIn.minimumTtl ≤ floor)
    (hrun : s.runInTurn events = some s') : s'.IsUpkept settings := by
  induction events generalizing s with
  | nil => exact Option.some.inj hrun ▸ h
  | cons e rest ih =>
      have hlater := fun r job floor he => hfloor r job floor (List.mem_cons_of_mem e he)
      cases e with
      | arrive request =>
          rw [runInTurn] at hrun
          split at hrun
          · next hquiet =>
              refine ih (h.arrive hquiet fun job floor => ?_) hlater hrun
              exact hfloor request job floor List.mem_cons_self
          · cases hrun
      | move who m =>
          obtain ⟨next, hnext, hrun⟩ := Option.bind_eq_some_iff.1 hrun
          refine ih ?_ hlater hrun
          rcases step?_cases hnext with ⟨_, ⟨⟩, -⟩ | ⟨_, _, w, ⟨⟩, hw, hgone, hmoved⟩
          exact h.moved hw hgone hmoved

end IsUpkept

/-- However requests that are carried out one at a time turn out, after each step of theirs every
stored set is stored at its own key and is admitted by its domain. -/
theorem stored_sets_are_admitted {mayFail : StoreCall → Bool} {events : List Event}
    (h : (start settings mayFail .empty []).runInTurn events = some s)
    (hfloor : ∀ r job floor, .arrive r ∈ events → r.job? settings = some job →
      job.minimumTtl = some floor → settings.checkIn.minimumTtl ≤ floor)
    {name : String} {zone : Zone} (hzone : s.zones.zone? name = some zone) {key : Key} {r : Rrset}
    (hr : zone.rrsets.get? key = some r) :
    zone.domain.name = name ∧ r.key = key ∧ zone.domain.AdmitsSet settings r := by
  have hkept := (IsUpkept.start settings mayFail).run hfloor h
  obtain ⟨hkey, hadmits⟩ := hkept.sound name zone hzone key r hr
  exact ⟨hkept.named name zone hzone, hkey, hadmits⟩

namespace Example

def createBoth : Request := .write ⟨"alice"⟩ "example.com" .create (.array [
  .object [("subname", .string "mail"), ("type", .string "A"), ("ttl", .int 3600),
    ("records", .array [.string "192.0.2.1"])],
  .object [("subname", .string "www"), ("type", .string "CNAME"), ("ttl", .int 3600),
    ("records", .array [.string "mail.example.com."])]]) none

def stranded : List Event :=
  .arrive (create "alice") :: events 0 creating ++ .arrive createBoth ::
    events 1 [answer, goOn, .refer, .join, goOn, answer, answer, answer, goOn, goOn, answer,
      .call (.failed (.other "full")), .call (.failed (.other "gone")), goOn, goOn]

end Example

theorem stranded_set_is_admitted : ∃ s zone r,
    (start .default (fun _ => true) .empty []).runInTurn Example.stranded = some s
    ∧ s.zones.zone? "example.com" = some zone ∧ zone.rrsets.get? ⟨"mail", "A"⟩ = some r
    ∧ zone.domain.AdmitsSet .default r := by
  have hends : ((start .default (fun _ => true) .empty []).runInTurn Example.stranded).any
      (fun s => (s.zones.zone? "example.com").any
        fun zone => (zone.rrsets.get? ⟨"mail", "A"⟩).isSome) = true := by
    decide +kernel
  obtain ⟨s, hs, hstored⟩ := (Option.any_eq_true _ _).1 hends
  obtain ⟨zone, hzone, hsome⟩ := (Option.any_eq_true _ _).1 hstored
  obtain ⟨r, hr⟩ := Option.isSome_iff_exists.1 hsome
  refine ⟨s, zone, r, hs, hzone, hr, (stored_sets_are_admitted hs ?_ hzone hr).2.2⟩
  -- neither request has a bound of its own for its times to live
  intro r job floor harrives hjob hfloor
  have hrequest : r = Example.create "alice" ∨ r = Example.createBoth := by
    simpa [Example.stranded, Example.events] using harrives
  rcases hrequest with rfl | rfl
  · cases hjob
  · simp only [Example.createBoth, Request.job?] at hjob
    split at hjob
    · obtain rfl := Option.some.inj hjob
      cases hfloor
    · cases hjob

end Traffic

end ZoneKeeper
