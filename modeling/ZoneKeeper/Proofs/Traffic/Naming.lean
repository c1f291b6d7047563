import ZoneKeeper.Proofs.Engine.Tenure
import ZoneKeeper.Proofs.Traffic.Ownership

namespace ZoneKeeper

namespace Traffic

variable {s s' : Traffic} {who : Nat} {w : Worker}

def KeepsTime (domain : String) (p : EngineProgram (Except Error Reply)) : Prop :=
  ∃ t, Timely domain p t fun _ _ => True

theorem KeepsTime.follows (hnamed : s.zones.IsNamed) {p : EngineProgram (Except Error Reply)}
    (hprogram : KeepsTime w.domain w.program)
    (hfallback : ∀ rest, w.fallback = some rest → KeepsTime w.domain rest)
    (hp : Follows s w p) : KeepsTime w.domain p := by
  cases hp with
  | same => exact hprogram
  | fallback hrest => exact hfallback p hrest
  | @answer a next answer hact htells =>
      rw [hact] at hprogram
      obtain ⟨t, -, hnext⟩ := hprogram
      exact ⟨_, hnext answer (hnamed.isNamed_of_tells htells)⟩

structure Registers (s : Traffic) : Prop where
  named : s.zones.IsNamed
  registrable : ∀ name, (s.zones.zone? name).isSome = true → IsRegistrable name
  timely : ∀ (who : Nat) (w : Worker), s.workers[who]? = some w → KeepsTime w.domain w.program
    ∧ ∀ p, w.fallback = some p → KeepsTime w.domain p

namespace Registers

theorem moved (h : Registers s) (hw : s.workers[who]? = some w) (hmoved : Moved s who w s') :
    Registers s' := by
  obtain ⟨w', hworkers, hrequest, -, hprogram, hfallback⟩ := exists_worker_of_moved hmoved hw
  have hdomain : w'.domain = w.domain := congrArg Request.domainName hrequest
  have htimely : ∀ (i : Nat) (u : Worker), s'.workers[i]? = some u → KeepsTime u.domain u.program
      ∧ ∀ p, u.fallback = some p → KeepsTime u.domain p := by
    intro i u hu
    rcases set_cases hworkers hu with ⟨-, rfl⟩ | ⟨-, hu⟩
    · obtain ⟨hold, hrest⟩ := h.timely who w hw
      rw [hdomain]
      exact ⟨KeepsTime.follows h.named hold hrest hprogram,
        fun p hp => KeepsTime.follows h.named hold hrest (hfallback p hp)⟩
    · exact h.timely i u hu
  rcases zones_of_moved hmoved with ⟨hzones, -⟩ | ⟨c, o, hcall, hzones, -⟩
  · exact ⟨hzones ▸ h.named, hzones ▸ h.registrable, htimely⟩
  · cases o with
    | failed e =>
        have hsame : s'.zones = s.zones := hzones
        exact ⟨hsame ▸ h.named, hsame ▸ h.registrable, htimely⟩
    | carriedOut now =>
        have hcalled : s'.zones = (s.zones.call now c).2 := hzones
        refine ⟨hcalled ▸ h.named.call c now, fun name hstored => ?_, htimely⟩
        obtain ⟨zone, hzone⟩ := Option.isSome_iff_exists.1 hstored
        rw [hcalled] at hzone
        rcases Zones.exists_domain_of_call s.zones now c hzone with ⟨hc, rfl, -⟩ | ⟨old, hold, -⟩
        · obtain ⟨next, hact⟩ := Worker.program_of_nextCall? (hcall.trans (congrArg some hc))
          obtain ⟨t, hallows⟩ := (h.timely who w hw).1
          rw [hact] at hallows
          obtain ⟨⟨hname, hregistrable, -⟩, -⟩ := hallows
          exact hname ▸ hregistrable
        · exact h.registrable name (Option.isSome_iff_exists.2 ⟨old, hold⟩)

theorem arrive (h : Registers s) (r : Request) : Registers (s.arrive r) := by
  refine ⟨h.named, h.registrable, fun i u hu => ?_⟩
  rcases arrive_cases hu with hu | ⟨-, rfl⟩
  · exact h.timely i u hu
  · refine ⟨⟨.outside, (Request.steady_run s.settings r).mono fun _ _ _ => trivial⟩, ?_⟩
    rintro _ ⟨⟩

theorem of_run {settings : EngineSettings} {mayFail : StoreCall → Bool} {feed : List ZoneChange}
    {events : List Event} (h : (start settings mayFail .empty feed).run events = some s) :
    Registers s := by
  refine run_induction h ⟨?_, ?_, ?_⟩ (fun _ r _ hs => hs.arrive r)
    fun _ _ _ _ _ _ hs hw _ hmoved => hs.moved hw hmoved
  · rintro name zone ⟨⟩
  · rintro name ⟨⟩
  · intro who w hw
    cases hw

end Registers

theorem unescaped_names_differ {settings : EngineSettings} {mayFail : StoreCall → Bool}
    {events : List Event} {name other : String}
    (h : (start settings mayFail .empty []).run events = some s)
    (hname : (s.zones.zone? name).isSome = true) (hother : (s.zones.zone? other).isSome = true) :
    (denoted? name).isSome = true
      ∧ (IsUnescaped name → IsUnescaped other → (denoted? name = denoted? other ↔ name = other)) := by
  have hregisters := Registers.of_run h
  have hvalid := hregisters.registrable name hname
  refine ⟨hvalid.isSome_denoted?, fun hplain hplain' => ?_⟩
  exact hvalid.denoted?_inj (hregisters.registrable other hother) hplain hplain'

namespace Example

def respelled : List Event :=
  .arrive (create "alice") :: events 0 creating
    ++ .arrive (.createDomain ⟨"bob"⟩ "ex\\097mple.com" none) :: events 1 creating

end Example

theorem example_name_is_its_own : ∃ s, (start .default (fun _ => false) .empty []).run
      (.arrive (Example.create "alice") :: Example.events 0 Example.creating) = some s
    ∧ (s.zones.zone? "example.com").isSome = true ∧ IsUnescaped "example.com"
    ∧ (denoted? "example.com").isSome = true := by
  have hends : ((start .default (fun _ => false) .empty []).run
      (.arrive (Example.create "alice") :: Example.events 0 Example.creating)).any
        (fun s => (s.zones.zone? "example.com").isSome) = true := by
    decide +kernel
  obtain ⟨s, hs, hstored⟩ := (Option.any_eq_true _ _).1 hends
  exact ⟨s, hs, hstored, by decide, (unescaped_names_differ hs hstored hstored).1⟩

theorem name_is_registered_twice : ∃ s,
    (start .default (fun _ => false) .empty []).run Example.respelled = some s
    ∧ ((s.zones.domain? "example.com").map (·.owner)) = some "alice"
    ∧ ((s.zones.domain? "ex\\097mple.com").map (·.owner)) = some "bob"
    ∧ (denoted? "example.com").isSome = true
    ∧ denoted? "example.com" = denoted? "ex\\097mple.com" := by
  have hends : ((start .default (fun _ => false) .empty []).run Example.respelled).any
      (fun s => (s.zones.domain? "example.com").map (·.owner) == some "alice"
        && (s.zones.domain? "ex\\097mple.com").map (·.owner) == some "bob") = true := by
    decide +kernel
  obtain ⟨s, hs, h⟩ := (Option.any_eq_true _ _).1 hends
  simp only [Bool.and_eq_true, beq_iff_eq] at h
  exact ⟨s, hs, h.1, h.2, by decide +kernel, by decide +kernel⟩

end Traffic

end ZoneKeeper
