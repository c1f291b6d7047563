import ZoneKeeper.Proofs.Engine.Guard
import ZoneKeeper.Proofs.Traffic.Regimes

namespace ZoneKeeper

def Zones.Tells (zones : Zones) : (a : Act) → a.Answer → Prop
  | .call (.getDomain name), .ok (some found) => zones.domain? name = some found
  | _, _ => True

theorem Zones.IsNamed.isNamed_of_tells {zones : Zones} (hnamed : zones.IsNamed) {a : Act}
    {answer : a.Answer} (h : zones.Tells a answer) : a.IsNamed answer := by
  unfold Act.IsNamed
  split
  · next name found =>
      obtain ⟨zone, hzone, rfl⟩ := Option.map_eq_some_iff.1
        (show zones.domain? name = some found from h)
      exact hnamed name zone hzone
  · trivial

def Worker.nextCall? (w : Worker) : Option StoreCall :=
  match w.program with
  | .act (.call c) _ => some c
  | _ => none

theorem Worker.program_of_nextCall? {w : Worker} {c : StoreCall} (h : w.nextCall? = some c) :
    ∃ next, w.program = .act (.call c) next := by
  unfold nextCall? at h
  split at h
  · next hprogram =>
      obtain rfl := Option.some.inj h
      exact ⟨_, hprogram⟩
  · cases h

namespace Traffic

variable {s s' : Traffic} {who : Nat} {w : Worker} {initial : Zones} {principal : Principal}

def recreated? (s : Traffic) (w : Worker) (name : String) : Option Domain :=
  (s.creations.drop w.arrival).reverse.find? (·.name == name)

/-- To whom the last one to create a domain, or else the store at the start, has given it. -/
def owner? (initial : Zones) (s : Traffic) (name : String) : Option String :=
  ((s.creations.reverse.find? (·.name == name)).map (·.owner)).or
    ((initial.domain? name).map (·.owner))

inductive Follows (s : Traffic) (w : Worker) : EngineProgram (Except Error Reply) → Prop where
  | same : Follows s w w.program
  | fallback {p : EngineProgram (Except Error Reply)} (h : w.fallback = some p) : Follows s w p
  | answer {a : Act} {next : a.Answer → EngineProgram (Except Error Reply)} (answer : a.Answer)
      (hprogram : w.program = .act a next) (htells : s.zones.Tells a answer) :
      Follows s w (next answer)

theorem Outcome.tells (o : Outcome) (c : StoreCall) (zones : Zones) :
    zones.Tells (.call c) (o.call c zones).1 := by
  cases o with
  | failed e => cases c <;> trivial
  | carriedOut now =>
      cases c with
      | getDomain name =>
          rw [Outcome.call, Zones.call_getDomain]
          cases hfound : (zones.zone? name).map (·.domain) with
          | none => trivial
          | some found => exact hfound
      | _ => trivial

theorem exists_worker_of_moved (h : Moved s who w s') (hw : s.workers[who]? = some w) :
    ∃ w', s'.workers = s.workers.set who w' ∧ w'.request = w.request ∧ w'.arrival = w.arrival
      ∧ Follows s w w'.program ∧ ∀ p, w'.fallback = some p → Follows s w p := by
  have hsame : s.workers.set who w = s.workers := by
    obtain ⟨hlt, rfl⟩ := List.getElem?_eq_some_iff.1 hw
    exact List.set_getElem_self hlt
  cases h with
  | call hprogram hfor =>
      exact ⟨_, rfl, rfl, rfl, .answer _ hprogram (Outcome.tells ..), fun _ hp => .fallback hp⟩
  | readClock hprogram =>
      exact ⟨_, rfl, rfl, rfl, .answer _ hprogram trivial, fun _ hp => .fallback hp⟩
  | lock hprogram =>
      exact ⟨_, rfl, rfl, rfl, .answer _ hprogram trivial, fun _ hp => .fallback hp⟩
  | @unlock domain next hprogram =>
      obtain ⟨locks, hback, -⟩ := s.giveBack_eq who domain
      rw [hback]
      exact ⟨_, rfl, rfl, rfl, .answer _ hprogram trivial, fun _ hp => .fallback hp⟩
  | wait hprogram =>
      exact ⟨_, rfl, rfl, rfl, .answer _ hprogram trivial, fun _ hp => .fallback hp⟩
  | startTimer hprogram =>
      refine ⟨_, rfl, rfl, rfl, .answer _ hprogram trivial, ?_⟩
      rintro _ ⟨⟩
      exact .answer (a := .startTimer _) true hprogram trivial
  | stopTimer hprogram =>
      refine ⟨_, rfl, rfl, rfl, .answer _ hprogram trivial, ?_⟩
      rintro _ ⟨⟩
  | beginCommit hprogram =>
      exact ⟨_, rfl, rfl, rfl, .answer _ hprogram trivial, fun _ hp => .fallback hp⟩
  | endCommit hprogram =>
      exact ⟨_, rfl, rfl, rfl, .answer _ hprogram trivial, fun _ hp => .fallback hp⟩
  | announce hprogram =>
      exact ⟨_, rfl, rfl, rfl, .answer _ hprogram trivial, fun _ hp => .fallback hp⟩
  | refer => exact ⟨w, hsame.symm, rfl, rfl, .same, fun _ hp => .fallback hp⟩
  | join => exact ⟨w, hsame.symm, rfl, rfl, .same, fun _ hp => .fallback hp⟩
  | timeUp hfallback =>
      refine ⟨_, rfl, rfl, rfl, .fallback hfallback, ?_⟩
      rintro _ ⟨⟩
  | desertCommit => exact ⟨_, rfl, rfl, rfl, .same, fun _ hp => .fallback hp⟩
  | giveUp => exact ⟨_, rfl, rfl, rfl, .same, fun _ hp => .fallback hp⟩

theorem zones_of_moved (h : Moved s who w s') :
    (s'.zones = s.zones ∧ s'.creations = s.creations)
      ∨ ∃ (c : StoreCall) (o : Outcome), w.nextCall? = some c
        ∧ s'.zones = (o.call c s.zones).2
        ∧ s'.creations = s.creations ++ created c (o.call c s.zones).1 := by
  cases h with
  | @call c next o hprogram =>
      exact Or.inr ⟨c, o, by rw [Worker.nextCall?, hprogram], rfl, rfl⟩
  | @unlock domain =>
      obtain ⟨locks, hback, -⟩ := s.giveBack_eq who domain
      rw [hback]
      exact Or.inl ⟨rfl, rfl⟩
  | _ => exact Or.inl ⟨rfl, rfl⟩

theorem owner?_append {more : List Domain} (h : s'.creations = s.creations ++ more)
    (name : String) : s'.owner? initial name
      = ((more.reverse.find? (·.name == name)).map (·.owner)).or (s.owner? initial name) := by
  rw [owner?, h, List.reverse_append, List.find?_append]
  cases more.reverse.find? (·.name == name) with
  | none => rfl
  | some domain => rfl

theorem owner?_of_recreated? {name : String} {domain : Domain}
    (h : s.recreated? w name = some domain) : s.owner? initial name = some domain.owner := by
  rw [recreated?] at h
  rw [owner?, ← List.take_append_drop w.arrival s.creations, List.reverse_append,
    List.find?_append, h]
  rfl

structure Tracks (initial : Zones) (s : Traffic) : Prop where
  named : s.zones.IsNamed
  owner : ∀ name zone, s.zones.zone? name = some zone →
    s.owner? initial name = some zone.domain.owner
  arrival : ∀ (who : Nat) (w : Worker), s.workers[who]? = some w → w.arrival ≤ s.creations.length

namespace Tracks

theorem owner_of_call (h : Tracks initial s) (c : StoreCall) (o : Outcome)
    (hzones : s'.zones = (o.call c s.zones).2)
    (hcreations : s'.creations = s.creations ++ created c (o.call c s.zones).1) (name : String)
    (zone : Zone) (hzone : s'.zones.zone? name = some zone) :
    s'.owner? initial name = some zone.domain.owner := by
  rw [owner?_append hcreations]
  rw [hzones] at hzone
  cases o with
  | failed e =>
      have hnone : created c (Outcome.call (.failed e) c s.zones).1 = [] := by cases c <;> rfl
      rw [hnone]
      exact h.owner name zone hzone
  | carriedOut now =>
      simp only [Outcome.call] at hzone ⊢
      -- A call that is not the creation of this domain leaves its owner.
      have hkept (hother : ∀ domain, c = .createDomain domain → domain.name ≠ name) :
          ∃ old, s.zones.zone? name = some old ∧ old.domain.owner = zone.domain.owner := by
        by_cases hc : c.domain? = some name
        · rcases Zones.zone?_call_cases s.zones now hc with
            hsame | ⟨domain, rfl, -⟩ | ⟨rfl, hgone⟩ | hrest
          · exact ⟨zone, hsame ▸ hzone, rfl⟩
          · exact absurd (Option.some.inj hc) (hother domain rfl)
          · rw [hgone] at hzone
            cases hzone
          · obtain ⟨old, hold, ⟨time, -, hnew⟩ | ⟨key, ttl, records, -, hnew⟩
              | ⟨key, previous, -, hnew⟩⟩ := hrest
            all_goals
              obtain rfl := Option.some.inj (hnew.symm.trans hzone)
              exact ⟨old, hold, by simp⟩
        · exact ⟨zone, Zones.zone?_call_of_ne s.zones now hc ▸ hzone, rfl⟩
      by_cases hcreates : ∃ domain, c = .createDomain domain ∧ domain.name = name
      · obtain ⟨domain, rfl, rfl⟩ := hcreates
        cases hstored : s.zones.zone? domain.name with
        | none =>
            rw [Zones.call_createDomain_of_none hstored] at hzone ⊢
            rw [Zones.zone?_insert_self] at hzone
            obtain rfl := Option.some.inj hzone
            simp [created]
        | some old =>
            rw [Zones.call_createDomain_of_some hstored] at hzone ⊢
            exact h.owner domain.name zone hzone
      · have hother : ∀ domain, c = .createDomain domain → domain.name ≠ name :=
          fun domain hc hname => hcreates ⟨domain, hc, hname⟩
        have hnone : (created c (s.zones.call now c).1).reverse.find? (·.name == name) = none := by
          cases c with
          | createDomain domain =>
              have hne := hother domain rfl
              cases hanswer : (s.zones.call now (.createDomain domain)).1 with
              | error e => rfl
              | ok done => simp [created, hne]
          | _ => rfl
        obtain ⟨old, hold, howner⟩ := hkept hother
        rw [hnone, ← howner]
        exact h.owner name old hold

theorem moved (h : Tracks initial s) (hw : s.workers[who]? = some w) (hmoved : Moved s who w s') :
    Tracks initial s' := by
  have harrival {w' : Worker} (hworkers : s'.workers = s.workers.set who w')
      (hsame : w'.arrival = w.arrival) (hle : s.creations.length ≤ s'.creations.length) (i : Nat)
      (u : Worker) (hu : s'.workers[i]? = some u) : u.arrival ≤ s'.creations.length := by
    rcases set_cases hworkers hu with ⟨-, rfl⟩ | ⟨-, hu⟩
    · rw [hsame]
      exact Nat.le_trans (h.arrival who w hw) hle
    · exact Nat.le_trans (h.arrival i u hu) hle
  obtain ⟨w', hworkers, -, hsame, -⟩ := exists_worker_of_moved hmoved hw
  rcases zones_of_moved hmoved with ⟨hzones, hcreations⟩ | ⟨c, o, -, hzones, hcreations⟩
  · refine ⟨hzones ▸ h.named, ?_, harrival hworkers hsame (Nat.le_of_eq (by rw [hcreations]))⟩
    rw [hzones]
    intro name zone hzone
    rw [owner?, hcreations]
    exact h.owner name zone hzone
  · refine ⟨?_, h.owner_of_call c o hzones hcreations, harrival hworkers hsame ?_⟩
    · rw [hzones]
      cases o with
      | carriedOut now => exact h.named.call c now
      | failed e => exact h.named
    · rw [hcreations, List.length_append]
      exact Nat.le_add_right _ _

end Tracks

def Knows (initial : Zones) (s : Traffic) (w : Worker) (principal : Principal) : Prop :=
  (s.recreated? w w.domain).isSome = true ∨ s.owner? initial w.domain = some principal.id

def Heeds (initial : Zones) (s : Traffic) (w : Worker) (principal : Principal)
    (p : EngineProgram (Except Error Reply)) : Prop :=
  Guarded principal w.domain p ∨ (Confined w.domain p ∧ s.Knows initial w principal)

theorem knows_mono {w' : Worker} {more : List Domain}
    (hcreations : s'.creations = s.creations ++ more) (harrival : w.arrival ≤ s.creations.length)
    (hsame : w'.arrival = w.arrival) (hdomain : w'.domain = w.domain)
    (h : s.Knows initial w principal) : s'.Knows initial w' principal := by
  rw [Knows, owner?_append hcreations, recreated?, hsame, hdomain, hcreations,
    List.drop_append_of_le_length harrival, List.reverse_append, List.find?_append]
  cases hmore : more.reverse.find? (·.name == w.domain) with
  | some domain => exact Or.inl rfl
  | none => exact h

theorem Heeds.follows (ht : Tracks initial s) {p : EngineProgram (Except Error Reply)}
    (hprogram : s.Heeds initial w principal w.program)
    (hfallback : ∀ rest, w.fallback = some rest → s.Heeds initial w principal rest)
    (hp : Follows s w p) : s.Heeds initial w principal p := by
  cases hp with
  | same => exact hprogram
  | fallback hrest => exact hfallback p hrest
  | @answer a next answer hact htells =>
      have hnamed := ht.named.isNamed_of_tells htells
      rw [hact] at hprogram
      rcases hprogram with hguarded | ⟨hconfined, hknows⟩
      · refine (hguarded.2 answer hnamed).imp id ?_
        rintro ⟨hshows, hconfined⟩
        refine ⟨hconfined, Or.inr ?_⟩
        unfold Act.Shows at hshows
        split at hshows
        · next name found =>
            obtain ⟨rfl, howns⟩ := hshows
            obtain ⟨zone, hzone, rfl⟩ := Option.map_eq_some_iff.1
              (show s.zones.domain? w.domain = some found from htells)
            rw [ht.owner w.domain zone hzone, beq_iff_eq.1 howns]
        · cases hshows
      · exact Or.inr ⟨hconfined.2 answer hnamed, hknows⟩

structure Minds (initial : Zones) (s : Traffic) : Prop extends Tracks initial s where
  heeds : ∀ (who : Nat) (w : Worker) (principal : Principal), s.workers[who]? = some w →
    w.request.principal? = some principal → s.Heeds initial w principal w.program
      ∧ ∀ p, w.fallback = some p → s.Heeds initial w principal p

namespace Minds

theorem moved (h : Minds initial s) (hw : s.workers[who]? = some w) (hmoved : Moved s who w s') :
    Minds initial s' := by
  refine ⟨h.toTracks.moved hw hmoved, ?_⟩
  obtain ⟨more, hcreations⟩ : ∃ more, s'.creations = s.creations ++ more := by
    rcases zones_of_moved hmoved with ⟨-, hsame⟩ | ⟨c, o, -, -, hmore⟩
    · exact ⟨[], by rw [hsame, List.append_nil]⟩
    · exact ⟨_, hmore⟩
  have hmono {i : Nat} {u u' : Worker} {principal : Principal}
      {p : EngineProgram (Except Error Reply)} (hu : s.workers[i]? = some u)
      (hsame : u'.arrival = u.arrival) (hdomain : u'.domain = u.domain)
      (hp : s.Heeds initial u principal p) : s'.Heeds initial u' principal p := by
    rw [Heeds, hdomain]
    exact hp.imp id (And.imp id (knows_mono hcreations (h.arrival i u hu) hsame hdomain))
  obtain ⟨w', hworkers, hrequest, hsame, hprogram, hfallback⟩ := exists_worker_of_moved hmoved hw
  intro i u principal hu hprincipal
  rcases set_cases hworkers hu with ⟨rfl, rfl⟩ | ⟨-, hu⟩
  · have hdomain : u.domain = w.domain := congrArg Request.domainName hrequest
    rw [hrequest] at hprincipal
    obtain ⟨hold, hrest⟩ := h.heeds i w principal hw hprincipal
    exact ⟨hmono hw hsame hdomain (Heeds.follows h.toTracks hold hrest hprogram),
      fun p hp => hmono hw hsame hdomain (Heeds.follows h.toTracks hold hrest (hfallback p hp))⟩
  · obtain ⟨hold, hrest⟩ := h.heeds i u principal hu hprincipal
    exact ⟨hmono hu rfl rfl hold, fun p hp => hmono hu rfl rfl (hrest p hp)⟩

theorem arrive (h : Minds initial s) (r : Request) : Minds initial (s.arrive r) := by
  refine ⟨⟨h.named, h.owner, ?_⟩, ?_⟩
  · intro i u hu
    rcases arrive_cases hu with hu | ⟨-, rfl⟩
    · exact h.arrival i u hu
    · exact Nat.le_refl _
  · intro i u principal hu hprincipal
    rcases arrive_cases hu with hu | ⟨-, rfl⟩
    · exact h.heeds i u principal hu hprincipal
    · refine ⟨Or.inl (Request.guarded_run s.settings hprincipal), ?_⟩
      rintro _ ⟨⟩

theorem of_run {settings : EngineSettings} {mayFail : StoreCall → Bool} {feed : List ZoneChange}
    {events : List Event} (h : (start settings mayFail initial feed).run events = some s)
    (hnamed : initial.IsNamed) : Minds initial s := by
  refine run_induction h ⟨⟨hnamed, ?_, ?_⟩, ?_⟩ (fun _ r _ hs => hs.arrive r)
    fun _ _ _ _ _ _ hs hw _ hmoved => hs.moved hw hmoved
  · intro name zone hzone
    change Option.map _ (initial.domain? name) = _
    rw [Zones.domain?_eq, show initial.zone? name = some zone from hzone]
    rfl
  · intro who w hw
    cases hw
  · intro who w principal hw
    cases hw

end Minds

/-- A change of a stored domain acts on a domain of the principal exactly if nobody else was the
last to create the domain since the request came in. -/
theorem owner_at_change_iff {settings : EngineSettings} {mayFail : StoreCall → Bool}
    {feed : List ZoneChange} {events : List Event} {c : StoreCall} {name : String} {zone : Zone}
    (h : (start settings mayFail initial feed).run events = some s) (hnamed : initial.IsNamed)
    (hw : s.workers[who]? = some w) (hprincipal : w.request.principal? = some principal)
    (hcall : w.nextCall? = some c) (hchanges : c.changed? = some name)
    (hzone : s.zones.zone? name = some zone) :
    zone.domain.owner = principal.id
      ↔ ∀ domain, s.recreated? w name = some domain → domain.owner = principal.id := by
  have hminds := Minds.of_run h hnamed
  have hheeds := (hminds.heeds who w principal hw hprincipal).1
  obtain ⟨next, hprogram⟩ := Worker.program_of_nextCall? hcall
  rw [hprogram] at hheeds
  rcases hheeds with hguarded | ⟨hconfined, hknows⟩
  · have hnone := hguarded.1 c rfl
    rw [hchanges] at hnone
    cases hnone
  · obtain rfl := hconfined.1 c name rfl hchanges
    have howner := hminds.owner w.domain zone hzone
    cases hlast : s.recreated? w w.domain with
    | some domain =>
        rw [owner?_of_recreated? hlast] at howner
        constructor
        · rintro hown _ ⟨⟩
          exact (Option.some.inj howner).trans hown
        · intro hall
          exact (Option.some.inj howner).symm.trans (hall domain rfl)
    | none =>
        rcases hknows with hsome | hown
        · rw [hlast] at hsome
          cases hsome
        · rw [hown] at howner
          exact ⟨by rintro - _ ⟨⟩, fun _ => (Option.some.inj howner).symm⟩

namespace Example

def beforeWriting : List Event :=
  .arrive write :: events 0 [answer, goOn, .refer, .join, goOn, answer, answer, answer, goOn, goOn]

def overtaken : List Event :=
  .arrive (create "alice") :: events 0 creating
    ++ [.arrive (.deleteDomain ⟨"alice"⟩ "example.com"), .arrive (create "bob"), .arrive createWww]
    ++ events 1 [answer, .refer, .join, goOn] ++ events 2 [.refer, .join]
    ++ events 3 [answer, goOn, .refer, .join]
    ++ events 1 [answer, answer, goOn, goOn, goOn] ++ events 2 [goOn, goOn, answer, goOn]
    ++ events 3 [goOn, answer, answer, goOn, goOn]

end Example

theorem owner_at_change_of_write : ∃ s w c zone, Example.start.run Example.beforeWriting = some s
    ∧ s.workers[0]? = some w ∧ w.nextCall? = some c ∧ c.changed? = some "a.de"
    ∧ s.zones.zone? "a.de" = some zone ∧ s.recreated? w "a.de" = none
    ∧ zone.domain.owner = "ann" := by
  have hends : (Example.start.run Example.beforeWriting).any (fun s =>
      s.workers[0]?.any (fun w => w.request.principal? == some ⟨"ann"⟩
        && w.nextCall?.any (fun c => c.changed? == some "a.de")
        && s.recreated? w "a.de" == none)
      && (s.zones.zone? "a.de").isSome) = true := by
    decide +kernel
  obtain ⟨s, hs, h⟩ := (Option.any_eq_true _ _).1 hends
  simp only [Bool.and_eq_true, Option.any_eq_true, beq_iff_eq, Option.isSome_iff_exists] at h
  obtain ⟨⟨w, hw, ⟨hprincipal, c, hcall, hchanges⟩, hnone⟩, zone, hzone⟩ := h
  refine ⟨s, w, c, zone, hs, hw, hcall, hchanges, hzone, hnone, ?_⟩
  exact (owner_at_change_iff hs Example.isProper_zones.isNamed hw hprincipal hcall hchanges hzone).2
    fun domain hdomain => absurd (hnone.symm.trans hdomain) (by simp)

theorem foreign_domain_is_changed : ∃ s w c zone,
    (start .default (fun _ => false) Zones.empty []).run Example.overtaken = some s
    ∧ s.workers[3]? = some w ∧ w.request.principal? = some ⟨"alice"⟩ ∧ w.nextCall? = some c
    ∧ c.changed? = some "example.com" ∧ s.zones.zone? "example.com" = some zone
    ∧ zone.domain.owner = "bob" := by
  have hends : ((start .default (fun _ => false) Zones.empty []).run Example.overtaken).any
      (fun s => s.workers[3]?.any (fun w => w.request.principal? == some ⟨"alice"⟩
        && w.nextCall?.any fun c => c.changed? == some "example.com")
      && (s.zones.zone? "example.com").any (·.domain.owner == "bob")) = true := by
    decide +kernel
  obtain ⟨s, hs, h⟩ := (Option.any_eq_true _ _).1 hends
  simp only [Bool.and_eq_true, Option.any_eq_true, beq_iff_eq] at h
  obtain ⟨⟨w, hw, hprincipal, c, hcall, hchanges⟩, zone, hzone, howner⟩ := h
  exact ⟨s, w, c, zone, hs, hw, hprincipal, hcall, hchanges, hzone, howner⟩

end Traffic

end ZoneKeeper
