import ZoneKeeper.Proofs.Engine.Tenure
import ZoneKeeper.Proofs.Feed.Publishing
import ZoneKeeper.Proofs.Instant
import ZoneKeeper.Proofs.Traffic.Ownership

namespace ZoneKeeper

namespace Publishing

variable {s s' : Publishing} {taken : List ZoneChange} {due : Option ZoneChange} {name : String}

def due? (s : Publishing) : Option String :=
  match s.program with
  | .act (.call (.markPublished domain _)) _ => some domain
  | _ => none

def notedOf (s : Publishing) (domain : String) : List ZoneChange :=
  if s.due? = some domain then (s.acceptedOf domain).dropLast else s.acceptedOf domain

def underway (s : Publishing) (domain : String) : List ZoneChange :=
  (changesOf domain s.announced).drop (s.notedOf domain).length

namespace InOrder

theorem due?_eq (h : s.InOrder taken due) : s.due? = due.map (·.domain) := by
  have hdelivers := h.delivers
  unfold due?
  generalize hprogram : s.program = program at hdelivers
  cases program with
  | done rest =>
      obtain rfl := (h.isSettled hprogram).1
      rfl
  | act a next =>
      cases a with
      | call c =>
          have hc := hdelivers.1
          cases due with
          | none =>
              obtain rfl : c = .flush := hc
              rfl
          | some change =>
              obtain rfl : c = .markPublished change.domain change.committedAt := hc
              rfl
      | push change =>
          obtain rfl : due = none := hdelivers.1
          rfl
      | wait milliseconds =>
          obtain rfl : due = none := hdelivers.1
          rfl
      | _ => exact hdelivers.elim

theorem acceptedOf_prefix (h : s.InOrder taken due) (name : String) :
    s.acceptedOf name <+: changesOf name s.announced := accepted_prefix h.offered name

theorem notedOf_prefix (h : s.InOrder taken due) (name : String) :
    s.notedOf name <+: changesOf name s.announced := by
  unfold notedOf
  split
  · exact (List.dropLast_prefix _).trans (h.acceptedOf_prefix name)
  · exact h.acceptedOf_prefix name

theorem notedOf_append_underway (h : s.InOrder taken due) (name : String) :
    s.notedOf name ++ s.underway name = changesOf name s.announced := by
  obtain ⟨rest, hrest⟩ := h.notedOf_prefix name
  rw [underway, ← hrest, List.drop_left]

theorem notedOf_eq (h : s.InOrder taken due) (name : String) : s.notedOf name
    = if due.map (·.domain) = some name then (s.acceptedOf name).dropLast
      else s.acceptedOf name := by
  rw [notedOf, h.due?_eq]

theorem notedOf_append_due {change : ZoneChange} (h : s.InOrder taken (some change)) :
    s.notedOf change.domain ++ [change] <+: changesOf change.domain s.announced := by
  have hlast := h.isLast change rfl
  rw [h.notedOf_eq, Option.map_some, if_pos rfl]
  obtain ⟨init, hinit⟩ := List.getLast?_eq_some_iff.1 hlast
  rw [hinit, List.dropLast_concat, ← hinit]
  exact h.acceptedOf_prefix change.domain

theorem notedOf_le (h : s.InOrder taken due) (hmoved : s.Moved s') (name : String) :
    (s.notedOf name).length ≤ (s'.notedOf name).length := by
  have hle : (s.notedOf name).length ≤ (s.acceptedOf name).length := by
    unfold notedOf
    split
    · exact (List.dropLast_prefix _).length_le
    · exact Nat.le_refl _
  cases hmoved with
  | react hprogram hfeed hending =>
      rw [(h.react hprogram hfeed hending).notedOf_eq]
      exact hle
  | @push change next hprogram isAccepted =>
      rw [(h.push hprogram isAccepted).notedOf_eq, acceptedOf_afterPush]
      cases isAccepted with
      | false => simpa using hle
      | true =>
          by_cases hname : change.domain = name
          · simpa [hname] using hle
          · simpa [hname] using hle
  | call hprogram o =>
      rw [(h.call hprogram o).notedOf_eq]
      exact hle
  | wait hprogram =>
      have hdelivers := h.delivers
      rw [hprogram] at hdelivers
      obtain rfl : due = none := hdelivers.1
      rw [(h.wait hprogram).notedOf_eq]
      exact hle

end InOrder

end Publishing

inductive Deed where
  | call (c : StoreCall) (o : Outcome)
  | reading (now : Instant)
  | announcement (change : ZoneChange)
  | other

def Worker.deed (w : Worker) : Move → Deed
  | .call o =>
      match w.program with
      | .act (.call c) _ => .call c o
      | _ => .other
  | .proceed now =>
      match w.program with
      | .act .readClock _ => .reading now
      | .act (.announce change) _ => .announcement change
      | _ => .other
  | _ => .other

structure Ensemble where
  traffic : Traffic
  publishing : Publishing
  clock : Instant
  /-- The changes of earlier domains that were yet to be noted when a domain was created, by name. -/
  inherited : String → List ZoneChange

namespace Ensemble

inductive Event where
  | request (e : ZoneKeeper.Event)
  | publisher (m : Publishing.Move)

def start (settings : EngineSettings) (mayFail : StoreCall → Bool) (clock : Instant) : Ensemble :=
  ⟨.start settings mayFail .empty [], .start settings .empty, clock, fun _ => []⟩

def attend (p : Publishing) : Deed → Publishing
  | .call c o => p.afterElsewhere c o
  | .announcement change => p.announce change
  | _ => p

def tick? (clock : Instant) : Deed → Option Instant
  | .reading now => if clock < now then some now else none
  | _ => some clock

def bequeath (s : Ensemble) (traffic : Traffic) (name : String) : List ZoneChange :=
  if (traffic.creations.drop s.traffic.creations.length).any (·.name == name) then
    s.publishing.underway name
  else s.inherited name

def step? (s : Ensemble) : Event → Option Ensemble
  | .request (.arrive r) => some { s with traffic := s.traffic.arrive r }
  | .request (.move who m) => do
      let w ← s.traffic.workers[who]?
      let traffic ← s.traffic.step? (.move who m)
      let clock ← tick? s.clock (w.deed m)
      return ⟨traffic, attend s.publishing (w.deed m), clock, s.bequeath traffic⟩
  | .publisher m =>
      if m.isOwn then do
        let publishing ← s.publishing.step? m
        return { s with
          traffic := { s.traffic with zones := publishing.zones }
          publishing := publishing }
      else none

def run : Ensemble → List Event → Option Ensemble
  | s, [] => some s
  | s, e :: rest => do (← s.step? e).run rest

variable {s s' : Ensemble} {who : Nat} {w w' : Worker} {name : String}

structure Precedes (s : Ensemble) (name : String) (time : Instant) : Prop where
  announced : ∀ change ∈ changesOf name s.publishing.announced, change.committedAt < time
  created : ∀ zone, s.traffic.zones.zone? name = some zone → zone.domain.created < time

def Backs (s : Ensemble) (who : Nat) (domain : String) : Tenure → Prop
  | .outside => True
  | .inside reading => s.traffic.locks.isHolder who domain = true
      ∧ ∀ time, reading = some time → time ≤ s.clock ∧ s.Precedes domain time

structure IsTimely (s : Ensemble) (who : Nat) (w : Worker) : Prop where
  program : w.isGone = false →
    ∃ t, Timely w.domain w.program t (fun _ _ => True) ∧ s.Backs who w.domain t
  fallback : ∀ p, w.fallback = some p → Timely w.domain p .outside fun _ _ => True

def IsDated (s : Ensemble) (domain : Domain) : Prop :=
  ∃ old own, changesOf domain.name s.publishing.announced = old ++ s.inherited domain.name ++ own
    ∧ old.length ≤ (s.publishing.notedOf domain.name).length
    ∧ (∀ change ∈ old ++ s.inherited domain.name, change.committedAt < domain.created)
    ∧ (∀ change ∈ own, domain.created < change.committedAt)
    ∧ ∀ time, domain.published = some time →
      ∃ change ∈ s.inherited domain.name ++ own, change.committedAt = time

structure IsOrdered (s : Ensemble) : Prop where
  agrees : s.traffic.zones = s.publishing.zones
  inOrder : ∃ taken due, s.publishing.InOrder taken due
  named : s.traffic.zones.IsNamed
  isSound : s.traffic.locks.IsSound
  passed : ∀ change ∈ s.publishing.announced, change.committedAt ≤ s.clock
  born : ∀ name zone, s.traffic.zones.zone? name = some zone → zone.domain.created ≤ s.clock
  timely : ∀ (who : Nat) (w : Worker), s.traffic.workers[who]? = some w → s.IsTimely who w
  dated : ∀ name zone, s.traffic.zones.zone? name = some zone → s.IsDated zone.domain

theorem Backs.mono {domain : String} {t : Tenure} (h : s.Backs who domain t)
    (hholder : s.traffic.locks.isHolder who domain = true →
      s'.traffic.locks.isHolder who domain = true) (hclock : s.clock ≤ s'.clock)
    (hprecedes : s.traffic.locks.isHolder who domain = true →
      ∀ time, s.Precedes domain time → s'.Precedes domain time) : s'.Backs who domain t := by
  cases t with
  | outside => trivial
  | inside reading =>
      refine ⟨hholder h.1, fun time htime => ?_⟩
      obtain ⟨hle, hpast⟩ := h.2 time htime
      exact ⟨hle.trans hclock, hprecedes h.1 time hpast⟩

theorem IsTimely.mono (h : s.IsTimely who w)
    (hholder : s.traffic.locks.isHolder who w.domain = true →
      s'.traffic.locks.isHolder who w.domain = true) (hclock : s.clock ≤ s'.clock)
    (hprecedes : s.traffic.locks.isHolder who w.domain = true →
      ∀ time, s.Precedes w.domain time → s'.Precedes w.domain time) : s'.IsTimely who w := by
  refine ⟨fun hgone => ?_, h.fallback⟩
  obtain ⟨t, htimely, hbacks⟩ := h.program hgone
  exact ⟨t, htimely, hbacks.mono hholder hclock hprecedes⟩

theorem IsTimely.next (h : s.IsTimely who w) (hgone : w.isGone = false) {a : Act}
    {next : a.Answer → EngineProgram (Except Error Reply)} (hprogram : w.program = .act a next) :
    ∃ t : Tenure, t.Allows w.domain a ∧ s.Backs who w.domain t
      ∧ ∀ answer, a.IsNamed answer →
        Timely w.domain (next answer) (t.after a answer) fun _ _ => True := by
  obtain ⟨t, htimely, hbacks⟩ := h.program hgone
  rw [hprogram] at htimely
  exact ⟨t, htimely.1, hbacks, htimely.2⟩

theorem bequeath_of_same {traffic : Traffic} (h : traffic.creations = s.traffic.creations) :
    s.bequeath traffic = s.inherited := by
  funext name
  rw [bequeath, h, List.drop_length]
  rfl

namespace IsOrdered

theorem arrive (h : s.IsOrdered) (r : Request) :
    ({ s with traffic := s.traffic.arrive r } : Ensemble).IsOrdered := by
  refine ⟨h.agrees, h.inOrder, h.named, h.isSound, h.passed, h.born, fun i u hu => ?_, h.dated⟩
  rcases Traffic.arrive_cases hu with hu | ⟨-, rfl⟩
  · exact (h.timely i u hu).mono id le_rfl fun _ _ hpast => ⟨hpast.announced, hpast.created⟩
  · refine ⟨fun _ => ⟨.outside, ?_, trivial⟩, by rintro _ ⟨⟩⟩
    exact (Request.steady_run s.traffic.settings r).mono fun _ _ _ => trivial

theorem of_quiet (h : s.IsOrdered) {traffic : Traffic}
    (hworkers : traffic.workers = s.traffic.workers.set who w')
    (hzones : traffic.zones = s.traffic.zones) (hsound : traffic.locks.IsSound)
    (hothers : ∀ other name, other ≠ who → s.traffic.locks.isHolder other name = true →
      traffic.locks.isHolder other name = true)
    (hown : ({ s with traffic := traffic } : Ensemble).IsTimely who w') :
    ({ s with traffic := traffic } : Ensemble).IsOrdered := by
  refine ⟨hzones ▸ h.agrees, h.inOrder, hzones ▸ h.named, hsound, h.passed, hzones ▸ h.born, ?_,
    hzones ▸ h.dated⟩
  intro i u hu
  rcases Traffic.set_cases hworkers hu with ⟨rfl, rfl⟩ | ⟨hne, hu⟩
  · exact hown
  · refine (h.timely i u hu).mono (hothers i _ hne) le_rfl fun _ time hpast => ?_
    exact ⟨hpast.announced, hzones ▸ hpast.created⟩

theorem domain_of_call {zones : Zones} {c : StoreCall} (hown : Publishing.isOwn c = false)
    (o : Outcome) {zone : Zone} (hzone : (o.call c zones).2.zone? name = some zone) :
    (c = .createDomain zone.domain ∧ zone.domain.name = name
        ∧ Traffic.created c (o.call c zones).1 = [zone.domain])
      ∨ ∃ old, zones.zone? name = some old ∧ zone.domain = old.domain
        ∧ ∀ new ∈ Traffic.created c (o.call c zones).1, new.name ≠ name := by
  cases o with
  | failed e =>
      refine Or.inr ⟨zone, hzone, rfl, ?_⟩
      cases c <;> exact fun _ hnew => by cases hnew
  | carriedOut now =>
      rcases Zones.exists_domain_of_call zones now c hzone with
        ⟨hc, rfl, hnone⟩ | ⟨old, hold, hsame⟩
      · refine Or.inl ⟨hc, rfl, ?_⟩
        rw [hc, Outcome.call, Zones.call_createDomain_of_none hnone]
        rfl
      · refine Or.inr ⟨old, hold, ?_, fun new hnew => ?_⟩
        · rcases hsame with hsame | ⟨time, rfl, -⟩
          · exact hsame
          · cases hown
        · cases c with
          | createDomain domain =>
              rintro rfl
              obtain rfl : new = domain := by
                generalize (Outcome.call (.carriedOut now) (.createDomain domain) zones).1
                  = answer at hnew
                cases answer with
                | error e => cases hnew
                | ok done => exact List.mem_singleton.1 hnew
              rw [Outcome.call, Zones.call_createDomain_of_some hold] at hnew
              cases hnew
          | _ => cases hnew

theorem call (h : s.IsOrdered) (hw : s.traffic.workers[who]? = some w) (hgone : w.isGone = false)
    {c : StoreCall} {next : c.Answer → EngineProgram (Except Error Reply)} {o : Outcome}
    (hprogram : w.program = .act (.call c) next) :
    (⟨s.traffic.afterCall who w c next o, s.publishing.afterElsewhere c o, s.clock,
      s.bequeath (s.traffic.afterCall who w c next o)⟩ : Ensemble).IsOrdered := by
  obtain ⟨t, hallows, hbacks, hnext⟩ := (h.timely who w hw).next hgone hprogram
  obtain ⟨taken, due, hinOrder⟩ := h.inOrder
  have hisOwn : Publishing.isOwn c = false := by
    cases c with
    | markPublished => exact hallows.elim
    | _ => rfl
  -- A domain is created by who has its lock, at a time that comes after all before.
  have hcreates {domain : Domain} (hc : c = .createDomain domain) : domain.name = w.domain
      ∧ domain.published = none ∧ s.traffic.locks.isHolder who w.domain = true
      ∧ domain.created ≤ s.clock ∧ s.Precedes w.domain domain.created := by
    subst hc
    obtain ⟨hname, -, hunpublished, rfl⟩ := hallows
    exact ⟨hname, hunpublished, hbacks.1, hbacks.2 _ rfl⟩
  have hbequeath (name : String) : s.bequeath (s.traffic.afterCall who w c next o) name
      = if (Traffic.created c (o.call c s.traffic.zones).1).any (·.name == name) then
          s.publishing.underway name
        else s.inherited name := by
    rw [bequeath]
    simp [Traffic.afterCall, Traffic.advance, Traffic.keep]
  let s' : Ensemble := ⟨s.traffic.afterCall who w c next o, s.publishing.afterElsewhere c o,
    s.clock, s.bequeath (s.traffic.afterCall who w c next o)⟩
  have hprecedes {name : String} (hother : ∀ domain, c = .createDomain domain → domain.name ≠ name)
      (time : Instant) (hpast : s.Precedes name time) : s'.Precedes name time := by
    refine ⟨hpast.announced, fun zone hzone => ?_⟩
    rcases domain_of_call hisOwn o hzone with ⟨hc, rfl, -⟩ | ⟨old, hold, hsame, -⟩
    · exact absurd rfl (hother _ hc)
    · exact hsame ▸ hpast.created old hold
  have hafter (answer : c.Answer) : s'.Backs who w.domain (t.after (.call c) answer) := by
    by_cases hnew : ∃ domain, c = .createDomain domain
    · obtain ⟨domain, rfl⟩ := hnew
      obtain ⟨-, -, -, rfl⟩ := hallows
      exact ⟨hbacks.1, by rintro _ ⟨⟩⟩
    · have hsame : t.after (.call c) answer = t := by
        cases c with
        | createDomain domain => exact absurd ⟨domain, rfl⟩ hnew
        | _ => rfl
      rw [hsame]
      exact hbacks.mono id le_rfl fun _ =>
        hprecedes fun domain hc => absurd ⟨domain, hc⟩ hnew
  refine ⟨?_, ⟨taken, due, hinOrder.elsewhere hisOwn o⟩, ?_, h.isSound, h.passed, ?_, ?_, ?_⟩
  · change (o.call c s.traffic.zones).2 = (o.call c s.publishing.zones).2
    rw [h.agrees]
  · cases o with
    | failed e => exact h.named
    | carriedOut now => exact h.named.call c now
  · intro name zone hzone
    rcases domain_of_call hisOwn o hzone with ⟨hc, rfl, -⟩ | ⟨old, hold, hsame, -⟩
    · exact (hcreates hc).2.2.2.1
    · exact hsame ▸ h.born name old hold
  · intro i u hu
    rcases Traffic.set_cases (s := s.traffic) rfl hu with ⟨rfl, rfl⟩ | ⟨hne, hu⟩
    · exact ⟨fun _ => ⟨_, hnext _ (h.named.isNamed_of_tells (Traffic.Outcome.tells o c _)),
        hafter _⟩, (h.timely i w hw).fallback⟩
    · refine (h.timely i u hu).mono id le_rfl fun hholder => hprecedes ?_
      rintro domain hc hname
      obtain ⟨hown, -, hholder', -⟩ := hcreates hc
      rw [hname] at hown
      exact hne (h.isSound.holder_unique hholder (hown ▸ hholder'))
  · intro name zone hzone
    rcases domain_of_call hisOwn o hzone with ⟨hc, rfl, hcreated⟩ | ⟨old, hold, hsame, hnone⟩
    · obtain ⟨hname, hunpublished, -, -, hpast⟩ := hcreates hc
      have hinherited : s'.inherited zone.domain.name
          = s.publishing.underway zone.domain.name := by
        change s.bequeath _ _ = _
        rw [hbequeath, hcreated]
        simp
      have hall := hinOrder.notedOf_append_underway zone.domain.name
      rw [IsDated, hinherited]
      refine ⟨s.publishing.notedOf zone.domain.name, [], ?_, le_rfl, ?_, by rintro _ ⟨⟩, ?_⟩
      · rw [List.append_nil, hall]
        rfl
      · intro change hchange
        rw [hall, hname] at hchange
        exact hpast.announced change hchange
      · rw [hunpublished]
        rintro _ ⟨⟩
    · have hinherited : s'.inherited old.domain.name = s.inherited old.domain.name := by
        change s.bequeath _ _ = _
        rw [hbequeath, if_neg]
        rw [List.any_eq_true]
        rintro ⟨new, hnew, hname⟩
        exact hnone new hnew ((beq_iff_eq.1 hname).trans (h.named name old hold))
      rw [hsame, IsDated, hinherited]
      exact h.dated name old hold

theorem readClock (h : s.IsOrdered) (hw : s.traffic.workers[who]? = some w)
    (hgone : w.isGone = false) {next : Instant → EngineProgram (Except Error Reply)} {now : Instant}
    (hprogram : w.program = .act .readClock next) (hlater : s.clock < now) :
    (⟨s.traffic.advance who w (next now) (w.standing.record (.carriedOut now)), s.publishing, now,
      s.inherited⟩ : Ensemble).IsOrdered := by
  obtain ⟨t, -, hbacks, hnext⟩ := (h.timely who w hw).next hgone hprogram
  refine ⟨h.agrees, h.inOrder, h.named, h.isSound, fun change hchange => ?_,
    fun name zone hzone => ?_, fun i u hu => ?_, h.dated⟩
  · exact (h.passed change hchange).trans hlater.le
  · exact (h.born name zone hzone).trans hlater.le
  · rcases Traffic.set_cases (s := s.traffic) rfl hu with ⟨rfl, rfl⟩ | ⟨hne, hu⟩
    · refine ⟨fun _ => ⟨_, hnext now trivial, ?_⟩, (h.timely i w hw).fallback⟩
      cases t with
      | outside => trivial
      | inside reading =>
          refine ⟨hbacks.1, ?_⟩
          rintro _ ⟨⟩
          refine ⟨le_rfl, fun change hchange => ?_, fun zone hzone => ?_⟩
          · exact (h.passed change (List.mem_filter.1 hchange).1).trans_lt hlater
          · exact (h.born _ zone hzone).trans_lt hlater
    · exact (h.timely i u hu).mono id hlater.le fun _ _ hpast => ⟨hpast.announced, hpast.created⟩

theorem announce (h : s.IsOrdered) (hw : s.traffic.workers[who]? = some w)
    (hgone : w.isGone = false) {change : ZoneChange}
    {next : Unit → EngineProgram (Except Error Reply)}
    (hprogram : w.program = .act (.announce change) next) :
    (⟨s.traffic.afterAnnouncing who w change (next ()), s.publishing.announce change, s.clock,
      s.inherited⟩ : Ensemble).IsOrdered := by
  obtain ⟨t, ⟨hdomain, rfl⟩, ⟨hholder, hreading⟩, hnext⟩ := (h.timely who w hw).next hgone hprogram
  obtain ⟨hclock, hpast⟩ := hreading _ rfl
  obtain ⟨taken, due, hinOrder⟩ := h.inOrder
  obtain ⟨more, hmore, hsame⟩ : ∃ more, (∀ x ∈ more, x = change)
      ∧ s.publishing.announce change = { s.publishing with
          feed := s.publishing.feed ++ more
          announced := s.publishing.announced ++ more } := by
    unfold Publishing.announce
    split
    · exact ⟨[change], by simp, rfl⟩
    · exact ⟨[], by simp, by simp⟩
  have hinOrder' := hinOrder.announce change
  rw [hsame] at hinOrder' ⊢
  refine ⟨h.agrees, ⟨taken, due, hinOrder'⟩, h.named, h.isSound, fun x hx => ?_, h.born,
    fun i u hu => ?_, fun name zone hzone => ?_⟩
  · rcases List.mem_append.1 hx with hx | hx
    · exact h.passed x hx
    · exact hmore x hx ▸ hclock
  · rcases Traffic.set_cases (s := s.traffic) rfl hu with ⟨rfl, rfl⟩ | ⟨hne, hu⟩
    · exact ⟨fun _ => ⟨_, hnext () trivial, hholder, by rintro _ ⟨⟩⟩, (h.timely i w hw).fallback⟩
    · refine (h.timely i u hu).mono id le_rfl fun hholder' time hpast' =>
        ⟨fun x hx => ?_, hpast'.created⟩
      rw [changesOf_append, List.mem_append] at hx
      rcases hx with hx | hx
      · exact hpast'.announced x hx
      · obtain ⟨hx, hname⟩ := List.mem_filter.1 hx
        obtain rfl := hmore x hx
        have hsameDomain : w.domain = u.domain := hdomain.symm.trans (beq_iff_eq.1 hname)
        exact absurd (h.isSound.holder_unique hholder' (hsameDomain ▸ hholder)) hne
  · obtain ⟨old, own, hall, hle, hbefore, hafter, hpublished⟩ := h.dated name zone hzone
    refine ⟨old, own ++ changesOf zone.domain.name more, ?_, hle, hbefore, fun x hx => ?_,
      fun time htime => ?_⟩
    · rw [changesOf_append, hall, List.append_assoc]
    · rcases List.mem_append.1 hx with hx | hx
      · exact hafter x hx
      · obtain ⟨hx, hname⟩ := List.mem_filter.1 hx
        obtain rfl := hmore x hx
        have hnamed : name = w.domain :=
          (h.named name zone hzone).symm.trans ((beq_iff_eq.1 hname).symm.trans hdomain)
        exact hpast.created zone (hnamed ▸ hzone)
    · obtain ⟨x, hx, htime⟩ := hpublished time htime
      exact ⟨x, by rw [← List.append_assoc]; exact List.mem_append_left _ hx, htime⟩

theorem domain_of_published (h : s.IsOrdered) {publishing : Publishing}
    (hmoved : s.publishing.Moved publishing) {zone : Zone}
    (hzone : publishing.zones.zone? name = some zone) :
    ∃ old, s.traffic.zones.zone? name = some old ∧ (zone.domain = old.domain
      ∨ ∃ change taken, s.publishing.InOrder taken (some change) ∧ change.domain = name
        ∧ zone.domain = { old.domain with published := some change.committedAt }) := by
  rw [h.agrees]
  obtain ⟨taken, due, hinOrder⟩ := h.inOrder
  cases hmoved with
  | react | push | wait => exact ⟨zone, hzone, Or.inl rfl⟩
  | @call c next hprogram o =>
      have hdelivers := hinOrder.delivers
      rw [hprogram] at hdelivers
      have hc := hdelivers.1
      cases o with
      | failed e => exact ⟨zone, hzone, Or.inl rfl⟩
      | carriedOut now =>
          rcases Zones.exists_domain_of_call s.publishing.zones now c hzone with
            ⟨rfl, -⟩ | ⟨old, hold, hsame | ⟨time, rfl, hsame⟩⟩
          · cases due <;> cases hc
          · exact ⟨old, hold, Or.inl hsame⟩
          · cases due with
            | none => cases hc
            | some change =>
                obtain ⟨rfl, rfl⟩ := StoreCall.markPublished.inj hc
                exact ⟨old, hold, Or.inr ⟨change, taken, hinOrder, rfl, hsame⟩⟩

theorem mem_of_append_eq {α : Type} {a b c d : List α} {x : α} (h : a ++ x :: b = c ++ d)
    (hle : c.length ≤ a.length) : x ∈ d := by
  have hd : d = (a ++ x :: b).drop c.length := by rw [h, List.drop_left]
  rw [hd, List.drop_append_of_le_length hle]
  exact List.mem_append_right _ List.mem_cons_self

theorem publish (h : s.IsOrdered) {publishing : Publishing}
    (hmoved : s.publishing.Moved publishing) :
    ({ s with
      traffic := { s.traffic with zones := publishing.zones }
      publishing := publishing } : Ensemble).IsOrdered := by
  obtain ⟨taken, due, hinOrder⟩ := h.inOrder
  have hannounced : publishing.announced = s.publishing.announced := by cases hmoved <;> rfl
  refine ⟨rfl, hinOrder.moved hmoved, ?_, h.isSound, hannounced ▸ h.passed,
    fun name zone hzone => ?_, fun i u hu => ?_, fun name zone hzone => ?_⟩
  · intro name zone hzone
    obtain ⟨old, hold, hsame | ⟨change, _, -, -, hsame⟩⟩ := h.domain_of_published hmoved hzone
    all_goals exact hsame ▸ h.named name old hold
  · obtain ⟨old, hold, hsame | ⟨change, _, -, -, hsame⟩⟩ := h.domain_of_published hmoved hzone
    all_goals exact hsame ▸ h.born name old hold
  · refine (h.timely i u hu).mono id le_rfl fun _ time hpast =>
      ⟨hannounced ▸ hpast.announced, fun zone hzone => ?_⟩
    obtain ⟨old, hold, hsame | ⟨change, _, -, -, hsame⟩⟩ := h.domain_of_published hmoved hzone
    all_goals exact hsame ▸ hpast.created old hold
  · obtain ⟨old, hold, hsame⟩ := h.domain_of_published hmoved hzone
    obtain ⟨before, own, hall, hle, hbefore, hafter, hpublished⟩ := h.dated name old hold
    have hnoted := hinOrder.notedOf_le hmoved old.domain.name
    rcases hsame with hsame | ⟨change, taken, hdue, rfl, hsame⟩
    · rw [hsame]
      exact ⟨before, own, hannounced ▸ hall, hle.trans hnoted, hbefore, hafter, hpublished⟩
    · have hname := h.named _ old hold
      rw [hsame]
      refine ⟨before, own, hannounced ▸ hall, hle.trans hnoted, hbefore, hafter, ?_⟩
      rintro _ ⟨⟩
      refine ⟨change, ?_, rfl⟩
      obtain ⟨rest, hrest⟩ := hdue.notedOf_append_due
      rw [hname] at hall hle ⊢
      refine mem_of_append_eq (a := s.publishing.notedOf change.domain) (b := rest) ?_ hle
      rw [← List.append_assoc, ← hall, ← hrest]
      simp

theorem goes_on (h : s.IsOrdered) (hw : s.traffic.workers[who]? = some w)
    (hgone : w.isGone = false) {a : Act} {next : a.Answer → EngineProgram (Except Error Reply)}
    (hprogram : w.program = .act a next) (answer : a.Answer) (hnamed : a.IsNamed answer)
    (hafter : ∀ t : Tenure, t.after a answer = t) {traffic : Traffic}
    (hworkers : traffic.workers = s.traffic.workers.set who w')
    (hzones : traffic.zones = s.traffic.zones) (hlocks : traffic.locks = s.traffic.locks)
    (hdomain : w'.domain = w.domain) (hnext : w'.program = next answer)
    (hfallback : ∀ p, w'.fallback = some p → w.fallback = some p) :
    ({ s with traffic := traffic } : Ensemble).IsOrdered := by
  obtain ⟨t, -, hbacks, htimely⟩ := (h.timely who w hw).next hgone hprogram
  refine h.of_quiet hworkers hzones (hlocks ▸ h.isSound) (fun _ _ _ hholder => hlocks ▸ hholder)
    ⟨fun _ => ⟨t, ?_, ?_⟩, fun p hp => ?_⟩
  · rw [hdomain, hnext, ← hafter t]
    exact htimely answer hnamed
  · rw [hdomain]
    exact hbacks.mono (fun hholder => hlocks ▸ hholder) le_rfl
      fun _ _ hpast => ⟨hpast.announced, hzones ▸ hpast.created⟩
  · rw [hdomain]
    exact (h.timely who w hw).fallback p (hfallback p hp)

theorem of_bequeath {traffic : Traffic} {publishing : Publishing} {clock : Instant}
    (hcreations : traffic.creations = s.traffic.creations)
    (hordered : (⟨traffic, publishing, clock, s.inherited⟩ : Ensemble).IsOrdered) :
    (⟨traffic, publishing, clock, s.bequeath traffic⟩ : Ensemble).IsOrdered := by
  rw [bequeath_of_same hcreations]
  exact hordered

theorem of_other {m : Move} {traffic : Traffic} {clock : Instant} (hdeed : w.deed m = .other)
    (htick : tick? s.clock (w.deed m) = some clock)
    (hcreations : traffic.creations = s.traffic.creations)
    (hordered : ({ s with traffic := traffic } : Ensemble).IsOrdered) :
    (⟨traffic, attend s.publishing (w.deed m), clock, s.bequeath traffic⟩ : Ensemble).IsOrdered := by
  rw [hdeed] at htick ⊢
  obtain rfl := Option.some.inj htick
  exact of_bequeath hcreations hordered

theorem proceed (h : s.IsOrdered) (hw : s.traffic.workers[who]? = some w)
    (hgone : w.isGone = false) {now clock : Instant} {traffic : Traffic}
    (hmove : s.traffic.proceed? who w now = some traffic)
    (htick : tick? s.clock (w.deed (.proceed now)) = some clock) :
    (⟨traffic, attend s.publishing (w.deed (.proceed now)), clock, s.bequeath traffic⟩
      : Ensemble).IsOrdered := by
  have hown := h.timely who w hw
  unfold Traffic.proceed? at hmove
  split at hmove
  · cases hmove
  · cases hmove
  · next next hprogram =>
      have hdeed : w.deed (.proceed now) = .reading now := by rw [Worker.deed, hprogram]
      obtain rfl := Option.some.inj hmove
      rw [hdeed] at htick ⊢
      replace htick : (if s.clock < now then some now else none) = some clock := htick
      split at htick
      · next hlater =>
          obtain rfl := Option.some.inj htick
          exact of_bequeath rfl (h.readClock hw hgone hprogram hlater)
      · cases htick
  · next domain next hprogram =>
      split at hmove
      · next hlock =>
          obtain rfl := Option.some.inj hmove
          obtain ⟨t, ⟨rfl, rfl⟩, -, hnext⟩ := hown.next hgone hprogram
          refine of_other (by rw [Worker.deed, hprogram]) htick rfl ?_
          exact h.of_quiet rfl rfl h.isSound (fun _ _ _ hholder => hholder)
            ⟨fun _ => ⟨_, hnext () trivial, hlock, by rintro _ ⟨⟩⟩, hown.fallback⟩
      · cases hmove
  · next domain next hprogram =>
      obtain rfl := Option.some.inj hmove
      obtain ⟨t, -, -, hnext⟩ := hown.next hgone hprogram
      obtain ⟨locks, hback, hsound, hothers⟩ := s.traffic.giveBack_eq who domain
      rw [hback]
      refine of_other (by rw [Worker.deed, hprogram]) htick rfl ?_
      exact h.of_quiet rfl rfl (hsound h.isSound) hothers
        ⟨fun _ => ⟨_, hnext () trivial, trivial⟩, hown.fallback⟩
  · next milliseconds next hprogram =>
      obtain rfl := Option.some.inj hmove
      exact of_other (by rw [Worker.deed, hprogram]) htick rfl (h.goes_on hw hgone hprogram ()
        trivial (fun _ => rfl) rfl rfl rfl rfl rfl fun _ hp => hp)
  · next milliseconds next hprogram =>
      obtain rfl := Option.some.inj hmove
      obtain ⟨t, rfl, -, hnext⟩ := hown.next hgone hprogram
      refine of_other (by rw [Worker.deed, hprogram]) htick rfl ?_
      refine h.of_quiet rfl rfl h.isSound (fun _ _ _ hholder => hholder)
        ⟨fun _ => ⟨_, hnext false trivial, trivial⟩, ?_⟩
      rintro _ ⟨⟩
      exact hnext true trivial
  · next next hprogram =>
      obtain rfl := Option.some.inj hmove
      exact of_other (by rw [Worker.deed, hprogram]) htick rfl (h.goes_on hw hgone hprogram ()
        trivial (fun _ => rfl) rfl rfl rfl rfl rfl (by rintro _ ⟨⟩))
  · next next hprogram =>
      obtain rfl := Option.some.inj hmove
      exact of_other (by rw [Worker.deed, hprogram]) htick rfl (h.goes_on hw hgone hprogram ()
        trivial (fun _ => rfl) rfl rfl rfl rfl rfl fun _ hp => hp)
  · next next hprogram =>
      obtain rfl := Option.some.inj hmove
      exact of_other (by rw [Worker.deed, hprogram]) htick rfl (h.goes_on hw hgone hprogram ()
        trivial (fun _ => rfl) rfl rfl rfl rfl rfl fun _ hp => hp)
  · next change next hprogram =>
      have hdeed : w.deed (.proceed now) = .announcement change := by rw [Worker.deed, hprogram]
      obtain rfl := Option.some.inj hmove
      rw [hdeed] at htick ⊢
      obtain rfl := Option.some.inj htick
      exact of_bequeath rfl (h.announce hw hgone hprogram)
  · cases hmove

theorem move (h : s.IsOrdered) (hw : s.traffic.workers[who]? = some w)
    (hgone : w.isGone = false) {m : Move} {clock : Instant} {traffic : Traffic}
    (hmove : s.traffic.move? who w m = some traffic)
    (htick : tick? s.clock (w.deed m) = some clock) :
    (⟨traffic, attend s.publishing (w.deed m), clock, s.bequeath traffic⟩ : Ensemble).IsOrdered := by
  have hown := h.timely who w hw
  have hsame : s.traffic.workers.set who w = s.traffic.workers := by
    obtain ⟨hlt, rfl⟩ := List.getElem?_eq_some_iff.1 hw
    exact List.set_getElem_self hlt
  cases m with
  | call o =>
      simp only [Traffic.move?] at hmove
      split at hmove
      · next c next hprogram =>
          split at hmove
          · have hdeed : w.deed (.call o) = .call c o := by rw [Worker.deed, hprogram]
            obtain rfl := Option.some.inj hmove
            rw [hdeed] at htick ⊢
            obtain rfl := Option.some.inj htick
            exact h.call hw hgone hprogram
          · cases hmove
      · cases hmove
  | proceed now => exact h.proceed hw hgone hmove htick
  | refer =>
      simp only [Traffic.move?, Traffic.refer?] at hmove
      split at hmove
      · next domain next hprogram =>
          split at hmove
          · cases hmove
          · obtain rfl := Option.some.inj hmove
            have hkept {other : Nat} {name : String}
                (hholder : s.traffic.locks.isHolder other name = true) :
                (s.traffic.locks.refer who domain).isHolder other name = true :=
              Locks.isHolder_refer hholder who domain
            exact of_other rfl htick rfl (h.of_quiet hsame.symm rfl (h.isSound.refer who domain)
              (fun _ _ _ => hkept) (hown.mono hkept le_rfl fun _ _ hpast =>
                ⟨hpast.announced, hpast.created⟩))
      · cases hmove
  | join =>
      simp only [Traffic.move?, Traffic.join?] at hmove
      split at hmove
      · split at hmove
        · next ref href =>
            split at hmove
            · cases hmove
            · obtain rfl := Option.some.inj hmove
              have hkept {other : Nat} {name : String}
                  (hholder : s.traffic.locks.isHolder other name = true) :
                  (s.traffic.locks.join ref).isHolder other name = true :=
                Locks.isHolder_join hholder ref
              exact of_other rfl htick rfl (h.of_quiet hsame.symm rfl (h.isSound.join ref)
                (fun _ _ _ => hkept) (hown.mono hkept le_rfl fun _ _ hpast =>
                  ⟨hpast.announced, hpast.created⟩))
        · cases hmove
      · cases hmove
  | timeUp =>
      simp only [Traffic.move?, Traffic.timeUp?] at hmove
      split at hmove
      · next rest hfallback =>
          split at hmove
          · obtain rfl := Option.some.inj hmove
            exact of_other rfl htick rfl (h.of_quiet rfl rfl h.isSound
              (fun _ _ _ hholder => hholder)
              ⟨fun _ => ⟨.outside, hown.fallback rest hfallback, trivial⟩, by rintro _ ⟨⟩⟩)
          · cases hmove
      · cases hmove
  | desert =>
      simp only [Traffic.move?, Traffic.desert?] at hmove
      split at hmove
      · obtain rfl := Option.some.inj hmove
        obtain ⟨t, htimely, hbacks⟩ := hown.program hgone
        exact of_other rfl htick rfl (h.of_quiet rfl rfl h.isSound
          (fun _ _ _ hholder => hholder) ⟨fun _ => ⟨t, htimely, hbacks.mono id le_rfl
            fun _ _ hpast => ⟨hpast.announced, hpast.created⟩⟩, hown.fallback⟩)
      · split at hmove
        · obtain rfl := Option.some.inj hmove
          refine of_other rfl htick rfl (h.of_quiet rfl rfl
            (Locks.isSound_foldl_release h.isSound _) (fun other name hother hholder => ?_)
            ⟨fun hlives => absurd hlives (by simp), hown.fallback⟩)
          refine Locks.isHolder_foldl_release hholder fun ref href heq => hother ?_
          have hwho : ref.who = who := by simpa using (List.mem_filter.1 href).2
          exact heq.symm.trans hwho
        · cases hmove

theorem step (h : s.IsOrdered) {e : Event} (hstep : s.step? e = some s') : s'.IsOrdered := by
  cases e with
  | publisher m =>
      simp only [step?] at hstep
      split at hstep
      · next hown =>
          obtain ⟨publishing, hpublishing, hdone⟩ := Option.bind_eq_some_iff.1 hstep
          obtain rfl := Option.some.inj hdone
          exact h.publish (Publishing.moved_of_step? hpublishing hown)
      · cases hstep
  | request e =>
      cases e with
      | arrive r => exact Option.some.inj hstep ▸ h.arrive r
      | move who m =>
          obtain ⟨w, hw, hstep⟩ := Option.bind_eq_some_iff.1 hstep
          obtain ⟨traffic, htraffic, hstep⟩ := Option.bind_eq_some_iff.1 hstep
          obtain ⟨clock, htick, hdone⟩ := Option.bind_eq_some_iff.1 hstep
          obtain rfl := Option.some.inj hdone
          obtain ⟨u, hu, hmove⟩ := Option.bind_eq_some_iff.1 htraffic
          obtain rfl := Option.some.inj (hw.symm.trans hu)
          split at hmove
          · cases hmove
          · next hgone => exact h.move hw (by simpa using hgone) hmove htick

theorem run (h : s.IsOrdered) {events : List Event} (hrun : s.run events = some s') :
    s'.IsOrdered := by
  induction events generalizing s with
  | nil => exact Option.some.inj hrun ▸ h
  | cons e rest ih =>
      obtain ⟨next, hnext, hrest⟩ := Option.bind_eq_some_iff.1 hrun
      exact ih (h.step hnext) hrest

end IsOrdered

theorem isOrdered_start (settings : EngineSettings) (mayFail : StoreCall → Bool)
    (clock : Instant) : (start settings mayFail clock).IsOrdered where
  agrees := rfl
  inOrder := ⟨[], none, Publishing.inOrder_start settings .empty⟩
  named := by rintro name zone ⟨⟩
  isSound := Locks.isSound_empty
  passed := by rintro change ⟨⟩
  born := by rintro name zone ⟨⟩
  timely := by
    intro who w hw
    cases hw
  dated := by rintro name zone ⟨⟩

/-- A stored domain is noted as published before it was created exactly where it is noted with a
change that it inherited from an earlier domain of its name. -/
theorem published_before_created_iff {settings : EngineSettings} {mayFail : StoreCall → Bool}
    {clock : Instant} {events : List Event} {zone : Zone} {time : Instant}
    (h : (start settings mayFail clock).run events = some s)
    (hzone : s.traffic.zones.zone? name = some zone)
    (hpublished : zone.domain.published = some time) :
    time < zone.domain.created ↔ ∃ change ∈ s.inherited name, change.committedAt = time := by
  have hordered := (isOrdered_start settings mayFail clock).run h
  obtain rfl := hordered.named name zone hzone
  obtain ⟨old, own, -, -, hbefore, hafter, hdated⟩ := hordered.dated _ zone hzone
  constructor
  · intro hearly
    obtain ⟨change, hchange, rfl⟩ := hdated time hpublished
    rcases List.mem_append.1 hchange with hinherited | hown
    · exact ⟨change, hinherited, rfl⟩
    · exact absurd hearly (hafter change hown).asymm
  · rintro ⟨change, hchange, rfl⟩
    exact hbefore change (List.mem_append_right _ hchange)

namespace Example

open Traffic.Example

def moves (who : Nat) (moves : List Move) : List Event :=
  moves.map fun m => .request (.move who m)

def asking (r : Request) : Event := .request (.arrive r)

def goOnAt (second : Int) : Move := .proceed ⟨second, 0⟩

def creatingAt (second : Int) : List Move :=
  [.refer, .join, goOn, goOnAt second, answer, goOn]

def deletingAt (second : Int) : List Move :=
  [answer, .refer, .join, goOn, answer, answer, goOnAt second, goOn, goOn]

def writingAt (second : Int) : List Move :=
  [answer, goOn, .refer, .join, goOn, answer, answer, goOn, goOn, answer, goOnAt second, goOn, goOn,
    goOn]

def publishing : List Event :=
  [.publisher .take, .publisher (.push true), .publisher (.call (.carriedOut ⟨0, 0⟩))]

def first : Ensemble := start .default (fun _ => false) ⟨0, 0⟩

def published : List Event :=
  asking (create "alice") :: moves 0 (creatingAt 1) ++ asking createWww :: moves 1 (writingAt 2)
    ++ publishing

def recreated : List Event :=
  asking (create "alice") :: moves 0 (creatingAt 1)
    ++ asking (.deleteDomain ⟨"alice"⟩ "example.com") :: moves 1 (deletingAt 2)
    ++ asking (create "alice") :: moves 2 (creatingAt 3) ++ publishing

end Example

theorem written_domain_is_published_later : ∃ s zone time,
    Example.first.run Example.published = some s
    ∧ s.traffic.zones.zone? "example.com" = some zone ∧ zone.domain.published = some time
    ∧ s.inherited "example.com" = [] ∧ ¬ time < zone.domain.created := by
  have hends : (Example.first.run Example.published).any (fun s =>
      (s.inherited "example.com").isEmpty
      && (s.traffic.zones.zone? "example.com").any (·.domain.published.isSome)) = true := by
    decide +kernel
  obtain ⟨s, hs, h⟩ := (Option.any_eq_true _ _).1 hends
  simp only [Bool.and_eq_true, List.isEmpty_iff, Option.any_eq_true, Option.isSome_iff_exists] at h
  obtain ⟨hinherited, zone, hzone, time, htime⟩ := h
  refine ⟨s, zone, time, hs, hzone, htime, hinherited, fun hearly => ?_⟩
  obtain ⟨change, hchange, -⟩ := (published_before_created_iff hs hzone htime).1 hearly
  rw [hinherited] at hchange
  cases hchange

theorem deletion_is_noted_at_successor : ∃ s zone time,
    Example.first.run Example.recreated = some s
    ∧ s.traffic.zones.zone? "example.com" = some zone ∧ zone.domain.published = some time
    ∧ time < zone.domain.created := by
  have hends : (Example.first.run Example.recreated).any (fun s =>
      (s.traffic.zones.zone? "example.com").any fun zone =>
        zone.domain.published.any (· < zone.domain.created)) = true := by
    decide +kernel
  obtain ⟨s, hs, h⟩ := (Option.any_eq_true _ _).1 hends
  simp only [Option.any_eq_true, decide_eq_true_eq] at h
  obtain ⟨zone, hzone, time, htime, hearly⟩ := h
  exact ⟨s, zone, time, hs, hzone, htime, hearly⟩

end Ensemble

end ZoneKeeper
