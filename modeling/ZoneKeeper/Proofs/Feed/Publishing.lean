import Mathlib.Data.List.Induction
import Mathlib.Data.List.Nodup
import ZoneKeeper.Proofs.Feed.Publisher
import ZoneKeeper.Proofs.Traffic.Basic

namespace ZoneKeeper

namespace Publisher

inductive Rest where
  | waiting (backlog : Backlog)
  | stopped (backlog : Backlog) (result : Except Error Unit)

namespace Rest

def backlog : Rest → Backlog
  | .waiting backlog => backlog
  | .stopped backlog _ => backlog

def isStopped : Rest → Bool
  | .waiting _ => false
  | .stopped .. => true

end Rest

def hasStopped : EngineProgram Rest → Bool
  | .done rest => rest.isStopped
  | .act .. => false

theorem hasStopped_iff {program : EngineProgram Rest} :
    hasStopped program = true ↔ ∃ backlog result, program = .done (.stopped backlog result) := by
  cases program with
  | done rest => cases rest <;> simp [hasStopped, Rest.isStopped]
  | act a next => simp [hasStopped]

def reaction (settings : EngineSettings) (backlog : Backlog) : Event → EngineProgram Rest
  | .ending rest => do
      let backlog ← react settings backlog (.ending rest)
      return .stopped backlog (← stop.run)
  | event => do return .waiting (← react settings backlog event)

def Event.isEnding : Event → Bool
  | .ending _ => true
  | _ => false

theorem delivers_reaction {settings : EngineSettings} {taken backlog : List ZoneChange}
    {event : Event} {v : Progress} (h : v.Owes taken (backlog ++ event.changes)) :
    Delivers taken (reaction settings backlog event) v fun rest v' =>
      v'.Owes taken rest.backlog ∧ (rest.isStopped = true → event.isEnding = true) := by
  have hreact : Delivers taken (react settings backlog event) v fun backlog' v' =>
      v'.Owes taken backlog' := delivers_react h
  cases event with
  | ending rest =>
      refine hreact.bind fun backlog' v' h' => ⟨?_, fun result => ⟨⟨rfl, h'.isInOrder⟩, ?_⟩⟩
      · rw [Progress.IsFor, h'.isSettled]
      · exact fun _ => rfl
  | arrival change => exact hreact.bind fun backlog' v' h' => ⟨h', fun h => by cases h⟩
  | tick => exact hreact.bind fun backlog' v' h' => ⟨h', fun h => by cases h⟩

end Publisher

structure Publishing where
  settings : EngineSettings
  zones : Zones
  feed : List ZoneChange
  feedIsOpen : Bool
  announced : List ZoneChange
  pushes : List Push
  program : EngineProgram Publisher.Rest
  removed : List String
  missed : List String

namespace Publishing

inductive Move where
  | announce (change : ZoneChange)
  | elsewhere (c : StoreCall) (o : Outcome)
  | take
  | tick
  | close
  | push (isAccepted : Bool)
  | call (o : Outcome)
  | wait

def start (settings : EngineSettings) (zones : Zones) : Publishing :=
  ⟨settings, zones, [], true, [], [], .done (.waiting []), [], []⟩

def isOwn : StoreCall → Bool
  | .markPublished .. => true
  | _ => false

def removedBy : StoreCall → List String
  | .deleteDomain name => [name]
  | _ => []

def missedBy (c : StoreCall) (answer : c.Answer) : List String :=
  match c, answer with
  | .markPublished name _, .error _ => [name]
  | _, _ => []

def announce (s : Publishing) (change : ZoneChange) : Publishing :=
  if s.feedIsOpen then
    { s with feed := s.feed ++ [change], announced := s.announced ++ [change] }
  else s

def afterElsewhere (s : Publishing) (c : StoreCall) (o : Outcome) : Publishing :=
  { s with zones := (o.call c s.zones).2, removed := s.removed ++ removedBy c }

def react (s : Publishing) (backlog : Publisher.Backlog) (event : Publisher.Event)
    (feed : List ZoneChange) : Publishing :=
  { s with
    feed := feed
    feedIsOpen := s.feedIsOpen && !event.isEnding
    program := Publisher.reaction s.settings backlog event }

def afterPush (s : Publishing) (change : ZoneChange)
    (next : Bool → EngineProgram Publisher.Rest) (isAccepted : Bool) : Publishing :=
  { s with pushes := s.pushes ++ [⟨isAccepted, change⟩], program := next isAccepted }

def afterCall (s : Publishing) (c : StoreCall)
    (next : c.Answer → EngineProgram Publisher.Rest) (o : Outcome) : Publishing :=
  let (answer, zones) := o.call c s.zones
  { s with zones := zones, program := next answer, missed := s.missed ++ missedBy c answer }

@[simp] theorem zones_afterCall (s : Publishing) (c : StoreCall)
    (next : c.Answer → EngineProgram Publisher.Rest) (o : Outcome) :
    (s.afterCall c next o).zones = (o.call c s.zones).2 := rfl

def step? (s : Publishing) : Move → Option Publishing
  | .announce change => some (s.announce change)
  | .elsewhere c o => if isOwn c then none else some (s.afterElsewhere c o)
  | .take =>
      match s.program, s.feed with
      | .done (.waiting backlog), change :: rest => some (s.react backlog (.arrival change) rest)
      | _, _ => none
  | .tick =>
      match s.program with
      | .done (.waiting backlog) =>
          if backlog.isEmpty then none else some (s.react backlog .tick s.feed)
      | _ => none
  | .close =>
      match s.program with
      | .done (.waiting backlog) => some (s.react backlog (.ending s.feed) [])
      | _ => none
  | .push isAccepted =>
      match s.program with
      | .act (.push change) next => some (s.afterPush change next isAccepted)
      | _ => none
  | .call o =>
      match s.program with
      | .act (.call c) next => some (s.afterCall c next o)
      | _ => none
  | .wait =>
      match s.program with
      | .act (.wait _) next => some { s with program := next () }
      | _ => none

def Move.isOwn : Move → Bool
  | .announce _ => false
  | .elsewhere .. => false
  | _ => true

inductive Moved (s : Publishing) : Publishing → Prop where
  | react {backlog : Publisher.Backlog} {event : Publisher.Event} {feed : List ZoneChange}
      (hprogram : s.program = .done (.waiting backlog)) (hfeed : s.feed = event.changes ++ feed)
      (hending : event.isEnding = true → feed = []) : Moved s (s.react backlog event feed)
  | push {change : ZoneChange} {next : Bool → EngineProgram Publisher.Rest}
      (hprogram : s.program = .act (.push change) next) (isAccepted : Bool) :
      Moved s (s.afterPush change next isAccepted)
  | call {c : StoreCall} {next : c.Answer → EngineProgram Publisher.Rest}
      (hprogram : s.program = .act (.call c) next) (o : Outcome) : Moved s (s.afterCall c next o)
  | wait {milliseconds : Nat} {next : Unit → EngineProgram Publisher.Rest}
      (hprogram : s.program = .act (.wait milliseconds) next) :
      Moved s { s with program := next () }

theorem moved_of_step? {s s' : Publishing} {m : Move} (h : s.step? m = some s')
    (hown : m.isOwn = true) : s.Moved s' := by
  cases m with
  | announce | elsewhere => cases hown
  | take =>
      simp only [step?] at h
      split at h
      · next hprogram hfeed =>
          exact Option.some.inj h ▸ .react hprogram hfeed fun hend => by cases hend
      · cases h
  | tick =>
      simp only [step?] at h
      split at h
      · next hprogram =>
          split at h
          · cases h
          · exact Option.some.inj h ▸ .react hprogram rfl fun hend => by cases hend
      · cases h
  | close =>
      simp only [step?] at h
      split at h
      · next hprogram =>
          exact Option.some.inj h ▸ .react hprogram (List.append_nil _).symm fun _ => rfl
      · cases h
  | push isAccepted =>
      simp only [step?] at h
      split at h
      · next hprogram => exact Option.some.inj h ▸ .push hprogram isAccepted
      · cases h
  | call o =>
      simp only [step?] at h
      split at h
      · next hprogram => exact Option.some.inj h ▸ .call hprogram o
      · cases h
  | wait =>
      simp only [step?] at h
      split at h
      · next hprogram => exact Option.some.inj h ▸ .wait hprogram
      · cases h

def run : Publishing → List Move → Option Publishing
  | s, [] => some s
  | s, m :: rest => do (← s.step? m).run rest

def acceptedOf (s : Publishing) (domain : String) : List ZoneChange :=
  changesOf domain (accepted s.pushes)

theorem acceptedOf_afterPush (s : Publishing) (change : ZoneChange)
    (next : Bool → EngineProgram Publisher.Rest) (isAccepted : Bool) (domain : String) :
    (s.afterPush change next isAccepted).acceptedOf domain
      = s.acceptedOf domain ++ if isAccepted && change.domain = domain then [change] else [] := by
  cases isAccepted <;> simp [acceptedOf, afterPush, accepted_append, accepted_singleton]

structure InOrder (s : Publishing) (taken : List ZoneChange) (due : Option ZoneChange) : Prop where
  announced : s.announced = taken ++ s.feed
  delivers : Delivers taken s.program ⟨s.pushes, due⟩ fun rest v =>
    v.Owes taken rest.backlog ∧ (rest.isStopped = true → s.feedIsOpen = false)
  closed : s.feedIsOpen = false → s.feed = []
  offered : ∀ before p after, s.pushes = before ++ p :: after →
    changesOf p.change.domain (accepted before) ++ [p.change]
      <+: changesOf p.change.domain s.announced
  isLast : ∀ change ∈ due, (s.acceptedOf change.domain).getLast? = some change
  published : ∀ domain, domain ∉ s.removed → domain ∉ s.missed →
    (∀ change ∈ due, change.domain ≠ domain) →
    ∀ change, (s.acceptedOf domain).getLast? = some change →
      (s.zones.domain? domain).bind (·.published) = some change.committedAt

theorem inOrder_start (settings : EngineSettings) (zones : Zones) :
    (start settings zones).InOrder [] none where
  announced := rfl
  delivers := ⟨⟨rfl, fun _ => rfl⟩, fun h => by cases h⟩
  closed := fun _ => rfl
  offered := by
    intro before p after h
    simp [start] at h
  isLast := fun _ h => by cases h
  published := fun _ _ _ _ _ h => by cases h

namespace InOrder

variable {s : Publishing} {taken : List ZoneChange} {due : Option ZoneChange}

theorem announce (h : s.InOrder taken due) (change : ZoneChange) :
    (s.announce change).InOrder taken due := by
  unfold Publishing.announce
  split
  · next hopen =>
      exact {
        announced := by simp [h.announced]
        delivers := h.delivers
        closed := fun hclosed => by
          rw [hopen] at hclosed
          cases hclosed
        offered := by
          intro before p after hp
          refine (h.offered before p after hp).trans ?_
          rw [changesOf_append]
          exact List.prefix_append _ _
        isLast := h.isLast
        published := h.published }
  · exact h

theorem domain?_elsewhere {c : StoreCall} {o : Outcome} {domain : String} {found : Domain}
    (hown : isOwn c = false) (hremoved : domain ∉ removedBy c)
    (hfound : s.zones.domain? domain = some found) :
    (o.call c s.zones).2.domain? domain = some found := by
  cases o with
  | failed e => exact hfound
  | carriedOut now =>
      rw [Zones.domain?_eq] at hfound ⊢
      by_cases htouches : c.touchesDomains = false
      · exact (Zones.domain_call htouches s.zones now domain).trans hfound
      · cases c with
        | createDomain new =>
            obtain ⟨zone, hzone, -⟩ := Option.map_eq_some_iff.1 hfound
            by_cases hname : domain = new.name
            · subst hname
              rw [Outcome.call, Zones.call_createDomain_of_some hzone]
              exact hfound
            · rw [Outcome.call, Zones.zone?_call_of_ne]
              · exact hfound
              · exact fun heq => hname (Option.some.inj heq).symm
        | deleteDomain name =>
            rw [Outcome.call, Zones.zone?_call_of_ne]
            · exact hfound
            · exact fun heq => hremoved (by simp [removedBy, Option.some.inj heq])
        | markPublished => cases hown
        | _ => exact absurd rfl htouches

theorem elsewhere (h : s.InOrder taken due) {c : StoreCall} (hown : isOwn c = false)
    (o : Outcome) : (s.afterElsewhere c o).InOrder taken due where
  announced := h.announced
  delivers := h.delivers
  closed := h.closed
  offered := h.offered
  isLast := h.isLast
  published := by
    intro domain hremoved hmissed hdue change hlast
    simp only [afterElsewhere, List.mem_append, not_or] at hremoved
    have hbefore := h.published domain hremoved.1 hmissed hdue change hlast
    obtain ⟨found, hfound, hpublished⟩ := Option.bind_eq_some_iff.1 hbefore
    rw [afterElsewhere, domain?_elsewhere hown hremoved.2 hfound]
    exact hpublished

theorem isSettled (h : s.InOrder taken due) {rest : Publisher.Rest}
    (hprogram : s.program = .done rest) :
    due = none ∧ Progress.Owes ⟨s.pushes, none⟩ taken rest.backlog
      ∧ (rest.isStopped = true → s.feedIsOpen = false) := by
  have hrest := h.delivers
  rw [hprogram] at hrest
  obtain ⟨howes, hstopped⟩ := hrest
  obtain rfl : due = none := howes.isSettled
  exact ⟨rfl, howes, hstopped⟩

theorem react (h : s.InOrder taken due) {backlog : Publisher.Backlog} {event : Publisher.Event}
    {feed : List ZoneChange} (hprogram : s.program = .done (.waiting backlog))
    (hfeed : s.feed = event.changes ++ feed) (hending : event.isEnding = true → feed = []) :
    (s.react backlog event feed).InOrder (taken ++ event.changes) none := by
  obtain ⟨rfl, howes, -⟩ := h.isSettled hprogram
  exact {
    announced := by simp [Publishing.react, h.announced, hfeed]
    delivers := by
      have howes' : Progress.Owes ⟨s.pushes, none⟩ (taken ++ event.changes)
          (backlog ++ event.changes) := by
        refine ⟨rfl, fun domain => ?_⟩
        rw [changesOf_append, changesOf_append, ← howes.isInOrder domain, List.append_assoc]
        rfl
      refine (Publisher.delivers_reaction howes').mono fun rest v hrest => ⟨hrest.1, ?_⟩
      intro hstopped
      simp [Publishing.react, hrest.2 hstopped]
    closed := by
      intro hclosed
      simp only [Publishing.react, Bool.and_eq_false_iff, Bool.not_eq_false'] at hclosed
      rcases hclosed with hclosed | hclosed
      · have hempty := h.closed hclosed
        rw [hfeed] at hempty
        exact (List.append_eq_nil_iff.1 hempty).2
      · exact hending hclosed
    offered := h.offered
    isLast := fun _ hdue => by cases hdue
    published := h.published }

theorem push (h : s.InOrder taken due) {change : ZoneChange}
    {next : Bool → EngineProgram Publisher.Rest} (hprogram : s.program = .act (.push change) next)
    (isAccepted : Bool) : (s.afterPush change next isAccepted).InOrder taken
      (if isAccepted then some change else none) := by
  have hdelivers := h.delivers
  rw [hprogram] at hdelivers
  obtain ⟨rfl, hnext, hrest⟩ := hdelivers
  have haccepted := s.acceptedOf_afterPush change next isAccepted
  exact {
    announced := h.announced
    delivers := hrest isAccepted
    closed := h.closed
    offered := by
      intro before p after hp
      rcases List.eq_nil_or_concat after with rfl | ⟨init, q, rfl⟩
      · obtain ⟨rfl, rfl⟩ : before = s.pushes ∧ p = ⟨isAccepted, change⟩ := by
          have := List.append_inj' hp rfl
          exact ⟨this.1.symm, (List.cons.inj this.2).1.symm⟩
        refine hnext.trans ?_
        simp [afterPush, h.announced]
      · rw [List.concat_eq_append, ← List.cons_append, ← List.append_assoc] at hp
        exact h.offered before p init (List.append_inj' hp rfl).1
    isLast := by
      intro last hlast
      cases isAccepted with
      | false => cases hlast
      | true =>
          obtain rfl := Option.some.inj hlast
          rw [haccepted]
          simp
    published := by
      intro domain hremoved hmissed hdue last hlast
      have hother : (isAccepted && decide (change.domain = domain)) = false := by
        cases isAccepted with
        | false => rfl
        | true => simpa using hdue change rfl
      rw [haccepted, hother] at hlast
      exact h.published domain hremoved hmissed (fun _ hin => by cases hin) last
        (by simpa using hlast) }

theorem call (h : s.InOrder taken due) {c : StoreCall}
    {next : c.Answer → EngineProgram Publisher.Rest} (hprogram : s.program = .act (.call c) next)
    (o : Outcome) : (s.afterCall c next o).InOrder taken none := by
  have hdelivers := h.delivers
  rw [hprogram] at hdelivers
  obtain ⟨hc, hrest⟩ := hdelivers
  exact {
    announced := h.announced
    delivers := hrest (o.call c s.zones).1
    closed := h.closed
    offered := h.offered
    isLast := fun _ hdue => by cases hdue
    published := by
      intro domain hremoved hmissed _ last hlast
      simp only [afterCall, List.mem_append, not_or] at hmissed
      cases due with
      | none =>
          obtain rfl : c = .flush := hc
          have hzones : (o.call .flush s.zones).2 = s.zones := by cases o <;> rfl
          rw [zones_afterCall, hzones]
          exact h.published domain hremoved hmissed.1 (fun _ hin => by cases hin) last hlast
      | some change =>
          obtain rfl : c = .markPublished change.domain change.committedAt := hc
          by_cases hdomain : change.domain = domain
          · -- the last accepted change of the domain is the one that is noted
            subst hdomain
            obtain rfl : last = change :=
              Option.some.inj (hlast.symm.trans (h.isLast change rfl))
            cases o with
            | failed e => exact absurd (by simp [missedBy, Outcome.call]) hmissed.2
            | carriedOut now =>
                cases hzone : s.zones.zone? last.domain with
                | none =>
                    refine absurd ?_ hmissed.2
                    rw [Outcome.call, Zones.call_of_none hzone rfl rfl]
                    simp [missedBy]
                | some zone =>
                    rw [zones_afterCall, Outcome.call, Zones.call_markPublished hzone,
                      Zones.domain?_eq, Zones.zone?_insert_self]
                    rfl
          · have hsame : (s.afterCall _ next o).zones.domain? domain
                = s.zones.domain? domain := by
              cases o with
              | failed e => rfl
              | carriedOut now =>
                  rw [zones_afterCall, Zones.domain?_eq, Zones.domain?_eq, Outcome.call,
                    Zones.zone?_call_of_ne]
                  exact fun heq => hdomain (Option.some.inj heq)
            rw [hsame]
            refine h.published domain hremoved hmissed.1 ?_ last hlast
            rintro _ ⟨⟩
            exact hdomain }

theorem wait (h : s.InOrder taken due) {milliseconds : Nat}
    {next : Unit → EngineProgram Publisher.Rest}
    (hprogram : s.program = .act (.wait milliseconds) next) :
    ({ s with program := next () } : Publishing).InOrder taken due := by
  have hdelivers := h.delivers
  rw [hprogram] at hdelivers
  exact ⟨h.announced, hdelivers.2, h.closed, h.offered, h.isLast, h.published⟩

theorem moved (h : s.InOrder taken due) {s' : Publishing} (hmoved : s.Moved s') :
    ∃ taken' due', s'.InOrder taken' due' := by
  cases hmoved with
  | react hprogram hfeed hending => exact ⟨_, _, h.react hprogram hfeed hending⟩
  | push hprogram isAccepted => exact ⟨_, _, h.push hprogram isAccepted⟩
  | call hprogram o => exact ⟨_, _, h.call hprogram o⟩
  | wait hprogram => exact ⟨_, _, h.wait hprogram⟩

theorem step (h : s.InOrder taken due) {s' : Publishing} {m : Move}
    (hstep : s.step? m = some s') : ∃ taken' due', s'.InOrder taken' due' := by
  cases m with
  | announce change => exact Option.some.inj hstep ▸ ⟨_, _, h.announce change⟩
  | elsewhere c o =>
      simp only [step?] at hstep
      split at hstep
      · cases hstep
      · next hown =>
          exact Option.some.inj hstep ▸ ⟨_, _, h.elsewhere (by simpa using hown) o⟩
  | _ => exact h.moved (moved_of_step? hstep rfl)

theorem run (h : s.InOrder taken due) {s' : Publishing} {moves : List Move}
    (hrun : s.run moves = some s') : ∃ taken' due', s'.InOrder taken' due' := by
  induction moves generalizing s taken due with
  | nil => exact Option.some.inj hrun ▸ ⟨taken, due, h⟩
  | cons m rest ih =>
      obtain ⟨next, hnext, hrest⟩ := Option.bind_eq_some_iff.1 hrun
      obtain ⟨taken', due', h'⟩ := h.step hnext
      exact ih h' hrest

theorem accepted_prefix {announced : List ZoneChange} {pushes : List Push}
    (h : ∀ before p after, pushes = before ++ p :: after →
      changesOf p.change.domain (accepted before) ++ [p.change]
        <+: changesOf p.change.domain announced) (domain : String) :
    changesOf domain (accepted pushes) <+: changesOf domain announced := by
  induction pushes using List.reverseRecOn with
  | nil => exact List.nil_prefix
  | append_singleton init p ih =>
      rw [accepted_append, accepted_singleton, changesOf_append]
      by_cases hp : p.accepted = true ∧ p.change.domain = domain
      · obtain ⟨haccepted, rfl⟩ := hp
        simpa [haccepted] using h init p [] rfl
      · have hnone : changesOf domain (if p.accepted then [p.change] else []) = [] := by
          cases haccepted : p.accepted <;> simp_all
        rw [hnone, List.append_nil]
        exact ih fun before q after hq => h before q (after ++ [p]) (by simp [hq])

end InOrder

theorem nodup_of_changesOf {changes : List ZoneChange}
    (h : ∀ domain, (changesOf domain changes).Nodup) : changes.Nodup := by
  rw [List.nodup_iff_sublist]
  intro change htwice
  have := htwice.filter (·.domain == change.domain)
  exact List.nodup_iff_sublist.1 (h change.domain) change (by simpa [changesOf] using this)

/-- Between two events the accepted changes of a domain, those that wait and those on the feed are
what was put on the feed, in that order; a change is offered when all before it of its domain have
been accepted, and accepted once; when the publisher stops, it has lost none. A domain that has not
been removed is noted as published with its last accepted change. -/
theorem publishes_in_order {settings : EngineSettings} {zones : Zones} {moves : List Move}
    {s : Publishing} (h : (start settings zones).run moves = some s) :
    (∀ rest, s.program = .done rest → ∀ domain,
        s.acceptedOf domain ++ changesOf domain rest.backlog ++ changesOf domain s.feed
          = changesOf domain s.announced)
      ∧ (∀ before p after, s.pushes = before ++ p :: after →
        changesOf p.change.domain (accepted before) ++ [p.change]
          <+: changesOf p.change.domain s.announced)
      ∧ (∀ domain, s.acceptedOf domain <+: changesOf domain s.announced)
      ∧ (s.announced.Nodup → (accepted s.pushes).Nodup)
      ∧ (∀ backlog result, s.program = .done (.stopped backlog result) → ∀ domain,
        s.acceptedOf domain ++ changesOf domain backlog = changesOf domain s.announced)
      ∧ ∀ rest, s.program = .done rest → ∀ domain, domain ∉ s.removed → domain ∉ s.missed →
        ∀ change, (s.acceptedOf domain).getLast? = some change →
          (s.zones.domain? domain).bind (·.published) = some change.committedAt := by
  obtain ⟨taken, due, hs⟩ := (inOrder_start settings zones).run h
  have hresting {rest : Publisher.Rest} (hprogram : s.program = .done rest) (domain : String) :
      s.acceptedOf domain ++ changesOf domain rest.backlog ++ changesOf domain s.feed
        = changesOf domain s.announced := by
    obtain ⟨-, howes, -⟩ := hs.isSettled hprogram
    rw [hs.announced, changesOf_append, ← howes.isInOrder domain]
    rfl
  have hfirst := InOrder.accepted_prefix hs.offered
  refine ⟨fun rest => hresting, hs.offered, hfirst, ?_, ?_, ?_⟩
  · intro hnodup
    refine nodup_of_changesOf fun domain => (hfirst domain).sublist.nodup ?_
    exact hnodup.filter fun change => change.domain == domain
  · intro backlog result hprogram domain
    obtain ⟨-, -, hstopped⟩ := hs.isSettled hprogram
    have hall := hresting hprogram domain
    rw [hs.closed (hstopped rfl), changesOf_nil, List.append_nil] at hall
    exact hall
  · intro rest hprogram domain hremoved hmissed
    obtain ⟨rfl, -, -⟩ := hs.isSettled hprogram
    exact hs.published domain hremoved hmissed fun _ hdue => by cases hdue

namespace Example

def change (seconds : Int) : ZoneChange := ⟨"a.de", [], ⟨seconds, 0⟩⟩

def zones : Zones := .only "a.de" (some ⟨⟨"a.de", "ann", 60, ⟨0, 0⟩, none⟩, SortedMap.empty⟩)

def done : Move := .call (.carriedOut ⟨9, 0⟩)

def moves : List Move :=
  [.announce (change 1), .announce (change 2), .take, .push false, .wait, .push false, .wait,
    .push false, .wait, .push false, .take, .tick, .push true, done, .push true, done, .close, done]

end Example

theorem publishes_parked_changes : ∃ s, (start .default Example.zones).run Example.moves = some s
    ∧ (∃ backlog result, s.program = .done (.stopped backlog result)
      ∧ ∀ domain, s.acceptedOf domain ++ changesOf domain backlog = changesOf domain s.announced)
    ∧ ∃ change, (s.acceptedOf "a.de").getLast? = some change
      ∧ (s.zones.domain? "a.de").bind (·.published) = some change.committedAt := by
  have hends : ((start .default Example.zones).run Example.moves).any (fun s =>
      Publisher.hasStopped s.program
      && s.removed.isEmpty && s.missed.isEmpty && (s.acceptedOf "a.de").getLast?.isSome) = true := by
    decide +kernel
  obtain ⟨s, hs, h⟩ := (Option.any_eq_true _ _).1 hends
  simp only [Bool.and_eq_true, List.isEmpty_iff] at h
  obtain ⟨⟨⟨hstopped, hremoved⟩, hmissed⟩, hlast⟩ := h
  obtain ⟨change, hlast⟩ := Option.isSome_iff_exists.1 hlast
  obtain ⟨-, -, -, -, hlost, hpublished⟩ := publishes_in_order hs
  obtain ⟨backlog, result, hprogram⟩ := Publisher.hasStopped_iff.1 hstopped
  exact ⟨s, hs, ⟨backlog, result, hprogram, hlost backlog result hprogram⟩, change, hlast,
    hpublished _ hprogram "a.de" (by simp [hremoved]) (by simp [hmissed]) change hlast⟩

end Publishing

end ZoneKeeper
