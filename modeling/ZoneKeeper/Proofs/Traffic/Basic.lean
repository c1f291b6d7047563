import ZoneKeeper.Engine.Locks
import ZoneKeeper.Engine.Request
import ZoneKeeper.Proofs.Zone.Table

/-!
Requests that are carried out at the same time. Their programs take their acts one by one, in any
order: each call on the store and each step to a lock is one move. Calls fail, timers end and
callers go away when they may.
-/

namespace ZoneKeeper

/-- How a call turns out: it is carried out at some time, or it fails and changes nothing. -/
inductive Outcome where
  | carriedOut (now : Instant)
  | failed (e : Error)

namespace Outcome

def call (o : Outcome) (c : StoreCall) (zones : Zones) : c.Answer × Zones :=
  match o with
  | .carriedOut now => zones.call now c
  | .failed e => (.error e, zones)

def isFor (o : Outcome) (mayFail : StoreCall → Bool) (c : StoreCall) : Bool :=
  match o with
  | .carriedOut _ => true
  | .failed _ => mayFail c

end Outcome

structure Share where
  zone : Option Zone
  feed : List ZoneChange

structure Scene where
  zones : Zones
  feed : List ZoneChange

def Scene.share (scene : Scene) (domain : String) : Share :=
  ⟨scene.zones.zone? domain, scene.feed.filter (·.domain == domain)⟩

structure Standing where
  holdsLock : Bool
  hasEntered : Bool
  isCommitting : Bool
  isTimed : Bool
  hasTimedOut : Bool
  found : Share
  left : Share
  attempts : Nat
  lookups : List Outcome
  outcomes : List Outcome

namespace Standing

def fresh : Standing := ⟨false, false, false, false, false, ⟨none, []⟩, ⟨none, []⟩, 0, [], []⟩

def record (v : Standing) (o : Outcome) : Standing :=
  if v.attempts = 0 then { v with lookups := v.lookups ++ [o] }
  else { v with outcomes := v.outcomes ++ [o] }

def enter (v : Standing) (share : Share) : Standing :=
  { v with holdsLock := true, hasEntered := true, found := share, left := share }

def leave (v : Standing) (share : Share) : Standing :=
  if v.holdsLock then { v with left := share } else v

def release (v : Standing) : Standing := { v with holdsLock := false }

def begin (v : Standing) : Standing :=
  { v with
    hasEntered := false
    isTimed := true
    hasTimedOut := false
    attempts := v.attempts + 1
    outcomes := [] }

def expire (v : Standing) : Standing :=
  { v with
    holdsLock := false
    hasEntered := false
    hasTimedOut := true }

end Standing

namespace Request

def domainName : Request → String
  | .createDomain _ name _ => normalizeDomain name
  | .deleteDomain _ name => normalizeDomain name
  | .domain _ name => normalizeDomain name
  | .get _ name _ => normalizeDomain name
  | .list _ name _ => normalizeDomain name
  | .delete _ name _ => normalizeDomain name
  | .write _ name _ _ _ => normalizeDomain name
  | .derive _ name _ _ _ _ => normalizeDomain name
  | .checkIn _ name _ => normalizeDomain name

end Request

structure Worker where
  request : Request
  program : EngineProgram (Except Error Reply)
  /-- How the program goes on when the time of its attempt is up. -/
  fallback : Option (EngineProgram (Except Error Reply))
  standing : Standing
  isDeserted : Bool
  isGone : Bool
  arrival : Nat

namespace Worker

def domain (w : Worker) : String := w.request.domainName

def isWaiting (w : Worker) : Bool :=
  match w.program with
  | .act (.call _) _ => true
  | .act (.lock _) _ => true
  | .act (.wait _) _ => true
  | _ => false

def result? (w : Worker) : Option (Except Error Reply) :=
  match w.program with
  | .done result => if w.isGone then none else some result
  | _ => none

def isOver (w : Worker) : Bool := w.isGone || w.result?.isSome

end Worker

structure Traffic where
  settings : EngineSettings
  mayFail : StoreCall → Bool
  zones : Zones
  feed : List ZoneChange
  locks : Locks
  workers : List Worker
  creations : List Domain
  /-- Those whose last attempt has got the lock of its domain, in that order. -/
  order : List Nat

inductive Move where
  | call (o : Outcome)
  | proceed (now : Instant)
  | refer
  | join
  | timeUp
  | desert

inductive Event where
  | arrive (request : Request)
  | move (who : Nat) (m : Move)

namespace Traffic

def start (settings : EngineSettings) (mayFail : StoreCall → Bool) (zones : Zones)
    (feed : List ZoneChange) : Traffic :=
  ⟨settings, mayFail, zones, feed, .empty, [], [], []⟩

def scene (s : Traffic) : Scene := ⟨s.zones, s.feed⟩

def share (s : Traffic) (domain : String) : Share := s.scene.share domain

def hasLock (s : Traffic) (who : Nat) (domain : String) : Bool :=
  (s.locks.ref? who domain).any s.locks.isHeldBy

def keep (s : Traffic) (who : Nat) (w : Worker) : Traffic :=
  { s with workers := s.workers.set who w }

def advance (s : Traffic) (who : Nat) (w : Worker) (rest : EngineProgram (Except Error Reply))
    (v : Standing) : Traffic :=
  s.keep who { w with program := rest, standing := v }

/-- Takes somebody out of the order, whose attempt is no longer the last or has come to nothing. -/
def withdraw (s : Traffic) (who : Nat) : Traffic :=
  { s with order := s.order.filter (· != who) }

def giveBack (s : Traffic) (who : Nat) (domain : String) : Traffic :=
  match s.locks.ref? who domain with
  | some ref => { s with locks := s.locks.release ref }
  | none => s

def created (c : StoreCall) (answer : c.Answer) : List Domain :=
  match c, answer with
  | .createDomain domain, .ok _ => [domain]
  | _, _ => []

def afterCall (s : Traffic) (who : Nat) (w : Worker) (c : StoreCall)
    (next : c.Answer → EngineProgram (Except Error Reply)) (o : Outcome) : Traffic :=
  let (answer, zones) := o.call c s.zones
  let s := { s with zones := zones, creations := s.creations ++ created c answer }
  s.advance who w (next answer) ((w.standing.record o).leave (s.share w.domain))

def afterAnnouncing (s : Traffic) (who : Nat) (w : Worker) (change : ZoneChange)
    (rest : EngineProgram (Except Error Reply)) : Traffic :=
  let s := { s with feed := s.feed ++ [change] }
  s.advance who w rest (w.standing.leave (s.share w.domain))

def arrive (s : Traffic) (request : Request) : Traffic :=
  { s with workers := s.workers ++
      [⟨request, (Request.run s.settings request).run, none, .fresh, false, false,
        s.creations.length⟩] }

def proceed? (s : Traffic) (who : Nat) (w : Worker) (now : Instant) : Option Traffic :=
  match w.program with
  | .done _ => none
  | .act (.call _) _ => none
  | .act .readClock next => some (s.advance who w (next now) (w.standing.record (.carriedOut now)))
  | .act (.lock domain) next =>
      if s.hasLock who domain then
        some ({ s with order := s.order ++ [who] }.advance who w (next ())
          (w.standing.enter (s.share domain)))
      else none
  | .act (.unlock domain) next =>
      some ((s.giveBack who domain).advance who w (next ()) w.standing.release)
  | .act (.wait _) next => some (s.advance who w (next ()) w.standing)
  | .act (.startTimer _) next =>
      some ((s.withdraw who).advance who { w with fallback := some (next true) } (next false)
        w.standing.begin)
  | .act .stopTimer next =>
      some (s.advance who { w with fallback := none } (next ())
        { w.standing with isTimed := false })
  | .act .beginCommit next =>
      some (s.advance who w (next ()) { w.standing with isCommitting := true })
  | .act .endCommit next =>
      some (s.advance who { w with isGone := w.isDeserted } (next ())
        { w.standing with isCommitting := false })
  | .act (.announce change) next => some (s.afterAnnouncing who w change (next ()))
  | .act (.push _) _ => none

def refer? (s : Traffic) (who : Nat) (w : Worker) : Option Traffic :=
  match w.program with
  | .act (.lock domain) _ =>
      match s.locks.ref? who domain with
      | some _ => none
      | none => some { s with locks := s.locks.refer who domain }
  | _ => none

def join? (s : Traffic) (who : Nat) (w : Worker) : Option Traffic :=
  match w.program with
  | .act (.lock domain) _ =>
      match s.locks.ref? who domain with
      | some ref =>
          if s.locks.queue.contains ref then none
          else some { s with locks := s.locks.join ref }
      | none => none
  | _ => none

def timeUp? (s : Traffic) (who : Nat) (w : Worker) : Option Traffic :=
  match w.fallback with
  | some rest =>
      if w.isWaiting then
        some ((s.withdraw who).advance who { w with fallback := none } rest w.standing.expire)
      else none
  | none => none

def abandon (s : Traffic) (who : Nat) : Traffic :=
  { s with locks := (s.locks.refs.filter (·.who == who)).foldl Locks.release s.locks }

/-- The caller of a request goes away. A commit goes on to its end; all else is given up. -/
def desert? (s : Traffic) (who : Nat) (w : Worker) : Option Traffic :=
  if w.standing.isCommitting then some (s.keep who { w with isDeserted := true })
  else if w.isWaiting then
    some (((s.withdraw who).abandon who).advance who { w with isGone := true } w.program
      { w.standing with holdsLock := false, hasEntered := false })
  else none

def move? (s : Traffic) (who : Nat) (w : Worker) : Move → Option Traffic
  | .call o =>
      match w.program with
      | .act (.call c) next =>
          if o.isFor s.mayFail c then some (s.afterCall who w c next o) else none
      | _ => none
  | .proceed now => s.proceed? who w now
  | .refer => s.refer? who w
  | .join => s.join? who w
  | .timeUp => s.timeUp? who w
  | .desert => s.desert? who w

def step? (s : Traffic) : Event → Option Traffic
  | .arrive request => some (s.arrive request)
  | .move who m => do
      let w ← s.workers[who]?
      if w.isGone then none else s.move? who w m

def run : Traffic → List Event → Option Traffic
  | s, [] => some s
  | s, e :: rest => do (← s.step? e).run rest

inductive Moved (s : Traffic) (who : Nat) (w : Worker) : Traffic → Prop where
  | call {c : StoreCall} {next : c.Answer → EngineProgram (Except Error Reply)} {o : Outcome}
      (hprogram : w.program = .act (.call c) next) (hfor : o.isFor s.mayFail c = true) :
      Moved s who w (s.afterCall who w c next o)
  | readClock {next : Instant → EngineProgram (Except Error Reply)} {now : Instant}
      (hprogram : w.program = .act .readClock next) :
      Moved s who w (s.advance who w (next now) (w.standing.record (.carriedOut now)))
  | lock {domain : String} {next : Unit → EngineProgram (Except Error Reply)}
      (hprogram : w.program = .act (.lock domain) next) (hlock : s.hasLock who domain = true) :
      Moved s who w ({ s with order := s.order ++ [who] }.advance who w (next ())
        (w.standing.enter (s.share domain)))
  | unlock {domain : String} {next : Unit → EngineProgram (Except Error Reply)}
      (hprogram : w.program = .act (.unlock domain) next) :
      Moved s who w ((s.giveBack who domain).advance who w (next ()) w.standing.release)
  | wait {milliseconds : Nat} {next : Unit → EngineProgram (Except Error Reply)}
      (hprogram : w.program = .act (.wait milliseconds) next) :
      Moved s who w (s.advance who w (next ()) w.standing)
  | startTimer {milliseconds : Nat} {next : Bool → EngineProgram (Except Error Reply)}
      (hprogram : w.program = .act (.startTimer milliseconds) next) :
      Moved s who w ((s.withdraw who).advance who { w with fallback := some (next true) }
        (next false) w.standing.begin)
  | stopTimer {next : Unit → EngineProgram (Except Error Reply)}
      (hprogram : w.program = .act .stopTimer next) :
      Moved s who w (s.advance who { w with fallback := none } (next ())
        { w.standing with isTimed := false })
  | beginCommit {next : Unit → EngineProgram (Except Error Reply)}
      (hprogram : w.program = .act .beginCommit next) :
      Moved s who w (s.advance who w (next ()) { w.standing with isCommitting := true })
  | endCommit {next : Unit → EngineProgram (Except Error Reply)}
      (hprogram : w.program = .act .endCommit next) :
      Moved s who w (s.advance who { w with isGone := w.isDeserted } (next ())
        { w.standing with isCommitting := false })
  | announce {change : ZoneChange} {next : Unit → EngineProgram (Except Error Reply)}
      (hprogram : w.program = .act (.announce change) next) :
      Moved s who w (s.afterAnnouncing who w change (next ()))
  | refer {domain : String} {next : Unit → EngineProgram (Except Error Reply)}
      (hprogram : w.program = .act (.lock domain) next) (hnew : s.locks.ref? who domain = none) :
      Moved s who w { s with locks := s.locks.refer who domain }
  | join {domain : String} {next : Unit → EngineProgram (Except Error Reply)} {ref : LockRef}
      (hprogram : w.program = .act (.lock domain) next)
      (href : s.locks.ref? who domain = some ref) (hnew : ref ∉ s.locks.queue) :
      Moved s who w { s with locks := s.locks.join ref }
  | timeUp {rest : EngineProgram (Except Error Reply)} (hfallback : w.fallback = some rest)
      (hwaits : w.isWaiting = true) :
      Moved s who w ((s.withdraw who).advance who { w with fallback := none } rest
        w.standing.expire)
  | desertCommit (hcommits : w.standing.isCommitting = true) :
      Moved s who w (s.keep who { w with isDeserted := true })
  | giveUp (hidle : w.standing.isCommitting = false) (hwaits : w.isWaiting = true) :
      Moved s who w (((s.withdraw who).abandon who).advance who { w with isGone := true } w.program
        { w.standing with holdsLock := false, hasEntered := false })

theorem arrive_cases {s : Traffic} {r : Request} {i : Nat} {u : Worker}
    (h : (s.arrive r).workers[i]? = some u) : s.workers[i]? = some u ∨ (i = s.workers.length
      ∧ u = ⟨r, (Request.run s.settings r).run, none, .fresh, false, false,
        s.creations.length⟩) := by
  rw [arrive, List.getElem?_append] at h
  split at h
  · exact Or.inl h
  · next hlt =>
      rw [List.getElem?_singleton] at h
      split at h
      · next heq => exact Or.inr ⟨by omega, (Option.some.inj h).symm⟩
      · cases h

theorem set_cases {s s' : Traffic} {who i : Nat} {w' u : Worker}
    (hworkers : s'.workers = s.workers.set who w') (h : s'.workers[i]? = some u) :
    (i = who ∧ u = w') ∨ (i ≠ who ∧ s.workers[i]? = some u) := by
  rw [hworkers, List.getElem?_set] at h
  split at h
  · next hi =>
      split at h
      · exact Or.inl ⟨hi.symm, (Option.some.inj h).symm⟩
      · cases h
  · next hne => exact Or.inr ⟨Ne.symm hne, h⟩

theorem moved_of_proceed? {s s' : Traffic} {who : Nat} {w : Worker} {now : Instant}
    (h : s.proceed? who w now = some s') : Moved s who w s' := by
  unfold proceed? at h
  split at h
  · cases h
  · cases h
  · next hprogram => exact Option.some.inj h ▸ .readClock hprogram
  · next hprogram =>
      split at h
      · next hlock => exact Option.some.inj h ▸ .lock hprogram hlock
      · cases h
  · next hprogram => exact Option.some.inj h ▸ .unlock hprogram
  · next hprogram => exact Option.some.inj h ▸ .wait hprogram
  · next hprogram => exact Option.some.inj h ▸ .startTimer hprogram
  · next hprogram => exact Option.some.inj h ▸ .stopTimer hprogram
  · next hprogram => exact Option.some.inj h ▸ .beginCommit hprogram
  · next hprogram => exact Option.some.inj h ▸ .endCommit hprogram
  · next hprogram => exact Option.some.inj h ▸ .announce hprogram
  · cases h

theorem moved_of_move? {s s' : Traffic} {who : Nat} {w : Worker} {m : Move}
    (h : s.move? who w m = some s') : Moved s who w s' := by
  cases m with
  | call o =>
      simp only [move?] at h
      split at h
      · next hprogram =>
          split at h
          · next hfor => exact Option.some.inj h ▸ .call hprogram hfor
          · cases h
      · cases h
  | proceed now => exact moved_of_proceed? h
  | refer =>
      simp only [move?, refer?] at h
      split at h
      · next hprogram =>
          split at h
          · cases h
          · next hnew => exact Option.some.inj h ▸ .refer hprogram hnew
      · cases h
  | join =>
      simp only [move?, join?] at h
      split at h
      · next hprogram =>
          split at h
          · next href =>
              split at h
              · cases h
              · next hnew => exact Option.some.inj h ▸ .join hprogram href (by simpa using hnew)
          · cases h
      · cases h
  | timeUp =>
      simp only [move?, timeUp?] at h
      split at h
      · next hfallback =>
          split at h
          · next hwaits => exact Option.some.inj h ▸ .timeUp hfallback hwaits
          · cases h
      · cases h
  | desert =>
      simp only [move?, desert?] at h
      split at h
      · next hcommits => exact Option.some.inj h ▸ .desertCommit hcommits
      · next hidle =>
          split at h
          · next hwaits => exact Option.some.inj h ▸ .giveUp (by simpa using hidle) hwaits
          · cases h

theorem step?_cases {s s' : Traffic} {e : Event} (h : s.step? e = some s') :
    (∃ request, e = .arrive request ∧ s' = s.arrive request)
      ∨ ∃ who m w, e = .move who m ∧ s.workers[who]? = some w ∧ w.isGone = false
          ∧ Moved s who w s' := by
  cases e with
  | arrive request => exact Or.inl ⟨request, rfl, (Option.some.inj h).symm⟩
  | move who m =>
      obtain ⟨w, hw, h⟩ := Option.bind_eq_some_iff.1 h
      split at h
      · cases h
      · next hgone =>
          exact Or.inr ⟨who, m, w, rfl, hw, by simpa using hgone, moved_of_move? h⟩

theorem run_induction {P : Traffic → Prop} {s s' : Traffic} {events : List Event}
    (h : s.run events = some s') (hstart : P s)
    (harrive : ∀ s request, .arrive request ∈ events → P s → P (s.arrive request))
    (hmove : ∀ s s' who m w, .move who m ∈ events → P s → s.workers[who]? = some w →
      w.isGone = false → Moved s who w s' → P s') : P s' := by
  induction events generalizing s with
  | nil => exact Option.some.inj h ▸ hstart
  | cons e rest ih =>
      obtain ⟨next, hnext, h⟩ := Option.bind_eq_some_iff.1 h
      refine ih h ?_ (fun s request he => harrive s request (List.mem_cons_of_mem _ he))
        (fun s s' who m w he => hmove s s' who m w (List.mem_cons_of_mem _ he))
      rcases step?_cases hnext with ⟨request, rfl, rfl⟩ | ⟨who, m, w, rfl, hw, hgone, hmoved⟩
      · exact harrive s request List.mem_cons_self hstart
      · exact hmove s next who m w List.mem_cons_self hstart hw hgone hmoved

end Traffic

end ZoneKeeper
