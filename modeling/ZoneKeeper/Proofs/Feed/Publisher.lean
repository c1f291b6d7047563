import ZoneKeeper.Feed.Publisher
import ZoneKeeper.Simulation.Basic

namespace ZoneKeeper

def changesOf (domain : String) (changes : List ZoneChange) : List ZoneChange :=
  changes.filter (·.domain == domain)

@[simp] theorem changesOf_nil (domain : String) : changesOf domain [] = [] := rfl

@[simp] theorem changesOf_append (domain : String) (changes others : List ZoneChange) :
    changesOf domain (changes ++ others) = changesOf domain changes ++ changesOf domain others :=
  List.filter_append ..

@[simp] theorem changesOf_cons (domain : String) (change : ZoneChange) (rest : List ZoneChange) :
    changesOf domain (change :: rest)
      = if change.domain = domain then change :: changesOf domain rest
        else changesOf domain rest := by
  by_cases h : change.domain = domain <;> simp [changesOf, h]

def accepted (pushes : List Push) : List ZoneChange :=
  (pushes.filter (·.accepted)).map (·.change)

theorem accepted_append (pushes others : List Push) :
    accepted (pushes ++ others) = accepted pushes ++ accepted others := by
  simp [accepted]

theorem accepted_singleton (p : Push) :
    accepted [p] = if p.accepted then [p.change] else [] := by
  cases h : p.accepted <;> simp [accepted, h]

structure Progress where
  pushes : List Push
  due : Option ZoneChange

namespace Progress

def accepted (v : Progress) : List ZoneChange := ZoneKeeper.accepted v.pushes

def after (v : Progress) (change : ZoneChange) (isAccepted : Bool) : Progress :=
  ⟨v.pushes ++ [⟨isAccepted, change⟩], if isAccepted then some change else none⟩

def settle (v : Progress) : Progress := { v with due := none }

theorem accepted_after (v : Progress) (change : ZoneChange) (isAccepted : Bool) :
    (v.after change isAccepted).accepted
      = v.accepted ++ if isAccepted then [change] else [] := by
  simp [accepted, after, accepted_append, accepted_singleton]

def IsFor (v : Progress) (c : StoreCall) : Prop :=
  match v.due with
  | some change => c = .markPublished change.domain change.committedAt
  | none => c = .flush

def IsNext (v : Progress) (taken : List ZoneChange) (change : ZoneChange) : Prop :=
  changesOf change.domain v.accepted ++ [change] <+: changesOf change.domain taken

structure Owes (v : Progress) (taken owed : List ZoneChange) : Prop where
  isSettled : v.due = none
  isInOrder : ∀ domain, changesOf domain v.accepted ++ changesOf domain owed
    = changesOf domain taken

section Owes

variable {v v' : Progress} {taken kept rest : List ZoneChange} {change : ZoneChange}

theorem Owes.isNext (h : v.Owes taken (kept ++ change :: rest))
    (hkept : changesOf change.domain kept = []) : v.IsNext taken change := by
  have horder := h.isInOrder change.domain
  simp only [changesOf_append, changesOf_cons, hkept, if_true, List.nil_append] at horder
  rw [IsNext, ← horder]
  simp

theorem Owes.offered (h : v.Owes taken (kept ++ change :: rest))
    (hkept : changesOf change.domain kept = []) (isAccepted : Bool) (hsettled : v'.due = none)
    (haccepted : v'.accepted = v.accepted ++ if isAccepted then [change] else []) :
    v'.Owes taken (kept ++ if isAccepted then rest else change :: rest) := by
  refine ⟨hsettled, fun domain => ?_⟩
  rw [haccepted, ← h.isInOrder domain]
  cases isAccepted with
  | false => simp
  | true =>
      by_cases hdomain : change.domain = domain
      · subst hdomain
        simp [hkept]
      · simp [hdomain]

end Owes

end Progress

def Delivers {α : Type} (taken : List ZoneChange) :
    EngineProgram α → Progress → (α → Progress → Prop) → Prop
  | .done a, v, post => post a v
  | .act (.push change) next, v, post =>
      v.due = none ∧ v.IsNext taken change
        ∧ ∀ isAccepted, Delivers taken (next isAccepted) (v.after change isAccepted) post
  | .act (.call c) next, v, post =>
      v.IsFor c ∧ ∀ answer, Delivers taken (next answer) v.settle post
  | .act (.wait _) next, v, post => v.due = none ∧ Delivers taken (next ()) v post
  | _, _, _ => False

namespace Delivers

variable {α β : Type} {taken : List ZoneChange}

theorem bind {p : EngineProgram α} {f : α → EngineProgram β} {v : Progress}
    {P : α → Progress → Prop} {post : β → Progress → Prop} (h : Delivers taken p v P)
    (hnext : ∀ a v, P a v → Delivers taken (f a) v post) : Delivers taken (p >>= f) v post := by
  change Delivers taken (p.bind f) v post
  induction p generalizing v with
  | done a => exact hnext a v h
  | act a next ih =>
      cases a with
      | push change => exact ⟨h.1, h.2.1, fun isAccepted => ih isAccepted (h.2.2 isAccepted)⟩
      | call c => exact ⟨h.1, fun answer => ih answer (h.2 answer)⟩
      | wait milliseconds => exact ⟨h.1, ih () h.2⟩
      | _ => exact h.elim

theorem mono {p : EngineProgram α} {v : Progress} {P post : α → Progress → Prop}
    (h : Delivers taken p v P) (himp : ∀ a v, P a v → post a v) : Delivers taken p v post := by
  have := h.bind (f := .done) himp
  rwa [show (p >>= .done) = p from Program.bind_done p] at this

end Delivers

namespace Publisher

variable {taken kept backlog rest : List ZoneChange} {v : Progress} {change : ZoneChange}
  {settings : EngineSettings}

theorem delivers_offer (hsettled : v.due = none) (hnext : v.IsNext taken change) :
    Delivers taken (offer change) v fun isAccepted v' => v'.due = none
      ∧ v'.accepted = v.accepted ++ if isAccepted then [change] else [] := by
  refine ⟨hsettled, hnext, fun isAccepted => ?_⟩
  cases isAccepted with
  | false => exact ⟨rfl, v.accepted_after change false⟩
  | true => exact ⟨rfl, fun _ => ⟨rfl, v.accepted_after change true⟩⟩

theorem delivers_publish (hsettled : v.due = none) (hnext : v.IsNext taken change)
    (retryDelay retries : Nat) :
    Delivers taken (publish retryDelay change retries) v fun isAccepted v' => v'.due = none
      ∧ v'.accepted = v.accepted ++ if isAccepted then [change] else [] := by
  induction retries generalizing v with
  | zero => exact delivers_offer hsettled hnext
  | succ retries ih =>
      refine (delivers_offer hsettled hnext).bind ?_
      rintro (_ | _) v' ⟨hsettled', haccepted⟩
      · have hsame : v'.accepted = v.accepted := by simpa using haccepted
        have hnext' : v'.IsNext taken change := by rwa [Progress.IsNext, hsame]
        refine ⟨hsettled', (ih hsettled' hnext').mono fun isAccepted v'' h => ?_⟩
        rwa [hsame] at h
      · exact ⟨hsettled', haccepted⟩

theorem delivers_accept (h : v.Owes taken (backlog ++ change :: rest)) :
    Delivers taken (accept settings backlog change) v fun backlog' v' =>
      v'.Owes taken (backlog' ++ rest) := by
  have hparked : v.Owes taken ((backlog ++ [change]) ++ rest) := by simpa using h
  unfold accept
  split
  · exact hparked
  · next hfree =>
      have hkept : changesOf change.domain backlog = [] := by
        simpa [changesOf, List.filter_eq_nil_iff] using hfree
      refine (delivers_publish h.isSettled (h.isNext hkept) _ _).bind ?_
      rintro isAccepted v' ⟨hsettled, haccepted⟩
      have hoffered := h.offered hkept isAccepted hsettled haccepted
      cases isAccepted with
      | false => exact (by simpa using hoffered : v'.Owes taken ((backlog ++ [change]) ++ rest))
      | true => exact hoffered

theorem delivers_acceptAll (h : v.Owes taken (backlog ++ rest)) :
    Delivers taken (acceptAll settings backlog rest) v fun backlog' v' =>
      v'.Owes taken backlog' := by
  induction rest generalizing backlog v with
  | nil => exact (by simpa using h : v.Owes taken backlog)
  | cons change rest ih => exact (delivers_accept h).bind fun backlog' v' h' => ih h'

theorem delivers_resync (kept : List ZoneChange) {blocked : List String}
    {retryDelay retries : Nat} (h : v.Owes taken (kept ++ backlog))
    (hblocked : ∀ domain, domain ∉ blocked → changesOf domain kept = []) :
    Delivers taken (resync retryDelay retries blocked backlog) v fun left v' =>
      v'.Owes taken (kept ++ left) := by
  induction backlog generalizing kept blocked v with
  | nil => exact h
  | cons change rest ih =>
      -- the change joins those that are kept, and its domain is blocked
      have hkeep {v' : Progress} {blocked' : List String}
          (h' : v'.Owes taken (kept ++ change :: rest)) (hmem : change.domain ∈ blocked')
          (hsub : ∀ domain ∈ blocked, domain ∈ blocked') :
          Delivers taken (do return change :: (← resync retryDelay retries blocked' rest)) v'
            fun left v'' => v''.Owes taken (kept ++ left) := by
        refine Delivers.bind (ih (kept ++ [change]) (by simpa using h') ?_) ?_
        · intro domain hdomain
          have hne : change.domain ≠ domain := fun heq => hdomain (heq ▸ hmem)
          simp [hne, hblocked domain fun hin => hdomain (hsub domain hin)]
        · intro left v'' h''
          exact (by simpa using h'' : v''.Owes taken (kept ++ change :: left))
      unfold resync
      split
      · next hin => exact hkeep h (by simpa using hin) fun _ hdomain => hdomain
      · next hout =>
          have hkept : changesOf change.domain kept = [] :=
            hblocked change.domain (by simpa using hout)
          refine (delivers_publish h.isSettled (h.isNext hkept) _ _).bind ?_
          rintro isAccepted v' ⟨hsettled, haccepted⟩
          have hoffered := h.offered hkept isAccepted hsettled haccepted
          cases isAccepted with
          | false =>
              exact hkeep hoffered List.mem_cons_self fun _ => List.mem_cons_of_mem _
          | true => exact ih kept hoffered hblocked

def Event.changes : Event → List ZoneChange
  | .arrival change => [change]
  | .tick => []
  | .ending rest => rest

theorem delivers_react {event : Event} (h : v.Owes taken (backlog ++ event.changes)) :
    Delivers taken (react settings backlog event) v fun backlog' v' =>
      v'.Owes taken backlog' := by
  cases event with
  | arrival change =>
      refine (delivers_accept h).mono fun backlog' v' h' => ?_
      simpa using h'
  | tick =>
      exact delivers_resync [] (by simpa [Event.changes] using h) fun _ _ => rfl
  | ending rest =>
      exact (delivers_acceptAll h).bind fun backlog' v' h' =>
        delivers_resync [] h' fun _ _ => rfl

end Publisher

end ZoneKeeper
