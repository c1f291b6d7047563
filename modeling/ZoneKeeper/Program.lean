namespace ZoneKeeper

inductive Program (Act : Type) (Answer : Act → Type) (α : Type) where
  | done (value : α)
  | act (a : Act) (next : Answer a → Program Act Answer α)

namespace Program

variable {Act : Type} {Answer : Act → Type} {α β : Type}

def bind : Program Act Answer α → (α → Program Act Answer β) → Program Act Answer β
  | .done value, f => f value
  | .act a next, f => .act a fun answer => (next answer).bind f

instance : Monad (Program Act Answer) where
  pure := .done
  bind := bind

def perform (a : Act) : Program Act Answer (Answer a) := .act a .done

def run {σ : Type} (handle : (a : Act) → σ → Answer a × σ) : Program Act Answer α → σ → α × σ
  | .done value, state => (value, state)
  | .act a next, state =>
      let (answer, state) := handle a state
      run handle (next answer) state

def interpret {m : Type → Type} [Monad m] (handle : (a : Act) → m (Answer a)) :
    Program Act Answer α → m α
  | .done value => pure value
  | .act a next => do interpret handle (next (← handle a))

theorem bind_done (p : Program Act Answer α) : p.bind .done = p := by
  induction p with
  | done value => rfl
  | act a next ih => simp [bind, ih]

theorem bind_bind {γ : Type} (p : Program Act Answer α) (f : α → Program Act Answer β)
    (g : β → Program Act Answer γ) : (p.bind f).bind g = p.bind fun a => (f a).bind g := by
  induction p with
  | done value => rfl
  | act a next ih => simp [bind, ih]

instance : LawfulMonad (Program Act Answer) :=
  LawfulMonad.mk' (Program Act Answer) bind_done (fun _ _ => rfl) bind_bind

theorem run_bind {σ : Type} (handle : (a : Act) → σ → Answer a × σ) (p : Program Act Answer α)
    (f : α → Program Act Answer β) (state : σ) :
    (p >>= f).run handle state = (f (p.run handle state).1).run handle (p.run handle state).2 := by
  change (p.bind f).run handle state = _
  induction p generalizing state with
  | done value => rfl
  | act a next ih => exact ih _ _

end Program

end ZoneKeeper
