/-!
Locks by name. A registry says which lock belongs to a name. Whoever wants the lock of a name first
gets a reference to it from the registry, then joins the queue for the lock referred to; the first in
the queue holds it. Locks that nobody refers to are dropped from the registry when another name is
asked for.
-/

namespace ZoneKeeper

structure LockRef where
  who : Nat
  name : String
  lock : Nat
  deriving DecidableEq, Repr

structure Locks where
  registry : List (String × Nat)
  refs : List LockRef
  /-- Those that hold a lock or wait for one, in the order in which they began to wait. -/
  queue : List LockRef
  nextLock : Nat
  deriving DecidableEq, Repr

namespace Locks

def empty : Locks := ⟨[], [], [], 0⟩

def lock? (locks : Locks) (name : String) : Option Nat :=
  (locks.registry.find? (·.1 == name)).map (·.2)

def isWanted (locks : Locks) (lock : Nat) : Bool := locks.refs.any (·.lock == lock)

def prune (locks : Locks) (name : String) : Locks :=
  { locks with registry := locks.registry.filter fun (n, lock) => n == name || locks.isWanted lock }

def register (locks : Locks) (name : String) : Locks :=
  match locks.lock? name with
  | some _ => locks
  | none =>
      { locks with
        registry := locks.registry ++ [(name, locks.nextLock)]
        nextLock := locks.nextLock + 1 }

def refer (locks : Locks) (who : Nat) (name : String) : Locks :=
  let locks := (locks.prune name).register name
  match locks.lock? name with
  | some lock => { locks with refs := locks.refs ++ [⟨who, name, lock⟩] }
  | none => locks

def ref? (locks : Locks) (who : Nat) (name : String) : Option LockRef :=
  locks.refs.find? fun ref => ref.who == who && ref.name == name

def join (locks : Locks) (ref : LockRef) : Locks := { locks with queue := locks.queue ++ [ref] }

def release (locks : Locks) (ref : LockRef) : Locks :=
  { locks with
    refs := locks.refs.filter (· != ref)
    queue := locks.queue.filter (· != ref) }

def holder? (locks : Locks) (lock : Nat) : Option LockRef := locks.queue.find? (·.lock == lock)

def isHeldBy (locks : Locks) (ref : LockRef) : Bool := locks.holder? ref.lock == some ref

end Locks

end ZoneKeeper
