import Mathlib.Data.List.Find
import Mathlib.Data.List.Nodup
import Mathlib.Logic.Relation
import ZoneKeeper.Proofs.Engine.Locks
import ZoneKeeper.Proofs.Traffic.Basic

namespace ZoneKeeper

namespace Locks

/--
One step to a lock or back from it. Whoever asks twice for a name counts as two; a reference is
given back by its holder, from the queue, or before it has got there.
-/
inductive Step : Locks → Locks → Prop where
  | refer {locks : Locks} {who : Nat} {name : String} (hnew : locks.ref? who name = none) :
      Step locks (locks.refer who name)
  | join {locks : Locks} {ref : LockRef} (href : ref ∈ locks.refs) (hnew : ref ∉ locks.queue) :
      Step locks (locks.join ref)
  | release {locks : Locks} (ref : LockRef) : Step locks (locks.release ref)

def IsReached (locks : Locks) : Prop := Relation.ReflTransGen Step empty locks

def holders (locks : Locks) (name : String) : List LockRef :=
  locks.queue.filter fun ref => ref.name == name && locks.isHeldBy ref

variable {locks locks' : Locks} {who : Nat} {name : String} {ref : LockRef}

theorem lock?_register (locks : Locks) (name : String) :
    ∃ lock, (locks.register name).lock? name = some lock := by
  unfold register
  split
  · next lock hlock => exact ⟨lock, hlock⟩
  · next hnone =>
      have hfind := Option.map_eq_none_iff.1 hnone
      exact ⟨locks.nextLock, by simp [lock?, List.find?_append, hfind]⟩

theorem refer_eq (locks : Locks) (who : Nat) (name : String) : ∃ lock,
    locks.refer who name = { (locks.prune name).register name with
      refs := locks.refs ++ [⟨who, name, lock⟩]
      queue := locks.queue } := by
  obtain ⟨lock, hlock⟩ := (locks.prune name).lock?_register name
  refine ⟨lock, ?_⟩
  simp only [refer, hlock]
  unfold register
  split <;> rfl

theorem mem_registry_refer {entry : String × Nat} (who : Nat)
    (h : entry ∈ (locks.prune name).registry) : entry ∈ (locks.refer who name).registry := by
  obtain ⟨lock, heq⟩ := locks.refer_eq who name
  rw [heq]
  dsimp only
  unfold register
  split
  · exact h
  · exact List.mem_append_left _ h

theorem ref?_refer (hnew : locks.ref? who name = none) :
    ∃ ref, (locks.refer who name).ref? who name = some ref := by
  obtain ⟨lock, heq⟩ := locks.refer_eq who name
  refine ⟨⟨who, name, lock⟩, ?_⟩
  rw [ref?] at hnew
  simp [heq, ref?, List.find?_append, hnew]

structure IsOrderly (locks : Locks) : Prop extends locks.IsSound where
  isFresh : ∀ entry ∈ locks.registry, entry.2 < locks.nextLock
  isApart : (locks.registry.map Prod.snd).Nodup
  isReferred : ∀ ref ∈ locks.queue, ref ∈ locks.refs
  isOnce : locks.queue.Nodup

namespace IsOrderly

theorem prune (h : locks.IsOrderly) (name : String) : (locks.prune name).IsOrderly where
  toIsSound := h.toIsSound.prune name
  isFresh := fun entry hentry => h.isFresh entry (List.mem_filter.1 hentry).1
  isApart := h.isApart.sublist (List.filter_sublist.map _)
  isReferred := h.isReferred
  isOnce := h.isOnce

theorem register (h : locks.IsOrderly) (name : String) : (locks.register name).IsOrderly := by
  have hsound := h.toIsSound.register name
  unfold Locks.register at hsound ⊢
  split
  · exact h
  · next hnone =>
      rw [hnone] at hsound
      refine ⟨hsound, ?_, ?_, h.isReferred, h.isOnce⟩
      · intro entry hentry
        rcases List.mem_append.1 hentry with hentry | hentry
        · exact Nat.lt_succ_of_lt (h.isFresh entry hentry)
        · obtain rfl := List.mem_singleton.1 hentry
          exact Nat.lt_succ_self _
      · -- The new lock is beyond all that have been given out.
        simp only [List.map_append, List.map_cons, List.map_nil]
        refine h.isApart.append (List.nodup_singleton _) ?_
        intro lock hlock hnew
        obtain ⟨entry, hentry, rfl⟩ := List.mem_map.1 hlock
        exact Nat.ne_of_lt (h.isFresh entry hentry) (List.mem_singleton.1 hnew)

theorem refer (h : locks.IsOrderly) (who : Nat) (name : String) :
    (locks.refer who name).IsOrderly := by
  obtain ⟨lock, heq⟩ := locks.refer_eq who name
  have hsound := h.toIsSound.refer who name
  have hnew := (h.prune name).register name
  rw [heq] at hsound ⊢
  refine ⟨hsound, hnew.isFresh, hnew.isApart, fun ref href => ?_, h.isOnce⟩
  exact List.mem_append_left _ (h.isReferred ref href)

theorem join (h : locks.IsOrderly) (href : ref ∈ locks.refs) (hnew : ref ∉ locks.queue) :
    (locks.join ref).IsOrderly where
  toIsSound := h.toIsSound.join ref
  isFresh := h.isFresh
  isApart := h.isApart
  isReferred := by
    simp only [Locks.join, List.mem_append, List.mem_singleton]
    rintro other (hother | rfl)
    · exact h.isReferred other hother
    · exact href
  isOnce := by
    refine h.isOnce.append (List.nodup_singleton _) fun other hother heq => hnew ?_
    rwa [← List.mem_singleton.1 heq]

theorem release (h : locks.IsOrderly) (ref : LockRef) : (locks.release ref).IsOrderly where
  toIsSound := h.toIsSound.release ref
  isFresh := h.isFresh
  isApart := h.isApart
  isReferred := by
    simp only [Locks.release, List.mem_filter]
    rintro other ⟨hother, hne⟩
    exact ⟨h.isReferred other hother, hne⟩
  isOnce := h.isOnce.filter _

theorem step (h : locks.IsOrderly) (hstep : Step locks locks') : locks'.IsOrderly := by
  cases hstep with
  | refer hnew => exact h.refer _ _
  | join href hnew => exact h.join href hnew
  | release ref => exact h.release ref

theorem of_isReached (h : locks.IsReached) : locks.IsOrderly := by
  induction h with
  | refl =>
      exact ⟨isSound_empty, by simp [empty], by simp [empty], by simp [empty], by simp [empty]⟩
  | tail _ hstep ih => exact ih.step hstep

theorem lock?_eq (h : locks.IsOrderly) (href : ref ∈ locks.refs) :
    locks.lock? ref.name = some ref.lock := by
  have hentry := h.isRegistered ref href
  cases hlock : locks.lock? ref.name with
  | none => exact absurd hentry (lock?_eq_none hlock ref.lock)
  | some lock => rw [h.isUnique _ _ _ (mem_of_lock? hlock) hentry]

theorem lock_eq_iff (h : locks.IsOrderly) {other : LockRef} (href : ref ∈ locks.refs)
    (hother : other ∈ locks.refs) : other.lock = ref.lock ↔ other.name = ref.name := by
  have hentry := h.isRegistered ref href
  have hentry' := h.isRegistered other hother
  constructor
  · intro hlock
    have hsame := List.inj_on_of_nodup_map h.isApart hentry' hentry hlock
    exact congrArg Prod.fst hsame
  · intro hname
    exact h.isUnique _ _ _ (hname ▸ hentry') hentry

theorem holder?_eq (h : locks.IsOrderly) (href : ref ∈ locks.queue) :
    locks.holder? ref.lock = locks.queue.find? (·.name == ref.name) := by
  refine List.find?_congr fun other hother => ?_
  have hiff := h.lock_eq_iff (h.isReferred ref href) (h.isReferred other hother)
  rw [Bool.eq_iff_iff, beq_iff_eq, beq_iff_eq, hiff]

theorem length_holders_le (h : locks.IsOrderly) (name : String) :
    (locks.holders name).length ≤ 1 := by
  have hnodup : (locks.holders name).Nodup := h.isOnce.filter _
  have hsame : ∀ ref ∈ locks.holders name, locks.queue.find? (·.name == name) = some ref := by
    intro ref href
    obtain ⟨hqueue, hname, hheld⟩ := by simpa [holders, isHeldBy] using href
    rw [← hheld, h.holder?_eq hqueue, hname]
  rcases hlist : locks.holders name with _ | ⟨first, _ | ⟨second, rest⟩⟩
  · exact Nat.zero_le 1
  · exact Nat.le_refl 1
  · rw [hlist] at hnodup hsame
    have heq := (hsame first (by simp)).symm.trans (hsame second (by simp))
    simp [Option.some.inj heq] at hnodup

theorem ne_of_dropped (h : locks.IsOrderly) (hstep : Step locks locks') {lock : Nat}
    (hentry : (name, lock) ∈ locks.registry) (hgone : (name, lock) ∉ locks'.registry)
    (href : ref ∈ locks.refs) : ref.name ≠ name ∧ ref.lock ≠ lock := by
  have hlock : ref.lock ≠ lock := by
    rintro rfl
    cases hstep with
    | @refer who asked hnew =>
        refine hgone (mem_registry_refer who (List.mem_filter.2 ⟨hentry, ?_⟩))
        simp only [isWanted, Bool.or_eq_true, List.any_eq_true]
        exact Or.inr ⟨ref, href, beq_self_eq_true _⟩
    | join _ _ => exact hgone hentry
    | release _ => exact hgone hentry
  refine ⟨?_, hlock⟩
  rintro rfl
  exact hlock (h.isUnique _ _ _ (h.isRegistered ref href) hentry)

theorem isHeldBy_join_refer (h : locks.IsOrderly) (hnew : locks.ref? who name = none)
    (hfree : ∀ other ∈ locks.queue, other.name ≠ name) :
    ∃ ref, (locks.refer who name).ref? who name = some ref
      ∧ ((locks.refer who name).join ref).isHeldBy ref = true := by
  obtain ⟨ref, href⟩ := ref?_refer hnew
  obtain ⟨hmem, -, rfl⟩ := mem_of_ref? href
  have hqueue := (refs_refer locks who ref.name).2
  have hnotMem : ref ∉ (locks.refer who ref.name).queue := by
    rw [hqueue]
    exact fun hold => hfree ref hold rfl
  have hjoined := (h.refer who ref.name).join hmem hnotMem
  have hfind : locks.queue.find? (·.name == ref.name) = none := by
    simpa using hfree
  refine ⟨ref, href, ?_⟩
  rw [isHeldBy, hjoined.holder?_eq (List.mem_append_right _ (List.mem_singleton_self ref))]
  simp [Locks.join, hqueue, List.find?_append, hfind]

end IsOrderly

theorem one_lock_for_each_name (h : locks.IsReached) :
    (∀ ref ∈ locks.refs ++ locks.queue, locks.lock? ref.name = some ref.lock)
      ∧ (∀ name, (locks.holders name).length ≤ 1)
      ∧ (∀ locks', Step locks locks' → ∀ name lock, (name, lock) ∈ locks.registry →
          (name, lock) ∉ locks'.registry → ∀ ref ∈ locks.refs ++ locks.queue,
            ref.name ≠ name ∧ ref.lock ≠ lock)
      ∧ (∀ ref ∈ locks.queue, locks.holder? ref.lock = locks.queue.find? (·.name == ref.name))
      ∧ ∀ who name, locks.ref? who name = none → (∀ other ∈ locks.queue, other.name ≠ name) →
          ∃ ref, (locks.refer who name).ref? who name = some ref
            ∧ ((locks.refer who name).join ref).isHeldBy ref = true := by
  have horderly := IsOrderly.of_isReached h
  have hrefs : ∀ ref ∈ locks.refs ++ locks.queue, ref ∈ locks.refs := by
    intro ref href
    rcases List.mem_append.1 href with href | href
    · exact href
    · exact horderly.isReferred ref href
  refine ⟨?_, horderly.length_holders_le, ?_, ?_, ?_⟩
  · exact fun ref href => horderly.lock?_eq (hrefs ref href)
  · intro locks' hstep name lock hentry hgone ref href
    exact horderly.ne_of_dropped hstep hentry hgone (hrefs ref href)
  · exact fun ref href => horderly.holder?_eq href
  · exact fun who name hnew hfree => horderly.isHeldBy_join_refer hnew hfree

def deserted : Locks :=
  ((empty.refer 1 "a").join ⟨1, "a", 0⟩ |>.refer 2 "b").release ⟨2, "b", 1⟩

def contended : Locks := (deserted.refer 3 "a").join ⟨3, "a", 0⟩

def handedOver : Locks := contended.release ⟨1, "a", 0⟩

/-- A lock given up before it was waited for is dropped when another is asked for; one that is held
goes to the next in the queue; a name that nobody is queued for has its lock free. -/
theorem contended_has_one_holder :
    (deserted.registry = [("a", 0), ("b", 1)] ∧ contended.registry = [("a", 0)]
        ∧ ∀ ref ∈ deserted.refs ++ deserted.queue, ref.name ≠ "b" ∧ ref.lock ≠ 1)
      ∧ (contended.queue = [⟨1, "a", 0⟩, ⟨3, "a", 0⟩] ∧ (contended.holders "a").length ≤ 1
        ∧ contended.holder? 0 = some ⟨1, "a", 0⟩ ∧ contended.lock? "a" = some 0)
      ∧ handedOver.holder? 0 = some ⟨3, "a", 0⟩
      ∧ ∃ ref, (contended.refer 4 "b").ref? 4 "b" = some ref
        ∧ ((contended.refer 4 "b").join ref).isHeldBy ref = true := by
  have hdeserted : deserted.IsReached := by
    refine .tail (.tail (.tail (.tail .refl (.refer ?_)) (.join ?_ ?_)) (.refer ?_)) (.release _)
      <;> decide
  have hreferred : Step deserted (deserted.refer 3 "a") := .refer (by decide)
  have hcontended : contended.IsReached :=
    .tail (.tail hdeserted hreferred) (.join (by decide) (by decide))
  have hhanded : handedOver.IsReached := .tail hcontended (.release _)
  have hdropped := (one_lock_for_each_name hdeserted).2.2.1 _ hreferred "b" 1
    (by decide) (by decide)
  obtain ⟨hlock, hone, -, hfirst, hfree⟩ := one_lock_for_each_name hcontended
  have hnext := (one_lock_for_each_name hhanded).2.2.2.1 ⟨3, "a", 0⟩ (by decide)
  refine ⟨⟨by decide, by decide, hdropped⟩, ⟨by decide, hone "a", ?_, ?_⟩, ?_, ?_⟩
  · exact (hfirst ⟨1, "a", 0⟩ (by decide)).trans (by decide)
  · exact hlock ⟨1, "a", 0⟩ (by decide)
  · exact hnext.trans (by decide)
  · exact hfree 4 "b" (by decide) (by decide)

theorem isReached_foldl_release (h : locks.IsReached) (refs : List LockRef) :
    (refs.foldl release locks).IsReached := by
  induction refs generalizing locks with
  | nil => exact h
  | cons ref refs ih => exact ih (h.tail (.release ref))

end Locks

namespace Traffic

variable {settings : EngineSettings} {mayFail : StoreCall → Bool} {zones : Zones}
  {feed : List ZoneChange} {s s' : Traffic} {who : Nat} {w : Worker}

theorem isReached_of_moved (h : s.locks.IsReached) (hmoved : Moved s who w s') :
    s'.locks.IsReached := by
  cases hmoved with
  | unlock _ =>
      simp only [advance, keep, giveBack]
      split
      · exact h.tail (.release _)
      · exact h
  | refer _ hnew => exact h.tail (.refer hnew)
  | join _ href hnew => exact h.tail (.join (Locks.mem_of_ref? href).1 hnew)
  | giveUp _ _ => exact Locks.isReached_foldl_release h _
  | _ => exact h

theorem locks_are_reached {events : List Event}
    (h : (start settings mayFail zones feed).run events = some s) : s.locks.IsReached :=
  run_induction h .refl (fun _ _ _ hreached => hreached)
    fun _ _ _ _ _ _ hreached _ _ hmoved => isReached_of_moved hreached hmoved

end Traffic

end ZoneKeeper
