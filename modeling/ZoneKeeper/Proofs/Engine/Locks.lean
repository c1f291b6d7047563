import ZoneKeeper.Engine.Locks

namespace ZoneKeeper

theorem find?_filter_of_find? {α : Type} {p q : α → Bool} {l : List α} {a : α}
    (h : l.find? q = some a) (ha : p a = true) : (l.filter p).find? q = some a := by
  rw [List.find?_filter]
  induction l with
  | nil => cases h
  | cons b rest ih =>
      rw [List.find?_cons] at h ⊢
      cases hb : q b with
      | true =>
          rw [hb] at h
          obtain rfl := Option.some.inj h
          simp [ha]
      | false =>
          rw [hb] at h
          simpa using ih h

namespace Locks

variable {locks : Locks} {who : Nat} {name : String} {ref : LockRef}

structure IsSound (locks : Locks) : Prop where
  isUnique : ∀ name lock lock', (name, lock) ∈ locks.registry → (name, lock') ∈ locks.registry →
    lock = lock'
  isRegistered : ∀ ref ∈ locks.refs, (ref.name, ref.lock) ∈ locks.registry

def isHolder (locks : Locks) (who : Nat) (name : String) : Bool :=
  (locks.ref? who name).any locks.isHeldBy

theorem isHolder_iff : locks.isHolder who name = true
    ↔ ∃ ref, locks.ref? who name = some ref ∧ locks.holder? ref.lock = some ref := by
  simp [isHolder, Option.any_eq_true, isHeldBy]

theorem mem_of_ref? (h : locks.ref? who name = some ref) :
    ref ∈ locks.refs ∧ ref.who = who ∧ ref.name = name := by
  refine ⟨List.mem_of_find?_eq_some h, ?_⟩
  simpa using List.find?_some h

theorem mem_of_lock? {lock : Nat} (h : locks.lock? name = some lock) :
    (name, lock) ∈ locks.registry := by
  obtain ⟨⟨n, l⟩, hfind, rfl⟩ := Option.map_eq_some_iff.1 h
  obtain rfl : n = name := by simpa using List.find?_some hfind
  exact List.mem_of_find?_eq_some hfind

theorem lock?_eq_none (h : locks.lock? name = none) (lock : Nat) :
    (name, lock) ∉ locks.registry := by
  intro hmem
  have hfind := List.find?_eq_none.1 (Option.map_eq_none_iff.1 h) _ hmem
  simp at hfind

theorem IsSound.holder_unique (hs : locks.IsSound) {who' : Nat}
    (h : locks.isHolder who name = true) (h' : locks.isHolder who' name = true) : who = who' := by
  obtain ⟨ref, href, hholds⟩ := isHolder_iff.1 h
  obtain ⟨ref', href', hholds'⟩ := isHolder_iff.1 h'
  obtain ⟨hmem, rfl, rfl⟩ := mem_of_ref? href
  obtain ⟨hmem', rfl, hname⟩ := mem_of_ref? href'
  have hlock := hs.isUnique _ _ _ (hs.isRegistered ref hmem) (hname ▸ hs.isRegistered ref' hmem')
  rw [hlock, hholds'] at hholds
  rw [Option.some.inj hholds]

theorem isSound_empty : empty.IsSound := ⟨by simp [empty], by simp [empty]⟩

theorem IsSound.prune (hs : locks.IsSound) (name : String) : (locks.prune name).IsSound := by
  refine ⟨fun n l l' h h' => hs.isUnique n l l' (List.mem_filter.1 h).1 (List.mem_filter.1 h').1,
    fun ref href => List.mem_filter.2 ⟨hs.isRegistered ref href, ?_⟩⟩
  simp only [isWanted, Bool.or_eq_true, List.any_eq_true]
  exact Or.inr ⟨ref, href, by simp⟩

theorem IsSound.register (hs : locks.IsSound) (name : String) :
    (locks.register name).IsSound := by
  unfold Locks.register
  split
  · exact hs
  · next hnone =>
      refine ⟨?_, fun ref href => List.mem_append_left _ (hs.isRegistered ref href)⟩
      intro n l l' h h'
      simp only [List.mem_append, List.mem_singleton, Prod.mk.injEq] at h h'
      rcases h with h | ⟨rfl, rfl⟩
      · rcases h' with h' | ⟨rfl, rfl⟩
        · exact hs.isUnique n l l' h h'
        · exact absurd h (lock?_eq_none hnone l)
      · rcases h' with h' | ⟨-, rfl⟩
        · exact absurd h' (lock?_eq_none hnone l')
        · rfl

theorem IsSound.refer (hs : locks.IsSound) (who : Nat) (name : String) :
    (locks.refer who name).IsSound := by
  have hnew := (hs.prune name).register name
  simp only [Locks.refer]
  split
  · next lock hlock =>
      refine ⟨hnew.isUnique, fun ref href => ?_⟩
      rcases List.mem_append.1 href with href | href
      · exact hnew.isRegistered ref href
      · obtain rfl := List.mem_singleton.1 href
        exact mem_of_lock? hlock
  · exact hnew

theorem IsSound.join (hs : locks.IsSound) (ref : LockRef) : (locks.join ref).IsSound :=
  ⟨hs.isUnique, hs.isRegistered⟩

theorem IsSound.release (hs : locks.IsSound) (ref : LockRef) : (locks.release ref).IsSound :=
  ⟨hs.isUnique, fun r hr => hs.isRegistered r (List.mem_filter.1 hr).1⟩

theorem refs_refer (locks : Locks) (who : Nat) (name : String) :
    (∃ new, (locks.refer who name).refs = locks.refs ++ new)
      ∧ (locks.refer who name).queue = locks.queue := by
  have hregister : ((locks.prune name).register name).refs = locks.refs
      ∧ ((locks.prune name).register name).queue = locks.queue := by
    unfold Locks.register
    split <;> exact ⟨rfl, rfl⟩
  simp only [refer]
  split
  · exact ⟨⟨_, by rw [hregister.1]⟩, hregister.2⟩
  · exact ⟨⟨[], by rw [hregister.1, List.append_nil]⟩, hregister.2⟩

theorem isHolder_refer (h : locks.isHolder who name = true) (who' : Nat) (name' : String) :
    (locks.refer who' name').isHolder who name = true := by
  obtain ⟨ref, href, hholds⟩ := isHolder_iff.1 h
  obtain ⟨⟨new, hrefs⟩, hqueue⟩ := refs_refer locks who' name'
  refine isHolder_iff.2 ⟨ref, ?_, ?_⟩
  · unfold ref? at href ⊢
    rw [hrefs, List.find?_append, href, Option.some_or]
  · unfold holder? at hholds ⊢
    rw [hqueue, hholds]

theorem isHolder_join (h : locks.isHolder who name = true) (ref : LockRef) :
    (locks.join ref).isHolder who name = true := by
  obtain ⟨own, hown, hholds⟩ := isHolder_iff.1 h
  refine isHolder_iff.2 ⟨own, hown, ?_⟩
  unfold holder? at hholds ⊢
  simp only [join, List.find?_append, hholds, Option.some_or]

theorem isHolder_release (h : locks.isHolder who name = true) (hother : ref.who ≠ who) :
    (locks.release ref).isHolder who name = true := by
  obtain ⟨own, hown, hholds⟩ := isHolder_iff.1 h
  have hne : (own != ref) = true := by
    rw [bne_iff_ne]
    rintro rfl
    exact hother (mem_of_ref? hown).2.1
  exact isHolder_iff.2 ⟨own, find?_filter_of_find? hown hne, find?_filter_of_find? hholds hne⟩

theorem isHolder_foldl_release {refs : List LockRef} (h : locks.isHolder who name = true)
    (hother : ∀ ref ∈ refs, ref.who ≠ who) :
    (refs.foldl release locks).isHolder who name = true := by
  induction refs generalizing locks with
  | nil => exact h
  | cons ref rest ih =>
      exact ih (isHolder_release h (hother ref List.mem_cons_self))
        fun r hr => hother r (List.mem_cons_of_mem _ hr)

theorem isSound_foldl_release (hs : locks.IsSound) (refs : List LockRef) :
    (refs.foldl release locks).IsSound := by
  induction refs generalizing locks with
  | nil => exact hs
  | cons ref rest ih => exact ih (hs.release ref)

end Locks

end ZoneKeeper
