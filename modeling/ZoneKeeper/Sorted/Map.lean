namespace ZoneKeeper

structure SortedMap (κ ν : Type) [Ord κ] where
  entries : List (κ × ν)
  sorted : entries.Pairwise fun a b => compare a.1 b.1 = .lt

namespace SortedMap

variable {κ ν : Type} [Ord κ]

def empty : SortedMap κ ν := ⟨[], .nil⟩

instance : Inhabited (SortedMap κ ν) := ⟨empty⟩

instance [BEq κ] [BEq ν] : BEq (SortedMap κ ν) := ⟨fun a b => a.entries == b.entries⟩

def keys (m : SortedMap κ ν) : List κ := m.entries.map (·.1)

def values (m : SortedMap κ ν) : List ν := m.entries.map (·.2)

def size (m : SortedMap κ ν) : Nat := m.entries.length

def isEmpty (m : SortedMap κ ν) : Bool := m.entries.isEmpty

def lookup (k : κ) : List (κ × ν) → Option ν
  | [] => none
  | (k', v) :: rest =>
      match compare k k' with
      | .lt => none
      | .eq => some v
      | .gt => lookup k rest

def get? (m : SortedMap κ ν) (k : κ) : Option ν := lookup k m.entries

def contains (m : SortedMap κ ν) (k : κ) : Bool := (m.get? k).isSome

def put (k : κ) (v : ν) : List (κ × ν) → List (κ × ν)
  | [] => [(k, v)]
  | (k', v') :: rest =>
      match compare k k' with
      | .lt => (k, v) :: (k', v') :: rest
      | .eq => (k, v) :: rest
      | .gt => (k', v') :: put k v rest

def drop (k : κ) : List (κ × ν) → List (κ × ν)
  | [] => []
  | (k', v') :: rest =>
      match compare k k' with
      | .lt => (k', v') :: rest
      | .eq => rest
      | .gt => (k', v') :: drop k rest

theorem mem_put {k : κ} {v : ν} {e : κ × ν} :
    ∀ {l : List (κ × ν)}, e ∈ put k v l → e = (k, v) ∨ e ∈ l := by
  intro l
  induction l with
  | nil => intro h; simpa [put] using h
  | cons head rest ih =>
      intro h
      simp only [put] at h
      split at h
      · simpa using h
      · simp only [List.mem_cons] at h ⊢
        rcases h with h | h
        · exact Or.inl h
        · exact Or.inr (Or.inr h)
      · simp only [List.mem_cons] at h ⊢
        rcases h with h | h
        · exact Or.inr (Or.inl h)
        · rcases ih h with h | h
          · exact Or.inl h
          · exact Or.inr (Or.inr h)

theorem mem_of_mem_drop {k : κ} {e : κ × ν} :
    ∀ {l : List (κ × ν)}, e ∈ drop k l → e ∈ l := by
  intro l
  induction l with
  | nil => intro h; simp [drop] at h
  | cons head rest ih =>
      intro h
      simp only [drop] at h
      split at h
      · exact h
      · exact List.mem_cons_of_mem _ h
      · rcases List.mem_cons.1 h with h | h
        · simp [h]
        · exact List.mem_cons_of_mem _ (ih h)

variable [Std.TransOrd κ] [Std.LawfulEqOrd κ]

theorem pairwise_put (k : κ) (v : ν) {l : List (κ × ν)}
    (h : l.Pairwise fun a b => compare a.1 b.1 = .lt) :
    (put k v l).Pairwise fun a b => compare a.1 b.1 = .lt := by
  induction l with
  | nil => simp [put]
  | cons head rest ih =>
      obtain ⟨k', v'⟩ := head
      have hrest := List.pairwise_cons.1 h
      simp only [put]
      split
      · next hlt =>
          refine List.pairwise_cons.2 ⟨?_, h⟩
          intro e he
          rcases List.mem_cons.1 he with rfl | he
          · exact hlt
          · exact Std.TransCmp.lt_trans hlt (hrest.1 e he)
      · next heq =>
          have hk : k = k' := Std.LawfulEqOrd.eq_of_compare heq
          subst hk
          exact List.pairwise_cons.2 ⟨hrest.1, hrest.2⟩
      · next hgt =>
          refine List.pairwise_cons.2 ⟨?_, ih hrest.2⟩
          intro e he
          rcases mem_put he with rfl | he
          · exact Std.OrientedCmp.gt_iff_lt.1 hgt
          · exact hrest.1 e he

omit [Std.TransOrd κ] [Std.LawfulEqOrd κ] in
theorem pairwise_drop (k : κ) {l : List (κ × ν)}
    (h : l.Pairwise fun a b => compare a.1 b.1 = .lt) :
    (drop k l).Pairwise fun a b => compare a.1 b.1 = .lt := by
  induction l with
  | nil => simp [drop]
  | cons head rest ih =>
      have hrest := List.pairwise_cons.1 h
      simp only [drop]
      split
      · exact h
      · exact hrest.2
      · exact List.pairwise_cons.2 ⟨fun e he => hrest.1 e (mem_of_mem_drop he), ih hrest.2⟩

def insert (m : SortedMap κ ν) (k : κ) (v : ν) : SortedMap κ ν :=
  ⟨put k v m.entries, pairwise_put k v m.sorted⟩

omit [Std.TransOrd κ] [Std.LawfulEqOrd κ] in
theorem ext_entries {m n : SortedMap κ ν} (h : m.entries = n.entries) : m = n := by
  cases m; cases n; cases h; rfl

def erase (m : SortedMap κ ν) (k : κ) : SortedMap κ ν :=
  ⟨drop k m.entries, pairwise_drop k m.sorted⟩

def ofList (entries : List (κ × ν)) : SortedMap κ ν :=
  entries.foldl (fun m e => m.insert e.1 e.2) empty

end SortedMap

abbrev SortedSet (α : Type) [Ord α] := SortedMap α Unit

namespace SortedSet

variable {α : Type} [Ord α]

def empty : SortedSet α := SortedMap.empty

def toList (s : SortedSet α) : List α := s.keys

def contains (s : SortedSet α) (a : α) : Bool := SortedMap.contains s a

variable [Std.TransOrd α] [Std.LawfulEqOrd α]

def insert (s : SortedSet α) (a : α) : SortedSet α := SortedMap.insert s a ()

def ofList (items : List α) : SortedSet α := items.foldl insert empty

end SortedSet

end ZoneKeeper
