import Mathlib.Data.List.Perm.Subperm
import ZoneKeeper.Sorted.Map

namespace ZoneKeeper.SortedMap

variable {κ ν : Type} [Ord κ] [Std.TransOrd κ] [Std.LawfulEqOrd κ]

omit [Std.LawfulEqOrd κ] in
theorem key_ne_of_lt_head {k : κ} {e : κ × ν} {rest : List (κ × ν)} (hlt : compare k e.1 = .lt)
    (h : (e :: rest).Pairwise fun a b => compare a.1 b.1 = .lt) : ∀ x ∈ e :: rest, x.1 ≠ k := by
  rintro x hx rfl
  rcases List.mem_cons.1 hx with rfl | hx
  · simp [Std.ReflCmp.compare_self] at hlt
  · have := Std.TransCmp.lt_trans hlt ((List.pairwise_cons.1 h).1 x hx)
    simp [Std.ReflCmp.compare_self] at this

omit [Std.LawfulEqOrd κ] in
theorem key_ne_head {e : κ × ν} {rest : List (κ × ν)}
    (h : (e :: rest).Pairwise fun a b => compare a.1 b.1 = .lt) : ∀ x ∈ rest, x.1 ≠ e.1 := by
  intro x hx hxe
  have := (List.pairwise_cons.1 h).1 x hx
  simp [hxe, Std.ReflCmp.compare_self] at this

theorem lookup_eq_some_iff {k : κ} {v : ν} {l : List (κ × ν)}
    (h : l.Pairwise fun a b => compare a.1 b.1 = .lt) : lookup k l = some v ↔ (k, v) ∈ l := by
  induction l with
  | nil => simp [lookup]
  | cons head rest ih =>
      obtain ⟨k', v'⟩ := head
      have hrest := List.pairwise_cons.1 h
      simp only [lookup, List.mem_cons, Prod.mk.injEq]
      split
      · next hlt =>
          have hnot : (k, v) ∉ (k', v') :: rest := fun hmem => key_ne_of_lt_head hlt h _ hmem rfl
          simpa using hnot
      · next heq =>
          have hkk : k = k' := Std.LawfulEqOrd.eq_of_compare heq
          subst hkk
          have hnot : (k, v) ∉ rest := fun hmem => key_ne_head h _ hmem rfl
          simp [hnot, eq_comm]
      · next hgt =>
          have hne : k ≠ k' := by
            rintro rfl
            simp [Std.ReflCmp.compare_self] at hgt
          simp [hne, ih hrest.2]

theorem get?_eq_some_iff {m : SortedMap κ ν} {k : κ} {v : ν} :
    m.get? k = some v ↔ (k, v) ∈ m.entries :=
  lookup_eq_some_iff m.sorted

theorem mem_put_iff {k : κ} {v : ν} {e : κ × ν} {l : List (κ × ν)}
    (h : l.Pairwise fun a b => compare a.1 b.1 = .lt) :
    e ∈ put k v l ↔ e = (k, v) ∨ (e ∈ l ∧ e.1 ≠ k) := by
  induction l with
  | nil => simp [put]
  | cons head rest ih =>
      obtain ⟨k', v'⟩ := head
      have hrest := List.pairwise_cons.1 h
      simp only [put]
      split
      · next hlt =>
          have hall := key_ne_of_lt_head hlt h
          constructor
          · intro hmem
            rcases List.mem_cons.1 hmem with rfl | hmem
            · exact Or.inl rfl
            · exact Or.inr ⟨hmem, hall e hmem⟩
          · rintro (rfl | ⟨hmem, -⟩)
            · exact List.mem_cons_self
            · exact List.mem_cons_of_mem _ hmem
      · next heq =>
          have hkk : k = k' := Std.LawfulEqOrd.eq_of_compare heq
          subst hkk
          have hall := key_ne_head h
          simp only [List.mem_cons]
          constructor
          · rintro (rfl | hmem)
            · exact Or.inl rfl
            · exact Or.inr ⟨Or.inr hmem, hall e hmem⟩
          · rintro (rfl | ⟨rfl | hmem, hne⟩)
            · exact Or.inl rfl
            · exact absurd rfl hne
            · exact Or.inr hmem
      · next hgt =>
          have hne : k' ≠ k := by
            rintro rfl
            simp [Std.ReflCmp.compare_self] at hgt
          simp only [List.mem_cons, ih hrest.2]
          constructor
          · rintro (rfl | rfl | ⟨hmem, hek⟩)
            · exact Or.inr ⟨Or.inl rfl, hne⟩
            · exact Or.inl rfl
            · exact Or.inr ⟨Or.inr hmem, hek⟩
          · rintro (rfl | ⟨rfl | hmem, hek⟩)
            · exact Or.inr (Or.inl rfl)
            · exact Or.inl rfl
            · exact Or.inr (Or.inr ⟨hmem, hek⟩)

theorem mem_drop_iff {k : κ} {e : κ × ν} {l : List (κ × ν)}
    (h : l.Pairwise fun a b => compare a.1 b.1 = .lt) :
    e ∈ drop k l ↔ e ∈ l ∧ e.1 ≠ k := by
  induction l with
  | nil => simp [drop]
  | cons head rest ih =>
      obtain ⟨k', v'⟩ := head
      have hrest := List.pairwise_cons.1 h
      simp only [drop]
      split
      · next hlt =>
          have hall := key_ne_of_lt_head hlt h
          exact ⟨fun hmem => ⟨hmem, hall e hmem⟩, fun hmem => hmem.1⟩
      · next heq =>
          have hkk : k = k' := Std.LawfulEqOrd.eq_of_compare heq
          subst hkk
          have hall := key_ne_head h
          constructor
          · intro hmem
            exact ⟨List.mem_cons_of_mem _ hmem, hall e hmem⟩
          · rintro ⟨hmem, hek⟩
            rcases List.mem_cons.1 hmem with rfl | hmem
            · exact absurd rfl hek
            · exact hmem
      · next hgt =>
          have hne : k' ≠ k := by
            rintro rfl
            simp [Std.ReflCmp.compare_self] at hgt
          simp only [List.mem_cons, ih hrest.2]
          constructor
          · rintro (rfl | ⟨hmem, hek⟩)
            · exact ⟨Or.inl rfl, hne⟩
            · exact ⟨Or.inr hmem, hek⟩
          · rintro ⟨rfl | hmem, hek⟩
            · exact Or.inl rfl
            · exact Or.inr ⟨hmem, hek⟩

omit [Std.TransOrd κ] [Std.LawfulEqOrd κ] in
@[simp] theorem get?_empty (k : κ) : (empty : SortedMap κ ν).get? k = none := rfl

theorem get?_insert [DecidableEq κ] (m : SortedMap κ ν) (k k' : κ) (v : ν) :
    (m.insert k v).get? k' = if k' = k then some v else m.get? k' := by
  ext w
  rw [get?_eq_some_iff, insert, mem_put_iff m.sorted]
  by_cases h : k' = k
  · simp [h, eq_comm]
  · simp [h, get?_eq_some_iff]

theorem get?_erase [DecidableEq κ] (m : SortedMap κ ν) (k k' : κ) :
    (m.erase k).get? k' = if k' = k then none else m.get? k' := by
  ext w
  rw [get?_eq_some_iff, erase, mem_drop_iff m.sorted]
  by_cases h : k' = k
  · simp [h]
  · simp [h, get?_eq_some_iff]

theorem entries_unique {l l' : List (κ × ν)}
    (h : l.Pairwise fun a b => compare a.1 b.1 = .lt)
    (h' : l'.Pairwise fun a b => compare a.1 b.1 = .lt) (hmem : ∀ e, e ∈ l ↔ e ∈ l') : l = l' := by
  induction l generalizing l' with
  | nil =>
      cases l' with
      | nil => rfl
      | cons e' rest' => exact absurd ((hmem e').2 List.mem_cons_self) (by simp)
  | cons e rest ih =>
      cases l' with
      | nil => exact absurd ((hmem e).1 List.mem_cons_self) (by simp)
      | cons e' rest' =>
          have hrest := List.pairwise_cons.1 h
          have hrest' := List.pairwise_cons.1 h'
          have irrefl (x : κ × ν) : compare x.1 x.1 ≠ .lt := by
            simp [Std.ReflCmp.compare_self]
          have hhead : e = e' := by
            rcases List.mem_cons.1 ((hmem e).1 List.mem_cons_self) with he | he
            · exact he
            · rcases List.mem_cons.1 ((hmem e').2 List.mem_cons_self) with he' | he'
              · exact he'.symm
              · have hlt := Std.TransCmp.lt_trans (hrest'.1 e he) (hrest.1 e' he')
                exact absurd hlt (irrefl e')
          subst hhead
          have hsame : ∀ x, x ∈ rest ↔ x ∈ rest' := by
            intro x
            constructor
            · intro hx
              rcases List.mem_cons.1 ((hmem x).1 (List.mem_cons_of_mem _ hx)) with rfl | hx'
              · exact absurd (hrest.1 x hx) (irrefl x)
              · exact hx'
            · intro hx
              rcases List.mem_cons.1 ((hmem x).2 (List.mem_cons_of_mem _ hx)) with rfl | hx'
              · exact absurd (hrest'.1 x hx) (irrefl x)
              · exact hx'
          rw [ih hrest.2 hrest'.2 hsame]

theorem ext_get? {m n : SortedMap κ ν} (h : ∀ k, m.get? k = n.get? k) : m = n := by
  apply ext_entries
  apply entries_unique m.sorted n.sorted
  rintro ⟨k, v⟩
  rw [← get?_eq_some_iff, ← get?_eq_some_iff, h k]

theorem mem_values_iff {m : SortedMap κ ν} {v : ν} : v ∈ m.values ↔ ∃ k, m.get? k = some v := by
  simp only [values, List.mem_map, Prod.exists, exists_eq_right, get?_eq_some_iff]

theorem get?_ofList [DecidableEq κ] (f : κ → Option ν) {l : List (κ × ν)}
    (h : ∀ e ∈ l, f e.1 = some e.2) (k : κ) :
    (ofList l).get? k = if k ∈ l.map (·.1) then f k else none := by
  have general (m : SortedMap κ ν) :
      (l.foldl (fun m e => m.insert e.1 e.2) m).get? k
        = if k ∈ l.map (·.1) then f k else m.get? k := by
    induction l generalizing m with
    | nil => simp
    | cons e rest ih =>
        have hrest : ∀ x ∈ rest, f x.1 = some x.2 := fun x hx => h x (List.mem_cons_of_mem _ hx)
        have he : f e.1 = some e.2 := h e List.mem_cons_self
        rw [List.foldl_cons, ih hrest, get?_insert]
        by_cases hk : k = e.1
        · subst hk
          simp [he]
        · have hmem : k ∈ (e :: rest).map (·.1) ↔ k ∈ rest.map (·.1) := by
            rw [List.map_cons, List.mem_cons, or_iff_right hk]
          rw [if_neg hk]
          simp only [hmem]
  exact general empty

theorem isEmpty_iff {m : SortedMap κ ν} : m.isEmpty = true ↔ ∀ k, m.get? k = none := by
  constructor
  · intro h k
    rw [isEmpty, List.isEmpty_iff] at h
    rw [get?, h, lookup]
  · intro h
    rw [isEmpty, List.isEmpty_iff, List.eq_nil_iff_forall_not_mem]
    rintro ⟨k, v⟩ he
    rw [← get?_eq_some_iff, h k] at he
    cases he

omit [Std.TransOrd κ] [Std.LawfulEqOrd κ] in
theorem beq_iff_eq [BEq κ] [LawfulBEq κ] [BEq ν] [LawfulBEq ν] {m n : SortedMap κ ν} :
    (m == n) = true ↔ m = n := by
  constructor
  · intro h
    exact ext_entries (eq_of_beq (show (m.entries == n.entries) = true from h))
  · rintro rfl
    exact beq_self_eq_true m.entries

end ZoneKeeper.SortedMap

namespace ZoneKeeper.SortedSet

variable {α : Type} [Ord α] [Std.TransOrd α] [Std.LawfulEqOrd α]

theorem mem_toList_iff {s : SortedSet α} {a : α} : a ∈ s.toList ↔ s.get? a = some () := by
  rw [SortedMap.get?_eq_some_iff, toList, SortedMap.keys, List.mem_map]
  constructor
  · rintro ⟨⟨_, ⟨⟩⟩, he, rfl⟩
    exact he
  · intro he
    exact ⟨(a, ()), he, rfl⟩

theorem mem_toList_ofList [DecidableEq α] {l : List α} {a : α} :
    a ∈ (ofList l).toList ↔ a ∈ l := by
  have general (s : SortedSet α) :
      (l.foldl insert s).get? a = some () ↔ a ∈ l ∨ s.get? a = some () := by
    induction l generalizing s with
    | nil => simp
    | cons b rest ih =>
        rw [List.foldl_cons, ih, insert, SortedMap.get?_insert]
        by_cases hb : a = b
        · simp [hb]
        · simp [hb]
  rw [mem_toList_iff, ofList, general empty]
  simp [empty]

theorem isEmpty_ofList [DecidableEq α] {l : List α} : (ofList l).isEmpty = true ↔ l = [] := by
  rw [SortedMap.isEmpty_iff, List.eq_nil_iff_forall_not_mem]
  refine forall_congr' fun a => ?_
  rw [← mem_toList_ofList, mem_toList_iff]
  cases (ofList l).get? a <;> simp

theorem ofList_eq_iff [DecidableEq α] {l l' : List α} :
    ofList l = ofList l' ↔ ∀ a, a ∈ l ↔ a ∈ l' := by
  constructor
  · intro h a
    rw [← mem_toList_ofList, h, mem_toList_ofList]
  · intro h
    refine SortedMap.ext_get? fun a => Option.ext fun u => ?_
    rw [← mem_toList_iff, ← mem_toList_iff, mem_toList_ofList, mem_toList_ofList, h a]

omit [Std.LawfulEqOrd α] in
theorem nodup_toList (s : SortedSet α) : s.toList.Nodup := by
  rw [toList, SortedMap.keys, List.Nodup, List.pairwise_map]
  refine s.sorted.imp fun {a b} hlt heq => ?_
  have hself : compare b.1 b.1 = .eq := Std.ReflCmp.compare_self
  rw [heq, hself] at hlt
  cases hlt

theorem perm_toList_ofList [DecidableEq α] {l : List α} (h : l.Nodup) :
    (ofList l).toList.Perm l :=
  (List.perm_ext_iff_of_nodup (nodup_toList _) h).2 fun _ => mem_toList_ofList

theorem perm_toList_of_size [DecidableEq α] {l : List α} (h : (ofList l).size = l.length) :
    (ofList l).toList.Perm l := by
  have hlength : (ofList l).toList.length = l.length := (List.length_map _).trans h
  exact (List.subperm_of_subset (nodup_toList _)
    fun _ => mem_toList_ofList.1).perm_of_length_le (Nat.le_of_eq hlength.symm)

end ZoneKeeper.SortedSet
