import Mathlib.Data.List.Basic
import ZoneKeeper.Text.Basic

namespace ZoneKeeper

theorem splitOn_eq {α : Type} [BEq α] (sep : α) (l : List α) : splitOn sep l = l.splitOn sep := by
  induction l with
  | nil => rfl
  | cons a rest ih =>
      rw [splitOn, List.splitOn_cons_eq_if_modifyHead, ih]
      split
      · rfl
      · cases hrest : rest.splitOn sep with
        | nil => exact absurd hrest (List.splitOn_ne_nil sep rest)
        | cons piece pieces => rfl

theorem splitOn_append {α : Type} [BEq α] [LawfulBEq α] (sep : α) (l r : List α) :
    splitOn sep (l ++ sep :: r) = splitOn sep l ++ splitOn sep r := by
  induction l with
  | nil => simp [splitOn]
  | cons a rest ih =>
      rw [List.cons_append, splitOn, splitOn, ih]
      split
      · rfl
      · cases h : splitOn sep rest with
        | nil => exact absurd (splitOn_eq sep rest ▸ h) (List.splitOn_ne_nil sep rest)
        | cons piece pieces => rfl

theorem notMem_of_mem_splitOn {α : Type} [BEq α] [LawfulBEq α] {sep : α} {l piece : List α}
    (h : piece ∈ splitOn sep l) : sep ∉ piece := by
  induction l generalizing piece with
  | nil =>
      obtain rfl := List.mem_singleton.1 h
      exact List.not_mem_nil
  | cons a rest ih =>
      rw [splitOn] at h
      split at h
      · rcases List.mem_cons.1 h with rfl | h
        · exact List.not_mem_nil
        · exact ih h
      · next hne =>
          have ha : sep ≠ a := fun heq => hne (beq_iff_eq.2 heq.symm)
          split at h
          · obtain rfl := List.mem_singleton.1 h
            exact mt List.mem_singleton.1 ha
          · next first pieces heq =>
              rw [heq] at ih
              rcases List.mem_cons.1 h with rfl | h
              · exact List.not_mem_cons_of_ne_of_not_mem ha (ih List.mem_cons_self)
              · exact ih (List.mem_cons_of_mem _ h)

namespace Octets

variable {sep : UInt8} {t : Octets}

theorem splitOn_ne_nil (sep : UInt8) (t : Octets) : t.splitOn sep ≠ [] := by
  rw [splitOn, splitOn_eq]
  exact List.splitOn_ne_nil sep t

theorem splitOn_joinWith {pieces : List Octets} (hsep : ∀ piece ∈ pieces, sep ∉ piece)
    (hne : pieces ≠ []) : (joinWith [sep] pieces).splitOn sep = pieces := by
  rw [splitOn, splitOn_eq]
  exact List.splitOn_intercalate sep hsep hne

theorem joinWith_splitOn (sep : UInt8) (t : Octets) : joinWith [sep] (t.splitOn sep) = t := by
  rw [splitOn, splitOn_eq]
  exact List.intercalate_splitOn sep

theorem splitOn_of_notMem (ht : sep ∉ t) : t.splitOn sep = [t] := by
  rw [splitOn, splitOn_eq]
  exact List.splitOn_eq_singleton ht

theorem mem_joinWith {b : UInt8} {pieces : List Octets} (h : b ∈ joinWith [sep] pieces) :
    b = sep ∨ ∃ piece ∈ pieces, b ∈ piece := by
  induction pieces with
  | nil => cases h
  | cons piece rest ih =>
      cases rest with
      | nil => exact Or.inr ⟨piece, List.mem_cons_self, by simpa [joinWith] using h⟩
      | cons next rest =>
          rw [joinWith, List.intercalate_cons_cons, List.append_assoc, List.mem_append,
            List.mem_append, List.mem_singleton] at h
          rcases h with h | h | h
          · exact Or.inr ⟨piece, List.mem_cons_self, h⟩
          · exact Or.inl h
          · obtain hsep | ⟨other, hother, hb⟩ := ih h
            · exact Or.inl hsep
            · exact Or.inr ⟨other, List.mem_cons_of_mem _ hother, hb⟩

theorem all_joinWith {p : UInt8 → Bool} {pieces : List Octets} (hsep : p sep = true)
    (h : ∀ piece ∈ pieces, piece.all p = true) : (joinWith [sep] pieces).all p = true := by
  refine List.all_eq_true.2 fun b hb => ?_
  rcases mem_joinWith hb with rfl | ⟨piece, hpiece, hb⟩
  · exact hsep
  · exact List.all_eq_true.1 (h piece hpiece) b hb

theorem joinWith_ne_nil {pieces : List Octets} (h : ∀ piece ∈ pieces, piece ≠ [])
    (hne : pieces ≠ []) : joinWith [sep] pieces ≠ [] := by
  cases pieces with
  | nil => exact absurd rfl hne
  | cons piece rest =>
      cases rest with
      | nil => simpa [joinWith] using h
      | cons next rest => simp [joinWith]

section Items

variable {α : Type} {write : α → Octets} {items : List α}

theorem splitOn_joinWith_map (hsep : ∀ a, sep ∉ write a) (hne : items ≠ []) :
    (joinWith [sep] (items.map write)).splitOn sep = items.map write :=
  splitOn_joinWith (List.forall_mem_map.2 fun a _ => hsep a) (by simpa using hne)

theorem mem_joinWith_map {b : UInt8} (h : b ∈ joinWith [sep] (items.map write)) :
    b = sep ∨ ∃ a ∈ items, b ∈ write a := by
  simpa using mem_joinWith h

theorem all_joinWith_map {p : UInt8 → Bool} (hsep : p sep = true)
    (h : ∀ a, (write a).all p = true) : (joinWith [sep] (items.map write)).all p = true :=
  all_joinWith hsep (List.forall_mem_map.2 fun a _ => h a)

theorem joinWith_map_ne_nil (h : ∀ a, write a ≠ []) (hne : items ≠ []) :
    joinWith [sep] (items.map write) ≠ [] :=
  joinWith_ne_nil (List.forall_mem_map.2 fun a _ => h a) (by simpa using hne)

end Items

theorem cut_append_cons {p : Octets} (hp : sep ∉ p) : cut sep (p ++ sep :: t) = some (p, t) := by
  induction p with
  | nil => simp [cut]
  | cons b p ih =>
      obtain ⟨hb, hp⟩ := not_or.1 (mt List.mem_cons.2 hp)
      rw [List.cons_append, cut, if_neg (by simpa using Ne.symm hb), ih hp]
      rfl

theorem eq_of_cut {p r : Octets} (h : cut sep t = some (p, r)) : t = p ++ sep :: r := by
  induction t generalizing p with
  | nil => cases h
  | cons b rest ih =>
      rw [cut] at h
      split at h
      · next hb =>
          obtain ⟨rfl, rfl⟩ := Prod.mk.inj (Option.some.inj h)
          rw [beq_iff_eq.1 hb, List.nil_append]
      · obtain ⟨⟨before, after⟩, hcut, heq⟩ := Option.map_eq_some_iff.1 h
        obtain ⟨rfl, rfl⟩ := Prod.mk.inj heq
        rw [ih hcut, List.cons_append]

theorem cut_of_notMem (ht : sep ∉ t) : cut sep t = none := by
  induction t with
  | nil => rfl
  | cons b rest ih =>
      obtain ⟨hb, hrest⟩ := not_or.1 (mt List.mem_cons.2 ht)
      rw [cut, if_neg (by simpa using Ne.symm hb), ih hrest]
      rfl

theorem cutLast_of_notMem (ht : sep ∉ t) : cutLast sep t = none := by
  induction t with
  | nil => rfl
  | cons b rest ih =>
      obtain ⟨hb, hrest⟩ := not_or.1 (mt List.mem_cons.2 ht)
      rw [cutLast, ih hrest]
      exact if_neg (by simpa using Ne.symm hb)

theorem cutLast_append_cons (p : Octets) (ht : sep ∉ t) :
    cutLast sep (p ++ sep :: t) = some (p, t) := by
  induction p with
  | nil =>
      rw [List.nil_append, cutLast, cutLast_of_notMem ht]
      exact if_pos (beq_self_eq_true sep)
  | cons b p ih => rw [List.cons_append, cutLast, ih]

end Octets

end ZoneKeeper
