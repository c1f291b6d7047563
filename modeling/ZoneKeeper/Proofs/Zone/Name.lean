import ZoneKeeper.Zone.Basic

namespace ZoneKeeper

theorem toLower_eq_self {c : Char} (h : ¬ (65 ≤ c.toNat ∧ c.toNat ≤ 90)) : c.toLower = c := by
  have h' : ¬ (c.val ≥ 'A'.val ∧ c.val ≤ 'Z'.val) := h
  exact dif_neg h'

theorem toNat_toLower {c : Char} (h : 65 ≤ c.toNat ∧ c.toNat ≤ 90) :
    c.toLower.toNat = c.toNat + 32 := by
  have h' : c.val ≥ 'A'.val ∧ c.val ≤ 'Z'.val := h
  rw [show c.toLower = _ from dif_pos h']
  change (c.val + 32).toNat = c.val.toNat + 32
  have : c.val.toNat ≤ 90 := h.2
  rw [UInt32.toNat_add]
  exact Nat.mod_eq_of_lt (by simp; omega)

theorem toLower_toLower (c : Char) : c.toLower.toLower = c.toLower := by
  by_cases h : 65 ≤ c.toNat ∧ c.toNat ≤ 90
  · apply toLower_eq_self
    rw [toNat_toLower h]
    omega
  · rw [toLower_eq_self h, toLower_eq_self h]

theorem toLower_eq_dot {c : Char} : c.toLower = '.' ↔ c = '.' := by
  by_cases h : 65 ≤ c.toNat ∧ c.toNat ≤ 90
  · constructor
    · intro hc
      have := toNat_toLower h
      rw [hc] at this
      have hd : '.'.toNat = 46 := rfl
      omega
    · rintro rfl
      have hd : '.'.toNat = 46 := rfl
      omega
  · rw [toLower_eq_self h]

theorem dropWhile_dropWhile {α : Type} (p : α → Bool) (l : List α) :
    (l.dropWhile p).dropWhile p = l.dropWhile p := by
  induction l with
  | nil => rfl
  | cons a rest ih =>
      rw [List.dropWhile_cons]
      split
      · exact ih
      · next h => rw [List.dropWhile_cons, if_neg h]

theorem normalizeDomain_normalizeDomain (name : String) :
    normalizeDomain (normalizeDomain name) = normalizeDomain name := by
  unfold normalizeDomain
  rw [String.toList_ofList]
  congr 1
  rw [← List.map_reverse, List.reverse_reverse, List.dropWhile_map, ← List.map_reverse]
  have hp : ((· == '.') ∘ Char.toLower) = (· == '.') := by
    funext c
    rw [Bool.eq_iff_iff, beq_iff_eq]
    exact (beq_iff_eq).trans toLower_eq_dot
  rw [hp, dropWhile_dropWhile, List.map_map]
  congr 1
  funext c
  exact toLower_toLower c

end ZoneKeeper
