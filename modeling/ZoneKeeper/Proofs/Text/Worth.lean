import Mathlib.Data.Nat.Digits.Defs
import Mathlib.Data.Rat.Defs
import Mathlib.Tactic.LinearCombination
import ZoneKeeper.Proofs.Text.Numeral

namespace ZoneKeeper

namespace Decimal

theorem ofDigits_tens (t : Octets) :
    Nat.ofDigits 10 (t.map Octet.digitValue).reverse = ofDigits t := by
  induction t using List.reverseRecOn with
  | nil => rfl
  | append_singleton t b ih =>
      have hlast : ofDigits (t ++ [b]) = 10 * ofDigits t + Octet.digitValue b :=
        ofDigits_append t [b]
      rw [List.map_append, List.reverse_append, List.map_singleton, List.reverse_singleton,
        List.singleton_append, Nat.ofDigits_cons, ih, hlast, Nat.add_comm]

theorem ofDigits_tenths (t : Octets) :
    Nat.ofDigits (1 / 10 : ℚ) (0 :: t.map Octet.digitValue) * 10 ^ t.length = ofDigits t := by
  have htail : Nat.ofDigits (1 / 10 : ℚ) (t.map Octet.digitValue) * 10 ^ t.length
      = 10 * ofDigits t := by
    induction t with
    | nil => simp [Nat.ofDigits, ofDigits]
    | cons b t ih =>
        rw [List.map_cons, Nat.ofDigits, List.length_cons, ofDigits_cons, pow_succ]
        push_cast
        linear_combination ih
  rw [Nat.ofDigits, Nat.cast_zero]
  linear_combination htail / 10

structure Numeral where
  isNegative : Bool
  whole : Octets
  places : Option Octets
  whole_ne_nil : whole ≠ []
  isDigit : ∀ b ∈ whole ++ places.getD [], Octet.isDigit b = true

namespace Numeral

def pointed : Option Octets → Octets
  | none => []
  | some places => Octet.dot :: places

def text (n : Numeral) : Octets :=
  (if n.isNegative then [Octet.hyphen] else []) ++ n.whole ++ pointed n.places

def size (n : Numeral) : ℚ :=
  (Nat.ofDigits 10 (n.whole.map Octet.digitValue).reverse : ℕ)
    + Nat.ofDigits (1 / 10 : ℚ) (0 :: (n.places.getD []).map Octet.digitValue)

def worth (n : Numeral) : ℚ := if n.isNegative then -n.size else n.size

theorem size_eq (n : Numeral) :
    n.size * 10 ^ (n.places.getD []).length = ofDigits (n.whole ++ n.places.getD []) := by
  rw [size, ofDigits_tens, add_mul, ofDigits_tenths, ofDigits_append_eq]
  push_cast
  ring

end Numeral

theorem exists_numeral_of_read? {t : Octets} {value : Nat} (h : read? t = some value) :
    ∃ n : Numeral, n.text = t ∧ n.worth = value := by
  have hdigits := isDigit_of_read? h
  rw [read?] at h
  split at h
  · cases h
  · next hcheck =>
      have hne : t ≠ [] := by
        rintro rfl
        exact hcheck rfl
      obtain rfl := Option.some.inj h
      refine ⟨⟨false, t, none, hne, by simpa using hdigits⟩, ?_, ?_⟩
      · simp [Numeral.text, Numeral.pointed]
      · simp [Numeral.worth, Numeral.size, ofDigits_tens, Nat.ofDigits]

end Decimal

end ZoneKeeper
