import Mathlib.Data.List.Induction
import Mathlib.Tactic.Ring
import ZoneKeeper.Text.Base64
import ZoneKeeper.Text.Basic
import ZoneKeeper.Text.Decimal

namespace ZoneKeeper

namespace Octet

def isGraphic (b : UInt8) : Bool := 0x21 ≤ b && b ≤ 0x7e && b != quote && b != backslash

theorem forall_of_fin {P : UInt8 → Prop} (h : ∀ n : Fin 256, P (UInt8.ofNat n)) (b : UInt8) :
    P b := by
  have := h ⟨b.toNat, b.toNat_lt⟩
  rwa [UInt8.ofNat_toNat] at this

theorem isGraphic_of_isAlphanumeric {b : UInt8} : isAlphanumeric b = true → isGraphic b = true := by
  refine forall_of_fin (P := fun b => isAlphanumeric b = true → isGraphic b = true) ?_ b
  decide +kernel

theorem isGraphic_of_isDigit {b : UInt8} (h : isDigit b = true) : isGraphic b = true :=
  isGraphic_of_isAlphanumeric (by rw [isAlphanumeric, h]; rfl)

end Octet

def Octets.isGraphic (t : Octets) : Bool := t.all Octet.isGraphic

namespace Octets

variable {s t : Octets}

@[simp] theorem isGraphic_nil : isGraphic [] = true := rfl

@[simp] theorem isGraphic_cons {b : UInt8} :
    isGraphic (b :: t) = true ↔ Octet.isGraphic b = true ∧ t.isGraphic = true := by
  simp [isGraphic]

@[simp] theorem isGraphic_append :
    isGraphic (s ++ t) = true ↔ s.isGraphic = true ∧ t.isGraphic = true := by
  simp [isGraphic]

theorem isGraphic_iff : t.isGraphic = true ↔ ∀ b ∈ t, Octet.isGraphic b = true := List.all_eq_true

theorem isAscii_of_isGraphic (h : t.isGraphic = true) : t.isAscii = true := by
  rw [isAscii, List.all_eq_true]
  intro b hb
  have hgraphic := isGraphic_iff.1 h b hb
  simp only [Octet.isGraphic, Bool.and_eq_true, decide_eq_true_eq, UInt8.le_iff_toNat_le]
    at hgraphic
  simp only [decide_eq_true_eq, UInt8.lt_iff_toNat_lt]
  exact Nat.lt_of_le_of_lt hgraphic.1.1.2 (by decide)

end Octets

theorem forall_lt_of_fin {P : Nat → Prop} {bound : Nat} (h : ∀ n : Fin bound, P n) {n : Nat}
    (hn : n < bound) : P n := h ⟨n, hn⟩

namespace Octet

theorem isDigit_ofDigit {n : Nat} (h : n < 10) : isDigit (ofDigit n) = true :=
  forall_lt_of_fin (P := fun n => isDigit (ofDigit n) = true) (by decide) h

theorem digitValue_ofDigit {n : Nat} (h : n < 10) : digitValue (ofDigit n) = n :=
  forall_lt_of_fin (P := fun n => digitValue (ofDigit n) = n) (by decide) h

theorem ofDigit_eq_zero {n : Nat} (h : n < 10) : ofDigit n = zero → n = 0 :=
  forall_lt_of_fin (P := fun n => ofDigit n = zero → n = 0) (by decide) h

end Octet

namespace Decimal

theorem write_eq (n : Nat) : write n = if n < 10 then [Octet.ofDigit n]
    else write (n / 10) ++ [Octet.ofDigit (n % 10)] := by
  have hdigit {d : Nat} (h : d < 10) : (Nat.digitChar d).toUInt8 = Octet.ofDigit d :=
    forall_lt_of_fin (P := fun d => (Nat.digitChar d).toUInt8 = Octet.ofDigit d) (by decide) h
  rw [write, Nat.toDigits_eq_if (by decide)]
  split
  · next h => exact congrArg (fun b => [b]) (hdigit h)
  · rw [List.map_append]
    exact congrArg (fun b => _ ++ [b]) (hdigit (Nat.mod_lt n (by decide)))

theorem ofDigits_append (s t : Octets) :
    ofDigits (s ++ t) = t.foldl (fun n b => 10 * n + Octet.digitValue b) (ofDigits s) := by
  rw [ofDigits, List.foldl_append]
  rfl

theorem ofDigits_append_eq (s t : Octets) :
    ofDigits (s ++ t) = 10 ^ t.length * ofDigits s + ofDigits t := by
  induction t using List.reverseRecOn with
  | nil => simp [ofDigits]
  | append_singleton t b ih =>
      have hlast (u : Octets) : ofDigits (u ++ [b]) = 10 * ofDigits u + Octet.digitValue b :=
        ofDigits_append u [b]
      rw [← List.append_assoc, hlast, hlast, ih, List.length_append, List.length_singleton]
      ring

theorem digitValue_le {b : UInt8} : Octet.isDigit b = true → Octet.digitValue b ≤ 9 := by
  refine Octet.forall_of_fin (P := fun b => Octet.isDigit b = true → Octet.digitValue b ≤ 9) ?_ b
  decide +kernel

theorem ofDigits_cons (b : UInt8) (t : Octets) :
    ofDigits (b :: t) = 10 ^ t.length * Octet.digitValue b + ofDigits t := by
  have happend := ofDigits_append_eq [b] t
  rw [List.singleton_append] at happend
  simpa [ofDigits] using happend

theorem ofDigits_lt {t : Octets} (h : ∀ b ∈ t, Octet.isDigit b = true) :
    ofDigits t < 10 ^ t.length := by
  induction t with
  | nil => simp [ofDigits]
  | cons b t ih =>
      have hb := digitValue_le (h b List.mem_cons_self)
      have ht := ih fun c hc => h c (List.mem_cons_of_mem _ hc)
      have hmul := Nat.mul_le_mul_left (10 ^ t.length) hb
      rw [ofDigits_cons, List.length_cons, pow_succ]
      omega

@[simp] theorem write_ne_nil (n : Nat) : write n ≠ [] := by
  rw [write_eq]
  split <;> simp

theorem isDigit_of_mem_write {n : Nat} : ∀ b ∈ write n, Octet.isDigit b = true := by
  induction n using Nat.strongRecOn with
  | ind n ih =>
      intro b hb
      rw [write_eq] at hb
      split at hb
      · next h =>
          obtain rfl := List.mem_singleton.1 hb
          exact Octet.isDigit_ofDigit h
      · rcases List.mem_append.1 hb with hb | hb
        · exact ih (n / 10) (by omega) b hb
        · obtain rfl := List.mem_singleton.1 hb
          exact Octet.isDigit_ofDigit (Nat.mod_lt n (by decide))

@[simp] theorem ofDigits_write (n : Nat) : ofDigits (write n) = n := by
  induction n using Nat.strongRecOn with
  | ind n ih =>
      rw [write_eq]
      split
      · next h =>
          exact (Nat.zero_add _).trans (Octet.digitValue_ofDigit h)
      · rw [ofDigits_append, ih (n / 10) (by omega)]
        have hlast := Octet.digitValue_ofDigit (Nat.mod_lt n (show 0 < 10 by decide))
        simp only [List.foldl_cons, List.foldl_nil, hlast]
        omega

theorem length_write_le {n k : Nat} (hk : 0 < k) (h : n < 10 ^ k) : (write n).length ≤ k := by
  rw [write, List.length_map]
  exact (Nat.length_toDigits_le_iff (by decide) hk).2 h

theorem head?_write {n : Nat} (h : (write n).head? = some Octet.zero) : n = 0 := by
  induction n using Nat.strongRecOn with
  | ind n ih =>
      rw [write_eq] at h
      split at h
      · next hn => exact Octet.ofDigit_eq_zero hn (Option.some.inj h)
      · have hfirst : (write (n / 10)).head? = some Octet.zero := by
          cases hrest : write (n / 10) with
          | nil => exact absurd hrest (write_ne_nil _)
          | cons b rest =>
              rw [hrest] at h
              exact h
        have := ih (n / 10) (by omega) hfirst
        omega

theorem isGraphic_write (n : Nat) : (write n).isGraphic = true :=
  Octets.isGraphic_iff.2 fun b hb => Octet.isGraphic_of_isDigit (isDigit_of_mem_write b hb)

theorem notMem_write {n : Nat} {b : UInt8} (hb : Octet.isDigit b = false) : b ∉ write n :=
  fun hmem => Bool.false_ne_true (hb.symm.trans (isDigit_of_mem_write b hmem))

@[simp] theorem read?_write (n : Nat) : read? (write n) = some n := by
  have hdigits : (write n).all Octet.isDigit = true := List.all_eq_true.2 isDigit_of_mem_write
  rw [read?, hdigits, ofDigits_write]
  simp

theorem isDigit_of_read? {t : Octets} {n : Nat} (h : read? t = some n) :
    ∀ b ∈ t, Octet.isDigit b = true := by
  rw [read?] at h
  split at h
  · cases h
  · next hall => simpa using (not_or.1 (mt Bool.or_eq_true_iff.2 hall)).2

theorem isDigit_of_readSigned {bits n : Nat} {t : Octets} (h : readSigned bits t = .ok n) :
    ∀ b ∈ t, b = 0x2b ∨ Octet.isDigit b = true := by
  have hgo {m : Nat} {t : Octets} (h : readSigned.go bits m t = .ok n) :
      ∀ b ∈ t, Octet.isDigit b = true := by
    induction t generalizing m with
    | nil => exact fun _ hb => absurd hb List.not_mem_nil
    | cons first rest ih =>
        rw [readSigned.go] at h
        split at h
        · next hdigit =>
            dsimp only at h
            split at h
            · exact List.forall_mem_cons.2 ⟨hdigit, ih h⟩
            · cases h
        · cases h
  match t, h with
  | first :: rest, h =>
      rw [readSigned] at h
      split at h
      · next hsign =>
          have hplus : first = 0x2b := beq_iff_eq.1 (Bool.and_eq_true_iff.1 hsign).1
          exact List.forall_mem_cons.2 ⟨Or.inl hplus, fun b hb => Or.inr (hgo h b hb)⟩
      · exact fun b hb => Or.inr (hgo h b hb)

theorem read?_eq {t : Octets} (hne : t ≠ []) (h : ∀ b ∈ t, Octet.isDigit b = true) :
    read? t = some (ofDigits t) := by
  rw [read?, List.all_eq_true.2 h]
  simp [hne]

theorem readBits?_eq_some_iff {bits n : Nat} {t : Octets} :
    readBits? bits t = some n ↔ read? t = some n ∧ n < 2 ^ bits := by
  simp [readBits?, Option.filter_eq_some_iff, Nat.shiftLeft_eq]

theorem readBits?_write {bits n : Nat} (h : n < 1 <<< bits) :
    readBits? bits (write n) = some n := by
  rw [readBits?, read?_write]
  simpa using h

theorem ofDigits_replicate (k : Nat) (t : Octets) :
    ofDigits (List.replicate k Octet.zero ++ t) = ofDigits t := by
  induction k with
  | zero => rfl
  | succ k ih =>
      rw [List.replicate_succ, List.cons_append, ofDigits, List.foldl_cons]
      exact ih

theorem ofDigits_zeros (t : Octets) (zeros : Nat) :
    ofDigits (t ++ List.replicate zeros Octet.zero) = 10 ^ zeros * ofDigits t := by
  have hzeros := ofDigits_replicate zeros []
  rw [List.append_nil] at hzeros
  rw [ofDigits_append_eq, List.length_replicate, hzeros]
  rfl

@[simp] theorem ofDigits_writePadded (width n : Nat) : ofDigits (writePadded width n) = n := by
  rw [writePadded, ofDigits_replicate, ofDigits_write]

theorem length_writePadded {width n : Nat} (hwidth : 0 < width) (h : n < 10 ^ width) :
    (writePadded width n).length = width := by
  have := length_write_le hwidth h
  simp only [writePadded, List.length_append, List.length_replicate]
  omega

theorem isDigit_of_mem_writePadded {width n : Nat} :
    ∀ b ∈ writePadded width n, Octet.isDigit b = true := by
  intro b hb
  rcases List.mem_append.1 hb with hb | hb
  · obtain rfl := List.eq_of_mem_replicate hb
    rfl
  · exact isDigit_of_mem_write b hb

theorem isGraphic_writePadded (width n : Nat) : (writePadded width n).isGraphic = true :=
  Octets.isGraphic_iff.2 fun b hb => Octet.isGraphic_of_isDigit (isDigit_of_mem_writePadded b hb)

end Decimal

namespace Digits

@[simp] theorem value_toDigits (n : Nat) : value (Nat.toDigits 10 n) = n :=
  Nat.ofDigitChars_toDigits (by decide) (by decide)

theorem isDigit_of_mem_toDigits {n : Nat} : ∀ c ∈ Nat.toDigits 10 n, c.isDigit = true :=
  fun _ hc => Nat.isDigit_of_mem_toDigits (by decide) (by decide) hc

theorem toDigits_ne_nil (n : Nat) : Nat.toDigits 10 n ≠ [] := by
  intro h
  have := Decimal.write_ne_nil n
  rw [Decimal.write, h] at this
  exact this rfl

theorem head?_toDigits {n : Nat} (h : (Nat.toDigits 10 n).head? = some '0') : n = 0 := by
  refine Decimal.head?_write ?_
  rw [Decimal.write, List.head?_map, h]
  rfl

end Digits

namespace Hex

theorem digitValue?_digit {n : Nat} (h : n < 16) : digitValue? (digit n) = some n :=
  forall_lt_of_fin (P := fun n => digitValue? (digit n) = some n) (by decide) h

theorem isAlphanumeric_digit {n : Nat} (h : n < 16) : Octet.isAlphanumeric (digit n) = true :=
  forall_lt_of_fin (P := fun n => Octet.isAlphanumeric (digit n) = true) (by decide) h

theorem isAlphanumeric_of_mem_write {t : Octets} :
    ∀ b ∈ write t, Octet.isAlphanumeric b = true := by
  intro b hb
  obtain ⟨a, -, hb⟩ := List.mem_flatMap.1 hb
  have ha := a.toNat_lt
  rcases List.mem_cons.1 hb with rfl | hb
  · exact isAlphanumeric_digit (by omega)
  · obtain rfl := List.mem_singleton.1 hb
    exact isAlphanumeric_digit (by omega)

theorem isGraphic_write (t : Octets) : (write t).isGraphic = true :=
  Octets.isGraphic_iff.2 fun b hb =>
    Octet.isGraphic_of_isAlphanumeric (isAlphanumeric_of_mem_write b hb)

@[simp] theorem read?_write (t : Octets) : read? (write t) = some t := by
  induction t with
  | nil => rfl
  | cons b rest ih =>
      have hb := b.toNat_lt
      have hhigh := digitValue?_digit (show b.toNat / 16 < 16 by omega)
      have hlow := digitValue?_digit (show b.toNat % 16 < 16 by omega)
      have hvalue : 16 * (b.toNat / 16) + b.toNat % 16 = b.toNat := Nat.div_add_mod ..
      change read? (digit (b.toNat / 16) :: digit (b.toNat % 16) :: write rest) = _
      simp only [read?, hhigh, hlow, ih, Option.bind_eq_bind, Option.bind_some, hvalue,
        UInt8.ofNat_toNat]
      rfl

theorem read?_ne_nil {s t : Octets} (h : read? s = some t) (hs : s ≠ []) : t ≠ [] := by
  rintro rfl
  match s with
  | [] => exact hs rfl
  | [_] => cases h
  | a :: b :: rest =>
      simp only [read?, Option.bind_eq_bind, Option.bind_eq_some_iff] at h
      obtain ⟨_, -, _, -, _, -, h⟩ := h
      cases h

end Hex

namespace Base64

theorem symbolValue?_symbol {n : Nat} (h : n < 64) : symbolValue? (symbol n) = some n :=
  forall_lt_of_fin (P := fun n => symbolValue? (symbol n) = some n) (by decide +kernel) h

theorem isGraphic_symbol {n : Nat} (h : n < 64) : Octet.isGraphic (symbol n) = true :=
  forall_lt_of_fin (P := fun n => Octet.isGraphic (symbol n) = true) (by decide +kernel) h

theorem symbol_ne_equal {n : Nat} (h : n < 64) : (symbol n == Octet.equal) = false :=
  forall_lt_of_fin (P := fun n => (symbol n == Octet.equal) = false) (by decide +kernel) h

theorem isGraphic_equal : Octet.isGraphic Octet.equal = true := rfl

theorem isGraphic_write (t : Octets) : (write t).isGraphic = true := by
  fun_induction write t with
  | case1 => rfl
  | case2 a =>
      have ha := a.toNat_lt
      simp (disch := omega) [isGraphic_symbol, isGraphic_equal]
  | case3 a b =>
      have ha := a.toNat_lt
      have hb := b.toNat_lt
      simp (disch := omega) [isGraphic_symbol, isGraphic_equal]
  | case4 a b c rest ih =>
      have ha := a.toNat_lt
      have hb := b.toNat_lt
      have hc := c.toNat_lt
      simp (disch := omega) [isGraphic_symbol, ih]

theorem firstOctet_eq (a : UInt8) {low : Nat} (hlow : low < 16) :
    firstOctet (a.toNat / 4) (a.toNat % 4 * 16 + low) = a := by
  rw [firstOctet, show a.toNat / 4 * 4 + (a.toNat % 4 * 16 + low) / 16 = a.toNat by omega,
    UInt8.ofNat_toNat]

theorem secondOctet_eq (high : Nat) {low : Nat} (b : UInt8) (hlow : low < 4) :
    secondOctet (high * 16 + b.toNat / 16) (b.toNat % 16 * 4 + low) = b := by
  have hb := b.toNat_lt
  rw [secondOctet, show (high * 16 + b.toNat / 16) % 16 * 16 + (b.toNat % 16 * 4 + low) / 4
    = b.toNat by omega, UInt8.ofNat_toNat]

theorem thirdOctet_eq (high : Nat) (c : UInt8) :
    thirdOctet (high * 4 + c.toNat / 64) (c.toNat % 64) = c := by
  have hc := c.toNat_lt
  rw [thirdOctet, show (high * 4 + c.toNat / 64) % 4 * 64 + c.toNat % 64 = c.toNat by omega,
    UInt8.ofNat_toNat]

@[simp] theorem read?_write (t : Octets) : read? (write t) = some t := by
  fun_induction write t with
  | case1 => rfl
  | case2 a =>
      have ha := a.toNat_lt
      have hfirst : firstOctet (a.toNat / 4) (a.toNat % 4 * 16) = a :=
        firstOctet_eq a (show 0 < 16 by decide)
      simp (disch := omega) [read?, symbolValue?_symbol, hfirst]
  | case3 a b =>
      have ha := a.toNat_lt
      have hb := b.toNat_lt
      have hfirst := firstOctet_eq a (show b.toNat / 16 < 16 by omega)
      have hsecond : secondOctet (a.toNat % 4 * 16 + b.toNat / 16) (b.toNat % 16 * 4) = b :=
        secondOctet_eq _ b (show 0 < 4 by decide)
      simp (disch := omega) [read?, symbolValue?_symbol, symbol_ne_equal, hfirst, hsecond]
  | case4 a b c rest ih =>
      have ha := a.toNat_lt
      have hb := b.toNat_lt
      have hc := c.toNat_lt
      have hfirst := firstOctet_eq a (show b.toNat / 16 < 16 by omega)
      have hsecond := secondOctet_eq (a.toNat % 4) b (show c.toNat / 64 < 4 by omega)
      have hthird := thirdOctet_eq (b.toNat % 16) c
      simp (disch := omega) [read?, symbolValue?_symbol, symbol_ne_equal, hfirst, hsecond, hthird,
        ih]

theorem read?_ne_nil {s t : Octets} (h : read? s = some t) (hs : s ≠ []) : t ≠ [] := by
  rintro rfl
  unfold read? at h
  split at h
  · exact hs rfl
  · simp only [Option.bind_eq_bind, Option.bind_eq_some_iff] at h
    obtain ⟨_, -, _, -, h⟩ := h
    split at h
    · split at h
      · cases h
      · obtain ⟨_, -, h⟩ := Option.bind_eq_some_iff.1 h
        cases h
    · simp only [Option.bind_eq_some_iff] at h
      obtain ⟨_, -, _, -, _, -, h⟩ := h
      cases h
  · cases h

theorem write_ne_nil {t : Octets} (h : t ≠ []) : write t ≠ [] := by
  intro hnil
  have hread := read?_write t
  rw [hnil] at hread
  exact h (Option.some.inj hread).symm

end Base64

end ZoneKeeper
