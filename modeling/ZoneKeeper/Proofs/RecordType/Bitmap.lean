import Mathlib.Data.List.Sort
import ZoneKeeper.Proofs.Text.Delimited
import ZoneKeeper.RecordType.Bitmap

namespace ZoneKeeper.Bitmap

def isSet (bits : Octets) (low : Nat) : Bool :=
  (bits[low / 8]?.getD 0).toNat.testBit (7 - low % 8)

def isMarked (windows : List (UInt8 × Octets)) (code : UInt16) : Bool :=
  windows.any fun w => w.1 == windowOf code && isSet w.2 (code.toNat % 256)

inductive IsWire : List (UInt8 × Octets) → Octets → Prop where
  | nil : IsWire [] []
  | window {number count : UInt8} {bits rest : Octets} {windows : List (UInt8 × Octets)}
      (hcount : count.toNat = bits.length) (hrest : IsWire windows rest) :
      IsWire ((number, bits) :: windows) (number :: count :: (bits ++ rest))

structure IsTrim (bits : Octets) : Prop where
  length : 1 ≤ bits.length ∧ bits.length ≤ 32
  last : bits.getLast? ≠ some 0

inductive Adds (code : UInt16) : List (UInt8 × Octets) → List (UInt8 × Octets) → Prop where
  | grows {bits : Octets} {more : List (UInt8 × Octets)} :
      Adds code ((windowOf code, bits) :: more) ((windowOf code, mark bits code) :: more)
  | opens {more : List (UInt8 × Octets)} (hnew : ∀ w ∈ more.head?, w.1 ≠ windowOf code) :
      Adds code more ((windowOf code, mark [] code) :: more)

theorem getElem?_setBit (octet : Nat) (bit : UInt8) (bits : Octets) (i : Nat) :
    ((setBit octet bit bits)[i]?.getD 0)
      = if i = octet then (bits[i]?.getD 0) ||| bit else bits[i]?.getD 0 := by
  induction bits generalizing octet i with
  | nil =>
      rw [setBit]
      rcases Nat.lt_trichotomy i octet with h | rfl | h
      · rw [if_neg (Nat.ne_of_lt h), List.getElem?_append_left (by simpa using h),
          List.getElem?_replicate, if_pos h]
        rfl
      · simp
      · rw [if_neg (Nat.ne_of_gt h), List.getElem?_eq_none (by simp; omega)]
        rfl
  | cons b rest ih =>
      cases octet with
      | zero => cases i <;> simp [setBit]
      | succ octet =>
          cases i with
          | zero => simp [setBit]
          | succ i => simpa [setBit] using ih octet i

theorem testBit_mask : ∀ i j : Fin 8,
    (UInt8.ofNat (0x80 >>> i.val)).toNat.testBit (7 - j) = decide (i = j) := by
  decide

theorem isSet_mark (bits : Octets) (code : UInt16) (low : Nat) :
    isSet (mark bits code) low = (isSet bits low || low == code.toNat % 256) := by
  have hmask := testBit_mask ⟨code.toNat % 256 % 8, Nat.mod_lt _ (by decide)⟩
    ⟨low % 8, Nat.mod_lt _ (by decide)⟩
  rw [isSet, mark, getElem?_setBit]
  split
  · next hoctet =>
      rw [UInt8.toNat_or, Nat.testBit_or, hmask, isSet, Bool.beq_eq_decide_eq]
      congr 2
      simp only [Fin.mk.injEq, eq_iff_iff]
      omega
  · next hoctet =>
      have hne : (low == code.toNat % 256) = false := by
        simp only [beq_eq_false_iff_ne]
        rintro rfl
        exact hoctet rfl
      rw [isSet, hne, Bool.or_false]

theorem length_setBit (octet : Nat) (bit : UInt8) (bits : Octets) :
    (setBit octet bit bits).length = max (octet + 1) bits.length := by
  induction bits generalizing octet with
  | nil => simp [setBit]
  | cons b rest ih => cases octet <;> simp [setBit, ih]

theorem getLast?_setBit {bit : UInt8} (hbit : bit ≠ 0) (octet : Nat) {bits : Octets}
    (h : bits.getLast? ≠ some 0) : (setBit octet bit bits).getLast? ≠ some 0 := by
  intro hlast
  have hget := getElem?_setBit octet bit bits ((setBit octet bit bits).length - 1)
  rw [← List.getLast?_eq_getElem?, hlast, length_setBit] at hget
  by_cases hlength : bits.length ≤ octet + 1
  · rw [Nat.max_eq_left hlength, Nat.add_sub_cancel, if_pos rfl] at hget
    exact hbit (UInt8.or_eq_zero_iff.1 hget.symm).2
  · -- The last octet is behind the one that the bit is set in, and is what it was.
    rw [Nat.max_eq_right (by omega), if_neg (by omega), ← List.getLast?_eq_getElem?] at hget
    have hne : bits ≠ [] := List.ne_nil_of_length_pos (by omega)
    obtain ⟨last, hbits⟩ := Option.isSome_iff_exists.1 (List.getLast?_isSome.2 hne)
    rw [hbits] at h hget
    exact h (congrArg some hget.symm)

theorem isTrim_mark {bits : Octets} (hlength : bits.length ≤ 32) (hlast : bits.getLast? ≠ some 0)
    (code : UInt16) : IsTrim (mark bits code) where
  length := by
    rw [mark, length_setBit]
    omega
  last := by
    have hmask : ∀ i : Fin 8, UInt8.ofNat (0x80 >>> i.val) ≠ 0 := by decide
    exact getLast?_setBit (hmask ⟨_, Nat.mod_lt _ (by decide)⟩) _ hlast

theorem toNat_windowOf (code : UInt16) : (windowOf code).toNat = code.toNat / 256 :=
  UInt8.toNat_ofNat_of_lt' (Nat.div_lt_of_lt_mul code.toNat_lt)

theorem windowOf_le {c code : UInt16} (h : c < code) : windowOf c ≤ windowOf code := by
  rw [UInt8.le_iff_toNat_le, toNat_windowOf, toNat_windowOf]
  exact Nat.div_le_div_right (Nat.le_of_lt (UInt16.lt_iff_toNat_lt.1 h))

theorem windowOf_beq (c code : UInt16) :
    (windowOf c == windowOf code && code.toNat % 256 == c.toNat % 256) = (code == c) := by
  rw [Bool.eq_iff_iff, Bool.and_eq_true, beq_iff_eq, beq_iff_eq, beq_iff_eq, ← UInt8.toNat_inj,
    ← UInt16.toNat_inj, toNat_windowOf, toNat_windowOf]
  omega

theorem isSet_mark_windowOf (c code : UInt16) (bits : Octets) :
    (windowOf c == windowOf code && isSet (mark bits c) (code.toNat % 256))
      = ((windowOf c == windowOf code && isSet bits (code.toNat % 256)) || code == c) := by
  rw [isSet_mark, Bool.and_or_distrib_left, windowOf_beq]

theorem adds_windows (code : UInt16) (rest : List UInt16) :
    Adds code (windows rest) (windows (code :: rest)) := by
  rw [windows]
  split
  · next window bits more hrest =>
      rw [hrest]
      split
      · next hwindow =>
          obtain rfl := eq_of_beq hwindow
          exact .grows
      · next hwindow =>
          refine .opens fun w hw => ?_
          obtain rfl := Option.some.inj hw
          simpa using hwindow
  · next hrest =>
      rw [hrest]
      exact .opens (by simp)

namespace Adds

variable {code : UInt16} {before after : List (UInt8 × Octets)}

theorem isMarked (h : Adds code before after) (c : UInt16) :
    isMarked after c = (isMarked before c || c == code) := by
  have hfirst (bits : Octets) (more : List (UInt8 × Octets)) :
      Bitmap.isMarked ((windowOf code, bits) :: more) c
        = ((windowOf code == windowOf c && isSet bits (c.toNat % 256))
          || Bitmap.isMarked more c) :=
    rfl
  cases h with
  | grows => rw [hfirst, hfirst, isSet_mark_windowOf, Bool.or_right_comm]
  | opens =>
      have hempty : isSet [] (c.toNat % 256) = false := by simp [isSet]
      rw [hfirst, isSet_mark_windowOf, hempty, Bool.and_false, Bool.false_or, Bool.or_comm]

theorem forall_mem (h : Adds code before after) {P : UInt8 × Octets → Prop}
    (hgrows : ∀ bits, P (windowOf code, bits) → P (windowOf code, mark bits code))
    (hopens : P (windowOf code, mark [] code)) (hbefore : ∀ w ∈ before, P w) :
    ∀ w ∈ after, P w := by
  cases h with
  | grows =>
      obtain ⟨hfirst, hmore⟩ := List.forall_mem_cons.1 hbefore
      exact List.forall_mem_cons.2 ⟨hgrows _ hfirst, hmore⟩
  | opens => exact List.forall_mem_cons.2 ⟨hopens, hbefore⟩

theorem pairwise (h : Adds code before after) (hcode : ∀ w ∈ before, windowOf code ≤ w.1)
    (hbefore : before.Pairwise fun w later => w.1 < later.1) :
    after.Pairwise fun w later => w.1 < later.1 := by
  cases h with
  | grows =>
      obtain ⟨hfirst, hmore⟩ := List.pairwise_cons.1 hbefore
      exact List.pairwise_cons.2 ⟨hfirst, hmore⟩
  | opens hnew =>
      refine List.pairwise_cons.2 ⟨?_, hbefore⟩
      cases before with
      | nil => exact List.forall_mem_nil _
      | cons first later =>
          have hfirst : windowOf code < first.1 :=
            UInt8.lt_of_le_of_ne (hcode first List.mem_cons_self) (hnew first rfl).symm
          refine List.forall_mem_cons.2 ⟨hfirst, fun w hw => ?_⟩
          exact UInt8.lt_trans hfirst ((List.pairwise_cons.1 hbefore).1 w hw)

end Adds

theorem isMarked_windows (codes : List UInt16) (code : UInt16) :
    isMarked (windows codes) code = true ↔ code ∈ codes := by
  induction codes with
  | nil => simp [isMarked, windows]
  | cons c rest ih =>
      rw [(adds_windows c rest).isMarked, Bool.or_eq_true, ih, beq_iff_eq, List.mem_cons]
      exact Or.comm

theorem isMarked_iff (windows : List (UInt8 × Octets)) (code : UInt16) :
    isMarked windows code = true ↔
      ∃ bits, (windowOf code, bits) ∈ windows ∧ isSet bits (code.toNat % 256) = true := by
  simp only [isMarked, List.any_eq_true, Prod.exists, Bool.and_eq_true, beq_iff_eq]
  constructor
  · rintro ⟨number, bits, hw, rfl, hset⟩
    exact ⟨bits, hw, hset⟩
  · rintro ⟨bits, hw, hset⟩
    exact ⟨_, bits, hw, rfl, hset⟩

theorem isTrim_of_mem_windows {codes : List UInt16} : ∀ w ∈ windows codes, IsTrim w.2 := by
  induction codes with
  | nil => exact List.forall_mem_nil _
  | cons c rest ih =>
      exact (adds_windows c rest).forall_mem (fun _ h => isTrim_mark h.length.2 h.last c)
        (isTrim_mark (by decide) (by decide) c) ih

theorem length_of_mem_windows {codes : List UInt16} : ∀ w ∈ windows codes, w.2.length ≤ 32 :=
  fun w hw => (isTrim_of_mem_windows w hw).length.2

theorem le_of_mem_windows {number : UInt8} {codes : List UInt16}
    (h : ∀ code ∈ codes, number ≤ windowOf code) : ∀ w ∈ windows codes, number ≤ w.1 := by
  induction codes with
  | nil => exact List.forall_mem_nil _
  | cons c rest ih =>
      obtain ⟨hc, hrest⟩ := List.forall_mem_cons.1 h
      exact (adds_windows c rest).forall_mem (fun _ hnumber => hnumber) hc (ih hrest)

theorem pairwise_windows {codes : List UInt16} (h : codes.Pairwise (· < ·)) :
    (windows codes).Pairwise fun w later => w.1 < later.1 := by
  induction codes with
  | nil => exact .nil
  | cons c rest ih =>
      obtain ⟨hc, hrest⟩ := List.pairwise_cons.1 h
      have hnumber := le_of_mem_windows fun code hcode => windowOf_le (hc code hcode)
      exact (adds_windows c rest).pairwise hnumber (ih hrest)

theorem isWire_flatMap {windows : List (UInt8 × Octets)} (h : ∀ w ∈ windows, w.2.length ≤ 255) :
    IsWire windows (windows.flatMap fun (number, bits) => number :: counted bits) := by
  induction windows with
  | nil => exact .nil
  | cons w later ih =>
      obtain ⟨hfirst, hlater⟩ := List.forall_mem_cons.1 h
      exact .window (UInt8.toNat_ofNat_of_lt' (Nat.lt_succ_of_le hfirst)) (ih hlater)

/--
The wire form of an ascending list of numbers is windows with ascending numbers of their own, each
with 1 to 32 octets of which the last is not zero. A number is in the list exactly if the bit of its
low octet is set in the window of its high octet.
-/
theorem windows_tell_codes {codes : List UInt16} (h : codes.Pairwise (· < ·)) :
    ∃ windows : List (UInt8 × Octets), IsWire windows (wire codes)
      ∧ (windows.Pairwise fun w later => w.1 < later.1)
      ∧ (∀ w ∈ windows, 1 ≤ w.2.length ∧ w.2.length ≤ 32 ∧ w.2.getLast? ≠ some 0)
      ∧ ∀ code, code ∈ codes ↔
          ∃ bits, (windowOf code, bits) ∈ windows ∧ isSet bits (code.toNat % 256) = true := by
  have hcounts : ∀ w ∈ windows codes, w.2.length ≤ 255 := fun w hw =>
    (length_of_mem_windows w hw).trans (by decide)
  refine ⟨windows codes, isWire_flatMap hcounts, pairwise_windows h, fun w hw => ?_, fun code => ?_⟩
  · have htrim := isTrim_of_mem_windows w hw
    exact ⟨htrim.length.1, htrim.length.2, htrim.last⟩
  · rw [← isMarked_windows codes code, isMarked_iff]

theorem windows_of_distant_codes :
    ([1, 28, 32769] : List UInt16).Pairwise (· < ·)
      ∧ wire [1, 28, 32769] = [0, 4, 0x40, 0, 0, 0x08, 128, 1, 0x40]
      ∧ ∃ windows : List (UInt8 × Octets), IsWire windows [0, 4, 0x40, 0, 0, 0x08, 128, 1, 0x40]
        ∧ ∀ code : UInt16, code ∈ ([1, 28, 32769] : List UInt16) ↔
          ∃ bits, (windowOf code, bits) ∈ windows ∧ isSet bits (code.toNat % 256) = true := by
  have hcodes : ([1, 28, 32769] : List UInt16).Pairwise (· < ·) := by decide
  have hwire : wire [1, 28, 32769] = [0, 4, 0x40, 0, 0, 0x08, 128, 1, 0x40] := by decide
  obtain ⟨windows, hwindows, -, -, hmem⟩ := windows_tell_codes hcodes
  exact ⟨hcodes, hwire, windows, hwire ▸ hwindows, hmem⟩

theorem selfDelimiting_window : SelfDelimiting (fun w : UInt8 × Octets => w.2.length ≤ 32)
    (fun w => w.1 :: counted w.2) :=
  (selfDelimiting_octet.append selfDelimiting_counted).mono fun _ h =>
    ⟨trivial, h.trans (by decide)⟩

theorem wire_inj {codes codes' : List UInt16} (hcodes : codes.Pairwise (· < ·))
    (hcodes' : codes'.Pairwise (· < ·)) (h : wire codes = wire codes') : codes = codes' := by
  have hwindows : windows codes = windows codes' :=
    selfDelimiting_window.flatMap_inj (fun _ _ => List.cons_ne_nil _ _) length_of_mem_windows
      length_of_mem_windows h
  refine hcodes.eq_of_mem_iff hcodes' fun code => ?_
  rw [← isMarked_windows codes, ← isMarked_windows codes', hwindows]

end ZoneKeeper.Bitmap
