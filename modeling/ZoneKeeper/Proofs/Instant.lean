import Mathlib.Data.List.TakeWhile
import Mathlib.Data.Prod.Lex
import Mathlib.Tactic.IntervalCases
import ZoneKeeper.Instant
import ZoneKeeper.Proofs.Text.Numeral

namespace ZoneKeeper

namespace Instant

instance : LinearOrder Instant :=
  LinearOrder.lift' (fun t => toLex (t.seconds, t.nanos)) fun a b h => by
    obtain ⟨hseconds, hnanos⟩ := Prod.mk.inj (toLex.injective h)
    cases a
    cases b
    simp_all

section Calendar

structure IsDay (day century span year rest : Nat) : Prop where
  sum : day = 36524 * century + 1461 * span + 365 * year + rest
  century_le : century ≤ 3
  span_le : span ≤ 24
  year_le : year ≤ 3
  rest_le : rest ≤ 365
  leap : rest = 365 → year = 3 ∧ (span < 24 ∨ century = 3)

variable {day century span year rest : Nat}

theorem exists_isDay (h : day < 146097) : ∃ century span year rest,
    IsDay day century span year rest := by
  -- The last day of the era and that of a leap year have no place in their quotients.
  have hcentury : ∃ c r, day = 36524 * c + r ∧ c ≤ 3 ∧ (r < 36524 ∨ (c = 3 ∧ r = 36524)) := by
    by_cases hlast : day = 146096
    · exact ⟨3, 36524, by omega, by omega, by omega⟩
    · exact ⟨day / 36524, day % 36524, by omega, by omega, by omega⟩
  obtain ⟨c, r, rfl, hcle, hr⟩ := hcentury
  have hyear : ∃ y d, r % 1461 = 365 * y + d ∧ y ≤ 3 ∧ (d < 365 ∨ (y = 3 ∧ d = 365)) := by
    by_cases hlast : r % 1461 = 1460
    · exact ⟨3, 365, by omega, by omega, by omega⟩
    · exact ⟨r % 1461 / 365, r % 1461 % 365, by omega, by omega, by omega⟩
  obtain ⟨y, d, hsum, hyle, hd⟩ := hyear
  exact ⟨c, r / 1461, y, d, by omega, hcle, by omega, hyle, by omega, by omega⟩

theorem IsDay.yearOfEra (h : IsDay day century span year rest) :
    (day - day / 1460 + day / 36524 - day / 146096) / 365
      = 100 * century + 4 * span + year := by
  obtain ⟨hsum, hcentury, hspan, hyear, hrest, hleap⟩ := h
  have hspans : day / 1460 = 25 * century + span
      + (24 * century + span + 365 * year + rest) / 1460 := by
    rw [show day = 1460 * (25 * century + span) + (24 * century + span + 365 * year + rest) by omega,
      Nat.mul_add_div (by decide)]
  have hcenturies : day / 36524 - day / 146096 = century ∧ day / 146096 ≤ day / 36524 := by
    by_cases hlast : century = 3 ∧ span = 24 ∧ year = 3 ∧ rest = 365
    · obtain ⟨rfl, rfl, rfl, rfl⟩ := hlast
      subst hsum
      decide
    · have hless : 1461 * span + 365 * year + rest < 36524 := by omega
      rw [show day = 36524 * century + (1461 * span + 365 * year + rest) by omega,
        Nat.mul_add_div (by decide), Nat.div_eq_of_lt hless, Nat.div_eq_of_lt (by omega)]
      exact ⟨rfl, Nat.zero_le _⟩
  generalize hk : (24 * century + span + 365 * year + rest) / 1460 = k at hspans
  have hle : k ≤ rest ∧ rest - k < 365 := by
    clear hspans hcenturies hsum
    by_cases hlast : rest = 365
    · obtain ⟨rfl, -⟩ := hleap hlast
      omega
    · omega
  rw [hspans]
  generalize day / 36524 = a at *
  generalize day / 146096 = b at *
  clear hspans hk
  rw [show day - (25 * century + span + k) + a - b
      = 365 * (100 * century + 4 * span + year) + (rest - k) by omega,
    Nat.mul_add_div (by decide), Nat.div_eq_of_lt hle.2, Nat.add_zero]

theorem IsDay.years (h : IsDay day century span year rest) :
    (100 * century + 4 * span + year) / 4 = 25 * century + span
      ∧ (100 * century + 4 * span + year) / 100 = century := by
  obtain ⟨-, -, hspan, hyear, -, -⟩ := h
  omega

theorem IsDay.years_lt (h : IsDay day century span year rest) :
    100 * century + 4 * span + year < 400 := by
  obtain ⟨-, hcentury, hspan, hyear, -, -⟩ := h
  omega

theorem march_le {rest : Nat} (h : rest ≤ 365) :
    (5 * rest + 2) / 153 ≤ 11 ∧ (153 * ((5 * rest + 2) / 153) + 2) / 5 ≤ rest := by
  omega

theorem ofDays_of_isDay {days era : Int} (h : IsDay day century span year rest)
    (hdays : days + 719468 = era * 146097 + day) :
    Date.ofDays days =
      let march := (5 * rest + 2) / 153
      let month := if march < 10 then march + 3 else march - 9
      let marchYear : Int := (100 * century + 4 * span + year : Nat) + era * 400
      ⟨if month ≤ 2 then marchYear + 1 else marchYear, month,
        rest - (153 * march + 2) / 5 + 1⟩ := by
  have hlt : (day : Int) < 146097 := by
    obtain ⟨hsum, hcentury, hspan, hyear, hrest, hleap⟩ := h
    omega
  have hera : (days + 719468) / 146097 = era := by omega
  have hday : ((days + 719468) % 146097).toNat = day := by omega
  obtain ⟨hfour, hhundred⟩ := h.years
  have hsum := h.sum
  have hrest : day - (365 * (100 * century + 4 * span + year) + (25 * century + span) - century)
      = rest := by omega
  rw [Date.ofDays]
  simp only [hera, hday, h.yearOfEra, hfour, hhundred, hrest]

theorem toDays_eq {era : Int} {years month day : Nat} (hyears : years < 400) (hmonth : month ≤ 11) :
    Date.toDays ⟨if (if month < 10 then month + 3 else month - 9) ≤ 2
        then (years : Int) + era * 400 + 1 else years + era * 400,
      if month < 10 then month + 3 else month - 9, day⟩
      = era * 146097 + (years * 365 + years / 4 - years / 100
        + ((153 * month + 2) / 5 + day - 1 : Nat)) - 719468 := by
  have hera : ((years : Int) + era * 400) / 400 = era := by omega
  have hyear : ((years : Int) + era * 400) % 400 = years := by omega
  by_cases hlate : month < 10
  · have hmarch : month + 3 - 3 = month := by omega
    simp only [Date.toDays, if_pos hlate, if_neg (show ¬ month + 3 ≤ 2 by omega),
      if_pos (show month + 3 > 2 by omega), hera, hyear, hmarch]
  · have hmarch : month - 9 + 9 = month := by omega
    simp only [Date.toDays, if_neg hlate, if_pos (show month - 9 ≤ 2 by omega),
      if_neg (show ¬ month - 9 > 2 by omega), Int.add_sub_cancel, hera, hyear, hmarch]

theorem toDays_ofDays (days : Int) : (Date.ofDays days).toDays = days := by
  obtain ⟨day, hday⟩ := Int.eq_ofNat_of_zero_le
    (Int.emod_nonneg (days + 719468) (by decide : (146097 : Int) ≠ 0))
  have hlt : day < 146097 := by omega
  obtain ⟨century, span, year, rest, h⟩ := exists_isDay hlt
  have hdays : days + 719468 = (days + 719468) / 146097 * 146097 + day := by omega
  obtain ⟨hmarch, hbefore⟩ := march_le h.rest_le
  obtain ⟨hfour, hhundred⟩ := h.years
  have hsum := h.sum
  rw [ofDays_of_isDay h hdays]
  dsimp only
  rw [toDays_eq h.years_lt hmarch]
  omega

theorem day_le_daysInMonth {rest month : Nat} (hrest : rest ≤ 365)
    (hmonth : (5 * rest + 2) / 153 = month) (year : Int)
    (hleap : rest = 365 → isLeapYear year = true) :
    rest - (153 * month + 2) / 5 + 1
      ≤ daysInMonth year (if month < 10 then month + 3 else month - 9) := by
  by_cases hlast : month = 11
  · subst hlast
    by_cases hday : rest = 365
    · rw [daysInMonth, hleap hday]
      simp
      omega
    · simp [daysInMonth]
      split <;> omega
  · have hlength : daysInMonth year (if month < 10 then month + 3 else month - 9) = 31
        ∨ (daysInMonth year (if month < 10 then month + 3 else month - 9) = 30
          ∧ (month = 1 ∨ month = 3 ∨ month = 6 ∨ month = 8)) := by
      have hlt : month < 11 := by omega
      clear hmonth hlast
      interval_cases month <;> simp [daysInMonth]
    omega

theorem isValid_ofDays {days : Int} (hmin : -262143 ≤ (Date.ofDays days).year)
    (hmax : (Date.ofDays days).year ≤ 262142) : (Date.ofDays days).isValid = true := by
  obtain ⟨day, hday⟩ := Int.eq_ofNat_of_zero_le
    (Int.emod_nonneg (days + 719468) (by decide : (146097 : Int) ≠ 0))
  have hlt : day < 146097 := by omega
  obtain ⟨century, span, year, rest, h⟩ := exists_isDay hlt
  have hdays : days + 719468 = (days + 719468) / 146097 * 146097 + day := by omega
  rw [ofDays_of_isDay h hdays] at hmin hmax ⊢
  dsimp only at hmin hmax ⊢
  rw [Date.isValid]
  obtain ⟨hmarch, -⟩ := march_le h.rest_le
  have hleap : rest = 365 → isLeapYear
      ((100 * century + 4 * span + year : Nat) + (days + 719468) / 146097 * 400 + 1) = true := by
    intro hlast
    obtain ⟨rfl, hspan⟩ := h.leap hlast
    obtain ⟨-, hcentury, hspan', -, -, -⟩ := h
    simp only [isLeapYear, Bool.and_eq_true, Bool.or_eq_true, beq_iff_eq, bne_iff_ne]
    omega
  simp only [Bool.and_eq_true, decide_eq_true_eq]
  refine ⟨⟨⟨⟨⟨hmin, hmax⟩, ?_⟩, ?_⟩, Nat.le_add_left 1 _⟩, ?_⟩
  · split <;> omega
  · split <;> omega
  · refine day_le_daysInMonth h.rest_le rfl _ fun hlast => ?_
    rw [if_pos (by rw [hlast]; decide)]
    exact hleap hlast

end Calendar

section Digits

open Digits Text

variable {c : Char} {chars rest : List Char}

theorem isBlank_of_isDigit (h : c.isDigit = true) : isBlank c = false := by
  have hrange : 48 ≤ c.toNat ∧ c.toNat ≤ 57 := by
    simpa [Char.isDigit, UInt32.le_iff_toNat_le] using h
  simp only [isBlank, Bool.or_eq_false_iff, Bool.and_eq_false_iff, decide_eq_false_iff_not,
    beq_eq_false_iff_ne]
  omega

theorem trimFront_cons (h : isBlank c = false) : trimFront (c :: rest) = c :: rest := by
  rw [trimFront, List.dropWhile_cons, h]
  rfl

theorem isDigit_of_mem_padded {width n : Nat} : ∀ c ∈ padded width n, c.isDigit = true := by
  intro c hc
  rcases List.mem_append.1 hc with hc | hc
  · obtain rfl := List.eq_of_mem_replicate hc
    rfl
  · exact isDigit_of_mem_toDigits c hc

theorem padded_ne_nil (width n : Nat) : padded width n ≠ [] :=
  List.append_ne_nil_of_right_ne_nil _ (toDigits_ne_nil n)

@[simp] theorem value_padded (width n : Nat) : value (padded width n) = n := by
  have hzeros (k : Nat) (digits : List Char) :
      value (List.replicate k '0' ++ digits) = value digits := by
    induction k with
    | zero => rfl
    | succ k ih => exact ih
  rw [padded, hzeros, value_toDigits]

theorem length_padded {width n : Nat} (hwidth : 0 < width) (h : n < 10 ^ width) :
    (padded width n).length = width := by
  have := (Nat.length_toDigits_le_iff (b := 10) (by decide) hwidth).2 h
  simp only [padded, List.length_append, List.length_replicate]
  omega

theorem withZeros_eq (n zeros : Nat) : withZeros n zeros = n * 10 ^ zeros := by
  induction zeros generalizing n with
  | zero => simp [withZeros]
  | succ zeros ih => rw [withZeros, ih, Nat.pow_succ]; ring

def Stops (rest : List Char) : Prop := ∀ c ∈ rest.head?, c.isDigit = false

theorem stops_cons (h : c.isDigit = false) : Stops (c :: rest) := by
  intro d hd
  obtain rfl := Option.some.inj hd
  exact h

theorem takeWhile_append (hdigits : ∀ c ∈ chars, c.isDigit = true) (hstop : Stops rest) :
    (chars ++ rest).takeWhile Char.isDigit = chars := by
  rw [List.takeWhile_append_of_pos hdigits]
  cases rest with
  | nil => simp
  | cons c rest => simp [hstop c rfl]

theorem dropWhile_append (hdigits : ∀ c ∈ chars, c.isDigit = true) (hstop : Stops rest) :
    (chars ++ rest).dropWhile Char.isDigit = rest := by
  rw [List.dropWhile_append_of_pos hdigits]
  cases rest with
  | nil => rfl
  | cons c rest => simp [hstop c rfl]

theorem readNumber?_append {most : Nat} (hne : chars ≠ [])
    (hdigits : ∀ c ∈ chars, c.isDigit = true)
    (hmost : chars.length = most ∨ (chars.length ≤ most ∧ Stops rest)) :
    readNumber? most (chars ++ rest) = some (value chars, rest) := by
  obtain ⟨c, more, rfl⟩ := List.exists_cons_of_ne_nil hne
  have htaken : ((c :: more ++ rest).take most).takeWhile Char.isDigit = c :: more := by
    rcases hmost with rfl | ⟨hle, hstop⟩
    · rw [List.take_left]
      exact List.takeWhile_eq_self_iff.2 hdigits
    · rw [List.take_append, List.take_of_length_le hle]
      refine takeWhile_append hdigits fun d hd => hstop d ?_
      cases rest with
      | nil => simp at hd
      | cons e rest => cases h : most - (c :: more).length <;> simp_all
  have hblank := isBlank_of_isDigit (hdigits c List.mem_cons_self)
  rw [readNumber?, List.cons_append, trimFront_cons hblank, ← List.cons_append, htaken,
    List.drop_left]
  rfl

theorem readNumber?_padded {width n : Nat} (hwidth : 0 < width) (h : n < 10 ^ width) :
    readNumber? width (padded width n ++ rest) = some (n, rest) := by
  rw [readNumber?_append (padded_ne_nil width n) isDigit_of_mem_padded
    (.inl (length_padded hwidth h)), value_padded]

end Digits

section Timestamp

open Digits Text

variable {rest : List Char}

theorem exists_digit (width n : Nat) : ∃ c more, padded width n = c :: more ∧ c.isDigit = true := by
  obtain ⟨c, more, hdigits⟩ := List.exists_cons_of_ne_nil (padded_ne_nil width n)
  exact ⟨c, more, hdigits, isDigit_of_mem_padded c (hdigits ▸ List.mem_cons_self)⟩

theorem signed_padded (n : Nat) (negative : Bool) :
    readYear?.signed (padded 4 n ++ '-' :: rest) negative
      = some (if negative then -(n : Int) else n, '-' :: rest) := by
  have hstop : Stops ('-' :: rest) := stops_cons rfl
  have hread : readNumber? (padded 4 n ++ '-' :: rest).length (padded 4 n ++ '-' :: rest)
      = some (value (padded 4 n), '-' :: rest) :=
    readNumber?_append (padded_ne_nil 4 n) isDigit_of_mem_padded (.inr ⟨by simp, hstop⟩)
  obtain ⟨c, more, hdigits, hc⟩ := exists_digit 4 n
  have hhead : (padded 4 n ++ '-' :: rest).head?.any Char.isDigit = true := by
    rw [hdigits]
    exact hc
  rw [readYear?.signed, if_pos hhead, hread, value_padded]
  rfl

theorem readYear?_writeYear (year : Int) :
    readYear? (writeYear year ++ '-' :: rest) = some (year, '-' :: rest) := by
  unfold writeYear
  split
  · next hshort =>
      rw [Bool.and_eq_true, decide_eq_true_eq, decide_eq_true_eq] at hshort
      have hread : readNumber? 4 (padded 4 year.toNat ++ '-' :: rest)
          = some (year.toNat, '-' :: rest) := readNumber?_padded (by decide) (by omega)
      obtain ⟨c, more, hdigits, hc⟩ := exists_digit 4 year.toNat
      rw [hdigits] at hread ⊢
      have hplain : c ≠ '-' ∧ c ≠ '+' := by
        constructor
        · rintro rfl
          cases hc
        · rintro rfl
          cases hc
      rw [List.cons_append, readYear?, trimFront_cons (isBlank_of_isDigit hc)]
      split
      · next h => exact absurd (List.cons.inj h).1 hplain.1
      · next h => exact absurd (List.cons.inj h).1 hplain.2
      · rw [← List.cons_append, hread]
        simp [hshort.1]
  split
  · next hnegative =>
      refine (signed_padded (-year).toNat true).trans ?_
      rw [if_pos rfl, Int.toNat_of_nonneg (by omega), Int.neg_neg]
  · next hlong hnegative =>
      refine (signed_padded year.toNat false).trans ?_
      rw [if_neg Bool.false_ne_true, Int.toNat_of_nonneg (by omega)]

theorem readFraction?_writeFraction {nanos : Nat} (h : nanos < 1000000000) :
    readFraction? (writeFraction nanos ++ 'Z' :: rest) = some (nanos, 'Z' :: rest) := by
  have hread (width n : Nat) (hwidth : 0 < width ∧ width ≤ 9) (hn : n < 10 ^ width) :
      readFraction? ('.' :: padded width n ++ 'Z' :: rest)
        = some (n * 10 ^ (9 - width), 'Z' :: rest) := by
    have hlength := length_padded hwidth.1 hn
    have hstop : Stops ('Z' :: rest) := stops_cons rfl
    have hkept : (padded width n).take 9 = padded width n :=
      List.take_of_length_le (by omega)
    rw [List.cons_append, readFraction?, takeWhile_append isDigit_of_mem_padded hstop,
      dropWhile_append isDigit_of_mem_padded hstop]
    simp [padded_ne_nil, hkept, withZeros_eq, hlength]
  unfold writeFraction
  split
  · next hzero => rw [eq_of_beq hzero]; rfl
  split
  · next hmillis =>
      have hexact := Nat.div_mul_cancel (Nat.dvd_of_mod_eq_zero (eq_of_beq hmillis))
      rw [hread 3 _ (by decide) (by omega)]
      exact congrArg (fun n => some (n, 'Z' :: rest)) hexact
  split
  · next hmicros =>
      have hexact := Nat.div_mul_cancel (Nat.dvd_of_mod_eq_zero (eq_of_beq hmicros))
      rw [hread 6 _ (by decide) (by omega)]
      exact congrArg (fun n => some (n, 'Z' :: rest)) hexact
  · rw [hread 9 _ (by decide) h]
    simp

theorem readDate?_write {year : Int} {month day : Nat} (hmonth : month < 100) (hday : day < 100) :
    readDate? (writeYear year ++ '-' :: (padded 2 month ++ '-' :: (padded 2 day ++ rest)))
      = some (⟨year, month, day⟩, rest) := by
  have hdash (chars : List Char) : expect? '-' (trimFront ('-' :: chars)) = some chars := rfl
  simp only [readDate?, readYear?_writeYear, hdash, readNumber?_padded (by decide : 0 < 2) hmonth,
    readNumber?_padded (by decide : 0 < 2) hday, Option.bind_eq_bind, Option.bind_some]
  rfl

theorem readTime?_write {hour minute second nanos : Nat} (hhour : hour < 24) (hminute : minute < 60)
    (hsecond : second ≤ 60) (hnanos : nanos < 1000000000) :
    readTime? (padded 2 hour ++ ':' :: (padded 2 minute ++ ':' :: (padded 2 second
        ++ (writeFraction nanos ++ 'Z' :: rest))))
      = some (if second = 60 then (hour * 3600 + minute * 60 + 59, nanos + 1000000000, 'Z' :: rest)
        else (hour * 3600 + minute * 60 + second, nanos, 'Z' :: rest)) := by
  have hcolon (chars : List Char) : expect? ':' (trimFront (':' :: chars)) = some chars := rfl
  simp only [readTime?, hcolon, readNumber?_padded (by decide : 0 < 2) (show hour < 10 ^ 2 by omega),
    readNumber?_padded (by decide : 0 < 2) (show minute < 10 ^ 2 by omega),
    readNumber?_padded (by decide : 0 < 2) (show second < 10 ^ 2 by omega),
    readFraction?_writeFraction hnanos, Option.bind_eq_bind, Option.bind_some, hhour, hminute,
    hsecond]
  by_cases hlast : second = 60
  · simp [hlast]
  · simp [hlast]

end Timestamp

/-- The instants that clocks and timestamps give: their date has a year within bounds, and a second
that is left out of the count is numbered 60. -/
structure IsValid (t : Instant) : Prop where
  minYear : -262143 ≤ (Date.ofDays (t.seconds / 86400)).year
  maxYear : (Date.ofDays (t.seconds / 86400)).year ≤ 262142
  nanos : t.nanos < 1000000000 ∨ (t.seconds % 60 = 59 ∧ t.nanos < 2000000000)

theorem IsValid.date {t : Instant} (h : t.IsValid) :
    (Date.ofDays (t.seconds / 86400)).isValid = true :=
  isValid_ofDays h.minYear h.maxYear

theorem Date.month_day_le {d : Date} (h : d.isValid = true) : d.month ≤ 12 ∧ d.day ≤ 31 := by
  have hlength : daysInMonth d.year d.month ≤ 31 := by
    unfold daysInMonth
    split
    · split <;> omega
    · split <;> omega
  simp only [Date.isValid, Bool.and_eq_true, decide_eq_true_eq] at h
  omega

theorem read?_write {t : Instant} (h : t.IsValid) : read? t.write = some t := by
  obtain ⟨seconds, nanos⟩ := t
  have hdate := h.date
  have hnanos := h.nanos
  dsimp only at hdate hnanos
  obtain ⟨hmonth, hday⟩ := Date.month_day_le hdate
  obtain ⟨time, htime⟩ := Int.eq_ofNat_of_zero_le
    (Int.emod_nonneg seconds (by decide : (86400 : Int) ≠ 0))
  have hback := toDays_ofDays (seconds / 86400)
  have hsum : seconds / 86400 * 86400 + time = seconds := by omega
  have hlt : time < 86400 := by omega
  have hminute : seconds % 60 = time % 60 := by omega
  have htext : (write ⟨seconds, nanos⟩).toList
      = writeYear (Date.ofDays (seconds / 86400)).year ++ '-' ::
        (Digits.padded 2 (Date.ofDays (seconds / 86400)).month ++ '-' ::
        (Digits.padded 2 (Date.ofDays (seconds / 86400)).day ++ 'T' ::
        (Digits.padded 2 (time / 3600) ++ ':' ::
        (Digits.padded 2 (time / 60 % 60) ++ ':' ::
        (Digits.padded 2 (time % 60 + nanos / 1000000000)
          ++ (writeFraction (nanos % 1000000000) ++ ['Z'])))))) := by
    rw [write, String.toList_ofList, chars]
    simp only [htime, Int.toNat_natCast, List.append_assoc, List.cons_append]
  have hread : readTime? (Digits.padded 2 (time / 3600) ++ ':' ::
        (Digits.padded 2 (time / 60 % 60) ++ ':' ::
        (Digits.padded 2 (time % 60 + nanos / 1000000000)
          ++ (writeFraction (nanos % 1000000000) ++ ['Z']))))
      = some (time, nanos, ['Z']) := by
    rw [readTime?_write (by omega) (by omega) (by omega) (by omega)]
    split
    · rw [Option.some.injEq, Prod.mk.injEq, Prod.mk.injEq]
      exact ⟨by omega, by omega, rfl⟩
    · rw [Option.some.injEq, Prod.mk.injEq, Prod.mk.injEq]
      exact ⟨by omega, by omega, rfl⟩
  rw [read?, htext, ofChars?, readDate?_write (by omega) (by omega)]
  simp only [Option.bind_eq_bind, Option.bind_some]
  rw [if_pos (by rfl), hread]
  have hoffset : readOffset? (Text.trimFront ['Z']) = some (0, []) := rfl
  simp only [Option.bind_some, hoffset, hback, hsum, Int.sub_zero, hdate, Bool.and_self]
  rfl

theorem value_lt {digits : List Char} (h : ∀ c ∈ digits, c.isDigit = true) :
    Digits.value digits < 10 ^ digits.length := by
  have general (n : Nat) : digits.foldl (fun n c => 10 * n + (c.toNat - '0'.toNat)) n
      < (n + 1) * 10 ^ digits.length := by
    induction digits generalizing n with
    | nil => simp
    | cons c rest ih =>
        have hc : 48 ≤ c.toNat ∧ c.toNat ≤ 57 := by
          simpa [Char.isDigit, UInt32.le_iff_toNat_le] using h c List.mem_cons_self
        have hzero : '0'.toNat = 48 := rfl
        have hrest := ih (fun d hd => h d (List.mem_cons_of_mem _ hd))
          (10 * n + (c.toNat - '0'.toNat))
        rw [List.foldl_cons, List.length_cons, Nat.pow_succ]
        calc rest.foldl (fun n c => 10 * n + (c.toNat - '0'.toNat)) (10 * n + (c.toNat - '0'.toNat))
            < (10 * n + (c.toNat - '0'.toNat) + 1) * 10 ^ rest.length := hrest
          _ ≤ (10 * (n + 1)) * 10 ^ rest.length := Nat.mul_le_mul_right _ (by omega)
          _ = (n + 1) * (10 ^ rest.length * 10) := by ring
  have hzero := general 0
  rw [Nat.zero_add, Nat.one_mul] at hzero
  exact hzero

theorem readFraction?_lt {chars rest : List Char} {nanos : Nat}
    (h : readFraction? chars = some (nanos, rest)) : nanos < 1000000000 := by
  unfold readFraction? at h
  split at h
  · next more =>
      dsimp only at h
      split at h
      · cases h
      · obtain ⟨rfl, -⟩ := Prod.mk.inj (Option.some.inj h)
        have hkept : ∀ c ∈ (more.takeWhile Char.isDigit).take 9, c.isDigit = true :=
          fun c hc => List.mem_takeWhile_imp (List.mem_of_mem_take hc)
        have hlength : ((more.takeWhile Char.isDigit).take 9).length ≤ 9 := List.length_take_le ..
        generalize (more.takeWhile Char.isDigit).take 9 = kept at hkept hlength
        rw [withZeros_eq]
        calc Digits.value kept * 10 ^ (9 - kept.length)
            < 10 ^ kept.length * 10 ^ (9 - kept.length) :=
              Nat.mul_lt_mul_of_pos_right (value_lt hkept) (Nat.pow_pos (by decide))
          _ = 10 ^ 9 := by rw [← Nat.pow_add, Nat.add_sub_cancel' hlength]
  · obtain ⟨rfl, -⟩ := Prod.mk.inj (Option.some.inj h)
    decide

theorem readTime?_bounds {chars rest : List Char} {time nanos : Nat}
    (h : readTime? chars = some (time, nanos, rest)) :
    nanos < 1000000000 ∨ (time % 60 = 59 ∧ nanos < 2000000000) := by
  simp only [readTime?, Option.bind_eq_bind, Option.bind_eq_some_iff] at h
  obtain ⟨⟨hour, _⟩, -, _, -, ⟨minute, _⟩, -, _, -, ⟨second, _⟩, -, ⟨fraction, _⟩, hfraction, h⟩ := h
  have hlt := readFraction?_lt hfraction
  split at h
  · split at h
    · obtain ⟨rfl, hrest⟩ := Prod.mk.inj (Option.some.inj h)
      obtain ⟨rfl, -⟩ := Prod.mk.inj hrest
      dsimp only
      omega
    · obtain ⟨rfl, hrest⟩ := Prod.mk.inj (Option.some.inj h)
      obtain ⟨rfl, -⟩ := Prod.mk.inj hrest
      exact .inl hlt
  · cases h

theorem readOffset?_mod {chars rest : List Char} {offset : Int}
    (h : readOffset? chars = some (offset, rest)) : offset % 60 = 0 := by
  have hhours (chars : List Char) (negative : Bool)
      (h : readOffset?.hours chars negative = some (offset, rest)) : offset % 60 = 0 := by
    simp only [readOffset?.hours, Option.bind_eq_bind, Option.bind_eq_some_iff] at h
    obtain ⟨⟨hour, _⟩, -, ⟨minute, _⟩, -, h⟩ := h
    split at h
    · obtain ⟨rfl, -⟩ := Prod.mk.inj (Option.some.inj h)
      split <;> dsimp only <;> omega
    · cases h
  unfold readOffset? at h
  split at h
  · obtain ⟨rfl, -⟩ := Prod.mk.inj (Option.some.inj h); rfl
  · obtain ⟨rfl, -⟩ := Prod.mk.inj (Option.some.inj h); rfl
  · exact hhours _ _ h
  · exact hhours _ _ h
  · exact hhours _ _ h
  · split at h
    · obtain ⟨rfl, -⟩ := Prod.mk.inj (Option.some.inj h); rfl
    · cases h
  · cases h

theorem isValid_of_read? {s : String} {t : Instant} (h : read? s = some t) : t.IsValid := by
  simp only [read?, ofChars?, Option.bind_eq_bind, Option.bind_eq_some_iff] at h
  obtain ⟨⟨date, more⟩, -, h⟩ := h
  cases more with
  | nil => cases h
  | cons c more =>
  dsimp only at h
  split at h
  rotate_left
  · cases h
  simp only [Option.bind_eq_some_iff] at h
  obtain ⟨_, -, ⟨time, nanos, _⟩, htime, ⟨offset, _⟩, hoffset, h⟩ := h
  have hbounds := readTime?_bounds htime
  have hmod := readOffset?_mod hoffset
  split at h
  · next hvalid =>
      obtain rfl := Option.some.inj h
      simp only [Bool.and_eq_true] at hvalid
      have hyear := hvalid.1.2
      simp only [Date.isValid, Bool.and_eq_true, decide_eq_true_eq] at hyear
      exact ⟨hyear.1.1.1.1.1, hyear.1.1.1.1.2, by dsimp only; omega⟩
  · cases h

end Instant

end ZoneKeeper
