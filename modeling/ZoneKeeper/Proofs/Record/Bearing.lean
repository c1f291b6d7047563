import Mathlib.Algebra.Order.Ring.Rat
import ZoneKeeper.Proofs.Record.Width
import ZoneKeeper.Proofs.Text.Worth

namespace ZoneKeeper

open Decimal (Numeral)

structure Length where
  number : Numeral
  unit : Octets
  isUnit : unit ∈ [[], octets "m", octets "M"]

def Length.word (length : Length) : Octets := length.number.text ++ length.unit

def Length.centimetres (length : Length) : ℚ := 100 * length.number.worth

structure Bearing where
  parts : List Numeral
  direction : Octets
  isPositive : Bool

namespace Bearing

def words (b : Bearing) : List Octets := b.parts.map Numeral.text ++ [b.direction]

def seconds (b : Bearing) : ℚ :=
  (List.zipWith (· * ·) [3600, 60, 1] (b.parts.map Numeral.worth)).sum

def offset (b : Bearing) : ℚ := if b.isPositive then 1000 * b.seconds else -(1000 * b.seconds)

structure Gives (b : Bearing) (axis : Location.Axis) (value : UInt32) : Prop where
  parts : 1 ≤ b.parts.length ∧ b.parts.length ≤ 3
  direction : b.direction.sameLetters (if b.isPositive then axis.positive else axis.negative) = true
  value : (value.toNat : ℚ) = 2 ^ 31 + b.offset
  within : |b.offset| ≤ axis.limit * 3600000

end Bearing

namespace Location

structure IsRounded (cm : ℚ) (b : UInt8) : Prop where
  mantissa : b.toNat / 16 ≤ 9
  exponent : b.toNat % 16 ≤ 9
  least : ((b.toNat / 16 : ℕ) : ℚ) * 10 ^ (b.toNat % 16) ≤ cm
  below : cm < ((b.toNat / 16 : ℕ) + 1) * 10 ^ (b.toNat % 16)

inductive ArePrecise : List Length → List UInt8 → List UInt8 → Prop
  | omitted (defaults : List UInt8) : ArePrecise [] defaults defaults
  | given {length : Length} {b : UInt8} (default : UInt8) {lengths : List Length}
      {defaults precisions : List UInt8} :
      IsRounded length.centimetres b → ArePrecise lengths defaults precisions →
        ArePrecise (length :: lengths) (default :: defaults) (b :: precisions)

structure Shows (l : Location) (latitude longitude : Bearing) (altitude : Length)
    (lengths : List Length) : Prop where
  latitude : latitude.Gives latitudeAxis l.latitude
  longitude : longitude.Gives longitudeAxis l.longitude
  altitude : (l.altitude.toNat : ℚ) = 10000000 + altitude.centimetres
  precisions : ArePrecise lengths [defaultSize, defaultHorizontal, defaultVertical]
    [l.size, l.horizontal, l.vertical]

theorem eq_of_cutSign {text digits : Octets} {negative : Bool}
    (h : cutSign text = (negative, digits)) :
    (if negative then [Octet.hyphen] else []) ++ digits = text := by
  cases text with
  | nil =>
      obtain ⟨rfl, rfl⟩ := Prod.mk.inj h
      rfl
  | cons b rest =>
      rw [cutSign] at h
      split at h
      · next hb =>
          obtain ⟨rfl, rfl⟩ := Prod.mk.inj h
          rw [beq_iff_eq.1 hb]
          rfl
      · obtain ⟨rfl, rfl⟩ := Prod.mk.inj h
        rfl

theorem exists_pointed_of_cutPoint {digits whole fraction : Octets}
    (h : cutPoint digits = (whole, fraction)) :
    ∃ places : Option Octets, places.getD [] = fraction
      ∧ whole ++ Numeral.pointed places = digits := by
  unfold cutPoint at h
  cases hcut : digits.cut Octet.dot with
  | none =>
      rw [hcut, Option.getD_none] at h
      obtain ⟨rfl, rfl⟩ := Prod.mk.inj h
      exact ⟨none, rfl, List.append_nil _⟩
  | some parts =>
      rw [hcut, Option.getD_some] at h
      subst h
      exact ⟨some fraction, rfl, (Octets.eq_of_cut hcut).symm⟩

theorem exists_numeral_of_readFixed? {places : Nat} {text : Octets} {value : Int}
    (h : readFixed? places text = some value) :
    ∃ n : Numeral, n.text = text ∧ (value : ℚ) = n.worth * 10 ^ places := by
  rcases hsign : cutSign text with ⟨negative, digits⟩
  rcases hpoint : cutPoint digits with ⟨whole, fraction⟩
  obtain ⟨behind, rfl, hdigits⟩ := exists_pointed_of_cutPoint hpoint
  rw [readFixed?_eq hsign hpoint] at h
  split at h
  · cases h
  · next hcheck =>
      have hfixed := isFixed_of hcheck
      let n : Numeral := ⟨negative, whole, behind, hfixed.ne_nil, hfixed.isDigit⟩
      have hpow : (10 : ℚ) ^ (behind.getD []).length * 10 ^ (places - (behind.getD []).length)
          = 10 ^ places := by
        rw [← pow_add, Nat.add_sub_cancel' hfixed.length_fraction]
      have hsize : n.size * 10 ^ places = fixedSize places whole (behind.getD []) := by
        rw [← hpow, ← mul_assoc, n.size_eq, Decimal.ofDigits_append_eq, fixedSize]
        push_cast
        rw [← hpow]
        ring
      refine ⟨n, ?_, ?_⟩
      · rw [Numeral.text, List.append_assoc, hdigits, eq_of_cutSign hsign]
      · obtain rfl := Option.some.inj h
        rw [Numeral.worth]
        split
        · push_cast
          rw [neg_mul, hsize]
        · rw [hsize]
          rfl

theorem exists_unit (text : Octets) :
    ∃ unit ∈ [[], octets "m", octets "M"], withoutUnit text ++ unit = text := by
  unfold withoutUnit
  split
  · next h =>
      rcases h with h | h
      · exact ⟨octets "m", by simp, List.dropLast_append_getLast? _ h⟩
      · exact ⟨octets "M", by simp, List.dropLast_append_getLast? _ h⟩
  · exact ⟨[], by simp, List.append_nil text⟩

theorem exists_length_of_readMetres? {text : Octets} {cm : Int} (h : readMetres? text = some cm) :
    ∃ length : Length, length.word = text ∧ (cm : ℚ) = length.centimetres := by
  rw [readMetres?_eq] at h
  obtain ⟨unit, hunit, htext⟩ := exists_unit text
  obtain ⟨n, hn, hcm⟩ := exists_numeral_of_readFixed? h
  refine ⟨⟨n, unit, hunit⟩, ?_, ?_⟩
  · rw [Length.word, hn, htext]
  · rw [hcm, Length.centimetres]
    ring

theorem isRounded_of_encodePrecision? {cm : Int} {b : UInt8} (h : encodePrecision? cm = some b) :
    IsRounded cm b := by
  unfold encodePrecision? at h
  split at h
  · next hwithin =>
      simp only [Bool.and_eq_true, decide_eq_true_eq] at hwithin
      have hmax : maxPrecision = 9000000000 := rfl
      obtain ⟨n, rfl⟩ := Int.eq_ofNat_of_zero_le hwithin.1
      obtain ⟨hmantissa, hleast, -⟩ := scientific_spec n
      have hexponent := exponent_lt (k := 9) (show n < 10 ^ (9 + 1) by omega)
      have hbelow := lt_scientific n
      rw [withZeros_eq] at hleast
      obtain rfl := Option.some.inj h
      rw [Int.toNat_natCast]
      generalize (scientific n).1 = mantissa at *
      generalize (scientific n).2 = exponent at *
      have hoctet : (UInt8.ofNat (16 * mantissa + exponent)).toNat = 16 * mantissa + exponent :=
        UInt8.toNat_ofNat_of_lt' (show 16 * mantissa + exponent < 2 ^ 8 by omega)
      have hdiv : (16 * mantissa + exponent) / 16 = mantissa := by omega
      have hmod : (16 * mantissa + exponent) % 16 = exponent := by omega
      constructor <;> rw [hoctet]
      · omega
      · omega
      · rw [hdiv, hmod]
        exact_mod_cast hleast
      · rw [hdiv, hmod]
        exact_mod_cast hbelow
  · cases h

theorem exists_of_nextUnlessHemisphere {axis : Axis} {words rest : List Octets} {text : Octets}
    (h : nextUnlessHemisphere axis words = some (text, rest)) : words = text :: rest := by
  cases words with
  | nil => cases h
  | cons word words =>
      rw [nextUnlessHemisphere] at h
      split at h
      · cases h
      · obtain ⟨rfl, rfl⟩ := Prod.mk.inj (Option.some.inj h)
        rfl

theorem exists_parts_of_readArc {axis : Axis} {words rest : List Octets} {minutes millis : Nat}
    (h : readArc axis words = .ok (minutes, millis, rest)) :
    ∃ parts : List Numeral, parts.length ≤ 2 ∧ words = parts.map Numeral.text ++ rest
      ∧ ((minutes * 60000 + millis : ℕ) : ℚ)
        = 1000 * (List.zipWith (· * ·) [60, 1] (parts.map Numeral.worth)).sum := by
  unfold readArc at h
  split at h
  · cases h
    exact ⟨[], by simp, by simp, by simp⟩
  · next first words hfirst =>
      obtain rfl := exists_of_nextUnlessHemisphere hfirst
      split at h
      · cases h
      · next _ hminutes =>
          obtain ⟨m, hm, hworth⟩ := Decimal.exists_numeral_of_read?
            (Decimal.readBits?_eq_some_iff.1 (Option.filter_eq_some_iff.1 hminutes).1).1
          split at h
          · cases h
            refine ⟨[m], by simp, by simp [hm], ?_⟩
            simp [hworth]
            ring
          · next second words hsecond =>
              obtain rfl := exists_of_nextUnlessHemisphere hsecond
              split at h
              · cases h
              · next millis hmillis =>
                  obtain ⟨hread, hwithin⟩ := Option.filter_eq_some_iff.1 hmillis
                  obtain ⟨n, hn, hvalue⟩ := exists_numeral_of_readFixed? hread
                  simp only [Bool.and_eq_true, decide_eq_true_eq] at hwithin
                  cases h
                  refine ⟨[m, n], by simp, by simp [hm, hn], ?_⟩
                  have hcast : ((millis.toNat : ℕ) : ℚ) = millis := by
                    exact_mod_cast Int.toNat_of_nonneg hwithin.1
                  push_cast
                  rw [hcast, hvalue]
                  simp [hworth]
                  ring

theorem exists_of_readHemisphere {axis : Axis} {words rest : List Octets} {positive : Bool}
    (h : readHemisphere axis words = .ok (positive, rest)) :
    ∃ direction, words = direction :: rest
      ∧ direction.sameLetters (if positive then axis.positive else axis.negative) = true := by
  cases words with
  | nil => cases h
  | cons direction words =>
      rw [readHemisphere] at h
      split at h
      · next hsame =>
          obtain ⟨rfl, rfl⟩ := Prod.mk.inj (Except.ok.inj h)
          exact ⟨direction, rfl, hsame⟩
      · split at h
        · next hsame =>
            obtain ⟨rfl, rfl⟩ := Prod.mk.inj (Except.ok.inj h)
            exact ⟨direction, rfl, hsame⟩
        · cases h

theorem toNat_eq_offset {axis : Axis} (haxis : axis.IsClear) {b : Bearing} {offset : ℕ}
    (hseconds : 1000 * b.seconds = offset) (hwithin : offset ≤ axis.limit * millisPerDegree) :
    ((UInt32.ofNat (if b.isPositive then equator + offset else equator - offset)).toNat : ℚ)
        = 2 ^ 31 + b.offset
      ∧ |b.offset| ≤ axis.limit * 3600000 := by
  have hlimit := haxis.limit
  have hequator : equator = 2147483648 := rfl
  have hbound : (offset : ℚ) ≤ axis.limit * 3600000 := by exact_mod_cast hwithin
  have hnonneg : (0 : ℚ) ≤ offset := Nat.cast_nonneg offset
  unfold Bearing.offset
  split
  · rw [hseconds, abs_of_nonneg hnonneg,
      UInt32.toNat_ofNat_of_lt' (show equator + offset < 2 ^ 32 by omega), hequator]
    push_cast
    exact ⟨by norm_num, hbound⟩
  · rw [hseconds, abs_neg, abs_of_nonneg hnonneg,
      UInt32.toNat_ofNat_of_lt' (show equator - offset < 2 ^ 32 by omega),
      Nat.cast_sub (by omega), hequator]
    push_cast
    exact ⟨by ring, hbound⟩

theorem exists_bearing_of_readCoordinate {axis : Axis} (haxis : axis.IsClear)
    {words rest : List Octets} {value : UInt32}
    (h : readCoordinate axis words = .ok (value, rest)) :
    ∃ b : Bearing, words = b.words ++ rest ∧ b.Gives axis value := by
  have hunit : millisPerDegree = 3600000 := rfl
  cases words with
  | nil => cases h
  | cons text words =>
      rw [readCoordinate] at h
      split at h
      · cases h
      · next degrees hdegrees =>
          obtain ⟨d, rfl, hworth⟩ := Decimal.exists_numeral_of_read?
            (Decimal.readBits?_eq_some_iff.1 hdegrees).1
          simp only [readMinutes_eq, bind_eq_ok, map_eq_ok] at h
          obtain ⟨_, ⟨⟨minutes, millis, words⟩, harc, rfl⟩, ⟨positive, words⟩, hhemisphere, h⟩ := h
          obtain ⟨parts, hparts, rfl, hsum⟩ := exists_parts_of_readArc harc
          obtain ⟨direction, rfl, hdirection⟩ := exists_of_readHemisphere hhemisphere
          split at h
          · cases h
          · next hwithin =>
              obtain ⟨rfl, rfl⟩ := Prod.mk.inj (Except.ok.inj h)
              have hseconds : 1000 * (Bearing.mk (d :: parts) direction positive).seconds
                  = (degrees * millisPerDegree + (minutes * 60000 + millis) : ℕ) := by
                rw [Nat.cast_add, hsum, Nat.cast_mul, hunit, ← hworth]
                simp only [Bearing.seconds, List.map_cons, List.zipWith_cons_cons, List.sum_cons]
                push_cast
                ring
              obtain ⟨hvalue, hfar⟩ := toNat_eq_offset haxis hseconds (Nat.le_of_not_lt hwithin)
              refine ⟨⟨d :: parts, direction, positive⟩, by simp [Bearing.words], ?_⟩
              exact ⟨⟨Nat.succ_pos _, Nat.succ_le_succ hparts⟩, hdirection, hvalue, hfar⟩

theorem exists_length_of_readAltitude {words rest : List Octets} {value : UInt32}
    (h : readAltitude words = .ok (value, rest)) :
    ∃ length : Length, words = length.word :: rest
      ∧ (value.toNat : ℚ) = 10000000 + length.centimetres := by
  have hbase : altitudeBase = 10000000 := rfl
  have hmax : maxAltitude = 4284967295 := rfl
  cases words with
  | nil => cases h
  | cons text words =>
      rw [readAltitude] at h
      split at h
      · cases h
      · next cm hcm =>
          obtain ⟨hread, hwithin⟩ := Option.filter_eq_some_iff.1 hcm
          simp only [Bool.and_eq_true, decide_eq_true_eq] at hwithin
          obtain ⟨length, rfl, hlength⟩ := exists_length_of_readMetres? hread
          obtain ⟨rfl, rfl⟩ := Prod.mk.inj (Except.ok.inj h)
          refine ⟨length, rfl, ?_⟩
          have hvalue : (((cm + altitudeBase).toNat : ℕ) : ℤ) = cm + 10000000 := by omega
          rw [UInt32.toNat_ofNat_of_lt' (show (cm + altitudeBase).toNat < 2 ^ 32 by omega),
            ← hlength, ← Int.cast_natCast (R := ℚ), hvalue]
          push_cast
          ring

theorem exists_lengths_of_readPrecision {field : String} {default b : UInt8}
    {words rest : List Octets} (h : readPrecision field default words = .ok (b, rest))
    {lengths : List Length} {defaults precisions : List UInt8}
    (hrest : rest = lengths.map Length.word) (hprecise : ArePrecise lengths defaults precisions) :
    ∃ lengths : List Length, words = lengths.map Length.word
      ∧ ArePrecise lengths (default :: defaults) (b :: precisions) := by
  cases words with
  | nil =>
      obtain ⟨rfl, rfl⟩ := Prod.mk.inj (Except.ok.inj h)
      obtain rfl := List.map_eq_nil_iff.1 hrest.symm
      cases hprecise
      exact ⟨[], rfl, .omitted _⟩
  | cons text words =>
      rw [readPrecision] at h
      split at h
      · cases h
      · next _ hread =>
          obtain ⟨cm, hcm, hencode⟩ := Option.bind_eq_some_iff.1 hread
          obtain ⟨length, rfl, hlength⟩ := exists_length_of_readMetres? hcm
          have hrounded := isRounded_of_encodePrecision? hencode
          rw [hlength] at hrounded
          obtain ⟨rfl, rfl⟩ := Prod.mk.inj (Except.ok.inj h)
          exact ⟨length :: lengths, by rw [hrest, List.map_cons], .given default hrounded hprecise⟩

theorem exists_shows_of_read {words : List Octets} {l : Location} (h : read words = .ok l) :
    ∃ latitude longitude altitude lengths,
      words = latitude.words ++ longitude.words ++ altitude.word :: lengths.map Length.word
        ∧ l.Shows latitude longitude altitude lengths := by
  simp only [read, bind_eq_ok] at h
  obtain ⟨_, hlatitude, _, hlongitude, _, haltitude, _, hsize, _, hhorizontal, _, hvertical, h⟩ := h
  split at h
  · next hrest =>
      obtain rfl := Except.ok.inj h
      obtain ⟨latitude, hwords, hlat⟩ :=
        exists_bearing_of_readCoordinate isClear_latitudeAxis hlatitude
      obtain ⟨longitude, hwords₁, hlong⟩ :=
        exists_bearing_of_readCoordinate isClear_longitudeAxis hlongitude
      obtain ⟨altitude, hwords₂, halt⟩ := exists_length_of_readAltitude haltitude
      -- From the last precision on: none is given behind one that is left out.
      obtain ⟨_, hwords₃, hprecise⟩ := exists_lengths_of_readPrecision hvertical
        (show _ = [].map Length.word from hrest) (.omitted [])
      obtain ⟨_, hwords₄, hprecise⟩ := exists_lengths_of_readPrecision hhorizontal hwords₃ hprecise
      obtain ⟨lengths, hwords₅, hprecise⟩ := exists_lengths_of_readPrecision hsize hwords₄ hprecise
      refine ⟨latitude, longitude, altitude, lengths, ?_, hlat, hlong, halt, hprecise⟩
      rw [hwords, hwords₁, hwords₂, hwords₅, List.append_assoc]
  · cases h

theorem numbers_are_exact (words : List Octets) :
    (Limited.read words).run = some (read words)
      ∧ ∀ l, read words = .ok l → Limited.words l = some l.words
        ∧ ∃ latitude longitude altitude lengths,
          words = latitude.words ++ longitude.words ++ altitude.word :: lengths.map Length.word
            ∧ l.Shows latitude longitude altitude lengths := by
  refine ⟨?_, fun l h => ⟨Limited.words_eq l, exists_shows_of_read h⟩⟩
  rw [Limited.read_eq]
  rfl

theorem abbreviated_words_are_exact :
    let words := ["52", "22", "23.5", "N", "4", "53", "w", "-2.00m", "1M", "123.45"].map octets
    let l : Location := ⟨0x12, 0x14, 0x13, 2336027148, 2129903648, 9999800⟩
    read words = .ok l ∧ (Limited.read words).run = some (.ok l) ∧ Limited.words l = some l.words
      ∧ ∃ latitude longitude altitude lengths,
        words = latitude.words ++ longitude.words ++ altitude.word :: lengths.map Length.word
          ∧ l.Shows latitude longitude altitude lengths := by
  intro words l
  have hread : read words = .ok l := by decide +kernel
  obtain ⟨hlimited, hshown⟩ := numbers_are_exact words
  exact ⟨hread, hlimited.trans (congrArg some hread), hshown l hread⟩

end Location

end ZoneKeeper
