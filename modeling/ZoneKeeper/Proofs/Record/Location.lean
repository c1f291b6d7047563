import ZoneKeeper.Proofs.Text.Numeral
import ZoneKeeper.Proofs.Text.Reader
import ZoneKeeper.Proofs.Text.Split
import ZoneKeeper.Record.Location

namespace ZoneKeeper

namespace Location

def writeFixed (negative : Bool) (places whole fraction : Nat) : Octets :=
  (if negative then [Octet.hyphen] else [])
    ++ (Decimal.write whole ++ Octet.dot :: Decimal.writePadded places fraction)

theorem readFixed?_write (places whole fraction : Nat) (hplaces : 0 < places)
    (hwhole : whole < 10 ^ 12) (hfraction : fraction < 10 ^ places) (negative : Bool) :
    readFixed? places (writeFixed negative places whole fraction)
      = some (if negative then -((10 ^ places * whole + fraction : Nat) : Int)
          else ((10 ^ places * whole + fraction : Nat) : Int)) := by
  have hcut : (Decimal.write whole ++ Octet.dot :: Decimal.writePadded places fraction).cut
      Octet.dot = some (Decimal.write whole, Decimal.writePadded places fraction) :=
    Octets.cut_append_cons (Decimal.notMem_write rfl)
  have hlength := Decimal.length_writePadded hplaces hfraction
  have hdigits : (Decimal.write whole ++ Decimal.writePadded places fraction).all Octet.isDigit
      = true := by
    rw [List.all_append, List.all_eq_true.2 Decimal.isDigit_of_mem_write,
      List.all_eq_true.2 Decimal.isDigit_of_mem_writePadded]
    rfl
  have hvalue : Decimal.ofDigits (Decimal.write whole ++ Decimal.writePadded places fraction)
      = 10 ^ places * whole + fraction := by
    rw [Decimal.ofDigits_append_eq, Decimal.ofDigits_write, Decimal.ofDigits_writePadded, hlength]
  have hsize := Decimal.length_write_le (k := 12) (by decide) hwhole
  have hcheck : ((Decimal.write whole).isEmpty || decide ((Decimal.write whole).length > 12)
      || decide ((Decimal.writePadded places fraction).length > places)
      || !(Decimal.write whole ++ Decimal.writePadded places fraction).all Octet.isDigit)
        = false := by
    rw [hdigits, hlength]
    simp [hsize]
  have hpad : Decimal.writePadded places fraction
      ++ List.replicate (places - (Decimal.writePadded places fraction).length) Octet.zero
        = Decimal.writePadded places fraction := by
    rw [hlength, Nat.sub_self]
    exact List.append_nil _
  cases negative with
  | true =>
      change readFixed? places (Octet.hyphen :: (Decimal.write whole ++ _)) = _
      simp only [readFixed?, hcut, Option.getD_some, hcheck, hpad, hvalue]
      rfl
  | false =>
      obtain ⟨b, rest, heq⟩ := List.exists_cons_of_ne_nil (Decimal.write_ne_nil whole)
      have hb : b ≠ Octet.hyphen := by
        rintro rfl
        refine Decimal.notMem_write (n := whole) (b := Octet.hyphen) rfl ?_
        rw [heq]
        exact List.mem_cons_self
      change readFixed? places (Decimal.write whole ++ _) = _
      unfold readFixed?
      split
      next sign digits hsplit =>
        split at hsplit
        · next later hfirst =>
            rw [heq, List.cons_append] at hfirst
            exact absurd (List.cons_eq_cons.1 hfirst).1 hb
        · obtain ⟨rfl, rfl⟩ := Prod.mk.inj hsplit
          simp only [hcut, Option.getD_some, hcheck, hpad, hvalue]
          rfl

theorem writeMetres_eq (negative : Bool) (cm : Nat) :
    writeMetres negative cm = writeFixed negative 2 (cm / 100) (cm % 100) ++ [0x6d] := by
  simp only [writeMetres, writeFixed, List.append_assoc, List.cons_append]
  rfl

theorem readMetres?_write (cm : Nat) (h : cm < 10 ^ 14) (negative : Bool) :
    readMetres? (writeMetres negative cm) = some (if negative then -(cm : Int) else cm) := by
  have hvalue : 10 ^ 2 * (cm / 100) + cm % 100 = cm := Nat.div_add_mod cm 100
  have hfixed := readFixed?_write 2 (cm / 100) (cm % 100) (by decide) (by omega)
    (Nat.mod_lt cm (by decide)) negative
  rw [hvalue] at hfixed
  rw [writeMetres_eq, readMetres?, List.getLast?_concat]
  simpa using hfixed

structure Axis.IsClear (axis : Axis) : Prop where
  positive : axis.positive.lower.any Octet.isDigit = false
  negative : axis.negative.lower.any Octet.isDigit = false
  differ : axis.negative.sameLetters axis.positive = false
  words : ∀ word ∈ [axis.positive, axis.negative], word.isGraphic = true ∧ word ≠ []
  limit : axis.limit * millisPerDegree < equator

theorem isClear_latitudeAxis : latitudeAxis.IsClear := by
  constructor <;> decide

theorem isClear_longitudeAxis : longitudeAxis.IsClear := by
  constructor <;> decide

theorem sameLetters_digit {word letters : Octets} (hword : word.any Octet.isDigit = true)
    (hletters : letters.lower.any Octet.isDigit = false) : word.sameLetters letters = false := by
  have hdigit : ∀ b, Octet.isDigit b = true → Octet.isDigit (Octet.toLower b) = true :=
    Octet.forall_of_fin (by decide +kernel)
  obtain ⟨b, hb, hb'⟩ := List.any_eq_true.1 hword
  by_contra hsame
  rw [Bool.not_eq_false, Octets.sameLetters, beq_iff_eq] at hsame
  rw [← hsame, List.any_eq_false] at hletters
  exact hletters (Octet.toLower b) (List.mem_map_of_mem hb) (hdigit b hb')

theorem nextUnlessHemisphere_digit {axis : Axis} (haxis : axis.IsClear) {word : Octets}
    (hword : word.any Octet.isDigit = true) (rest : List Octets) :
    nextUnlessHemisphere axis (word :: rest) = some (word, rest) := by
  rw [nextUnlessHemisphere, Axis.isHemisphere, sameLetters_digit hword haxis.positive,
    sameLetters_digit hword haxis.negative]
  rfl

theorem any_isDigit_write (n : Nat) (t : Octets) :
    (Decimal.write n ++ t).any Octet.isDigit = true := by
  obtain ⟨b, rest, heq⟩ := List.exists_cons_of_ne_nil (Decimal.write_ne_nil n)
  have hb := Decimal.isDigit_of_mem_write (n := n) b (by rw [heq]; exact List.mem_cons_self)
  rw [heq, List.cons_append, List.any_cons, hb]
  rfl

theorem readMinutes_write {axis : Axis} (haxis : axis.IsClear) {minutes millis : Nat}
    (hminutes : minutes < 60) (hmillis : millis < 60000) (rest : List Octets) :
    readMinutes axis (Decimal.write minutes
        :: (Decimal.write (millis / 1000) ++ Octet.dot :: Decimal.writePadded 3 (millis % 1000))
        :: rest)
      = .ok (minutes * 60000 + millis, rest) := by
  have hfirst := any_isDigit_write minutes []
  rw [List.append_nil] at hfirst
  have hseconds : readFixed? 3 (Decimal.write (millis / 1000)
      ++ Octet.dot :: Decimal.writePadded 3 (millis % 1000)) = some (millis : Int) := by
    have hfixed := readFixed?_write 3 (millis / 1000) (millis % 1000) (by decide)
      (by omega) (Nat.mod_lt millis (by decide)) false
    rwa [show 10 ^ 3 * (millis / 1000) + millis % 1000 = millis from Nat.div_add_mod millis 1000]
      at hfixed
  have hminutes' : (some minutes).filter (· < 60) = some minutes := by
    rw [Option.filter_some, if_pos (by simpa using hminutes)]
  have hmillis' : (some (millis : Int)).filter (fun ms => 0 ≤ ms && ms < 60000)
      = some (millis : Int) := by
    rw [Option.filter_some, if_pos (by simp; omega)]
  have hread : Decimal.readBits? 32 (Decimal.write minutes) = some minutes :=
    Decimal.readBits?_write (by omega)
  rw [readMinutes, nextUnlessHemisphere_digit haxis hfirst]
  simp only [hread, hminutes',
    nextUnlessHemisphere_digit haxis (any_isDigit_write _ _), hseconds, hmillis',
    Int.toNat_natCast]

theorem readHemisphere_positive (axis : Axis) (rest : List Octets) :
    readHemisphere axis (axis.positive :: rest) = .ok (true, rest) :=
  if_pos (beq_self_eq_true _)

theorem readHemisphere_negative {axis : Axis} (haxis : axis.IsClear) (rest : List Octets) :
    readHemisphere axis (axis.negative :: rest) = .ok (false, rest) := by
  rw [readHemisphere, haxis.differ, if_neg Bool.false_ne_true]
  exact if_pos (beq_self_eq_true _)

def Axis.Reaches (axis : Axis) (value : UInt32) : Prop :=
  value.toNat ≤ equator + axis.limit * millisPerDegree
    ∧ equator - axis.limit * millisPerDegree ≤ value.toNat

theorem reaches_of_readCoordinate {axis : Axis} (haxis : axis.IsClear) {words rest : List Octets}
    {value : UInt32} (h : readCoordinate axis words = .ok (value, rest)) : axis.Reaches value := by
  have hlimit := haxis.limit
  have hequator : equator = 2147483648 := rfl
  unfold readCoordinate at h
  split at h
  · cases h
  · split at h
    · cases h
    · next degrees _ =>
        simp only [bind, Except.bind] at h
        split at h
        · cases h
        · next minutes _ =>
            split at h
            · cases h
            · next hemisphere _ =>
                split at h
                · cases h
                · next hwithin =>
                    obtain ⟨rfl, -⟩ := Prod.mk.inj (Except.ok.inj h)
                    generalize degrees * millisPerDegree + minutes.1 = offset at hwithin
                    unfold Axis.Reaches
                    split
                    · rw [UInt32.toNat_ofNat_of_lt' (show equator + offset < 2 ^ 32 by omega)]
                      omega
                    · rw [UInt32.toNat_ofNat_of_lt' (show equator - offset < 2 ^ 32 by omega)]
                      omega

theorem readCoordinate_write {axis : Axis} (haxis : axis.IsClear) {value : UInt32}
    (hvalue : axis.Reaches value) (rest : List Octets) :
    readCoordinate axis (coordinateWords axis value ++ rest) = .ok (value, rest) := by
  have hlimit := haxis.limit
  have hequator : equator = 2147483648 := rfl
  obtain ⟨habove, hbelow⟩ := hvalue
  have hoffset {offset : Nat} (hwithin : offset ≤ axis.limit * millisPerDegree)
      {hemisphere : Octets} {positive : Bool}
      (hread : readHemisphere axis (hemisphere :: rest) = .ok (positive, rest)) :
      readCoordinate axis ([Decimal.write (offset / millisPerDegree),
          Decimal.write (offset / 60000 % 60),
          Decimal.write (offset % 60000 / 1000)
            ++ Octet.dot :: Decimal.writePadded 3 (offset % 60000 % 1000), hemisphere] ++ rest)
        = .ok (UInt32.ofNat (if positive then equator + offset else equator - offset), rest) := by
    have hdegrees : offset / millisPerDegree < 1 <<< 32 := by
      simp only [millisPerDegree]
      omega
    have hsum : offset / millisPerDegree * millisPerDegree
        + (offset / 60000 % 60 * 60000 + offset % 60000) = offset := by
      simp only [millisPerDegree]
      omega
    simp only [List.cons_append, List.nil_append, readCoordinate,
      Decimal.readBits?_write hdegrees, readMinutes_write haxis
        (Nat.mod_lt (offset / 60000) (by decide)) (Nat.mod_lt offset (by decide)),
      bind, Except.bind, hread, hsum]
    exact if_neg (Nat.not_lt.2 hwithin)
  unfold coordinateWords
  split
  next offset hemisphere hsplit =>
    split at hsplit
    · next hpositive =>
        obtain ⟨rfl, rfl⟩ := Prod.mk.inj hsplit
        rw [hoffset (by omega) (readHemisphere_positive axis rest), if_pos rfl,
          Nat.add_sub_cancel' hpositive, UInt32.ofNat_toNat]
    · next hnegative =>
        obtain ⟨rfl, rfl⟩ := Prod.mk.inj hsplit
        rw [hoffset (by omega) (readHemisphere_negative haxis rest), if_neg Bool.false_ne_true,
          Nat.sub_sub_self (Nat.le_of_not_le hnegative), UInt32.ofNat_toNat]

theorem readMetres?_writeAltitude (value : UInt32) :
    readMetres? (writeAltitude value) = some ((value.toNat : Int) - altitudeBase) := by
  have hvalue := value.toNat_lt
  have hbase : altitudeBase = 10000000 := rfl
  unfold writeAltitude
  dsimp only
  split
  · have hneg : -((altitudeBase - value.toNat : Nat) : Int)
        = (value.toNat : Int) - altitudeBase := by
      omega
    rw [readMetres?_write _ (by omega), if_pos rfl, hneg]
  · have hpos : ((value.toNat - altitudeBase : Nat) : Int)
        = (value.toNat : Int) - altitudeBase := by
      omega
    rw [readMetres?_write _ (by omega), if_neg Bool.false_ne_true, hpos]

theorem readAltitude_write (value : UInt32) (rest : List Octets) :
    readAltitude (writeAltitude value :: rest) = .ok (value, rest) := by
  have hvalue := value.toNat_lt
  have hbase : altitudeBase = 10000000 := rfl
  have hmax : maxAltitude = 4284967295 := rfl
  have hwithin : (some ((value.toNat : Int) - altitudeBase)).filter
      (fun cm => -(altitudeBase : Int) ≤ cm && cm ≤ maxAltitude)
        = some ((value.toNat : Int) - altitudeBase) := by
    rw [Option.filter_some, if_pos (by simp; omega)]
  simp only [readAltitude, readMetres?_writeAltitude, hwithin, Int.sub_add_cancel,
    Int.toNat_natCast, UInt32.ofNat_toNat]

theorem withZeros_eq (n zeros : Nat) : Digits.withZeros n zeros = n * 10 ^ zeros := by
  induction zeros generalizing n with
  | zero => simp [Digits.withZeros]
  | succ zeros ih =>
      rw [Digits.withZeros, ih]
      ring

theorem scientific_withZeros {mantissa : Nat} (hpos : 0 < mantissa) (hlt : mantissa < 10)
    (exponent : Nat) : scientific (Digits.withZeros mantissa exponent) = (mantissa, exponent) := by
  induction exponent with
  | zero => rw [Digits.withZeros, scientific, if_pos hlt]
  | succ exponent ih =>
      have hsucc : Digits.withZeros mantissa (exponent + 1)
          = 10 * Digits.withZeros mantissa exponent := by
        rw [withZeros_eq, withZeros_eq]
        ring
      have hzeros : 0 < Digits.withZeros mantissa exponent := by
        rw [withZeros_eq]
        exact Nat.mul_pos hpos (Nat.pow_pos (by decide))
      rw [scientific, if_neg (by omega), hsucc, Nat.mul_div_cancel_left _ (by decide), ih]

theorem scientific_spec (n : Nat) :
    (scientific n).1 < 10 ∧ Digits.withZeros (scientific n).1 (scientific n).2 ≤ n
      ∧ (0 < n → 0 < (scientific n).1) := by
  induction n using Nat.strongRecOn with
  | ind n ih =>
      rw [scientific]
      split
      · next h => exact ⟨h, Nat.le_refl n, id⟩
      · obtain ⟨hlt, hle, hpos⟩ := ih (n / 10) (by omega)
        refine ⟨hlt, ?_, fun _ => hpos (by omega)⟩
        simp only [withZeros_eq, pow_succ, ← mul_assoc] at hle ⊢
        omega

def IsPrecision (b : UInt8) : Prop := encodePrecision? (decodePrecision b) = some b

theorem isPrecision_of (mantissa exponent : Nat) (hpos : 0 < mantissa) (hlt : mantissa < 10)
    (hmax : Digits.withZeros mantissa exponent ≤ maxPrecision) :
    IsPrecision (UInt8.ofNat (16 * mantissa + exponent)) := by
  have hexponent : exponent < 10 := by
    by_contra h
    have hpow : 10 ^ 10 ≤ 10 ^ exponent := Nat.pow_le_pow_right (by decide) (Nat.not_lt.1 h)
    rw [withZeros_eq] at hmax
    have hmul := Nat.le_mul_of_pos_left (10 ^ exponent) hpos
    have hlimit : maxPrecision = 9000000000 := rfl
    omega
  have hdecode : decodePrecision (UInt8.ofNat (16 * mantissa + exponent))
      = Digits.withZeros mantissa exponent := by
    rw [decodePrecision, UInt8.toNat_ofNat_of_lt' (show 16 * mantissa + exponent < 2 ^ 8 by omega),
      show (16 * mantissa + exponent) / 16 = mantissa by omega,
      show (16 * mantissa + exponent) % 16 = exponent by omega]
  rw [IsPrecision, hdecode, encodePrecision?, if_pos (by simp; omega), Int.toNat_natCast,
    scientific_withZeros hpos hlt]

theorem isPrecision_zero : IsPrecision 0 := by
  have hzero : scientific 0 = (0, 0) := by
    rw [scientific]
    rfl
  change encodePrecision? 0 = some 0
  rw [encodePrecision?, if_pos (by decide), Int.toNat_zero, hzero]
  rfl

theorem isPrecision_of_encodePrecision? {cm : Int} {b : UInt8} (h : encodePrecision? cm = some b) :
    IsPrecision b := by
  unfold encodePrecision? at h
  split at h
  · next hwithin =>
      simp only [Bool.and_eq_true, decide_eq_true_eq] at hwithin
      obtain ⟨hlt, hle, hpos⟩ := scientific_spec cm.toNat
      obtain rfl := Option.some.inj h
      by_cases hzero : cm = 0
      · have hscientific : scientific cm.toNat = (0, 0) := by
          rw [hzero, Int.toNat_zero, scientific]
          rfl
        rw [hscientific]
        exact isPrecision_zero
      · exact isPrecision_of _ _ (hpos (by omega)) hlt (by omega)
  · cases h

theorem decodePrecision_le {b : UInt8} (h : IsPrecision b) : decodePrecision b ≤ maxPrecision := by
  unfold IsPrecision encodePrecision? at h
  split at h
  · next hwithin =>
      simp only [Bool.and_eq_true, decide_eq_true_eq] at hwithin
      omega
  · cases h

theorem isPrecision_of_readPrecision {field : String} {default b : UInt8}
    (hdefault : IsPrecision default) {words rest : List Octets}
    (h : readPrecision field default words = .ok (b, rest)) : IsPrecision b := by
  cases words with
  | nil =>
      obtain ⟨rfl, -⟩ := Prod.mk.inj (Except.ok.inj h)
      exact hdefault
  | cons text words =>
      rw [readPrecision] at h
      split at h
      · cases h
      · next precision hprecision =>
          obtain ⟨rfl, -⟩ := Prod.mk.inj (Except.ok.inj h)
          obtain ⟨cm, -, hcm⟩ := Option.bind_eq_some_iff.1 hprecision
          exact isPrecision_of_encodePrecision? hcm

theorem readPrecision_write {b : UInt8} (h : IsPrecision b) (field : String) (default : UInt8)
    (rest : List Octets) :
    readPrecision field default (writeMetres false (decodePrecision b) :: rest)
      = .ok (b, rest) := by
  have hle := decodePrecision_le h
  have hmax : maxPrecision = 9000000000 := rfl
  have hread := readMetres?_write (decodePrecision b) (by omega) false
  rw [if_neg Bool.false_ne_true] at hread
  rw [readPrecision, hread, Option.bind_some, h]

structure IsValid (l : Location) : Prop where
  latitude : latitudeAxis.Reaches l.latitude
  longitude : longitudeAxis.Reaches l.longitude
  size : IsPrecision l.size
  horizontal : IsPrecision l.horizontal
  vertical : IsPrecision l.vertical

theorem isValid_of_read {words : List Octets} {l : Location} (h : read words = .ok l) :
    l.IsValid := by
  have hsize : IsPrecision defaultSize :=
    isPrecision_of 1 2 (by decide) (by decide) (by decide)
  have hhorizontal : IsPrecision defaultHorizontal :=
    isPrecision_of 1 6 (by decide) (by decide) (by decide)
  have hvertical : IsPrecision defaultVertical :=
    isPrecision_of 1 3 (by decide) (by decide) (by decide)
  simp only [read, bind_eq_ok] at h
  obtain ⟨_, hlat, _, hlong, _, -, _, hs, _, hh, _, hv, h⟩ := h
  split at h
  · obtain rfl := Except.ok.inj h
    exact ⟨reaches_of_readCoordinate isClear_latitudeAxis hlat,
      reaches_of_readCoordinate isClear_longitudeAxis hlong,
      isPrecision_of_readPrecision hsize hs, isPrecision_of_readPrecision hhorizontal hh,
      isPrecision_of_readPrecision hvertical hv⟩
  · cases h

theorem read_words {l : Location} (h : l.IsValid) : read l.words = .ok l := by
  simp only [read, words, List.append_assoc, bind, Except.bind,
    readCoordinate_write isClear_latitudeAxis h.latitude,
    readCoordinate_write isClear_longitudeAxis h.longitude, readAltitude_write,
    readPrecision_write h.size, readPrecision_write h.horizontal, readPrecision_write h.vertical]

theorem isGraphic_writeMetres (negative : Bool) (cm : Nat) :
    (writeMetres negative cm).isGraphic = true := by
  simp only [writeMetres, Octets.isGraphic_append, Octets.isGraphic_cons,
    Decimal.isGraphic_write, Decimal.isGraphic_writePadded]
  cases negative <;> decide

theorem isGraphic_of_mem_coordinateWords {axis : Axis} (haxis : axis.IsClear) {value : UInt32} :
    ∀ word ∈ coordinateWords axis value, word.isGraphic = true ∧ word ≠ [] := by
  intro word hword
  unfold coordinateWords at hword
  split at hword
  next offset hemisphere hsplit =>
    have hhemisphere : hemisphere ∈ [axis.positive, axis.negative] := by
      split at hsplit <;> simp [(Prod.mk.inj hsplit).2]
    simp only [List.mem_cons, List.not_mem_nil, or_false] at hword
    rcases hword with rfl | rfl | rfl | rfl
    · exact ⟨Decimal.isGraphic_write _, Decimal.write_ne_nil _⟩
    · exact ⟨Decimal.isGraphic_write _, Decimal.write_ne_nil _⟩
    · refine ⟨?_, by simp⟩
      simp only [Octets.isGraphic_append, Octets.isGraphic_cons, Decimal.isGraphic_write,
        Decimal.isGraphic_writePadded]
      decide
    · exact haxis.words word hhemisphere

theorem isGraphic_of_mem_words {l : Location} :
    ∀ word ∈ l.words, word.isGraphic = true ∧ word ≠ [] := by
  have hmetres (negative : Bool) (cm : Nat) :
      (writeMetres negative cm).isGraphic = true ∧ writeMetres negative cm ≠ [] :=
    ⟨isGraphic_writeMetres negative cm, by simp [writeMetres]⟩
  intro word hword
  simp only [words, List.mem_append, List.mem_cons, List.not_mem_nil, or_false] at hword
  rcases hword with (hword | hword) | rfl | rfl | rfl | rfl
  · exact isGraphic_of_mem_coordinateWords isClear_latitudeAxis word hword
  · exact isGraphic_of_mem_coordinateWords isClear_longitudeAxis word hword
  · unfold writeAltitude
    dsimp only
    split <;> exact hmetres _ _
  · exact hmetres _ _
  · exact hmetres _ _
  · exact hmetres _ _

end Location

end ZoneKeeper
