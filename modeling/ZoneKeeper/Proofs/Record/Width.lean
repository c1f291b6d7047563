import ZoneKeeper.Proofs.Record.Fixed

namespace ZoneKeeper

structure Width where
  least : Int
  greatest : Int
  least_le : least ≤ 0 := by decide

namespace Width

def unsigned8 : Width where
  least := 0
  greatest := 0xff

def unsigned32 : Width where
  least := 0
  greatest := 0xffffffff

def unsigned64 : Width where
  least := 0
  greatest := 0xffffffffffffffff

def signed64 : Width where
  least := -0x8000000000000000
  greatest := 0x7fffffffffffffff

def keep (w : Width) (n : Int) : Option Int :=
  if w.least ≤ n ∧ n ≤ w.greatest then some n else none

theorem keep_eq {w : Width} {n : Int} (h : w.least ≤ n) (h' : n ≤ w.greatest) :
    w.keep n = some n :=
  if_pos ⟨h, h'⟩

theorem keep_natCast {w : Width} {n : Nat} (h : (n : Int) ≤ w.greatest) :
    w.keep n = some (n : Int) :=
  keep_eq (w.least_le.trans (Int.natCast_nonneg n)) h

theorem keep_unsigned8 {n : Nat} (h : n ≤ 0xff) : unsigned8.keep n = some (n : Int) :=
  keep_natCast (show (n : Int) ≤ (0xff : Int) by omega)

theorem keep_unsigned32 {n : Nat} (h : n ≤ 0xffffffff) : unsigned32.keep n = some (n : Int) :=
  keep_natCast (show (n : Int) ≤ (0xffffffff : Int) by omega)

theorem keep_unsigned64 {n : Nat} (h : n ≤ 0xffffffffffffffff) :
    unsigned64.keep n = some (n : Int) :=
  keep_natCast (show (n : Int) ≤ (0xffffffffffffffff : Int) by omega)

theorem keep_signed64_int {n : Int} (h : -0x8000000000000000 ≤ n) (h' : n ≤ 0x7fffffffffffffff) :
    signed64.keep n = some n :=
  keep_eq h h'

theorem keep_signed64 {n : Nat} (h : n ≤ 0x7fffffffffffffff) : signed64.keep n = some (n : Int) :=
  keep_natCast (show (n : Int) ≤ (0x7fffffffffffffff : Int) by omega)

end Width

namespace Location

namespace Limited

def addPlaces (unit value : Int) : Octets → Option Int
  | [] => some value
  | b :: rest => do
      let digit ← Width.unsigned8.keep (b.toNat - 0x30)
      let term ← Width.signed64.keep (digit * (unit / 10))
      let value ← Width.signed64.keep (value + term)
      addPlaces (unit / 10) value rest

def readFixed? (places : Nat) (text : Octets) : Option (Option Int) :=
  let (negative, digits) := cutSign text
  let (whole, fraction) := cutPoint digits
  if isMalformed places whole fraction then some none
  else do
    let scale ← Width.signed64.keep (10 ^ places)
    match Decimal.readBits? 63 whole with
    | none => some none
    | some whole => do
        let value ← Width.signed64.keep (whole * scale)
        let value ← addPlaces scale value fraction
        if negative then (Width.signed64.keep (-value)).map some else some (some value)

theorem addPlaces_cons {k : Nat} {value : Nat} {b : UInt8} (hb : Octet.isDigit b = true)
    (hroom : value + 10 ^ (k + 1) ≤ 0x7fffffffffffffff) (t : Octets) :
    addPlaces (10 ^ (k + 1) : Nat) value (b :: t)
      = addPlaces (10 ^ k : Nat) (value + 10 ^ k * Octet.digitValue b : Nat) t := by
  have hdigit := Decimal.digitValue_le hb
  have hmul := Nat.mul_le_mul_left (10 ^ k) hdigit
  have hdigitValue : (b.toNat : Int) - 0x30 = (Octet.digitValue b : Nat) := by
    simp only [Octet.isDigit, Bool.and_eq_true, decide_eq_true_eq, UInt8.le_iff_toNat_le] at hb
    have hlow : 48 ≤ b.toNat := hb.1
    rw [Octet.digitValue]
    omega
  have hunit : ((10 ^ (k + 1) : Nat) : Int) / 10 = (10 ^ k : Nat) := by
    rw [pow_succ]
    omega
  have hterm : (Octet.digitValue b : Int) * (10 ^ k : Nat)
      = (10 ^ k * Octet.digitValue b : Nat) := by
    push_cast
    ring
  rw [pow_succ] at hroom
  simp only [addPlaces, Option.bind_eq_bind, hdigitValue, hunit]
  rw [Width.keep_unsigned8 (by omega), Option.bind_some, hterm, Width.keep_signed64 (by omega),
    Option.bind_some, ← Nat.cast_add, Width.keep_signed64 (by omega), Option.bind_some]

theorem addPlaces_eq {k value : Nat} {t : Octets} (hlength : t.length ≤ k)
    (hdigits : ∀ b ∈ t, Octet.isDigit b = true) (hroom : value + 10 ^ k ≤ 0x7fffffffffffffff) :
    addPlaces (10 ^ k : Nat) value t
      = some ((value + 10 ^ (k - t.length) * Decimal.ofDigits t : Nat) : Int) := by
  -- However many digits are left, they are worth less than one unit of the place before them.
  induction t generalizing k value with
  | nil => simp [addPlaces, Decimal.ofDigits]
  | cons b t ih =>
      obtain ⟨k, rfl⟩ := Nat.exists_eq_add_one.2 (Nat.lt_of_lt_of_le (Nat.succ_pos _) hlength)
      have hb := hdigits b List.mem_cons_self
      have hlength := Nat.le_of_succ_le_succ hlength
      have hmul := Nat.mul_le_mul_left (10 ^ k) (Decimal.digitValue_le hb)
      have hpow : 10 ^ (k - t.length) * 10 ^ t.length = 10 ^ k := by
        rw [← pow_add, Nat.sub_add_cancel hlength]
      rw [addPlaces_cons hb hroom, ih hlength (fun c hc => hdigits c (List.mem_cons_of_mem _ hc))
        (by rw [pow_succ] at hroom; omega), List.length_cons, Nat.add_sub_add_right,
        Decimal.ofDigits_cons, Nat.mul_add, ← mul_assoc, hpow, Nat.add_assoc]

theorem readFixed?_eq {places : Nat} (hplaces : places ≤ 6) (text : Octets) :
    readFixed? places text = some (Location.readFixed? places text) := by
  rcases hsign : cutSign text with ⟨negative, digits⟩
  rcases hpoint : cutPoint digits with ⟨whole, fraction⟩
  rw [Location.readFixed?_eq hsign hpoint, readFixed?, hsign]
  dsimp only
  rw [hpoint]
  dsimp only
  split
  · rfl
  · next hcheck =>
      have hfixed := isFixed_of hcheck
      have hdigits := List.forall_mem_append.1 hfixed.isDigit
      have hwhole := hfixed.ofDigits_lt
      have hscale : 10 ^ places ≤ 10 ^ 6 := Nat.pow_le_pow_right (by decide) hplaces
      have hproduct := Nat.mul_le_mul hscale hwhole.le
      have hsize := hfixed.size_lt
      have hread : Decimal.readBits? 63 whole = some (Decimal.ofDigits whole) :=
        Decimal.readBits?_eq_some_iff.2
          ⟨Decimal.read?_eq hfixed.ne_nil hdigits.1, hwhole.trans (by decide)⟩
      have hvalue : addPlaces (10 ^ places : Nat)
          (10 ^ places * Decimal.ofDigits whole : Nat) fraction
            = some (fixedSize places whole fraction : Int) :=
        addPlaces_eq hfixed.length_fraction hdigits.2 (by omega)
      rw [show (10 : Int) ^ places = (10 ^ places : Nat) by push_cast; rfl,
        Width.keep_signed64 (by omega)]
      simp only [Option.bind_eq_bind, Option.bind_some, hread]
      rw [← Nat.cast_mul, Nat.mul_comm (Decimal.ofDigits whole), Width.keep_signed64 (by omega),
        Option.bind_some, hvalue, Option.bind_some]
      split
      · rw [Width.keep_signed64_int (by omega) (by omega)]
        rfl
      · rfl

def readMetres? (text : Octets) : Option (Option Int) := readFixed? 2 (withoutUnit text)

theorem readMetres?_eq (text : Octets) : readMetres? text = some (Location.readMetres? text) := by
  rw [readMetres?, readFixed?_eq (by decide), Location.readMetres?_eq]

def scientific (exponent : Nat) (n : Nat) : Option (Nat × Nat) :=
  if n < 10 then some (n, exponent)
  else do
    let _ ← Width.unsigned8.keep (exponent + 1 : Nat)
    scientific (exponent + 1) (n / 10)

def encodePrecision? (cm : Int) : Option (Option UInt8) :=
  if 0 ≤ cm && cm ≤ maxPrecision then do
    let (mantissa, exponent) ← scientific 0 cm.toNat
    let _ ← Width.unsigned8.keep mantissa
    some (some (UInt8.ofNat mantissa <<< 4 ||| UInt8.ofNat exponent))
  else some none

theorem scientific_eq {n k exponent : Nat} (hn : n < 10 ^ (k + 1)) (hroom : exponent + k ≤ 0xff) :
    scientific exponent n
      = some ((Location.scientific n).1, exponent + (Location.scientific n).2) := by
  induction k generalizing n exponent with
  | zero =>
      have hlt : n < 10 := by simpa using hn
      rw [scientific, if_pos hlt, Location.scientific, if_pos hlt]
      rfl
  | succ k ih =>
      rw [scientific, Location.scientific]
      split
      · rfl
      · rw [pow_succ] at hn
        rw [Width.keep_unsigned8 (by omega), Option.bind_eq_bind, Option.bind_some,
          ih (by omega) (by omega)]
        simp only [Option.some.injEq, Prod.mk.injEq, true_and]
        omega

theorem encodePrecision?_eq (cm : Int) :
    encodePrecision? cm = some (Location.encodePrecision? cm) := by
  have hoctet : ∀ m : Fin 10, ∀ e : Fin 10,
      UInt8.ofNat m <<< 4 ||| UInt8.ofNat e = UInt8.ofNat (16 * m + e) := by
    decide
  unfold encodePrecision? Location.encodePrecision?
  split
  · next hwithin =>
      simp only [Bool.and_eq_true, decide_eq_true_eq] at hwithin
      have hmax : maxPrecision = 9000000000 := rfl
      have hcm : cm.toNat < 10 ^ (9 + 1) := by omega
      obtain ⟨hmantissa, -, -⟩ := scientific_spec cm.toNat
      have hexponent := exponent_lt hcm
      have hbits := hoctet ⟨_, hmantissa⟩ ⟨_, hexponent⟩
      dsimp only at hbits
      rw [scientific_eq hcm (by decide)]
      simp only [Option.bind_eq_bind, Option.bind_some, Nat.zero_add, hbits]
      rw [Width.keep_unsigned8 (by omega)]
      rfl
  · rfl

abbrev Sized (α : Type) := ExceptT LocationFlaw Option α

def settled {α : Type} (result : Except LocationFlaw α) : Sized α := ExceptT.mk (some result)

section Settled

variable {α β : Type}

@[simp] theorem lift_some (a : α) : ((some a : Option α) : Sized α) = settled (.ok a) := rfl

@[simp] theorem pure_eq (a : α) : (pure a : Sized α) = settled (.ok a) := rfl

@[simp] theorem throw_eq (flaw : LocationFlaw) :
    (throw flaw : Sized α) = settled (.error flaw) := rfl

-- In brackets, so that simp does not rewrite by definition: what follows holds large numbers, and
-- comparing it by computation would count them out.
@[simp] theorem settled_ok_bind (a : α) (f : α → Sized β) : settled (.ok a) >>= f = f a := (rfl)

@[simp] theorem settled_error_bind (flaw : LocationFlaw) (f : α → Sized β) :
    settled (.error flaw) >>= f = settled (.error flaw) := (rfl)

theorem settled_bind (x : Except LocationFlaw α) (f : α → Except LocationFlaw β) :
    settled (x >>= f) = settled x >>= fun a => settled (f a) := by
  cases x <;> rfl

end Settled

def readMinutes (axis : Axis) (words : List Octets) : Sized (Nat × Nat × List Octets) :=
  match nextUnlessHemisphere axis words with
  | none => return (0, 0, words)
  | some (text, words) =>
      match (Decimal.readBits? 32 text).filter (· < 60) with
      | none => throw (.badMinutes text)
      | some minutes =>
          match nextUnlessHemisphere axis words with
          | none => return (minutes, 0, words)
          | some (text, words) => do
              match ((← readFixed? 3 text).filter fun ms => 0 ≤ ms && ms < 60000) with
              | none => throw (.badSeconds text)
              | some millis => do
                  let millis ← Width.unsigned32.keep millis
                  return (minutes, millis.toNat, words)

def place (axis : Axis) (degrees minutes millis : Nat) (positive : Bool) : Sized UInt32 := do
  let degrees ← Width.unsigned64.keep (degrees * millisPerDegree : Nat)
  let minutes ← Width.unsigned64.keep (minutes * 60000 : Nat)
  let offset ← Width.unsigned64.keep (degrees + minutes)
  let offset ← Width.unsigned64.keep (offset + millis)
  let limit ← Width.unsigned64.keep (axis.limit * millisPerDegree : Nat)
  if offset > limit then throw (.tooManyDegrees axis.limit)
  else
    let offset ← Width.unsigned32.keep offset
    let value ← Width.unsigned32.keep (if positive then equator + offset else equator - offset)
    return UInt32.ofNat value.toNat

def readCoordinate (axis : Axis) : List Octets → Sized (UInt32 × List Octets)
  | [] => throw .missingCoordinate
  | text :: words =>
      match Decimal.readBits? 32 text with
      | none => throw (.badDegrees text)
      | some degrees => do
          let (minutes, millis, words) ← readMinutes axis words
          let (positive, words) ← settled (readHemisphere axis words)
          let value ← place axis degrees minutes millis positive
          return (value, words)

def readAltitude : List Octets → Sized (UInt32 × List Octets)
  | [] => throw .missingAltitude
  | text :: words => do
      let least ← Width.signed64.keep (-altitudeBase)
      match (← readMetres? text).filter fun cm => least ≤ cm && cm ≤ maxAltitude with
      | none => throw (.badAltitude text)
      | some cm => do
          let altitude ← Width.signed64.keep (cm + altitudeBase)
          let altitude ← Width.unsigned32.keep altitude
          return (UInt32.ofNat altitude.toNat, words)

def readPrecision (field : String) (default : UInt8) : List Octets → Sized (UInt8 × List Octets)
  | [] => return (default, [])
  | text :: words => do
      match ← readMetres? text with
      | none => throw (.badPrecision field text)
      | some cm =>
          match ← encodePrecision? cm with
          | none => throw (.badPrecision field text)
          | some precision => return (precision, words)

def read (words : List Octets) : Sized Location := do
  let (latitude, words) ← readCoordinate latitudeAxis words
  let (longitude, words) ← readCoordinate longitudeAxis words
  let (altitude, words) ← readAltitude words
  let (size, words) ← readPrecision "size" defaultSize words
  let (horizontal, words) ← readPrecision "horizontal precision" defaultHorizontal words
  let (vertical, words) ← readPrecision "vertical precision" defaultVertical words
  match words with
  | [] => return ⟨size, horizontal, vertical, latitude, longitude, altitude⟩
  | extra :: _ => throw (.extraWord extra)

theorem readPrecision_eq (field : String) (default : UInt8) (words : List Octets) :
    readPrecision field default words = settled (Location.readPrecision field default words) := by
  cases words with
  | nil => rfl
  | cons text words =>
      simp only [readPrecision, Location.readPrecision, readMetres?_eq, lift_some, settled_ok_bind]
      cases Location.readMetres? text with
      | none => simp
      | some cm =>
          simp only [encodePrecision?_eq, lift_some, settled_ok_bind, Option.bind_some]
          cases Location.encodePrecision? cm <;> simp

theorem readAltitude_eq (words : List Octets) :
    readAltitude words = settled (Location.readAltitude words) := by
  have hbase : altitudeBase = 10000000 := rfl
  have hmax : maxAltitude = 4284967295 := rfl
  cases words with
  | nil => rfl
  | cons text words =>
      have hleast : Width.signed64.keep (-(altitudeBase : Int)) = some (-(altitudeBase : Int)) :=
        if_pos (by decide)
      simp only [readAltitude, Location.readAltitude, readMetres?_eq, hleast, lift_some,
        settled_ok_bind]
      cases hcm : (Location.readMetres? text).filter
          fun cm => -(altitudeBase : Int) ≤ cm && cm ≤ maxAltitude with
      | none => simp
      | some cm =>
          have hwithin := (Option.filter_eq_some_iff.1 hcm).2
          simp only [Bool.and_eq_true, decide_eq_true_eq] at hwithin
          have hsum : Width.signed64.keep (cm + altitudeBase) = some (cm + altitudeBase) :=
            Width.keep_signed64_int (by omega) (by omega)
          have hnarrow : Width.unsigned32.keep (cm + altitudeBase) = some (cm + altitudeBase) :=
            Width.keep_eq (show (0 : Int) ≤ _ by omega) (show _ ≤ (0xffffffff : Int) by omega)
          simp [hsum, hnarrow]

theorem readMinutes_eq (axis : Axis) (words : List Octets) :
    readMinutes axis words = settled (readArc axis words) := by
  unfold readMinutes readArc
  cases nextUnlessHemisphere axis words with
  | none => rfl
  | some first =>
      dsimp only
      cases (Decimal.readBits? 32 first.1).filter (· < 60) with
      | none => rfl
      | some minutes =>
          dsimp only
          cases nextUnlessHemisphere axis first.2 with
          | none => rfl
          | some second =>
              simp only [readFixed?_eq (show 3 ≤ 6 by decide), lift_some, settled_ok_bind]
              cases hmillis : (Location.readFixed? 3 second.1).filter
                  fun ms => 0 ≤ ms && ms < 60000 with
              | none => rfl
              | some millis =>
                  have hwithin := (Option.filter_eq_some_iff.1 hmillis).2
                  simp only [Bool.and_eq_true, decide_eq_true_eq] at hwithin
                  have hnarrow : Width.unsigned32.keep millis = some millis :=
                    Width.keep_eq hwithin.1 (show _ ≤ (0xffffffff : Int) by omega)
                  simp [hnarrow]

theorem place_eq {axis : Axis} (haxis : axis.IsClear) {degrees minutes millis : Nat}
    (hdegrees : degrees < 2 ^ 32) (hminutes : minutes < 60) (hmillis : millis < 60000)
    (positive : Bool) :
    place axis degrees minutes millis positive = settled
      (let offset := degrees * millisPerDegree + (minutes * 60000 + millis)
      if offset > axis.limit * millisPerDegree then .error (.tooManyDegrees axis.limit)
      else .ok (UInt32.ofNat (if positive then equator + offset else equator - offset))) := by
  have hlimit := haxis.limit
  have hequator : equator = 2147483648 := rfl
  have hwhole : degrees * millisPerDegree < 2 ^ 32 * millisPerDegree :=
    Nat.mul_lt_mul_of_pos_right hdegrees (by decide)
  have hunit : millisPerDegree = 3600000 := rfl
  rw [place]
  generalize degrees * millisPerDegree = whole at *
  generalize axis.limit * millisPerDegree = limit at *
  rw [Width.keep_unsigned64 (by omega), Width.keep_unsigned64 (by omega),
    Width.keep_unsigned64 (n := limit) (by omega)]
  simp only [lift_some, settled_ok_bind, ← Nat.cast_add]
  rw [Width.keep_unsigned64 (by omega)]
  simp only [lift_some, settled_ok_bind, ← Nat.cast_add]
  rw [Width.keep_unsigned64 (by omega)]
  simp only [lift_some, settled_ok_bind, Nat.add_assoc]
  generalize whole + (minutes * 60000 + millis) = offset
  by_cases hfar : offset > limit
  · rw [if_pos hfar, if_pos (Nat.cast_lt.2 hfar), throw_eq]
  · rw [if_neg hfar, if_neg (by omega), Width.keep_unsigned32 (by omega)]
    simp only [lift_some, settled_ok_bind]
    cases positive with
    | true =>
        simp only [if_true, ← Nat.cast_add]
        rw [Width.keep_unsigned32 (by omega), lift_some, settled_ok_bind, pure_eq,
          Int.toNat_natCast]
    | false =>
        simp only [Bool.false_eq_true, if_false]
        have hbelow : offset ≤ equator := by omega
        rw [← Nat.cast_sub hbelow, Width.keep_unsigned32 (by omega), lift_some, settled_ok_bind,
          pure_eq, Int.toNat_natCast]

theorem readCoordinate_eq {axis : Axis} (haxis : axis.IsClear) (words : List Octets) :
    readCoordinate axis words = settled (Location.readCoordinate axis words) := by
  cases words with
  | nil => rfl
  | cons text words =>
      simp only [readCoordinate, Location.readCoordinate]
      cases hdegrees : Decimal.readBits? 32 text with
      | none => rfl
      | some degrees =>
          simp only [readMinutes_eq, Location.readMinutes_eq, settled_bind]
          cases harc : readArc axis words with
          | error flaw => simp [Except.map]
          | ok arc =>
              obtain ⟨minutes, millis, rest⟩ := arc
              obtain ⟨hminutes, hmillis⟩ := readArc_bound harc
              have hdegrees := (Decimal.readBits?_eq_some_iff.1 hdegrees).2
              simp only [Except.map, settled_ok_bind]
              cases readHemisphere axis rest with
              | error flaw => simp
              | ok hemisphere =>
                  simp only [settled_ok_bind, place_eq haxis hdegrees hminutes hmillis]
                  split <;> simp

theorem read_eq (words : List Octets) : read words = settled (Location.read words) := by
  simp only [read, Location.read, settled_bind, readCoordinate_eq isClear_latitudeAxis,
    readCoordinate_eq isClear_longitudeAxis, readAltitude_eq, readPrecision_eq]
  refine bind_congr fun latitude => bind_congr fun longitude => bind_congr fun altitude =>
    bind_congr fun size => bind_congr fun horizontal => bind_congr fun vertical => ?_
  cases vertical.2 <;> rfl

-- Quotients and remainders are left out: they are no larger than what is divided.
def coordinateWords (axis : Axis) (value : UInt32) : Option (List Octets) := do
  let (offset, hemisphere) ←
    if equator ≤ value.toNat then
      (Width.unsigned32.keep (value.toNat - equator)).map fun n => (n.toNat, axis.positive)
    else (Width.unsigned32.keep (equator - value.toNat)).map fun n => (n.toNat, axis.negative)
  let millis := offset % 60000
  return [Decimal.write (offset / millisPerDegree), Decimal.write (offset / 60000 % 60),
    Decimal.write (millis / 1000) ++ Octet.dot :: Decimal.writePadded 3 (millis % 1000),
    hemisphere]

def writeMetres (cm : Int) : Option Octets := do
  let size ← Width.unsigned64.keep cm.natAbs
  return Location.writeMetres (cm < 0) size.toNat

def writeAltitude (altitude : UInt32) : Option Octets := do
  let cm ← Width.signed64.keep (altitude.toNat - altitudeBase)
  writeMetres cm

def writePrecision (b : UInt8) : Option Octets := do
  let power ← Width.signed64.keep (10 ^ (b &&& 0x0f).toNat)
  let cm ← Width.signed64.keep ((b >>> 4).toNat * power)
  writeMetres cm

def words (l : Location) : Option (List Octets) := do
  let latitude ← coordinateWords latitudeAxis l.latitude
  let longitude ← coordinateWords longitudeAxis l.longitude
  let altitude ← writeAltitude l.altitude
  let size ← writePrecision l.size
  let horizontal ← writePrecision l.horizontal
  let vertical ← writePrecision l.vertical
  return latitude ++ longitude ++ [altitude, size, horizontal, vertical]

theorem coordinateWords_eq (axis : Axis) (value : UInt32) :
    coordinateWords axis value = some (Location.coordinateWords axis value) := by
  have hvalue := value.toNat_lt
  have hequator : equator = 2147483648 := rfl
  unfold coordinateWords Location.coordinateWords
  split
  · next hpositive =>
      rw [← Nat.cast_sub hpositive, Width.keep_unsigned32 (by omega), Option.map_some,
        Int.toNat_natCast]
      rfl
  · next hnegative =>
      have hbelow := Nat.le_of_not_le hnegative
      rw [← Nat.cast_sub hbelow, Width.keep_unsigned32 (by omega), Option.map_some,
        Int.toNat_natCast]
      rfl

theorem writeMetres_eq {cm : Int} (h : cm.natAbs ≤ 0xffffffffffffffff) :
    writeMetres cm = some (Location.writeMetres (cm < 0) cm.natAbs) := by
  rw [writeMetres, Width.keep_unsigned64 h]
  rfl

theorem writeAltitude_eq (altitude : UInt32) :
    writeAltitude altitude = some (Location.writeAltitude altitude) := by
  have haltitude := altitude.toNat_lt
  have hbase : altitudeBase = 10000000 := rfl
  rw [writeAltitude, Width.keep_signed64_int (by omega) (by omega), Option.bind_eq_bind,
    Option.bind_some, writeMetres_eq (by omega), Location.writeAltitude]
  split
  · next hbelow =>
      have hdepth : ((altitude.toNat : Int) - altitudeBase).natAbs
          = altitudeBase - altitude.toNat := by
        omega
      rw [hdepth, decide_eq_true (by omega)]
  · next habove =>
      have hheight : ((altitude.toNat : Int) - altitudeBase).natAbs
          = altitude.toNat - altitudeBase := by
        omega
      rw [hheight, decide_eq_false (by omega)]

theorem writePrecision_eq (b : UInt8) :
    writePrecision b = some (Location.writeMetres false (decodePrecision b)) := by
  have hb := b.toNat_lt
  have hparts : (b >>> 4).toNat = b.toNat / 16 ∧ (b &&& 0x0f).toNat = b.toNat % 16 :=
    Octet.forall_of_fin (P := fun b => (b >>> 4).toNat = b.toNat / 16
      ∧ (b &&& 0x0f).toNat = b.toNat % 16) (by decide +kernel) b
  have hpower : 10 ^ (b.toNat % 16) ≤ 10 ^ 15 := Nat.pow_le_pow_right (by decide) (by omega)
  have hproduct : b.toNat / 16 * 10 ^ (b.toNat % 16) ≤ 15 * 10 ^ 15 :=
    Nat.mul_le_mul (by omega) hpower
  have hpow : (10 : Int) ^ (b.toNat % 16) = (10 ^ (b.toNat % 16) : Nat) := by push_cast; rfl
  rw [writePrecision, hparts.1, hparts.2, decodePrecision, withZeros_eq, hpow]
  generalize 10 ^ (b.toNat % 16) = power at *
  rw [Width.keep_signed64 (by omega), Option.bind_eq_bind, Option.bind_some, ← Nat.cast_mul]
  generalize b.toNat / 16 * power = product at *
  rw [Width.keep_signed64 (by omega), Option.bind_some, writeMetres_eq (by omega),
    Int.natAbs_natCast, decide_eq_false (by omega)]

theorem words_eq (l : Location) : words l = some l.words := by
  simp only [words, coordinateWords_eq, writeAltitude_eq, writePrecision_eq, Option.bind_eq_bind,
    Option.bind_some, Location.words]
  rfl

end Limited

end Location

end ZoneKeeper
