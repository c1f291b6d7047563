import ZoneKeeper.Text.Basic
import ZoneKeeper.Text.Decimal

namespace ZoneKeeper

structure Location where
  size : UInt8
  horizontal : UInt8
  vertical : UInt8
  latitude : UInt32
  longitude : UInt32
  altitude : UInt32
  deriving DecidableEq, Repr

inductive LocationFlaw where
  | missingCoordinate
  | badDegrees (text : Octets)
  | badMinutes (text : Octets)
  | badSeconds (text : Octets)
  | missingHemisphere
  | badHemisphere (text : Octets)
  | tooManyDegrees (limit : Nat)
  | missingAltitude
  | badAltitude (text : Octets)
  | badPrecision (field : String) (text : Octets)
  | extraWord (text : Octets)
  deriving DecidableEq, Repr

def LocationFlaw.message : LocationFlaw → String
  | .missingCoordinate => "missing coordinate"
  | .badDegrees text => "invalid degrees '" ++ text.text ++ "'"
  | .badMinutes text => "invalid minutes '" ++ text.text ++ "'"
  | .badSeconds text => "invalid seconds '" ++ text.text ++ "'"
  | .missingHemisphere => "missing hemisphere"
  | .badHemisphere text => "invalid hemisphere '" ++ text.text ++ "'"
  | .tooManyDegrees limit => s!"coordinate exceeds {limit} degrees"
  | .missingAltitude => "missing altitude"
  | .badAltitude text => "invalid altitude '" ++ text.text ++ "'"
  | .badPrecision field text => "invalid " ++ field ++ " '" ++ text.text ++ "'"
  | .extraWord text => "expected end of input, got '" ++ text.text ++ "'"

namespace Location

def equator : Nat := 0x80000000

def altitudeBase : Nat := 10000000

def maxAltitude : Nat := 0xffffffff - altitudeBase

def maxPrecision : Nat := 9000000000

def millisPerDegree : Nat := 3600000

def defaultSize : UInt8 := 0x12

def defaultHorizontal : UInt8 := 0x16

def defaultVertical : UInt8 := 0x13

structure Axis where
  positive : Octets
  negative : Octets
  limit : Nat

def latitudeAxis : Axis := ⟨octets "N", octets "S", 90⟩

def longitudeAxis : Axis := ⟨octets "E", octets "W", 180⟩

def Axis.isHemisphere (axis : Axis) (word : Octets) : Bool :=
  word.sameLetters axis.positive || word.sameLetters axis.negative

/--
A decimal number in units of its last allowed place. The part before the point has one to twelve
digits; a minus sign may lead.
-/
def readFixed? (places : Nat) (text : Octets) : Option Int :=
  let (negative, digits) : Bool × Octets := match text with
    | 0x2d :: rest => (true, rest)
    | _ => (false, text)
  let (whole, fraction) := (Octets.cut Octet.dot digits).getD (digits, [])
  if whole.isEmpty || whole.length > 12 || fraction.length > places
      || !(whole ++ fraction).all Octet.isDigit then none
  else
    let padded := fraction ++ List.replicate (places - fraction.length) Octet.zero
    let value : Int := Decimal.ofDigits (whole ++ padded)
    some (if negative then -value else value)

def readMetres? (text : Octets) : Option Int :=
  match text.getLast? with
  | some 0x6d => readFixed? 2 text.dropLast
  | some 0x4d => readFixed? 2 text.dropLast
  | _ => readFixed? 2 text

def scientific (n : Nat) : Nat × Nat :=
  if n < 10 then (n, 0)
  else
    let (mantissa, exponent) := scientific (n / 10)
    (mantissa, exponent + 1)

def encodePrecision? (cm : Int) : Option UInt8 :=
  if 0 ≤ cm && cm ≤ maxPrecision then
    let (mantissa, exponent) := scientific cm.toNat
    some (UInt8.ofNat (16 * mantissa + exponent))
  else none

def decodePrecision (b : UInt8) : Nat := Digits.withZeros (b.toNat / 16) (b.toNat % 16)

def nextUnlessHemisphere (axis : Axis) : List Octets → Option (Octets × List Octets)
  | [] => none
  | word :: rest => if axis.isHemisphere word then none else some (word, rest)

def readMinutes (axis : Axis) (words : List Octets) :
    Except LocationFlaw (Nat × List Octets) :=
  match nextUnlessHemisphere axis words with
  | none => .ok (0, words)
  | some (text, words) =>
      match (Decimal.readBits? 32 text).filter (· < 60) with
      | none => .error (.badMinutes text)
      | some minutes =>
          match nextUnlessHemisphere axis words with
          | none => .ok (minutes * 60000, words)
          | some (text, words) =>
              match (readFixed? 3 text).filter fun ms => 0 ≤ ms && ms < 60000 with
              | none => .error (.badSeconds text)
              | some millis => .ok (minutes * 60000 + millis.toNat, words)

def readHemisphere (axis : Axis) : List Octets → Except LocationFlaw (Bool × List Octets)
  | [] => .error .missingHemisphere
  | word :: rest =>
      if word.sameLetters axis.positive then .ok (true, rest)
      else if word.sameLetters axis.negative then .ok (false, rest)
      else .error (.badHemisphere word)

def readCoordinate (axis : Axis) : List Octets → Except LocationFlaw (UInt32 × List Octets)
  | [] => .error .missingCoordinate
  | text :: words =>
      match Decimal.readBits? 32 text with
      | none => .error (.badDegrees text)
      | some degrees => do
          let (millis, words) ← readMinutes axis words
          let (positive, words) ← readHemisphere axis words
          let offset := degrees * millisPerDegree + millis
          if offset > axis.limit * millisPerDegree then .error (.tooManyDegrees axis.limit)
          else .ok (UInt32.ofNat (if positive then equator + offset else equator - offset), words)

def readAltitude : List Octets → Except LocationFlaw (UInt32 × List Octets)
  | [] => .error .missingAltitude
  | text :: words =>
      match (readMetres? text).filter fun cm => -(altitudeBase : Int) ≤ cm && cm ≤ maxAltitude with
      | none => .error (.badAltitude text)
      | some cm => .ok (UInt32.ofNat (cm + altitudeBase).toNat, words)

def readPrecision (field : String) (default : UInt8) :
    List Octets → Except LocationFlaw (UInt8 × List Octets)
  | [] => .ok (default, [])
  | text :: words =>
      match (readMetres? text).bind encodePrecision? with
      | none => .error (.badPrecision field text)
      | some precision => .ok (precision, words)

def read (words : List Octets) : Except LocationFlaw Location := do
  let (latitude, words) ← readCoordinate latitudeAxis words
  let (longitude, words) ← readCoordinate longitudeAxis words
  let (altitude, words) ← readAltitude words
  let (size, words) ← readPrecision "size" defaultSize words
  let (horizontal, words) ← readPrecision "horizontal precision" defaultHorizontal words
  let (vertical, words) ← readPrecision "vertical precision" defaultVertical words
  match words with
  | [] => .ok ⟨size, horizontal, vertical, latitude, longitude, altitude⟩
  | extra :: _ => .error (.extraWord extra)

def wire (l : Location) : Octets :=
  [0, l.size, l.horizontal, l.vertical] ++ be32 l.latitude ++ be32 l.longitude ++ be32 l.altitude

def coordinateWords (axis : Axis) (value : UInt32) : List Octets :=
  let (offset, hemisphere) :=
    if equator ≤ value.toNat then (value.toNat - equator, axis.positive)
    else (equator - value.toNat, axis.negative)
  let millis := offset % 60000
  [Decimal.write (offset / millisPerDegree), Decimal.write (offset / 60000 % 60),
    Decimal.write (millis / 1000) ++ Octet.dot :: Decimal.writePadded 3 (millis % 1000),
    hemisphere]

def writeMetres (negative : Bool) (cm : Nat) : Octets :=
  (if negative then [Octet.hyphen] else []) ++ Decimal.write (cm / 100)
    ++ Octet.dot :: Decimal.writePadded 2 (cm % 100) ++ octets "m"

def writeAltitude (altitude : UInt32) : Octets :=
  let n := altitude.toNat
  if n < altitudeBase then writeMetres true (altitudeBase - n)
  else writeMetres false (n - altitudeBase)

def words (l : Location) : List Octets :=
  coordinateWords latitudeAxis l.latitude ++ coordinateWords longitudeAxis l.longitude
    ++ [writeAltitude l.altitude, writeMetres false (decodePrecision l.size),
      writeMetres false (decodePrecision l.horizontal),
      writeMetres false (decodePrecision l.vertical)]

end Location

end ZoneKeeper
