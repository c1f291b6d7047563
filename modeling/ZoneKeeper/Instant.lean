import ZoneKeeper.Text.Basic

namespace ZoneKeeper

/-- Seconds since the start of 1970, and nanoseconds. -/
structure Instant where
  seconds : Int
  nanos : Nat
  deriving DecidableEq, Repr

namespace Instant

structure Date where
  year : Int
  month : Nat
  day : Nat
  deriving DecidableEq, Repr

/-- Days before the date since the start of 1970, by years that begin in March. -/
def Date.toDays (d : Date) : Int :=
  let year := if d.month ≤ 2 then d.year - 1 else d.year
  let era := year / 400
  let yearOfEra := year % 400
  let month := if d.month > 2 then d.month - 3 else d.month + 9
  let dayOfYear := (153 * month + 2) / 5 + d.day - 1
  let dayOfEra := yearOfEra * 365 + yearOfEra / 4 - yearOfEra / 100 + dayOfYear
  era * 146097 + dayOfEra - 719468

def Date.ofDays (days : Int) : Date :=
  let days := days + 719468
  let era := days / 146097
  let dayOfEra := (days % 146097).toNat
  let yearOfEra := (dayOfEra - dayOfEra / 1460 + dayOfEra / 36524 - dayOfEra / 146096) / 365
  let dayOfYear := dayOfEra - (365 * yearOfEra + yearOfEra / 4 - yearOfEra / 100)
  let march := (5 * dayOfYear + 2) / 153
  let day := dayOfYear - (153 * march + 2) / 5 + 1
  let month := if march < 10 then march + 3 else march - 9
  let year : Int := yearOfEra + era * 400
  ⟨if month ≤ 2 then year + 1 else year, month, day⟩

def isLeapYear (year : Int) : Bool :=
  year % 4 == 0 && (year % 100 != 0 || year % 400 == 0)

def daysInMonth (year : Int) (month : Nat) : Nat :=
  if month == 2 then (if isLeapYear year then 29 else 28)
  else if month == 4 || month == 6 || month == 9 || month == 11 then 30
  else 31

def Date.isValid (d : Date) : Bool :=
  -262143 ≤ d.year && d.year ≤ 262142 && 1 ≤ d.month && d.month ≤ 12
    && 1 ≤ d.day && d.day ≤ daysInMonth d.year d.month

def writeYear (year : Int) : List Char :=
  if 0 ≤ year && year ≤ 9999 then Digits.padded 4 year.toNat
  else if year < 0 then '-' :: Digits.padded 4 (-year).toNat
  else '+' :: Digits.padded 4 year.toNat

def writeFraction (nanos : Nat) : List Char :=
  if nanos == 0 then []
  else if nanos % 1000000 == 0 then '.' :: Digits.padded 3 (nanos / 1000000)
  else if nanos % 1000 == 0 then '.' :: Digits.padded 6 (nanos / 1000)
  else '.' :: Digits.padded 9 nanos

def chars (t : Instant) : List Char :=
  let date := Date.ofDays (t.seconds / 86400)
  let time := (t.seconds % 86400).toNat
  let second := time % 60 + t.nanos / 1000000000
  writeYear date.year ++ '-' :: Digits.padded 2 date.month ++ '-' :: Digits.padded 2 date.day ++ 'T' ::
    Digits.padded 2 (time / 3600) ++ ':' :: Digits.padded 2 (time / 60 % 60) ++ ':' :: Digits.padded 2 second
      ++ writeFraction (t.nanos % 1000000000) ++ ['Z']

def write (t : Instant) : String := String.ofList t.chars

def readNumber? (most : Nat) (chars : List Char) : Option (Nat × List Char) :=
  let chars := Text.trimFront chars
  let digits := (chars.take most).takeWhile Char.isDigit
  if digits.isEmpty then none else some (Digits.value digits, chars.drop digits.length)

def readYear? (chars : List Char) : Option (Int × List Char) :=
  match Text.trimFront chars with
  | '-' :: rest => signed rest true
  | '+' :: rest => signed rest false
  | rest => (readNumber? 4 rest).map fun (n, rest) => (n, rest)
where
  signed (rest : List Char) (negative : Bool) : Option (Int × List Char) :=
    if rest.head?.any Char.isDigit then
      (readNumber? rest.length rest).map fun (n, rest) => (if negative then -n else n, rest)
    else none

def expect? (c : Char) (chars : List Char) : Option (List Char) :=
  match chars with
  | d :: rest => if c == d then some rest else none
  | [] => none

def readDate? (chars : List Char) : Option (Date × List Char) := do
  let (year, rest) ← readYear? chars
  let rest ← expect? '-' (Text.trimFront rest)
  let (month, rest) ← readNumber? 2 rest
  let rest ← expect? '-' (Text.trimFront rest)
  let (day, rest) ← readNumber? 2 rest
  return (⟨year, month, day⟩, rest)

def readFraction? (chars : List Char) : Option (Nat × List Char) :=
  match chars with
  | '.' :: rest =>
      let digits := rest.takeWhile Char.isDigit
      if digits.isEmpty then none
      else
        let kept := digits.take 9
        some (Digits.withZeros (Digits.value kept) (9 - kept.length), rest.dropWhile Char.isDigit)
  | _ => some (0, chars)

def readTime? (chars : List Char) : Option (Nat × Nat × List Char) := do
  let (hour, rest) ← readNumber? 2 chars
  let rest ← expect? ':' (Text.trimFront rest)
  let (minute, rest) ← readNumber? 2 rest
  let rest ← expect? ':' (Text.trimFront rest)
  let (second, rest) ← readNumber? 2 rest
  let (nanos, rest) ← readFraction? rest
  if hour < 24 && minute < 60 && second ≤ 60 then
    let time := hour * 3600 + minute * 60
    if second == 60 then return (time + 59, nanos + 1000000000, rest)
    else return (time + second, nanos, rest)
  else none

def twoDigits? : List Char → Option (Nat × List Char)
  | a :: b :: rest => if a.isDigit && b.isDigit then some (Digits.value [a, b], rest) else none
  | _ => none

def readOffset? (chars : List Char) : Option (Int × List Char) :=
  match chars with
  | 'Z' :: rest => some (0, rest)
  | 'z' :: rest => some (0, rest)
  | '+' :: rest => hours rest false
  | '-' :: rest => hours rest true
  | '\u2212' :: rest => hours rest true
  | a :: b :: c :: rest =>
      if [a, b, c].map Char.toUpper == ['U', 'T', 'C'] then some (0, rest) else none
  | _ => none
where
  hours (rest : List Char) (negative : Bool) : Option (Int × List Char) := do
    let (hour, rest) ← twoDigits? rest
    let (minute, rest) ← twoDigits? (rest.dropWhile fun c => c == ':' || Text.isBlank c)
    let seconds : Int := hour * 3600 + minute * 60
    if minute < 60 && hour < 24 then return (if negative then -seconds else seconds, rest)
    else none

/-- Reads a timestamp; blanks may stand between its parts. Its date must be valid with offset zero
too. -/
def ofChars? (chars : List Char) : Option Instant := do
  let (date, rest) ← readDate? chars
  let rest ← match rest with
    | c :: rest => if c == 'T' || c == 't' || c == ' ' then some rest else none
    | [] => none
  let (time, nanos, rest) ← readTime? rest
  let (offset, rest) ← readOffset? (Text.trimFront rest)
  let seconds := date.toDays * 86400 + time - offset
  if date.isValid && (Date.ofDays (seconds / 86400)).isValid && (Text.trimFront rest).isEmpty then
    return ⟨seconds, nanos⟩
  else none

def read? (s : String) : Option Instant := ofChars? s.toList

end Instant

end ZoneKeeper
