import ZoneKeeper.Json.Basic
import ZoneKeeper.Text.Basic

namespace ZoneKeeper.Json

def isWhole (digits : List Char) : Bool :=
  match digits with
  | [] => false
  | ['0'] => true
  | c :: rest => c != '0' && (c :: rest).all Char.isDigit

structure NumberText where
  negative : Bool
  whole : List Char
  fraction : Option (List Char)
  exponent : Option (Bool × List Char)

def NumberText.ofExponent? (negative : Bool) (whole : List Char) (fraction : Option (List Char)) :
    List Char → Option NumberText
  | [] => some ⟨negative, whole, fraction, none⟩
  | c :: rest =>
      if c == 'e' || c == 'E' then
        let (sign, digits) := match rest with
          | '-' :: digits => (true, digits)
          | '+' :: digits => (false, digits)
          | _ => (false, rest)
        if !digits.isEmpty && digits.all Char.isDigit then
          some ⟨negative, whole, fraction, some (sign, digits)⟩
        else none
      else none

def NumberText.read? (text : List Char) : Option NumberText :=
  let (negative, rest) := match text with
    | '-' :: rest => (true, rest)
    | _ => (false, text)
  let whole := rest.takeWhile Char.isDigit
  if !isWhole whole then none
  else match rest.dropWhile Char.isDigit with
    | '.' :: rest =>
        let fraction := rest.takeWhile Char.isDigit
        if fraction.isEmpty then none
        else ofExponent? negative whole (some fraction) (rest.dropWhile Char.isDigit)
    | rest => ofExponent? negative whole none rest

def gather (significand : Nat) : (digits : List Char) → Nat × Nat
  | [] => (significand, 0)
  | c :: rest =>
      let next := 10 * significand + Digits.value [c]
      if next < UInt64.size then gather next rest else (significand, rest.length + 1)

def nearestFloat (n : Nat) : Nat :=
  if n < 1 <<< 53 then n
  else
    let low := n.log2 - 52
    let top := n >>> low
    let rest := n - top <<< low
    let half := 1 <<< (low - 1)
    if half < rest || (rest == half && top % 2 == 1) then (top + 1) <<< low else top <<< low

/-- The least number that rounds past the greatest float of 64 bits. -/
def floatLimit : Nat := 1 <<< 1024 - 1 <<< 970

def maxPower : Nat := 308

structure Scaled where
  significand : Nat
  exponent : Int

/-- The leading digits that fit a word; whole digits left over count only as powers of ten, and
digits of the fraction left over count for nothing. -/
def NumberText.scaled (n : NumberText) : Scaled :=
  let (whole, left) := gather 0 n.whole
  let fraction := n.fraction.getD []
  let (significand, rest) := gather whole fraction
  let power : Int := match n.exponent with
    | none => 0
    | some (true, digits) => -(Digits.value digits : Int)
    | some (false, digits) => Digits.value digits
  ⟨significand, power + left - (fraction.length - rest : Nat)⟩

def Scaled.isFinite (x : Scaled) : Bool :=
  match x.exponent with
  | .negSucc _ => true
  | .ofNat power =>
      x.significand == 0 ||
        (power ≤ maxPower &&
          nearestFloat x.significand * nearestFloat (Digits.withZeros 1 power) < floatLimit)

def NumberText.value? (text : List Char) (n : NumberText) : Option Json :=
  let whole := Digits.value n.whole
  let isInt := n.fraction.isNone && n.exponent.isNone
  if isInt && !n.negative && whole < UInt64.size then some (.int whole)
  else if isInt && n.negative && 0 < whole && whole ≤ 0x8000000000000000 then some (.int (-whole))
  else if n.scaled.isFinite then some (.real (String.ofList text))
  else none

def readNumber? (text : List Char) : Option Json := do (← NumberText.read? text).value? text

end ZoneKeeper.Json
