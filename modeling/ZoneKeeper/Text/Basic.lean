namespace ZoneKeeper

def splitOn {α : Type} [BEq α] (sep : α) : List α → List (List α)
  | [] => [[]]
  | a :: rest =>
      if a == sep then [] :: splitOn sep rest
      else match splitOn sep rest with
        | [] => [[a]]
        | piece :: pieces => (a :: piece) :: pieces

namespace Text

def isBlank (c : Char) : Bool :=
  let n := c.toNat
  (0x9 ≤ n && n ≤ 0xd) || n == 0x20 || n == 0x85 || n == 0xa0 || n == 0x1680
    || (0x2000 ≤ n && n ≤ 0x200a) || n == 0x2028 || n == 0x2029 || n == 0x202f || n == 0x205f
    || n == 0x3000

def trimFront (chars : List Char) : List Char := chars.dropWhile isBlank

def trimChars (chars : List Char) : List Char := (trimFront (trimFront chars).reverse).reverse

def trim (s : String) : String := String.ofList (trimChars s.toList)

end Text

namespace Digits

def value (digits : List Char) : Nat :=
  digits.foldl (fun n c => 10 * n + (c.toNat - '0'.toNat)) 0

def withZeros (n : Nat) : (zeros : Nat) → Nat
  | 0 => n
  | zeros + 1 => withZeros (10 * n) zeros

def padded (width n : Nat) : List Char :=
  let digits := Nat.toDigits 10 n
  List.replicate (width - digits.length) '0' ++ digits

end Digits

abbrev Octets := List UInt8

namespace Octet

abbrev space : UInt8 := 0x20
abbrev bang : UInt8 := 0x21
abbrev quote : UInt8 := 0x22
abbrev comma : UInt8 := 0x2c
abbrev hyphen : UInt8 := 0x2d
abbrev dot : UInt8 := 0x2e
abbrev slash : UInt8 := 0x2f
abbrev zero : UInt8 := 0x30
abbrev colon : UInt8 := 0x3a
abbrev equal : UInt8 := 0x3d
abbrev backslash : UInt8 := 0x5c
abbrev underscore : UInt8 := 0x5f

def isDigit (b : UInt8) : Bool := 0x30 ≤ b && b ≤ 0x39

def isUpper (b : UInt8) : Bool := 0x41 ≤ b && b ≤ 0x5a

def isLower (b : UInt8) : Bool := 0x61 ≤ b && b ≤ 0x7a

def isAlphanumeric (b : UInt8) : Bool := isDigit b || isUpper b || isLower b

def isBlank (b : UInt8) : Bool :=
  b == 0x20 || b == 0x09 || b == 0x0a || b == 0x0c || b == 0x0d

def toLower (b : UInt8) : UInt8 := if isUpper b then b + 0x20 else b

def toUpper (b : UInt8) : UInt8 := if isLower b then b - 0x20 else b

def digitValue (b : UInt8) : Nat := b.toNat - 0x30

def ofDigit (n : Nat) : UInt8 := UInt8.ofNat (0x30 + n)

def threeDigits (b : UInt8) : Octets :=
  [ofDigit (b.toNat / 100), ofDigit (b.toNat / 10 % 10), ofDigit (b.toNat % 10)]

end Octet

def octets (s : String) : Octets := s.toUTF8.data.toList

def Octets.isAscii (t : Octets) : Bool := t.all (· < 0x80)

def Octets.lower (t : Octets) : Octets := t.map Octet.toLower

def Octets.upper (t : Octets) : Octets := t.map Octet.toUpper

def Octets.sameLetters (s t : Octets) : Bool := s.lower == t.lower

def Octets.splitOn (sep : UInt8) (t : Octets) : List Octets := ZoneKeeper.splitOn sep t

def Octets.cut (sep : UInt8) : Octets → Option (Octets × Octets)
  | [] => none
  | b :: rest =>
      if b == sep then some ([], rest)
      else (cut sep rest).map fun (before, after) => (b :: before, after)

def Octets.cutLast (sep : UInt8) : Octets → Option (Octets × Octets)
  | [] => none
  | b :: rest =>
      match cutLast sep rest with
      | some (before, after) => some (b :: before, after)
      | none => if b == sep then some ([], rest) else none

def Octets.joinWith (sep : Octets) (pieces : List Octets) : Octets := sep.intercalate pieces

def Octets.words (pieces : List Octets) : Octets := joinWith [Octet.space] pieces

def Octets.strip? : Octets → Octets → Option Octets
  | [], t => some t
  | _ :: _, [] => none
  | a :: s, b :: t => if a == b then strip? s t else none

def be16 (n : UInt16) : Octets := [UInt8.ofNat (n.toNat / 256), UInt8.ofNat n.toNat]

def be32 (n : UInt32) : Octets :=
  [UInt8.ofNat (n.toNat / 0x1000000), UInt8.ofNat (n.toNat / 0x10000),
    UInt8.ofNat (n.toNat / 0x100), UInt8.ofNat n.toNat]

def counted (t : Octets) : Octets := UInt8.ofNat t.length :: t

namespace Hex

def digitValue? (b : UInt8) : Option Nat :=
  if Octet.isDigit b then some (b.toNat - 0x30)
  else if 0x61 ≤ b && b ≤ 0x66 then some (b.toNat - 0x57)
  else if 0x41 ≤ b && b ≤ 0x46 then some (b.toNat - 0x37)
  else none

def digit (n : Nat) : UInt8 := UInt8.ofNat (if n < 10 then 0x30 + n else 0x57 + n)

def read? : Octets → Option Octets
  | [] => some []
  | [_] => none
  | a :: b :: rest => do
      let high ← digitValue? a
      let low ← digitValue? b
      let bytes ← read? rest
      return UInt8.ofNat (16 * high + low) :: bytes

def writeOctet (b : UInt8) : Octets := [digit (b.toNat / 16), digit (b.toNat % 16)]

def write (t : Octets) : Octets := t.flatMap writeOctet

end Hex

end ZoneKeeper
