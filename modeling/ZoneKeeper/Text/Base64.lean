import ZoneKeeper.Text.Basic

namespace ZoneKeeper.Base64

def symbolValue? (b : UInt8) : Option Nat :=
  if Octet.isUpper b then some (b.toNat - 0x41)
  else if Octet.isLower b then some (b.toNat - 0x61 + 26)
  else if Octet.isDigit b then some (b.toNat - 0x30 + 52)
  else if b == 0x2b then some 62
  else if b == 0x2f then some 63
  else none

def symbol (n : Nat) : UInt8 :=
  if n < 26 then UInt8.ofNat (0x41 + n)
  else if n < 52 then UInt8.ofNat (0x61 + (n - 26))
  else if n < 62 then UInt8.ofNat (0x30 + (n - 52))
  else if n == 62 then 0x2b
  else 0x2f

def firstOctet (a b : Nat) : UInt8 := UInt8.ofNat (a * 4 + b / 16)

def secondOctet (b c : Nat) : UInt8 := UInt8.ofNat (b % 16 * 16 + c / 4)

def thirdOctet (c d : Nat) : UInt8 := UInt8.ofNat (c % 4 * 64 + d)

def read? : Octets → Option Octets
  | [] => some []
  | a :: b :: c :: d :: rest => do
      let x ← symbolValue? a
      let y ← symbolValue? b
      if d == Octet.equal && rest.isEmpty then
        if c == Octet.equal then return [firstOctet x y]
        let z ← symbolValue? c
        return [firstOctet x y, secondOctet y z]
      let z ← symbolValue? c
      let w ← symbolValue? d
      let bytes ← read? rest
      return firstOctet x y :: secondOctet y z :: thirdOctet z w :: bytes
  | _ => none

def write : Octets → Octets
  | [] => []
  | [a] => [symbol (a.toNat / 4), symbol (a.toNat % 4 * 16), Octet.equal, Octet.equal]
  | [a, b] =>
      [symbol (a.toNat / 4), symbol (a.toNat % 4 * 16 + b.toNat / 16),
        symbol (b.toNat % 16 * 4), Octet.equal]
  | a :: b :: c :: rest =>
      symbol (a.toNat / 4) :: symbol (a.toNat % 4 * 16 + b.toNat / 16)
        :: symbol (b.toNat % 16 * 4 + c.toNat / 64) :: symbol (c.toNat % 64) :: write rest

end ZoneKeeper.Base64
