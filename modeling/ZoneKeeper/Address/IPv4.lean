import ZoneKeeper.Text.Decimal

namespace ZoneKeeper

structure IPv4 where
  bytes : Octets
  size : bytes.length = 4
  deriving DecidableEq, Repr

namespace IPv4

def ofBytes? (bytes : Octets) : Option IPv4 :=
  if size : bytes.length = 4 then some ⟨bytes, size⟩ else none

def readPart? (part : Octets) : Option UInt8 :=
  if part.length > 3 then none else (Decimal.readBits? 8 part).map UInt8.ofNat

def hasLeadingZero (part : Octets) : Bool := part.length > 1 && part.head? == some Octet.zero

def read? (text : Octets) : Option IPv4 := do
  ofBytes? (← (text.splitOn Octet.dot).mapM readPart?)

def readStrict? (text : Octets) : Option IPv4 :=
  if (text.splitOn Octet.dot).any hasLeadingZero then none else read? text

def write (a : IPv4) : Octets := Octets.joinWith [Octet.dot] (a.bytes.map (Decimal.write ·.toNat))

end IPv4

end ZoneKeeper
