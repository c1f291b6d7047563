import ZoneKeeper.Address.Network

namespace ZoneKeeper

structure AddressPrefix where
  negated : Bool
  network : Network
  deriving DecidableEq, Repr

namespace AddressPrefix

def familyNumber : Family → UInt16
  | .v4 => 1
  | .v6 => 2

def familyOf? (text : Octets) : Option Family :=
  if text == octets "1" then some .v4
  else if text == octets "2" then some .v6
  else none

def readNetwork? (text : Octets) : Option Network := do
  let (family, rest) ← text.cut Octet.colon
  let (address, length) ← rest.cutLast Octet.slash
  let length ← Decimal.readBits? 8 length
  let address ← Address.read? (← familyOf? family) address
  Network.make? address length

def read? : Octets → Option AddressPrefix
  | [] => none
  | b :: rest =>
      if b == Octet.bang then (readNetwork? rest).map fun network => ⟨true, network⟩
      else (readNetwork? (b :: rest)).map fun network => ⟨false, network⟩

def dropTrailingZeros : Octets → Octets
  | [] => []
  | b :: rest =>
      match dropTrailingZeros rest with
      | [] => if b == 0 then [] else [b]
      | kept => b :: kept

def wire (p : AddressPrefix) : Octets :=
  let bytes := dropTrailingZeros p.network.address.bytes
  be16 (familyNumber p.network.address.family)
    ++ [UInt8.ofNat p.network.length,
      UInt8.ofNat ((if p.negated then 128 else 0) + bytes.length)]
    ++ bytes

def write (p : AddressPrefix) : Octets :=
  (if p.negated then [Octet.bang] else [])
    ++ Decimal.write (familyNumber p.network.address.family).toNat
    ++ Octet.colon :: p.network.address.write
    ++ Octet.slash :: Decimal.write p.network.length

end AddressPrefix

end ZoneKeeper
