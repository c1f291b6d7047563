import ZoneKeeper.Text.Basic

namespace ZoneKeeper.Bitmap

def insert (code : UInt16) : List UInt16 → List UInt16
  | [] => [code]
  | c :: rest =>
      if code < c then code :: c :: rest
      else if code == c then c :: rest
      else c :: insert code rest

def windowOf (code : UInt16) : UInt8 := UInt8.ofNat (code.toNat / 256)

def setBit (octet : Nat) (bit : UInt8) : Octets → Octets
  | [] => List.replicate octet 0 ++ [bit]
  | b :: rest => match octet with
      | 0 => (b ||| bit) :: rest
      | octet + 1 => b :: setBit octet bit rest

def mark (bits : Octets) (code : UInt16) : Octets :=
  let low := code.toNat % 256
  setBit (low / 8) (UInt8.ofNat (0x80 >>> (low % 8))) bits

def windows : List UInt16 → List (UInt8 × Octets)
  | [] => []
  | code :: rest =>
      match windows rest with
      | (window, bits) :: more =>
          if window == windowOf code then (window, mark bits code) :: more
          else (windowOf code, mark [] code) :: (window, bits) :: more
      | [] => [(windowOf code, mark [] code)]

def wire (codes : List UInt16) : Octets :=
  (windows codes).flatMap fun (window, bits) => window :: counted bits

end ZoneKeeper.Bitmap
