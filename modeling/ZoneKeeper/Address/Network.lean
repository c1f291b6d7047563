import ZoneKeeper.Address.IPv6

namespace ZoneKeeper

inductive Family where
  | v4
  | v6
  deriving DecidableEq, Repr

def Family.bits : Family → Nat
  | .v4 => 32
  | .v6 => 128

inductive Address where
  | v4 (a : IPv4)
  | v6 (a : IPv6)
  deriving DecidableEq, Repr

namespace Address

def family : Address → Family
  | .v4 _ => .v4
  | .v6 _ => .v6

def bytes : Address → Octets
  | .v4 a => a.bytes
  | .v6 a => a.bytes

def write : Address → Octets
  | .v4 a => a.write
  | .v6 a => a.write

def read? : Family → Octets → Option Address
  | .v4, text => (IPv4.readStrict? text).map .v4
  | .v6, text => (IPv6.read? text).map .v6

end Address

def splice (width kept network host : Nat) : Nat :=
  let hosts := 1 <<< (width - kept)
  network / hosts * hosts + host % hosts

def spliceBytes : Nat → Octets → Octets → Octets
  | kept, a :: network, b :: host =>
      UInt8.ofNat (splice 8 kept a.toNat b.toNat) :: spliceBytes (kept - 8) network host
  | _, _, _ => []

def spliceGroups : Nat → List UInt16 → List UInt16 → List UInt16
  | kept, a :: network, b :: host =>
      UInt16.ofNat (splice 16 kept a.toNat b.toNat) :: spliceGroups (kept - 16) network host
  | _, _, _ => []

theorem length_spliceBytes (kept : Nat) (network host : Octets) :
    (spliceBytes kept network host).length = min network.length host.length := by
  induction network generalizing kept host with
  | nil => simp [spliceBytes]
  | cons a network ih =>
      cases host with
      | nil => simp [spliceBytes]
      | cons b host => simp [spliceBytes, ih]

theorem length_spliceGroups (kept : Nat) (network host : List UInt16) :
    (spliceGroups kept network host).length = min network.length host.length := by
  induction network generalizing kept host with
  | nil => simp [spliceGroups]
  | cons a network ih =>
      cases host with
      | nil => simp [spliceGroups]
      | cons b host => simp [spliceGroups, ih]

def IPv4.splice (kept : Nat) (network host : IPv4) : IPv4 :=
  ⟨spliceBytes kept network.bytes host.bytes, by
    simp [length_spliceBytes, network.size, host.size]⟩

def IPv6.splice (kept : Nat) (network host : IPv6) : IPv6 :=
  ⟨spliceGroups kept network.groups host.groups, by
    simp [length_spliceGroups, network.size, host.size]⟩

def IPv4.zero : IPv4 := ⟨List.replicate 4 0, rfl⟩

def IPv6.zero : IPv6 := ⟨List.replicate 8 0, rfl⟩

structure Network where
  address : Address
  length : Nat
  deriving DecidableEq, Repr

inductive NetworkFlaw where
  | badAddress (text : Octets)
  | badLength
  | manySlashes (text : Octets)
  deriving DecidableEq, Repr

def NetworkFlaw.message : NetworkFlaw → String
  | .badAddress text => "invalid address: " ++ text.text
  | .badLength => "invalid prefix"
  | .manySlashes text => "invalid cidr format: CIDR must contain a single '/': " ++ text.text

namespace Network

def make? (address : Address) (length : Nat) : Option Network :=
  if length ≤ address.family.bits then some ⟨address, length⟩ else none

def base (n : Network) : Address :=
  match n.address with
  | .v4 a => .v4 (a.splice n.length .zero)
  | .v6 a => .v6 (a.splice n.length .zero)

def rewrite? (n : Network) : Address → Option Address
  | .v4 host => match n.address with
      | .v4 a => some (.v4 (a.splice n.length host))
      | .v6 _ => none
  | .v6 host => match n.address with
      | .v4 _ => none
      | .v6 a => some (.v6 (a.splice n.length host))

def lengthOfMask? (mask : IPv4) : Option Nat :=
  let value := mask.bytes.foldl (fun n b => n * 256 + b.toNat) 0
  (List.range 33).find? fun length => value == UInt32.size - 1 <<< (32 - length)

def readLength? (family : Family) (text : Octets) : Option Nat :=
  match family, IPv4.readStrict? text with
  | .v4, some mask => lengthOfMask? mask
  | _, _ => (Decimal.readSigned 8 text).toOption.filter (· ≤ family.bits)

def read (family : Family) (text : Octets) : Except NetworkFlaw Network :=
  match text.cut Octet.slash with
  | none =>
      match Address.read? family text with
      | none => .error (.badAddress text)
      | some address => .ok ⟨address, family.bits⟩
  | some (before, after) =>
      if after.contains Octet.slash then .error (.manySlashes text)
      else match Address.read? family before with
        | none => .error (.badAddress before)
        | some address =>
            match readLength? family after with
            | none => .error .badLength
            | some length => .ok ⟨address, length⟩

end Network

end ZoneKeeper
