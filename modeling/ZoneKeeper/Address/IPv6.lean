import ZoneKeeper.Address.IPv4
import ZoneKeeper.Text.Basic

namespace ZoneKeeper

structure IPv6 where
  groups : List UInt16
  size : groups.length = 8
  deriving DecidableEq, Repr

namespace IPv6

def ofGroups? (groups : List UInt16) : Option IPv6 :=
  if size : groups.length = 8 then some ⟨groups, size⟩ else none

def bytes (a : IPv6) : Octets := a.groups.flatMap be16

def readGroup? (text : Octets) : Option UInt16 :=
  if text.isEmpty || text.length > 4 then none
  else (text.mapM Hex.digitValue?).map fun digits =>
    UInt16.ofNat (digits.foldl (fun n d => 16 * n + d) 0)

def pairs : Octets → List UInt16
  | a :: b :: rest => UInt16.ofNat (a.toNat * 256 + b.toNat) :: pairs rest
  | _ => []

def readGroups? : List Octets → Option (List UInt16)
  | [] => none
  | [last] =>
      match readGroup? last with
      | some group => some [group]
      | none => (IPv4.readStrict? last).map fun a => pairs a.bytes
  | part :: parts => do
      let group ← readGroup? part
      return group :: (← readGroups? parts)

def cutGap : Octets → Option (Octets × Octets)
  | a :: b :: rest =>
      if a == Octet.colon && b == Octet.colon then some ([], rest)
      else (cutGap (b :: rest)).map fun (before, after) => (a :: before, after)
  | _ => none

def readHead? (text : Octets) : Option (List UInt16) :=
  if text.isEmpty then some [] else (text.splitOn Octet.colon).mapM readGroup?

def readTail? (text : Octets) : Option (List UInt16) :=
  if text.isEmpty then some [] else readGroups? (text.splitOn Octet.colon)

def read? (text : Octets) : Option IPv6 :=
  match cutGap text with
  | none => do ofGroups? (← readGroups? (text.splitOn Octet.colon))
  | some (before, after) => do
      let head ← readHead? before
      let tail ← readTail? after
      if head.length + tail.length > 7 then none
      else ofGroups? (head ++ List.replicate (8 - head.length - tail.length) 0 ++ tail)

def writeGroup (g : UInt16) : Octets :=
  (Nat.toDigits 16 g.toNat).map Char.toUInt8

def writeGroups (groups : List UInt16) : Octets :=
  Octets.joinWith [Octet.colon] (groups.map writeGroup)

def zeroRun (groups : List UInt16) : Nat := (groups.takeWhile (· == 0)).length

def longestZeroRun : List UInt16 → Nat × Nat
  | [] => (0, 0)
  | g :: rest =>
      let here := zeroRun (g :: rest)
      let (start, length) := longestZeroRun rest
      if here ≥ length then (0, here) else (start + 1, length)

def carried? (a : IPv6) : Option IPv4 :=
  match a.groups with
  | [0, 0, 0, 0, 0, 0xffff, g, h] => IPv4.ofBytes? (be16 g ++ be16 h)
  | _ => none

def write (a : IPv6) : Octets :=
  match a.carried? with
  | some carried => octets "::ffff:" ++ carried.write
  | none =>
      let (start, length) := longestZeroRun a.groups
      if length > 1 then
        writeGroups (a.groups.take start) ++ [Octet.colon, Octet.colon]
          ++ writeGroups (a.groups.drop (start + length))
      else writeGroups a.groups

end IPv6

end ZoneKeeper
