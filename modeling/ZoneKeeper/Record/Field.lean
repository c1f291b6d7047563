import ZoneKeeper.Record.Flaw
import ZoneKeeper.Record.AddressPrefix
import ZoneKeeper.RecordType.Bitmap

namespace ZoneKeeper

inductive Field where
  | number8 (n : UInt8)
  | number16 (n : UInt16)
  | number32 (n : UInt32)
  | name (n : DomainName)
  | ipv4 (a : IPv4)
  | ipv6 (a : IPv6)
  | strings (pieces : List Octets)
  | tag (t : Octets)
  | text (t : Octets)
  | string (t : Octets)
  | hex (t : Octets)
  | base64 (t : Octets)
  | types (codes : List UInt16)
  | prefixes (items : List AddressPrefix)
  | hardware (t : Octets)
  | locator (t : Octets)
  | location (l : Location)
  | parameters (p : ServiceParameters)
  deriving DecidableEq, Repr

namespace Field

def chunks (t : Octets) : List Octets :=
  if t.length ≤ 255 then [t] else t.take 255 :: chunks (t.drop 255)
termination_by t.length
decreasing_by simp; omega

def wire : Field → Octets
  | .number8 n => [n]
  | .number16 n => be16 n
  | .number32 n => be32 n
  | .name n => n.wire
  | .ipv4 a => a.bytes
  | .ipv6 a => a.bytes
  | .strings pieces => pieces.flatMap fun piece => (chunks piece).flatMap counted
  | .tag t => counted t
  | .text t => t
  | .string t => counted t
  | .hex t => t
  | .base64 t => t
  | .types codes => Bitmap.wire codes
  | .prefixes items => items.flatMap AddressPrefix.wire
  | .hardware t => t
  | .locator t => t
  | .location l => l.wire
  | .parameters p => p.wire

def locatorGroups : Octets → List Octets
  | a :: b :: rest => Hex.write [a, b] :: locatorGroups rest
  | _ => []

def words : Field → List Octets
  | .number8 n => [Decimal.write n.toNat]
  | .number16 n => [Decimal.write n.toNat]
  | .number32 n => [Decimal.write n.toNat]
  | .name n => [n.write]
  | .ipv4 a => [a.write]
  | .ipv6 a => [a.write]
  | .strings pieces => pieces.map Octets.quoted
  | .tag t => [t]
  | .text t => [t.quoted]
  | .string t => [t.quoted]
  | .hex t => [Hex.write t]
  | .base64 t => [Base64.write t]
  | .types codes => codes.map RecordType.word
  | .prefixes items => items.map AddressPrefix.write
  | .hardware t => [Octets.joinWith [Octet.hyphen] (t.map Hex.writeOctet)]
  | .locator t => [Octets.joinWith [Octet.colon] (locatorGroups t)]
  | .location l => l.words
  | .parameters p => p.words

end Field

end ZoneKeeper
