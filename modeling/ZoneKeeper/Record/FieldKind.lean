import ZoneKeeper.Record.Field

namespace ZoneKeeper

inductive FieldKind where
  | number8
  | number16
  | number32
  | name
  | nameAsGiven
  | host (role : String) (rootAllowed : Bool)
  | ipv4
  | ipv4Strict
  | ipv6
  | strings
  | tag
  | text
  | string
  | stringPair
  | target
  | hex
  | digest
  | base64
  | certificate
  | types
  | prefixes
  | hardware (size : Nat)
  | locator
  | location
  | service
  deriving DecidableEq, Repr

abbrev Reader (α : Type) := List Token → Except RecordFlaw (α × List Token)

namespace Reader

def next : Reader Token
  | [] => .error .missingToken
  | token :: rest => .ok (token, rest)

def number (bits : Nat) : Reader Nat := fun tokens => do
  let (token, rest) ← next tokens
  match Decimal.readBits? bits token.text with
  | some n => .ok (n, rest)
  | none => .error (.badNumber token.text bits)

def number8 : Reader UInt8 := fun tokens => do
  let (n, rest) ← number 8 tokens
  return (UInt8.ofNat n, rest)

def number16 : Reader UInt16 := fun tokens => do
  let (n, rest) ← number 16 tokens
  return (UInt16.ofNat n, rest)

def number32 : Reader UInt32 := fun tokens => do
  let (n, rest) ← number 32 tokens
  return (UInt32.ofNat n, rest)

def name : Reader DomainName := fun tokens => do
  let (token, rest) ← next tokens
  if token.quoted then .error .quotedName
  else match DomainName.read token.raw with
    | .ok name => .ok (name, rest)
    | .error flaw => .error (.name flaw)

def host (role : String) (rootAllowed : Bool) : Reader DomainName := fun tokens => do
  let (host, rest) ← name tokens
  let host := host.lower
  if (rootAllowed && host.isRoot) || host.isHostname then return (host, rest)
  else .error (.badHost role host.write)

def text {α : Type} (read? : Octets → Option α) (flaw : Octets → RecordFlaw) : Reader α :=
  fun tokens => do
    let (token, rest) ← next tokens
    match read? token.text with
    | some a => .ok (a, rest)
    | none => .error (flaw token.text)

def strings : List Token → Except RecordFlaw (List Octets)
  | [] => .ok []
  | token :: rest =>
      if token.quoted then (strings rest).map (token.bytes :: ·)
      else .error .unquotedString

def tag : Reader Octets := fun tokens => do
  let (token, rest) ← next tokens
  let t := token.bytes
  if t.isEmpty || t.length > 255 || !t.all Octet.isAlphanumeric then .error .badTag
  else return (t, rest)

def string : Reader Octets := fun tokens => do
  let (token, rest) ← next tokens
  if token.bytes.length > 255 then .error .longString else return (token.bytes, rest)

def stringPair : Reader (Octets × Octets) := fun tokens => do
  let (first, rest) ← next tokens
  let (second, rest) ← next rest
  if first.bytes.length > 255 || second.bytes.length > 255 then .error .longString
  else return ((first.bytes, second.bytes), rest)

def target : Reader Octets := fun tokens => do
  let (token, rest) ← next tokens
  if !token.quoted then .error .unquotedTarget
  else if token.bytes.isEmpty then .error .emptyTarget
  else return (token.bytes, rest)

def concatenated (tokens : List Token) : Except RecordFlaw Octets :=
  let text := tokens.flatMap Token.text
  if text.isEmpty then .error .missingToken else .ok text

def binary (read? : Octets → Option Octets) (tokens : List Token) :
    Except RecordFlaw Octets := do
  match read? (← concatenated tokens) with
  | some bytes => .ok bytes
  | none => .error .notBinary

def digestSize? (type : UInt8) : Option Nat :=
  if type == 0 then some 1
  else if type == 1 then some 20
  else if type == 2 || type == 3 then some 32
  else if type == 4 then some 48
  else none

def digest (tokens : List Token) : Except RecordFlaw (UInt8 × Octets) := do
  let (type, rest) ← number8 tokens
  let bytes ← binary Hex.read? rest
  match digestSize? type with
  | none => .error .unknownDigest
  | some size =>
      if bytes.length == size then return (type, bytes)
      else .error (.digestLength (bytes.length * 2) (size * 2))

def certificateTypes : List (String × UInt16) :=
  [("PKIX", 1), ("SPKI", 2), ("PGP", 3), ("IPKIX", 4), ("ISPKI", 5), ("IPGP", 6), ("ACPKIX", 7),
   ("IACPKIX", 8), ("URI", 253), ("OID", 254)]

def certificateType? (text : Octets) : Option UInt16 :=
  match certificateTypes.find? fun (word, _) => (octets word).sameLetters text with
  | some (_, code) => some code
  | none => (Decimal.readBits? 16 text).map UInt16.ofNat

def types (codes : List UInt16) : List Token → Except RecordFlaw (List UInt16)
  | [] => .ok codes
  | token :: rest =>
      match RecordType.code? token.text with
      | some code => types (Bitmap.insert code codes) rest
      | none => .error (.unknownType token.text)

def prefixes : List Token → Except RecordFlaw (List AddressPrefix)
  | [] => .ok []
  | token :: rest =>
      match AddressPrefix.read? token.text with
      | some item => (prefixes rest).map (item :: ·)
      | none => .error (.badPrefix token.text)

def hardware (size : Nat) : Reader Octets := fun tokens => do
  let (token, rest) ← next tokens
  let groups := token.text.splitOn Octet.hyphen
  if groups.length != size || groups.any (·.length != 2) then .error (.badHardware token.text)
  else match Hex.read? groups.flatten with
    | some bytes => .ok (bytes, rest)
    | none => .error .notBinary

def locator? (text : Octets) : Option Octets :=
  let groups := text.splitOn Octet.colon
  if groups.length != 4 || groups.any (·.length != 4) then none
  else Hex.read? groups.flatten

def service : List Token → Except RecordFlaw (List Field) := fun tokens => do
  let (priority, rest) ← number16 tokens
  let (target, rest) ← name rest
  match ServiceParameters.read rest with
  | .error flaw => .error (.service flaw)
  | .ok parameters =>
      if priority == 0 && !parameters.isEmpty then .error .aliasWithParameters
      else return [.number16 priority, .name target, .parameters parameters]

end Reader

namespace FieldKind

def read : FieldKind → Reader (List Field)
  | .number8, tokens => do
      let (n, rest) ← Reader.number8 tokens
      return ([.number8 n], rest)
  | .number16, tokens => do
      let (n, rest) ← Reader.number16 tokens
      return ([.number16 n], rest)
  | .number32, tokens => do
      let (n, rest) ← Reader.number32 tokens
      return ([.number32 n], rest)
  | .name, tokens => do
      let (n, rest) ← Reader.name tokens
      return ([.name n.lower], rest)
  | .nameAsGiven, tokens => do
      let (n, rest) ← Reader.name tokens
      return ([.name n], rest)
  | .host role rootAllowed, tokens => do
      let (n, rest) ← Reader.host role rootAllowed tokens
      return ([.name n], rest)
  | .ipv4, tokens => do
      let (a, rest) ← Reader.text IPv4.read? .badIPv4 tokens
      return ([.ipv4 a], rest)
  | .ipv4Strict, tokens => do
      let (a, rest) ← Reader.text IPv4.readStrict? .badIPv4 tokens
      return ([.ipv4 a], rest)
  | .ipv6, tokens => do
      let (a, rest) ← Reader.text IPv6.read? .badIPv6 tokens
      return ([.ipv6 a], rest)
  | .strings, tokens => do
      let pieces ← Reader.strings tokens
      if pieces.isEmpty then .error .missingToken else return ([.strings pieces], [])
  | .tag, tokens => do
      let (t, rest) ← Reader.tag tokens
      return ([.tag t], rest)
  | .text, tokens => do
      let (token, rest) ← Reader.next tokens
      return ([.text token.bytes], rest)
  | .string, tokens => do
      let (t, rest) ← Reader.string tokens
      return ([.string t], rest)
  | .stringPair, tokens => do
      let ((first, second), rest) ← Reader.stringPair tokens
      return ([.string first, .string second], rest)
  | .target, tokens => do
      let (t, rest) ← Reader.target tokens
      return ([.text t], rest)
  | .hex, tokens => do
      return ([.hex (← Reader.binary Hex.read? tokens)], [])
  | .digest, tokens => do
      let (type, bytes) ← Reader.digest tokens
      return ([.number8 type, .hex bytes], [])
  | .base64, tokens => do
      return ([.base64 (← Reader.binary Base64.read? tokens)], [])
  | .certificate, tokens => do
      let (code, rest) ← Reader.text Reader.certificateType? .unknownCertificate tokens
      return ([.number16 code], rest)
  | .types, tokens => do
      return ([.types (← Reader.types [] tokens)], [])
  | .prefixes, tokens => do
      let items ← Reader.prefixes tokens
      if items.isEmpty then .error .missingToken else return ([.prefixes items], [])
  | .hardware size, tokens => do
      let (t, rest) ← Reader.hardware size tokens
      return ([.hardware t], rest)
  | .locator, tokens => do
      let (t, rest) ← Reader.text Reader.locator? .badLocator tokens
      return ([.locator t], rest)
  | .location, tokens =>
      match Location.read (tokens.map Token.text) with
      | .ok l => .ok ([.location l], [])
      | .error flaw => .error (.location flaw)
  | .service, tokens => do
      return (← Reader.service tokens, [])

end FieldKind

end ZoneKeeper
