import ZoneKeeper.Record.FieldKind

namespace ZoneKeeper

def RecordType.layout? : String → Option (List FieldKind)
  | "A" => some [.ipv4]
  | "AAAA" => some [.ipv6]
  | "CNAME" => some [.name]
  | "DNAME" => some [.name]
  | "MR" => some [.name]
  | "PTR" => some [.name]
  | "NS" => some [.host "target" false]
  | "MX" => some [.number16, .host "exchange" true]
  | "AFSDB" => some [.number16, .name]
  | "KX" => some [.number16, .name]
  | "LP" => some [.number16, .nameAsGiven]
  | "RP" => some [.name, .name]
  | "MINFO" => some [.name, .name]
  | "SRV" => some [.number16, .number16, .number16, .host "target" true]
  | "TXT" => some [.strings]
  | "SPF" => some [.strings]
  | "CAA" => some [.number8, .tag, .text]
  | "DS" => some [.number16, .number8, .digest]
  | "CDS" => some [.number16, .number8, .digest]
  | "DLV" => some [.number16, .number8, .digest]
  | "DNSKEY" => some [.number16, .number8, .number8, .base64]
  | "CDNSKEY" => some [.number16, .number8, .number8, .base64]
  | "RKEY" => some [.number16, .number8, .number8, .base64]
  | "TLSA" => some [.number8, .number8, .number8, .hex]
  | "SMIMEA" => some [.number8, .number8, .number8, .hex]
  | "SSHFP" => some [.number8, .number8, .hex]
  | "HINFO" => some [.stringPair]
  | "URI" => some [.number16, .number16, .target]
  | "OPENPGPKEY" => some [.base64]
  | "DHCID" => some [.base64]
  | "CERT" => some [.certificate, .number16, .number8, .base64]
  | "CSYNC" => some [.number32, .number16, .types]
  | "APL" => some [.prefixes]
  | "EUI48" => some [.hardware 6]
  | "EUI64" => some [.hardware 8]
  | "L32" => some [.number16, .ipv4Strict]
  | "L64" => some [.number16, .locator]
  | "NID" => some [.number16, .locator]
  | "LOC" => some [.location]
  | "NAPTR" => some [.number16, .number16, .string, .string, .string, .name]
  | "SVCB" => some [.service]
  | "HTTPS" => some [.service]
  | _ => none

structure RecordData where
  fields : List Field
  deriving DecidableEq, Repr

namespace RecordData

def readFields : List FieldKind → List Token → Except RecordFlaw (List Field)
  | [], [] => .ok []
  | [], token :: _ => .error (.extraToken token.text)
  | kind :: kinds, tokens => do
      let (fields, rest) ← kind.read tokens
      return fields ++ (← readFields kinds rest)

def read (type : String) (content : Octets) : Except RecordFlaw RecordData :=
  match Token.read content with
  | .error flaw => .error (.tokens flaw)
  | .ok tokens =>
      match RecordType.layout? type with
      | none => .error .unsupported
      | some kinds => (readFields kinds tokens).map .mk

def wire (d : RecordData) : Octets := d.fields.flatMap Field.wire

def write (d : RecordData) : Octets := Octets.words (d.fields.flatMap Field.words)

end RecordData

structure CanonicalRecord where
  presentation : String
  wire : Octets
  deriving DecidableEq, Repr

namespace CanonicalRecord

def ofData (d : RecordData) : CanonicalRecord := ⟨d.write.text, d.wire⟩

def read (type content : String) : Except RecordFlaw CanonicalRecord := do
  let record := ofData (← RecordData.read type (octets content))
  if record.wire.length > RecordFlaw.maxWire then .error (.tooLong record.wire.length)
  else return record

end CanonicalRecord

end ZoneKeeper
