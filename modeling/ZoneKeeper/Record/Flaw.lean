import ZoneKeeper.Name.DomainName
import ZoneKeeper.Record.Location
import ZoneKeeper.Record.ServiceParameters

namespace ZoneKeeper

inductive RecordFlaw where
  | tokens (flaw : TokenFlaw)
  | missingToken
  | extraToken (text : Octets)
  | quotedName
  | longString
  | badIPv4 (text : Octets)
  | badIPv6 (text : Octets)
  | unquotedTarget
  | location (flaw : LocationFlaw)
  | badNumber (text : Octets) (bits : Nat)
  | name (flaw : NameFlaw)
  | badHost (role : String) (name : Octets)
  | badTag
  | emptyTarget
  | unknownDigest
  | digestLength (actual expected : Nat)
  | unknownCertificate (text : Octets)
  | unknownType (text : Octets)
  | badPrefix (text : Octets)
  | badHardware (text : Octets)
  | badLocator (text : Octets)
  | service (flaw : ServiceFlaw)
  | aliasWithParameters
  | notBinary
  | unquotedString
  | unsupported
  | tooLong (length : Nat)
  deriving DecidableEq, Repr

namespace RecordFlaw

def malformed (type detail : String) : String :=
  s!"Record content for type {type} malformed: {detail}"

def unparsable (detail : String) : String := s!"Cannot parse record contents: {detail}"

def maxWire : Nat := 64000

def message (type : String) : RecordFlaw → String
  | .tokens flaw => malformed type flaw.message
  | .missingToken => malformed type "unexpected end of input"
  | .extraToken text => malformed type ("expected end of input, got '" ++ text.text ++ "'")
  | .quotedName => malformed type "expected a domain name, got a quoted string"
  | .longString => malformed type "string too long"
  | .badIPv4 text => malformed type ("'" ++ text.text ++ "' is not a valid IPv4 address")
  | .badIPv6 text => malformed type ("'" ++ text.text ++ "' is not a valid IPv6 address")
  | .unquotedTarget => malformed type "URI target must be a string"
  | .location flaw => malformed type flaw.message
  | .badNumber text bits =>
      unparsable ("'" ++ text.text ++ s!"' is not a valid {bits}-bit unsigned integer")
  | .name flaw => flaw.message
  | .badHost role host => unparsable (s!"invalid {role}: " ++ host.text)
  | .badTag => unparsable "tag is not alphanumeric"
  | .emptyTarget => unparsable "URI target cannot be empty"
  | .unknownDigest => unparsable "unknown digest type"
  | .digestLength actual expected =>
      unparsable s!"invalid digest length {actual} (expected for this digest type: {expected})"
  | .unknownCertificate text => unparsable ("unknown certificate type '" ++ text.text ++ "'")
  | .unknownType text => unparsable ("unknown type '" ++ text.text ++ "'")
  | .badPrefix text => unparsable ("invalid APL item '" ++ text.text ++ "'")
  | .badHardware text => unparsable ("invalid EUI '" ++ text.text ++ "'")
  | .badLocator text => unparsable ("invalid locator '" ++ text.text ++ "'")
  | .service flaw => unparsable flaw.message
  | .aliasWithParameters => unparsable "AliasMode records cannot have parameters"
  | .notBinary => "Cannot parse hexadecimal or base64 record contents"
  | .unquotedString => s!"Data for {type} records must be given using quotation marks."
  | .unsupported => s!"The {type} RR set type is currently unsupported."
  | .tooLong length =>
      s!"Ensure this value has no more than {maxWire} byte in wire format (it has {length})."

end RecordFlaw

end ZoneKeeper
