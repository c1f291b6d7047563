import ZoneKeeper.Text.Decimal

namespace ZoneKeeper.RecordType

def automatic : List String := ["KEY", "NSEC", "NSEC3", "OPT", "RRSIG", "NSEC3PARAM", "SOA"]

def manageable : List String :=
  ["A", "AAAA", "AFSDB", "APL", "CAA", "CDNSKEY", "CDS", "CERT", "CNAME", "CSYNC", "DHCID", "DLV",
   "DNAME", "DNSKEY", "DS", "EUI48", "EUI64", "HINFO", "HTTPS", "KX", "L32", "L64", "LOC", "LP",
   "MINFO", "MR", "MX", "NAPTR", "NID", "NS", "OPENPGPKEY", "PTR", "RKEY", "RP", "SMIMEA", "SPF",
   "SRV", "SSHFP", "SVCB", "TLSA", "TXT", "URI"]

inductive Standing where
  | normal
  | automatic
  | unsupported
  deriving DecidableEq, Repr

def standing (type : String) : Standing :=
  if automatic.contains type then .automatic
  else if manageable.contains type then .normal
  else .unsupported

inductive Refusal where
  | automatic (type : String)
  | generic
  | unsupported (type : String)
  deriving DecidableEq, Repr

def Refusal.message : Refusal → String
  | .automatic type =>
      s!"You cannot tinker with the {type} RR set. It is managed automatically."
  | .generic => "Generic type format is not supported."
  | .unsupported type => s!"The {type} RR set type is currently unsupported."

def isGeneric (type : String) : Bool :=
  match Octets.strip? (octets "TYPE") (octets type) with
  | some number => !number.isEmpty && number.all Octet.isDigit
  | none => false

def refusal? (type : String) : Option Refusal :=
  match standing type with
  | .normal => none
  | .automatic => some (.automatic type)
  | .unsupported => if isGeneric type then some .generic else some (.unsupported type)

def hasSyntax (type : String) : Bool :=
  match octets type with
  | [] => false
  | first :: rest =>
      Octet.isUpper first && rest.all fun b => Octet.isUpper b || Octet.isDigit b

def syntaxMessage : String := "Type must be uppercase alphanumeric and start with a letter."

end ZoneKeeper.RecordType
