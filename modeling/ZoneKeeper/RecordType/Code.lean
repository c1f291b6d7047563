import ZoneKeeper.Text.Decimal

namespace ZoneKeeper.RecordType

def codes : List (String × UInt16) :=
  [("A", 1), ("NS", 2), ("MD", 3), ("MF", 4), ("CNAME", 5), ("SOA", 6), ("MB", 7), ("MG", 8),
   ("MR", 9), ("NULL", 10), ("WKS", 11), ("PTR", 12), ("HINFO", 13), ("MINFO", 14), ("MX", 15),
   ("TXT", 16), ("RP", 17), ("AFSDB", 18), ("X25", 19), ("ISDN", 20), ("RT", 21), ("NSAP", 22),
   ("NSAP-PTR", 23), ("SIG", 24), ("KEY", 25), ("PX", 26), ("GPOS", 27), ("AAAA", 28),
   ("LOC", 29), ("NXT", 30), ("SRV", 33), ("NAPTR", 35), ("KX", 36), ("CERT", 37), ("A6", 38),
   ("DNAME", 39), ("OPT", 41), ("APL", 42), ("DS", 43), ("SSHFP", 44), ("IPSECKEY", 45),
   ("RRSIG", 46), ("NSEC", 47), ("DNSKEY", 48), ("DHCID", 49), ("NSEC3", 50), ("NSEC3PARAM", 51),
   ("TLSA", 52), ("SMIMEA", 53), ("HIP", 55), ("NINFO", 56), ("RKEY", 57), ("TALINK", 58),
   ("CDS", 59), ("CDNSKEY", 60), ("OPENPGPKEY", 61), ("CSYNC", 62), ("ZONEMD", 63), ("SVCB", 64),
   ("HTTPS", 65), ("SPF", 99), ("NID", 104), ("L32", 105), ("L64", 106), ("LP", 107),
   ("EUI48", 108), ("EUI64", 109), ("TKEY", 249), ("TSIG", 250), ("IXFR", 251), ("AXFR", 252),
   ("MAILB", 253), ("MAILA", 254), ("ANY", 255), ("URI", 256), ("CAA", 257), ("AVC", 258),
   ("AMTRELAY", 260), ("TA", 32768), ("DLV", 32769)]

def numbered? (word text : Octets) : Option UInt16 := do
  UInt16.ofNat (← Decimal.readBits? 16 (← Octets.strip? word text))

def code? (text : Octets) : Option UInt16 :=
  let upper := text.upper
  match codes.find? fun (word, _) => octets word == upper with
  | some (_, code) => some code
  | none => numbered? (octets "TYPE") upper

def word (code : UInt16) : Octets :=
  match codes.find? fun (_, n) => n == code with
  | some (word, _) => octets word
  | none => octets "TYPE" ++ Decimal.write code.toNat

end ZoneKeeper.RecordType
