import ZoneKeeper.Name.DomainName

namespace ZoneKeeper

inductive SubnameFlaw where
  | notAscii
  | tooLong
  | notLowercase (subname : String)
  | badSyntax
  | tooLongInDomain
  deriving DecidableEq, Repr

namespace Subname

def maxLength : Nat := 178

def isLabelOctet (b : UInt8) : Bool :=
  Octet.isLower b || Octet.isDigit b || b == Octet.underscore || b == Octet.hyphen

def isLabel (label : Octets) : Bool :=
  1 ≤ label.length && label.length ≤ DomainName.maxLabel && label.all isLabelOctet

def hasSyntax (subname : Octets) : Bool :=
  if subname == octets "*" then true
  else
    let rest := (Octets.strip? (octets "*.") subname).getD subname
    !rest.isEmpty && (rest.splitOn Octet.dot).all isLabel

def check (subname domain : String) : Except SubnameFlaw Unit :=
  let text := octets subname
  if !text.isAscii then .error .notAscii
  else if text.length > maxLength then .error .tooLong
  else if text != text.lower then .error (.notLowercase subname)
  else if !text.isEmpty && !hasSyntax text then .error .badSyntax
  else if !text.isEmpty && text.length + 1 + (octets domain).length + 2 > DomainName.maxWire then
    .error .tooLongInDomain
  else .ok ()

end Subname

def SubnameFlaw.message : SubnameFlaw → String
  | .notAscii =>
      "Subname must consist of ASCII characters only. Convert internationalized names to "
        ++ "punycode first."
  | .tooLong => s!"Ensure this field has no more than {Subname.maxLength} characters."
  | .notLowercase subname => s!"Invalid value (not lowercase): {subname}"
  | .badSyntax =>
      "Subname can only use (lowercase) a-z, 0-9, ., -, and _, may start with a '*.', or just be "
        ++ "'*'. Components may not exceed 63 characters."
  | .tooLongInDomain =>
      "This field combined with the domain name must not exceed 255 characters."

def ownerName (subname domain : String) : String :=
  if subname.isEmpty then domain ++ "." else subname ++ "." ++ domain ++ "."

end ZoneKeeper
