import ZoneKeeper.Text.Token

namespace ZoneKeeper

structure DomainName where
  labels : List Octets
  deriving DecidableEq, Repr

inductive NameFlaw where
  | escape (flaw : EscapeFlaw)
  | emptyLabel
  | longLabel
  | relative
  | tooLong
  deriving DecidableEq, Repr

def NameFlaw.message : NameFlaw → String
  | .escape flaw => "Cannot parse record contents: " ++ flaw.message
  | .emptyLabel => "Cannot parse record contents: A DNS label is empty."
  | .longLabel => "Cannot parse record contents: A DNS label is > 63 octets long."
  | .relative => "Hostname must be fully qualified (i.e., end in a dot: \"example.com.\")"
  | .tooLong => "Hostname must be no longer than 255 characters"

namespace DomainName

def maxLabel : Nat := 63

def maxWire : Nat := 255

def labelsOf (seen : Octets) : List Glyph → Except NameFlaw (List Octets)
  | [] => if seen.isEmpty then .ok [] else .error .relative
  | .broken flaw :: _ => .error (.escape flaw)
  | .escaped b _ :: rest => labelsOf (b :: seen) rest
  | .plain b :: rest =>
      if b == Octet.dot then
        if seen.isEmpty then .error .emptyLabel
        else if seen.length > maxLabel then .error .longLabel
        else (labelsOf [] rest).map (seen.reverse :: ·)
      else labelsOf (b :: seen) rest

def wireLength (n : DomainName) : Nat :=
  n.labels.foldr (fun label length => label.length + 1 + length) 1

def read (text : Octets) : Except NameFlaw DomainName :=
  if text.isEmpty then .error .relative
  else if text == [Octet.dot] then .ok ⟨[]⟩
  else do
    let name : DomainName := ⟨← labelsOf [] (Glyph.read text)⟩
    if name.wireLength > maxWire then .error .tooLong else .ok name

def isRoot (n : DomainName) : Bool := n.labels.isEmpty

def lower (n : DomainName) : DomainName := ⟨n.labels.map Octets.lower⟩

def isHostLabel (label : Octets) : Bool :=
  label.all (fun b => Octet.isAlphanumeric b || b == Octet.hyphen)
    && label.head?.any Octet.isAlphanumeric
    && label.getLast?.any Octet.isAlphanumeric

def isHostname (n : DomainName) : Bool := !n.labels.isEmpty && n.labels.all isHostLabel

def wire (n : DomainName) : Octets := n.labels.flatMap counted ++ [0]

def isSpecial (b : UInt8) : Bool :=
  b == Octet.dot || b == Octet.backslash || b == Octet.quote || b == 0x28 || b == 0x29
    || b == 0x3b || b == 0x40 || b == 0x24

def writeOctet (b : UInt8) : Octets :=
  if isSpecial b then [Octet.backslash, b]
  else if 0x21 ≤ b && b ≤ 0x7e then [b]
  else Octet.backslash :: Octet.threeDigits b

def writeLabel (label : Octets) : Octets := label.flatMap writeOctet ++ [Octet.dot]

def write (n : DomainName) : Octets :=
  if n.labels.isEmpty then [Octet.dot] else n.labels.flatMap writeLabel

end DomainName

end ZoneKeeper
