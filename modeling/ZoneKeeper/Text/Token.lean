import ZoneKeeper.Text.Escape

namespace ZoneKeeper

structure Token where
  bytes : Octets
  raw : Octets
  quoted : Bool
  deriving DecidableEq, Repr

inductive TokenFlaw where
  | unbalanced
  | escape (flaw : EscapeFlaw)
  deriving DecidableEq, Repr

def TokenFlaw.message : TokenFlaw → String
  | .unbalanced => "unbalanced quotes"
  | .escape flaw => flaw.message

namespace Token

def text (t : Token) : Octets := t.bytes.repair

inductive Mode where
  | between
  | within (quoted : Bool) (seen : List Glyph)

def ofSeen (quoted : Bool) (seen : List Glyph) : Token :=
  ⟨seen.reverse.flatMap Glyph.value, seen.reverse.flatMap Glyph.source, quoted⟩

def scan : Mode → List Glyph → Except TokenFlaw (List Token)
  | .between, [] => .ok []
  | .within true _, [] => .error .unbalanced
  | .within false seen, [] => .ok [ofSeen false seen]
  | _, .broken flaw :: _ => .error (.escape flaw)
  | .between, .plain b :: rest =>
      if Octet.isBlank b then scan .between rest
      else if b == Octet.quote then scan (.within true []) rest
      else scan (.within false [.plain b]) rest
  | .between, glyph :: rest => scan (.within false [glyph]) rest
  | .within true seen, .plain b :: rest =>
      if b == Octet.quote then (scan .between rest).map (ofSeen true seen :: ·)
      else scan (.within true (.plain b :: seen)) rest
  | .within false seen, .plain b :: rest =>
      if Octet.isBlank b then (scan .between rest).map (ofSeen false seen :: ·)
      else if b == Octet.quote then (scan (.within true []) rest).map (ofSeen false seen :: ·)
      else scan (.within false (.plain b :: seen)) rest
  | .within quoted seen, glyph :: rest => scan (.within quoted (glyph :: seen)) rest

def read (content : Octets) : Except TokenFlaw (List Token) :=
  scan .between (Glyph.read content)

end Token

def Octet.quoted (b : UInt8) : Octets :=
  if b == quote || b == backslash then [backslash, b]
  else if 0x20 ≤ b && b ≤ 0x7e then [b]
  else backslash :: threeDigits b

def Octets.quoted (t : Octets) : Octets :=
  Octet.quote :: t.flatMap Octet.quoted ++ [Octet.quote]

end ZoneKeeper
