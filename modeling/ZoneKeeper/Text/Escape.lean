import ZoneKeeper.Text.Decimal

namespace ZoneKeeper

inductive EscapeFlaw where
  | unfinished
  | outOfRange (digits : Octets)
  | stray
  deriving DecidableEq, Repr

def EscapeFlaw.message : EscapeFlaw → String
  | .unfinished => "unexpected end of input"
  | .outOfRange digits => "invalid escape \\" ++ digits.text
  | .stray => "bad escape sequence"

inductive Glyph where
  | plain (b : UInt8)
  | escaped (b : UInt8) (source : Octets)
  | broken (flaw : EscapeFlaw)
  deriving DecidableEq, Repr

namespace Glyph

def value : Glyph → Octets
  | .plain b => [b]
  | .escaped b _ => [b]
  | .broken _ => []

def source : Glyph → Octets
  | .plain b => [b]
  | .escaped _ source => source
  | .broken _ => []

def read : Octets → List Glyph
  | [] => []
  | a :: rest =>
      if a != Octet.backslash then .plain a :: read rest
      else match rest with
        | [] => [.broken .unfinished]
        | b :: rest =>
            if !Octet.isDigit b then .escaped b [a, b] :: read rest
            else match rest with
              | c :: d :: rest =>
                  if Octet.isDigit c && Octet.isDigit d then
                    let n := Decimal.ofDigits [b, c, d]
                    if n < 256 then .escaped (UInt8.ofNat n) [a, b, c, d] :: read rest
                    else [.broken (.outOfRange [b, c, d])]
                  else [.broken .stray]
              | _ => [.broken .stray]

end Glyph

end ZoneKeeper
