import ZoneKeeper.Text.Basic

namespace ZoneKeeper.Utf8

def replacement : Char := Char.ofNat 0xfffd

inductive State where
  | between
  | owing (value : Nat) (more : Nat) (low high : UInt8)
  deriving DecidableEq, Repr

def State.enter (b : UInt8) : List Char × State :=
  if b < 0x80 then ([Char.ofNat b.toNat], .between)
  else if b < 0xc2 then ([replacement], .between)
  else if b < 0xe0 then ([], .owing (b.toNat - 0xc0) 0 0x80 0xbf)
  else if b == 0xe0 then ([], .owing 0 1 0xa0 0xbf)
  else if b == 0xed then ([], .owing 0xd 1 0x80 0x9f)
  else if b < 0xf0 then ([], .owing (b.toNat - 0xe0) 1 0x80 0xbf)
  else if b == 0xf0 then ([], .owing 0 2 0x90 0xbf)
  else if b < 0xf4 then ([], .owing (b.toNat - 0xf0) 2 0x80 0xbf)
  else if b == 0xf4 then ([], .owing 4 2 0x80 0x8f)
  else ([replacement], .between)

def State.feed (b : UInt8) : State → List Char × State
  | .between => State.enter b
  | .owing value more low high =>
      if low ≤ b && b ≤ high then
        let value := value * 64 + (b.toNat - 0x80)
        match more with
        | 0 => ([Char.ofNat value], .between)
        | more + 1 => ([], .owing value more 0x80 0xbf)
      else
        let (chars, state) := State.enter b
        (replacement :: chars, state)

def decodeFrom : State → Octets → List Char
  | .between, [] => []
  | .owing .., [] => [replacement]
  | state, b :: rest =>
      let (chars, state) := state.feed b
      chars ++ decodeFrom state rest

def decode (t : Octets) : List Char := decodeFrom .between t

end ZoneKeeper.Utf8

namespace ZoneKeeper

def Octets.text (t : Octets) : String := String.ofList (Utf8.decode t)

def Octets.repair (t : Octets) : Octets :=
  if t.isAscii then t else octets t.text

end ZoneKeeper
