import ZoneKeeper.Text.Utf8

namespace ZoneKeeper.Decimal

def ofDigits (t : Octets) : Nat := t.foldl (fun n b => 10 * n + Octet.digitValue b) 0

def read? (t : Octets) : Option Nat :=
  if t.isEmpty || !t.all Octet.isDigit then none else some (ofDigits t)

def readBits? (bits : Nat) (t : Octets) : Option Nat :=
  (read? t).filter (· < 1 <<< bits)

def write (n : Nat) : Octets := (Nat.toDigits 10 n).map Char.toUInt8

def writePadded (width n : Nat) : Octets :=
  let digits := write n
  List.replicate (width - digits.length) Octet.zero ++ digits

inductive Failure where
  | empty
  | invalidDigit
  | tooLarge
  deriving DecidableEq, Repr

def Failure.message : Failure → String
  | .empty => "cannot parse integer from empty string"
  | .invalidDigit => "invalid digit found in string"
  | .tooLarge => "number too large to fit in target type"

/--
Reads a number that may have one plus sign in front. A sign alone is an invalid digit; a digit that
is none counts before the size, unless the digits before it are too many already.
-/
def readSigned (bits : Nat) (t : Octets) : Except Failure Nat :=
  match t with
  | [] => .error .empty
  | b :: rest =>
      if b == 0x2b && !rest.isEmpty then go 0 rest else go 0 t
where
  go (n : Nat) : Octets → Except Failure Nat
    | [] => .ok n
    | b :: rest =>
        if Octet.isDigit b then
          let n := 10 * n + Octet.digitValue b
          if n < 1 <<< bits then go n rest else .error .tooLarge
        else .error .invalidDigit

end ZoneKeeper.Decimal
