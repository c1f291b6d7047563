import ZoneKeeper.Text.Basic
import ZoneKeeper.Text.Decimal

namespace ZoneKeeper.Json

inductive Lexeme where
  | openArray
  | closeArray
  | openObject
  | closeObject
  | comma
  | colon
  | string (s : String)
  | number (text : List Char)
  | word (text : List Char)
  deriving DecidableEq, Repr

inductive ScanMode where
  | between
  | string (seen : List Char)
  | escape (seen : List Char)
  | unit (seen : List Char) (lead : Option Nat) (digits value : Nat)
  | trail (seen : List Char) (lead : Nat)
  | trailEscape (seen : List Char) (lead : Nat)
  | number (seen : List Char)
  | word (seen : List Char)
  deriving DecidableEq, Repr

def isBlank (c : Char) : Bool := c == ' ' || c == '\n' || c == '\r' || c == '\t'

def isNumberPart (c : Char) : Bool :=
  c.isDigit || c == '-' || c == '+' || c == '.' || c == 'e' || c == 'E'

def punctuation? (c : Char) : Option Lexeme :=
  match c with
  | '[' => some .openArray
  | ']' => some .closeArray
  | '\x7b' => some .openObject
  | '\x7d' => some .closeObject
  | ',' => some .comma
  | ':' => some .colon
  | _ => none

def shortEscape? (c : Char) : Option Char :=
  match c with
  | '"' => some '"'
  | '\\' => some '\\'
  | '/' => some '/'
  | 'b' => some '\x08'
  | 'f' => some '\x0c'
  | 'n' => some '\n'
  | 'r' => some '\r'
  | 't' => some '\t'
  | _ => none

def hexValue? (c : Char) : Option Nat := if c.toNat < 128 then Hex.digitValue? c.toUInt8 else none

def isLead (n : Nat) : Bool := 0xd800 ≤ n && n ≤ 0xdbff

def isTrail (n : Nat) : Bool := 0xdc00 ≤ n && n ≤ 0xdfff

def afterUnit (seen : List Char) (lead : Option Nat) (n : Nat) : Option ScanMode :=
  match lead with
  | none =>
      if isTrail n then none
      else if isLead n then some (.trail seen n)
      else some (.string (Char.ofNat n :: seen))
  | some l =>
      if isTrail n then
        some (.string (Char.ofNat ((l - 0xd800) * 1024 + (n - 0xdc00) + 0x10000) :: seen))
      else none

def enter (c : Char) : Option (List Lexeme × ScanMode) :=
  if isBlank c then some ([], .between)
  else match punctuation? c with
    | some lexeme => some ([lexeme], .between)
    | none =>
        if c == '"' then some ([], .string [])
        else if isNumberPart c && c != 'e' && c != 'E' then some ([], .number [c])
        else if c.isAlpha then some ([], .word [c])
        else none

def ScanMode.feed (c : Char) : ScanMode → Option (List Lexeme × ScanMode)
  | .between => enter c
  | .string seen =>
      if c == '"' then some ([.string (String.ofList seen.reverse)], .between)
      else if c == '\\' then some ([], .escape seen)
      else if c.toNat < 0x20 then none
      else some ([], .string (c :: seen))
  | .escape seen =>
      if c == 'u' then some ([], .unit seen none 0 0)
      else (shortEscape? c).map fun d => ([], .string (d :: seen))
  | .unit seen lead digits value =>
      match hexValue? c with
      | none => none
      | some d =>
          if digits == 3 then (afterUnit seen lead (value * 16 + d)).map fun mode => ([], mode)
          else some ([], .unit seen lead (digits + 1) (value * 16 + d))
  | .trail seen lead => if c == '\\' then some ([], .trailEscape seen lead) else none
  | .trailEscape seen lead => if c == 'u' then some ([], .unit seen (some lead) 0 0) else none
  | .number seen =>
      if isNumberPart c then some ([], .number (c :: seen))
      else (enter c).map fun (lexemes, mode) => (.number seen.reverse :: lexemes, mode)
  | .word seen =>
      if c.isAlpha then some ([], .word (c :: seen))
      else (enter c).map fun (lexemes, mode) => (.word seen.reverse :: lexemes, mode)

def ScanMode.finish : ScanMode → Option (List Lexeme)
  | .between => some []
  | .number seen => some [.number seen.reverse]
  | .word seen => some [.word seen.reverse]
  | _ => none

def scan : ScanMode → List Char → Option (List Lexeme)
  | mode, [] => mode.finish
  | mode, c :: rest => do
      let (lexemes, mode) ← mode.feed c
      return lexemes ++ (← scan mode rest)

end ZoneKeeper.Json
