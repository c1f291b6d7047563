import ZoneKeeper.Json.Lexeme
import ZoneKeeper.Json.Number

namespace ZoneKeeper.Json

inductive Frame where
  | array (items : List Json)
  | object (members : List (String × Json)) (name : String)

inductive Phase where
  | value
  | item
  | first
  | name
  | colon
  | more
  | done (value : Json)

structure Machine where
  stack : List Frame
  phase : Phase

def maxDepth : Nat := 127

namespace Machine

def push (value : Json) : List Frame → Machine
  | [] => ⟨[], .done value⟩
  | .array items :: stack => ⟨.array (value :: items) :: stack, .more⟩
  | .object members name :: stack => ⟨.object ((name, value) :: members) name :: stack, .more⟩

def openFrame (frame : Frame) (phase : Phase) (stack : List Frame) : Option Machine :=
  if stack.length < maxDepth then some ⟨frame :: stack, phase⟩ else none

def enter (stack : List Frame) : Lexeme → Option Machine
  | .openArray => openFrame (.array []) .item stack
  | .openObject => openFrame (.object [] "") .first stack
  | .string s => some (push (.string s) stack)
  | .number text => (readNumber? text).map (push · stack)
  | .word text =>
      if text == ['n', 'u', 'l', 'l'] then some (push .null stack)
      else if text == ['t', 'r', 'u', 'e'] then some (push (.bool true) stack)
      else if text == ['f', 'a', 'l', 's', 'e'] then some (push (.bool false) stack)
      else none
  | _ => none

def close : List Frame → Option Machine
  | .array items :: stack => some (push (.array items.reverse) stack)
  | .object members _ :: stack => some (push (.object members.reverse) stack)
  | [] => none

def step (m : Machine) (lexeme : Lexeme) : Option Machine :=
  match m.phase, lexeme with
  | .value, lexeme => enter m.stack lexeme
  | .item, .closeArray => close m.stack
  | .item, lexeme => enter m.stack lexeme
  | .first, .closeObject => close m.stack
  | .first, .string name => named name
  | .name, .string name => named name
  | .colon, .colon => some ⟨m.stack, .value⟩
  | .more, .comma =>
      match m.stack with
      | .array _ :: _ => some ⟨m.stack, .value⟩
      | .object .. :: _ => some ⟨m.stack, .name⟩
      | [] => none
  | .more, .closeArray =>
      match m.stack with
      | .array _ :: _ => close m.stack
      | _ => none
  | .more, .closeObject =>
      match m.stack with
      | .object .. :: _ => close m.stack
      | _ => none
  | _, _ => none
where
  named (name : String) : Option Machine :=
    match m.stack with
    | .object members _ :: stack => some ⟨.object members name :: stack, .colon⟩
    | _ => none

def run (m : Machine) : List Lexeme → Option Machine
  | [] => some m
  | lexeme :: rest => do run (← m.step lexeme) rest

end Machine

def parse? (text : String) : Option Json := do
  let lexemes ← scan .between text.toList
  match (← Machine.run ⟨[], .value⟩ lexemes).phase with
  | .done value => some value
  | _ => none

end ZoneKeeper.Json
