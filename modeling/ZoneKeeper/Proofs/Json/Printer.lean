import Mathlib.Data.List.TakeWhile
import ZoneKeeper.Json.Parser
import ZoneKeeper.Proofs.Json.Lexeme

namespace ZoneKeeper

namespace Json

theorem isWhole_toDigits (n : Nat) : isWhole (Nat.toDigits 10 n) = true := by
  by_cases hn : n = 0
  · rw [hn]
    rfl
  · obtain ⟨c, rest, hdigits⟩ := List.exists_cons_of_ne_nil (Digits.toDigits_ne_nil n)
    have hall : (Nat.toDigits 10 n).all Char.isDigit = true :=
      List.all_eq_true.2 Digits.isDigit_of_mem_toDigits
    have hc : c ≠ '0' := by
      rintro rfl
      exact hn (Digits.head?_toDigits (by rw [hdigits]; rfl))
    rw [hdigits] at hall ⊢
    unfold isWhole
    split
    · next hnil => cases hnil
    · rfl
    · next hcons =>
        obtain ⟨rfl, rfl⟩ := List.cons.inj hcons
        rw [hall, Bool.and_true, bne_iff_ne]
        exact hc

theorem read?_of_isDigit {digits : List Char} (hdigits : ∀ c ∈ digits, c.isDigit = true)
    (hwhole : isWhole digits = true) : NumberText.read? digits = some ⟨false, digits, none, none⟩ := by
  have hall : digits.takeWhile Char.isDigit = digits := List.takeWhile_eq_self_iff.2 hdigits
  have hnone : digits.dropWhile Char.isDigit = [] := List.dropWhile_eq_nil_iff.2 hdigits
  rw [NumberText.read?]
  · simp only [hall, hwhole, hnone]
    rfl
  · rintro rest rfl
    exact absurd (hdigits '-' List.mem_cons_self) (by decide)

theorem readNumber?_toDigits {n : Nat} (h : n < UInt64.size) :
    readNumber? (Nat.toDigits 10 n) = some (.ofNat n) := by
  rw [readNumber?, read?_of_isDigit Digits.isDigit_of_mem_toDigits (isWhole_toDigits n)]
  simp [NumberText.value?, h, ofNat]

inductive Fits : Nat → Json → Prop
  | null {depth : Nat} : Fits depth .null
  | bool {depth : Nat} (b : Bool) : Fits depth (.bool b)
  | nat {depth : Nat} (n : Nat) (h : n < UInt64.size) : Fits depth (.ofNat n)
  | string {depth : Nat} (s : String) : Fits depth (.string s)
  | array {depth : Nat} (items : List Json) (h : ∀ item ∈ items, Fits depth item) :
      Fits (depth + 1) (.array items)
  | object {depth : Nat} (members : List (String × Json))
      (h : ∀ member ∈ members, Fits depth member.2) : Fits (depth + 1) (.object members)

theorem scalar_ofNat (n : Nat) : scalar (.ofNat n) = Nat.toDigits 10 n := by
  change (toString n).toList = _
  rw [Nat.toString_eq_repr, Nat.toList_repr]

namespace Machine

variable {m : Machine} {lexeme : Lexeme} {lexemes rest : List Lexeme} {stack : List Frame}

theorem run_cons {m' : Machine} (h : m.step lexeme = some m') :
    run m (lexeme :: rest) = run m' rest := by
  rw [run, h]
  rfl

end Machine

open Machine

def Denotes (depth : Nat) (text : List Char) (value : Json) : Prop :=
  ∃ first more, Lexes text (first :: more) ∧ first ≠ .closeArray ∧
    ∀ stack rest, stack.length + depth ≤ maxDepth →
      Machine.run ⟨stack, .value⟩ (first :: more ++ rest) = Machine.run (push value stack) rest

theorem denotes_of_enter {depth : Nat} {text : List Char} {value : Json} {lexeme : Lexeme}
    (hlexes : Lexes text [lexeme]) (hne : lexeme ≠ .closeArray)
    (h : ∀ stack, Machine.enter stack lexeme = some (push value stack)) : Denotes depth text value :=
  ⟨lexeme, [], hlexes, hne, fun stack _ _ => run_cons (h stack)⟩

theorem ends_of {c : Char} (hn : isNumberPart c = false) (ha : c.isAlpha = false) : Ends [c] := by
  intro d hd
  obtain rfl := Option.some.inj hd
  exact ⟨hn, ha⟩

theorem lexes_sign {c : Char} (lexeme : Lexeme) (hc : Json.enter c = some ([lexeme], .between)) :
    Lexes [c] [lexeme] :=
  lexes_nil.cons [lexeme] hc

theorem lexes_closing {c : Char} {lexeme : Lexeme} {text : List Char} {lexemes : List Lexeme}
    (h : Lexes text lexemes) (hc : Json.enter c = some ([lexeme], .between)) (level : Nat) :
    Lexes (text ++ newLine level ++ [c]) (lexemes ++ [lexeme]) := by
  rw [List.append_assoc]
  exact h.append ((lexes_sign lexeme hc).newLine level) (ends_of (by decide) (by decide))

theorem lexes_comma {text text' : List Char} {lexemes lexemes' : List Lexeme}
    (h : Lexes text lexemes) (h' : Lexes text' lexemes') :
    Lexes (text ++ ',' :: text') (lexemes ++ .comma :: lexemes') :=
  h.append (h'.cons [.comma] rfl) (ends_of (by decide) (by decide))

section Parts

variable {depth : Nat}

def DenotesItems (depth : Nat) (text : List Char) (items : List Json) : Prop :=
  ∃ first more, Lexes text (first :: more) ∧ first ≠ .closeArray ∧
    ∀ seen stack rest, stack.length + (depth + 1) ≤ maxDepth →
      Machine.run ⟨.array seen :: stack, .value⟩ (first :: more ++ .closeArray :: rest)
        = Machine.run (push (.array (seen.reverse ++ items)) stack) rest

def DenotesMembers (depth : Nat) (text : List Char) (members : List (String × Json)) : Prop :=
  ∃ name more, Lexes text (.string name :: more) ∧
    ∀ seen hole stack rest phase, phase = .first ∨ phase = .name →
      stack.length + (depth + 1) ≤ maxDepth →
      Machine.run ⟨.object seen hole :: stack, phase⟩ (.string name :: more ++ .closeObject :: rest)
        = Machine.run (push (.object (seen.reverse ++ members)) stack) rest

theorem denotesItems_prettyItems (level : Nat) {items : List Json} (hne : items ≠ [])
    (h : ∀ item ∈ items, Denotes depth (prettyChars level item) item) :
    DenotesItems depth (prettyItems level items) items := by
  -- The items before are with the machine; a comma goes with the item behind it.
  induction items with
  | nil => exact absurd rfl hne
  | cons item rest ih =>
      obtain ⟨first, more, hlexes, hfirst, hrun⟩ := h item List.mem_cons_self
      cases rest with
      | nil =>
          refine ⟨first, more, ?_, hfirst, fun seen stack rest hdepth => ?_⟩
          · rw [prettyItems]
            exact hlexes.newLine level
          · rw [hrun _ _ (by rw [List.length_cons]; omega), push, run_cons rfl, List.reverse_cons]
      | cons next rest =>
          obtain ⟨first', more', hlexes', -, hrun'⟩ := ih (List.cons_ne_nil _ _)
            fun other hother => h other (List.mem_cons_of_mem _ hother)
          refine ⟨first, more ++ .comma :: first' :: more', ?_, hfirst,
            fun seen stack tail hdepth => ?_⟩
          · have htext : prettyItems level (item :: next :: rest)
                = newLine level ++ (prettyChars level item ++ ',' :: prettyItems level (next :: rest)) := by
              rw [prettyItems, List.append_assoc]
              simp
            rw [htext]
            exact (lexes_comma hlexes hlexes').newLine level
          · have hcomma : first :: (more ++ .comma :: first' :: more') ++ .closeArray :: tail
                = first :: more ++ .comma :: (first' :: more' ++ .closeArray :: tail) := by
              simp
            rw [hcomma, hrun _ _ (by rw [List.length_cons]; omega), push, run_cons rfl,
              hrun' (item :: seen) stack tail hdepth, List.reverse_cons, List.append_assoc]
            rfl

theorem denotesMembers_prettyMembers (level : Nat) {members : List (String × Json)}
    (hne : members ≠ [])
    (h : ∀ member ∈ members, Denotes depth (prettyChars level member.2) member.2) :
    DenotesMembers depth (prettyMembers level members) members := by
  induction members with
  | nil => exact absurd rfl hne
  | cons member rest ih =>
      obtain ⟨name, value⟩ := member
      obtain ⟨first, more, hlexes, -, hrun⟩ := h (name, value) List.mem_cons_self
      have hmember : Lexes (quoted name ++ ':' :: ' ' :: prettyChars level value)
          (.string name :: .colon :: first :: more) :=
        (lexes_quoted name).append ((hlexes.blank rfl).cons [.colon] rfl)
          (ends_of (by decide) (by decide))
      have hstart (seen : List (String × Json)) (hole : String) (stack : List Frame)
          (tail : List Lexeme) (phase : Phase) (hphase : phase = .first ∨ phase = .name)
          (hdepth : stack.length + (depth + 1) ≤ maxDepth) :
          Machine.run ⟨.object seen hole :: stack, phase⟩
              (.string name :: .colon :: (first :: more ++ tail))
            = Machine.run ⟨.object ((name, value) :: seen) name :: stack, .more⟩ tail := by
        have hname : Machine.step ⟨.object seen hole :: stack, phase⟩ (.string name)
            = some ⟨.object seen name :: stack, .colon⟩ := by
          rcases hphase with rfl | rfl <;> rfl
        rw [run_cons hname, run_cons rfl]
        exact hrun _ _ (by rw [List.length_cons]; omega)
      cases rest with
      | nil =>
          refine ⟨name, .colon :: first :: more, ?_, fun seen hole stack tail phase hphase hdepth => ?_⟩
          · rw [prettyMembers, List.append_assoc]
            exact hmember.newLine level
          · refine (hstart seen hole stack _ phase hphase hdepth).trans ?_
            rw [run_cons rfl, List.reverse_cons]
      | cons next rest =>
          obtain ⟨name', more', hlexes', hrun'⟩ := ih (List.cons_ne_nil _ _)
            fun other hother => h other (List.mem_cons_of_mem _ hother)
          refine ⟨name, .colon :: first :: more ++ .comma :: .string name' :: more', ?_,
            fun seen hole stack tail phase hphase hdepth => ?_⟩
          · have htext : prettyMembers level ((name, value) :: next :: rest)
                = newLine level ++ ((quoted name ++ ':' :: ' ' :: prettyChars level value)
                  ++ ',' :: prettyMembers level (next :: rest)) := by
              rw [prettyMembers]
              simp
              simp
            rw [htext]
            exact (lexes_comma hmember hlexes').newLine level
          · have hcomma : .string name :: (.colon :: first :: more ++ .comma :: .string name' :: more')
                  ++ .closeObject :: tail
                = .string name :: .colon :: (first :: more
                  ++ .comma :: (.string name' :: more' ++ .closeObject :: tail)) := by
              simp
            rw [hcomma, hstart seen hole stack _ phase hphase hdepth, run_cons rfl,
              hrun' _ _ stack tail .name (.inr rfl) hdepth, List.reverse_cons, List.append_assoc]
            rfl

end Parts

theorem step_item {stack : List Frame} {lexeme : Lexeme} (h : lexeme ≠ .closeArray) :
    Machine.step ⟨stack, .item⟩ lexeme = Machine.step ⟨stack, .value⟩ lexeme := by
  cases lexeme <;> first | rfl | exact absurd rfl h

theorem DenotesItems.array {depth : Nat} {text : List Char} {items : List Json}
    (h : DenotesItems depth text items) (level : Nat) :
    Denotes (depth + 1) ('[' :: text ++ newLine level ++ [']']) (.array items) := by
  obtain ⟨first, more, hlexes, hfirst, hrun⟩ := h
  refine ⟨.openArray, first :: more ++ [.closeArray],
    (lexes_closing hlexes rfl level).cons [.openArray] rfl, nofun,
    fun stack rest hdepth => ?_⟩
  have hopen : Machine.step ⟨stack, .value⟩ .openArray = some ⟨.array [] :: stack, .item⟩ :=
    if_pos (show stack.length < maxDepth by omega)
  have hitem : Machine.run ⟨.array [] :: stack, .item⟩ (first :: (more ++ .closeArray :: rest))
      = Machine.run ⟨.array [] :: stack, .value⟩ (first :: (more ++ .closeArray :: rest)) := by
    rw [Machine.run, step_item hfirst, Machine.run]
  rw [List.cons_append, run_cons hopen, List.append_assoc]
  exact hitem.trans (hrun [] stack rest hdepth)

theorem DenotesMembers.object {depth : Nat} {text : List Char} {members : List (String × Json)}
    (h : DenotesMembers depth text members) (level : Nat) :
    Denotes (depth + 1) ('\x7b' :: text ++ newLine level ++ ['\x7d']) (.object members) := by
  obtain ⟨name, more, hlexes, hrun⟩ := h
  refine ⟨.openObject, .string name :: more ++ [.closeObject],
    (lexes_closing hlexes rfl level).cons [.openObject] rfl, nofun,
    fun stack rest hdepth => ?_⟩
  have hopen : Machine.step ⟨stack, .value⟩ .openObject = some ⟨.object [] "" :: stack, .first⟩ :=
    if_pos (show stack.length < maxDepth by omega)
  rw [List.cons_append, run_cons hopen, List.append_assoc]
  exact hrun [] "" stack rest .first (.inl rfl) hdepth

theorem denotes_emptyArray (depth : Nat) : Denotes (depth + 1) ['[', ']'] (.array []) := by
  refine ⟨.openArray, [.closeArray], ?_, nofun, fun stack rest hdepth => ?_⟩
  · exact (lexes_sign .closeArray rfl).cons [.openArray] rfl
  · have hopen : Machine.step ⟨stack, .value⟩ .openArray = some ⟨.array [] :: stack, .item⟩ :=
      if_pos (show stack.length < maxDepth by omega)
    exact (run_cons hopen).trans (run_cons rfl)

theorem denotes_emptyObject (depth : Nat) :
    Denotes (depth + 1) ['\x7b', '\x7d'] (.object []) := by
  refine ⟨.openObject, [.closeObject], ?_, nofun, fun stack rest hdepth => ?_⟩
  · exact (lexes_sign .closeObject rfl).cons [.openObject] rfl
  · have hopen : Machine.step ⟨stack, .value⟩ .openObject
        = some ⟨.object [] "" :: stack, .first⟩ :=
      if_pos (show stack.length < maxDepth by omega)
    exact (run_cons hopen).trans (run_cons rfl)

theorem Fits.denotes {depth : Nat} {value : Json} (h : Fits depth value) (level : Nat) :
    Denotes depth (prettyChars level value) value := by
  induction h generalizing level with
  | null => exact denotes_of_enter (lexes_word rfl rfl) nofun fun _ => rfl
  | bool b =>
      cases b with
      | true => exact denotes_of_enter (lexes_word rfl rfl) nofun fun _ => rfl
      | false => exact denotes_of_enter (lexes_word rfl rfl) nofun fun _ => rfl
  | nat n hn =>
      have htext : prettyChars level (.ofNat n) = Nat.toDigits 10 n := scalar_ofNat n
      rw [htext]
      refine denotes_of_enter
        (lexes_number (Digits.toDigits_ne_nil n) Digits.isDigit_of_mem_toDigits) nofun fun stack => ?_
      rw [Machine.enter, readNumber?_toDigits hn]
      rfl
  | string s => exact denotes_of_enter (lexes_quoted s) nofun fun _ => rfl
  | array items h ih =>
      cases items with
      | nil => exact denotes_emptyArray _
      | cons item rest =>
          rw [prettyChars]
          exact (denotesItems_prettyItems (level + 1) (List.cons_ne_nil _ _)
            fun other hother => ih other hother (level + 1)).array level
  | object members h ih =>
      cases members with
      | nil => exact denotes_emptyObject _
      | cons member rest =>
          rw [prettyChars]
          exact (denotesMembers_prettyMembers (level + 1) (List.cons_ne_nil _ _)
            fun other hother => ih other hother (level + 1)).object level

theorem parse?_pretty {depth : Nat} {value : Json} (h : Fits depth value)
    (hdepth : depth ≤ maxDepth) : parse? (pretty value) = some value := by
  obtain ⟨first, more, hlexes, -, hrun⟩ := h.denotes 0
  have hscan : scan .between (pretty value).toList = some (first :: more) := by
    have := hlexes [] nofun
    simpa [pretty, scan, ScanMode.finish] using this
  have hdone := hrun [] [] (by simpa using hdepth)
  rw [List.append_nil] at hdone
  rw [parse?, hscan]
  simp only [Option.bind_eq_bind, Option.bind_some, hdone]
  rfl

end Json

end ZoneKeeper
