import ZoneKeeper.Json.Printer
import ZoneKeeper.Json.Lexeme
import ZoneKeeper.Proofs.Text.Numeral

namespace ZoneKeeper.Json

variable {c : Char} {seen text rest chars : List Char} {lexemes lexemes' : List Lexeme}

theorem scan_cons {mode mode' : ScanMode} (h : mode.feed c = some (lexemes, mode')) :
    scan mode (c :: rest) = (scan mode' rest).map (lexemes ++ ·) := by
  simp only [scan, h, Option.bind_eq_bind, Option.bind_some]
  cases scan mode' rest <;> rfl

theorem scan_cons_nil {mode mode' : ScanMode} (h : mode.feed c = some ([], mode')) :
    scan mode (c :: rest) = scan mode' rest := by
  rw [scan_cons h]
  exact Option.map_id'

def Ends (rest : List Char) : Prop := ∀ c ∈ rest.head?, isNumberPart c = false ∧ c.isAlpha = false

theorem scan_number_of_ends (h : Ends rest) :
    scan (.number seen) rest = (scan .between rest).map (.number seen.reverse :: ·) := by
  cases rest with
  | nil => rfl
  | cons c rest =>
      have hc := (h c rfl).1
      simp only [scan, ScanMode.feed, hc]
      cases enter c with
      | none => rfl
      | some next => cases hnext : scan next.2 rest <;> simp [hnext]

theorem scan_word_of_ends (h : Ends rest) :
    scan (.word seen) rest = (scan .between rest).map (.word seen.reverse :: ·) := by
  cases rest with
  | nil => rfl
  | cons c rest =>
      have hc := (h c rfl).2
      simp only [scan, ScanMode.feed, hc]
      cases enter c with
      | none => rfl
      | some next => cases hnext : scan next.2 rest <;> simp [hnext]

def Lexes (text : List Char) (lexemes : List Lexeme) : Prop :=
  ∀ rest, Ends rest → scan .between (text ++ rest) = (scan .between rest).map (lexemes ++ ·)

theorem lexes_nil : Lexes [] [] := fun _ _ => Option.map_id'.symm

theorem Lexes.append (h : Lexes text lexemes) (hchars : Lexes (c :: chars) lexemes')
    (hends : Ends [c]) : Lexes (text ++ c :: chars) (lexemes ++ lexemes') := by
  intro rest hrest
  rw [List.append_assoc, h (c :: chars ++ rest) hends, hchars rest hrest, Option.map_map]
  congr 1
  funext l
  exact (List.append_assoc ..).symm

theorem Lexes.cons (h : Lexes text lexemes') (lexemes : List Lexeme)
    (hc : enter c = some (lexemes, .between)) :
    Lexes (c :: text) (lexemes ++ lexemes') := by
  intro rest hrest
  have hfeed : ScanMode.feed c .between = some (lexemes, .between) := hc
  rw [List.cons_append, scan_cons hfeed, h rest hrest, Option.map_map]
  congr 1
  funext l
  exact (List.append_assoc ..).symm

theorem Lexes.blank (h : Lexes text lexemes) (hc : isBlank c = true) :
    Lexes (c :: text) lexemes :=
  h.cons [] (by rw [enter, if_pos hc])

theorem Lexes.newLine (h : Lexes text lexemes) (level : Nat) :
    Lexes (newLine level ++ text) lexemes := by
  have hblanks (n : Nat) : Lexes (List.replicate n ' ' ++ text) lexemes := by
    induction n with
    | zero => exact h
    | succ n ih => exact ih.blank rfl
  exact (hblanks _).blank rfl

theorem hexValue?_hexChar {n : Nat} (h : n < 16) : hexValue? (hexChar n) = some n :=
  forall_lt_of_fin (P := fun n => hexValue? (hexChar n) = some n) (by decide) h

theorem scan_escapeChar (c : Char) (seen rest : List Char) :
    scan (.string seen) (escapeChar c ++ rest) = scan (.string (c :: seen)) rest := by
  unfold escapeChar
  split
  iterate 7
    · exact (scan_cons_nil rfl).trans (scan_cons_nil rfl)
  next hquote hbackslash _ _ _ _ _ =>
  split
  · next hsmall =>
      have hhigh := hexValue?_hexChar (show c.toNat / 16 < 16 by omega)
      have hlow := hexValue?_hexChar (show c.toNat % 16 < 16 by omega)
      have hvalue : (c.toNat / 16) * 16 + c.toNat % 16 = c.toNat := Nat.div_add_mod' ..
      have hunit : afterUnit seen none c.toNat = some (.string (c :: seen)) := by
        have htrail : isTrail c.toNat = false := by simp [isTrail]; omega
        have hlead : isLead c.toNat = false := by simp [isLead]; omega
        rw [afterUnit, htrail, hlead, Char.ofNat_toNat]
        rfl
      have hthird : ScanMode.feed (hexChar (c.toNat / 16)) (.unit seen none 2 0)
          = some ([], .unit seen none 3 (c.toNat / 16)) := by
        simp [ScanMode.feed, hhigh]
      have hfourth : ScanMode.feed (hexChar (c.toNat % 16)) (.unit seen none 3 (c.toNat / 16))
          = some ([], .string (c :: seen)) := by
        simp [ScanMode.feed, hlow, hvalue, hunit]
      refine (scan_cons_nil rfl).trans <| (scan_cons_nil rfl).trans <| (scan_cons_nil rfl).trans <|
        (scan_cons_nil rfl).trans <| (scan_cons_nil hthird).trans (scan_cons_nil hfourth)
  · next hlarge =>
      refine scan_cons_nil ?_
      simp only [ScanMode.feed, beq_iff_eq]
      rw [if_neg hquote, if_neg hbackslash, if_neg hlarge]

theorem lexes_quoted (s : String) : Lexes (quoted s) [.string s] := by
  intro rest hrest
  have hbody (chars seen : List Char) :
      scan (.string seen) (chars.flatMap escapeChar ++ '"' :: rest)
        = (scan .between rest).map (.string (String.ofList (seen.reverse ++ chars)) :: ·) := by
    induction chars generalizing seen with
    | nil =>
        have hend : ScanMode.feed '"' (.string seen)
            = some ([.string (String.ofList seen.reverse)], .between) := rfl
        rw [List.append_nil]
        exact scan_cons hend
    | cons c chars ih =>
        rw [List.flatMap_cons, List.append_assoc, scan_escapeChar, ih, List.reverse_cons,
          List.append_assoc]
        rfl
  have hstart : ScanMode.feed '"' .between = some ([], .string []) := rfl
  have hscan := hbody s.toList []
  rw [List.reverse_nil, List.nil_append, String.ofList_toList] at hscan
  rw [quoted, List.cons_append, List.cons_append, scan_cons_nil hstart, List.append_assoc]
  exact hscan

theorem enter_of_isDigit (h : c.isDigit = true) : enter c = some ([], .number [c]) := by
  have hne (d : Char) (hd : d.isDigit = false) : c ≠ d := by
    rintro rfl
    exact Bool.false_ne_true (hd.symm.trans h)
  have hblank : isBlank c = false := by
    simp [isBlank, hne]
  have hsign : punctuation? c = none := by
    unfold punctuation?
    split <;> first | rfl | exact absurd h (by decide)
  have hnumber : (isNumberPart c && c != 'e' && c != 'E') = true := by
    simp [isNumberPart, h, hne]
  simp [enter, hblank, hsign, hne, hnumber]

theorem lexes_number {digits : List Char} (hne : digits ≠ [])
    (hdigits : ∀ c ∈ digits, c.isDigit = true) : Lexes digits [.number digits] := by
  intro rest hrest
  obtain ⟨c, more, rfl⟩ := List.exists_cons_of_ne_nil hne
  have hmore (seen : List Char) (more : List Char) (h : ∀ c ∈ more, c.isDigit = true) :
      scan (.number seen) (more ++ rest)
        = (scan .between rest).map (.number (seen.reverse ++ more) :: ·) := by
    induction more generalizing seen with
    | nil => rw [List.append_nil]; exact scan_number_of_ends hrest
    | cons c more ih =>
        have hc : ScanMode.feed c (.number seen) = some ([], .number (c :: seen)) := by
          simp [ScanMode.feed, isNumberPart, h c List.mem_cons_self]
        rw [List.cons_append, scan_cons_nil hc, ih _ fun d hd => h d (List.mem_cons_of_mem _ hd),
          List.reverse_cons, List.append_assoc]
        rfl
  have hstart : ScanMode.feed c .between = some ([], .number [c]) :=
    enter_of_isDigit (hdigits c List.mem_cons_self)
  rw [List.cons_append, scan_cons_nil hstart]
  exact hmore [c] more fun d hd => hdigits d (List.mem_cons_of_mem _ hd)

theorem lexes_word {more : List Char} (hc : enter c = some ([], .word [c]))
    (hmore : more.all Char.isAlpha = true) : Lexes (c :: more) [.word (c :: more)] := by
  intro rest hrest
  rw [List.all_eq_true] at hmore
  have hscan (seen : List Char) :
      scan (.word seen) (more ++ rest)
        = (scan .between rest).map (.word (seen.reverse ++ more) :: ·) := by
    induction more generalizing seen with
    | nil => rw [List.append_nil]; exact scan_word_of_ends hrest
    | cons d more ih =>
        have hd : ScanMode.feed d (.word seen) = some ([], .word (d :: seen)) := by
          simp [ScanMode.feed, hmore d List.mem_cons_self]
        rw [List.cons_append, scan_cons_nil hd,
          ih fun e he => hmore e (List.mem_cons_of_mem _ he), List.reverse_cons, List.append_assoc]
        rfl
  have hstart : ScanMode.feed c .between = some ([], .word [c]) := hc
  rw [List.cons_append, scan_cons_nil hstart]
  exact hscan [c]

end ZoneKeeper.Json
