import ZoneKeeper.Proofs.Text.Numeral
import ZoneKeeper.Proofs.Text.Utf8
import ZoneKeeper.Text.Token

namespace ZoneKeeper

theorem Octet.threeDigits_eq (b : UInt8) :
    Decimal.ofDigits (threeDigits b) = b.toNat ∧ (threeDigits b).all isDigit = true := by
  have hb := b.toNat_lt
  have h₁ : b.toNat / 100 < 10 := by omega
  have h₂ : b.toNat / 10 % 10 < 10 := Nat.mod_lt _ (by decide)
  have h₃ : b.toNat % 10 < 10 := Nat.mod_lt _ (by decide)
  constructor
  · simp only [threeDigits, Decimal.ofDigits, List.foldl_cons, List.foldl_nil,
      digitValue_ofDigit h₁, digitValue_ofDigit h₂, digitValue_ofDigit h₃]
    omega
  · simp [threeDigits, isDigit_ofDigit h₁, isDigit_ofDigit h₂, isDigit_ofDigit h₃]

namespace Glyph

def IsExact (g : Glyph) : Prop := ∀ rest, read (g.source ++ rest) = g :: read rest

theorem isExact_plain {b : UInt8} (h : b ≠ Octet.backslash) : IsExact (.plain b) := by
  intro rest
  rw [source, List.singleton_append, read.eq_def]
  exact if_pos (by simpa using h)

theorem isExact_escaped {b : UInt8} (h : Octet.isDigit b = false) :
    IsExact (.escaped b [Octet.backslash, b]) := by
  intro rest
  rw [source, List.cons_append, List.singleton_append, read.eq_def]
  simp [h]

theorem isExact_numbered (b : UInt8) :
    IsExact (.escaped b (Octet.backslash :: Octet.threeDigits b)) := by
  intro rest
  obtain ⟨hvalue, hdigits⟩ := Octet.threeDigits_eq b
  simp only [Octet.threeDigits, List.all_cons, List.all_nil, Bool.and_true, Bool.and_eq_true]
    at hvalue hdigits
  simp only [source, Octet.threeDigits, List.cons_append, List.nil_append, read, hdigits.1,
    hdigits.2.1, hdigits.2.2, hvalue, b.toNat_lt, UInt8.ofNat_toNat]
  rfl

theorem read_sources {glyphs : List Glyph} (h : ∀ g ∈ glyphs, g.IsExact) (rest : Octets) :
    read (glyphs.flatMap source ++ rest) = glyphs ++ read rest := by
  induction glyphs with
  | nil => rfl
  | cons g glyphs ih =>
      rw [List.flatMap_cons, List.append_assoc, h g List.mem_cons_self,
        ih fun g hg => h g (List.mem_cons_of_mem _ hg)]
      rfl

def continues (quoted : Bool) : Glyph → Bool
  | .plain b => b != Octet.quote && (quoted || !Octet.isBlank b)
  | .escaped .. => true
  | .broken _ => false

end Glyph

namespace Token

theorem scan_continues {quoted : Bool} {glyphs : List Glyph}
    (h : ∀ g ∈ glyphs, g.continues quoted = true) (seen rest : List Glyph) :
    scan (.within quoted seen) (glyphs ++ rest)
      = scan (.within quoted (glyphs.reverse ++ seen)) rest := by
  induction glyphs generalizing seen with
  | nil => rfl
  | cons g glyphs ih =>
      have hg := h g List.mem_cons_self
      have hstep : scan (.within quoted seen) (g :: (glyphs ++ rest))
          = scan (.within quoted (g :: seen)) (glyphs ++ rest) := by
        cases g with
        | plain b =>
            simp only [Glyph.continues, Bool.and_eq_true, bne_iff_ne] at hg
            cases quoted <;> simp_all [scan]
        | escaped b source => cases quoted <;> rfl
        | broken flaw => cases hg
      rw [List.cons_append, hstep, ih fun g hg => h g (List.mem_cons_of_mem _ hg)]
      simp

def Stops (rest : List Glyph) : Prop := ∀ seen,
  scan (.within false seen) rest = (scan .between rest).map (ofSeen false seen :: ·)

theorem stops_nil : Stops [] := fun _ => rfl

theorem stops_space (rest : List Glyph) : Stops (.plain Octet.space :: rest) := fun _ => rfl

theorem stops_quote (rest : List Glyph) : Stops (.plain Octet.quote :: rest) := fun _ => rfl

theorem scan_run {glyphs : List Glyph} (h : ∀ g ∈ glyphs, g.continues false = true)
    (hne : glyphs ≠ []) {rest : List Glyph} (hrest : Stops rest) :
    scan .between (glyphs ++ rest)
      = (scan .between rest).map (ofSeen false glyphs.reverse :: ·) := by
  have hstart : scan .between (glyphs ++ rest) = scan (.within false []) (glyphs ++ rest) := by
    cases glyphs with
    | nil => exact absurd rfl hne
    | cons g glyphs =>
        have hg := h g List.mem_cons_self
        cases g with
        | plain b =>
            simp only [Glyph.continues, Bool.and_eq_true, bne_iff_ne] at hg
            simp_all [scan]
        | escaped b source => rfl
        | broken flaw => cases hg
  rw [hstart, scan_continues h, List.append_nil, hrest]

theorem scan_quoted {glyphs : List Glyph} (h : ∀ g ∈ glyphs, g.continues true = true)
    (rest : List Glyph) :
    scan (.within true []) (glyphs ++ .plain Octet.quote :: rest)
      = (scan .between rest).map (ofSeen true glyphs.reverse :: ·) := by
  rw [scan_continues h, List.append_nil]
  rfl

def Spells (words : List Octets) (tokens : List Token) : Prop :=
  ∀ more, read (Octets.words (words ++ more)) = (read (Octets.words more)).map (tokens ++ ·)

namespace Spells

variable {words words' : List Octets} {tokens tokens' : List Token}

theorem nil : Spells [] [] := by
  intro more
  rw [List.nil_append]
  cases read (Octets.words more) <;> rfl

theorem append (h : Spells words tokens) (h' : Spells words' tokens') :
    Spells (words ++ words') (tokens ++ tokens') := by
  intro more
  rw [List.append_assoc, h, h']
  cases read (Octets.words more) with
  | error flaw => rfl
  | ok later => exact congrArg Except.ok (List.append_assoc ..).symm

theorem flatMap {α : Type} {items : List α} {f : α → List Octets} {g : α → List Token}
    (h : ∀ a ∈ items, Spells (f a) (g a)) : Spells (items.flatMap f) (items.flatMap g) := by
  induction items with
  | nil => exact nil
  | cons a rest ih =>
      exact (h a List.mem_cons_self).append (ih fun b hb => h b (List.mem_cons_of_mem _ hb))

theorem map {α : Type} {items : List α} {f : α → Octets} {g : α → Token}
    (h : ∀ a ∈ items, Spells [f a] [g a]) : Spells (items.map f) (items.map g) := by
  rw [List.map_eq_flatMap, List.map_eq_flatMap]
  exact flatMap h

theorem read (h : Spells words tokens) : Token.read (Octets.words words) = .ok tokens := by
  have := h []
  rw [List.append_nil] at this
  rw [this]
  exact congrArg Except.ok (List.append_nil tokens)

theorem of_glyphs {glyphs : List Glyph} (hexact : ∀ g ∈ glyphs, g.IsExact)
    (hscan : ∀ rest, Stops rest →
      scan .between (glyphs ++ rest) = (scan .between rest).map (tokens ++ ·)) :
    Spells [glyphs.flatMap Glyph.source] tokens := by
  intro more
  cases more with
  | nil =>
      change scan .between (Glyph.read (glyphs.flatMap Glyph.source ++ [])) = _
      rw [Glyph.read_sources hexact]
      exact hscan [] stops_nil
  | cons word more =>
      have hwords : Octets.words ([glyphs.flatMap Glyph.source] ++ word :: more)
          = glyphs.flatMap Glyph.source ++ Octet.space :: Octets.words (word :: more) := by
        rw [Octets.words, Octets.joinWith, List.singleton_append, List.intercalate_cons_cons]
        simp [Octets.words, Octets.joinWith]
      have hspace := Glyph.isExact_plain (b := Octet.space) (by decide)
        (Octets.words (word :: more))
      rw [Glyph.source, List.singleton_append] at hspace
      rw [hwords, Token.read, Glyph.read_sources hexact, hspace, hscan _ (stops_space _)]
      rfl

end Spells

def bare (t : Octets) : Token := ⟨t, t, false⟩

def inQuotes (t : Octets) : Token := ⟨t, t.flatMap Octet.quoted, true⟩

theorem text_bare {t : Octets} (h : t.isAscii = true) : (bare t).text = t :=
  Octets.repair_of_isAscii h

end Token

def Octet.isBare (b : UInt8) : Bool := !isBlank b && b != quote && b != backslash

theorem Octet.isBare_of_isGraphic {b : UInt8} : isGraphic b = true → isBare b = true := by
  refine forall_of_fin (P := fun b => isGraphic b = true → isBare b = true) ?_ b
  decide +kernel

def Octet.quotedGlyph (b : UInt8) : Glyph :=
  if b == quote || b == backslash then .escaped b [backslash, b]
  else if 0x20 ≤ b && b ≤ 0x7e then .plain b
  else .escaped b (backslash :: threeDigits b)

theorem Octets.isAscii_quoted (t : Octets) : t.quoted.isAscii = true := by
  have hquoted : ∀ b, (Octet.quoted b).isAscii = true := Octet.forall_of_fin (by decide +kernel)
  rw [quoted, isAscii_append, isAscii_cons]
  exact ⟨⟨by decide, isAscii_flatMap fun b _ => hquoted b⟩, rfl⟩

namespace Glyph

theorem source_quotedGlyph (b : UInt8) : (Octet.quotedGlyph b).source = Octet.quoted b := by
  unfold Octet.quotedGlyph Octet.quoted
  split
  · rfl
  · split <;> rfl

theorem value_quotedGlyph (b : UInt8) : (Octet.quotedGlyph b).value = [b] := by
  unfold Octet.quotedGlyph
  split
  · rfl
  · split <;> rfl

theorem isExact_quotedGlyph (b : UInt8) : (Octet.quotedGlyph b).IsExact := by
  unfold Octet.quotedGlyph
  split
  · next h =>
      refine isExact_escaped ?_
      simp only [Bool.or_eq_true, beq_iff_eq] at h
      rcases h with rfl | rfl <;> rfl
  · next h =>
      split
      · exact isExact_plain fun hb => h (by simp [hb])
      · exact isExact_numbered b

theorem continues_quotedGlyph (b : UInt8) : (Octet.quotedGlyph b).continues true = true := by
  unfold Octet.quotedGlyph
  split
  · rfl
  · split
    · simp_all [continues]
    · rfl

theorem flatMap_source_plain (t : Octets) : (t.map plain).flatMap source = t := by
  rw [List.flatMap_map]
  exact List.flatMap_singleton' t

theorem flatMap_value_plain (t : Octets) : (t.map plain).flatMap value = t := by
  rw [List.flatMap_map]
  exact List.flatMap_singleton' t

theorem flatMap_source_quoted (t : Octets) :
    (t.map Octet.quotedGlyph).flatMap source = t.flatMap Octet.quoted := by
  simp only [List.flatMap_map, source_quotedGlyph]

theorem flatMap_value_quoted (t : Octets) :
    (t.map Octet.quotedGlyph).flatMap value = t := by
  simp only [List.flatMap_map, value_quotedGlyph]
  exact List.flatMap_singleton' t

end Glyph

namespace Token

theorem ofSeen_plain (t : Octets) : ofSeen false (t.map Glyph.plain).reverse = bare t := by
  rw [ofSeen, List.reverse_reverse, Glyph.flatMap_value_plain, Glyph.flatMap_source_plain]
  rfl

theorem ofSeen_quoted (t : Octets) :
    ofSeen true (t.map Octet.quotedGlyph).reverse = inQuotes t := by
  rw [ofSeen, List.reverse_reverse, Glyph.flatMap_value_quoted, Glyph.flatMap_source_quoted]
  rfl

theorem exact_of_bare {t : Octets} (h : t.all Octet.isBare = true) :
    ∀ g ∈ t.map Glyph.plain, g.IsExact ∧ g.continues false = true := by
  refine List.forall_mem_map.2 fun b hb => ?_
  have hbare := List.all_eq_true.1 h b hb
  simp only [Octet.isBare, Bool.and_eq_true, bne_iff_ne] at hbare
  exact ⟨Glyph.isExact_plain hbare.2, by simp [Glyph.continues, hbare.1]⟩

theorem exact_quoted {t : Octets} :
    ∀ g ∈ t.map Octet.quotedGlyph, g.IsExact ∧ g.continues true = true :=
  List.forall_mem_map.2 fun b _ =>
    ⟨Glyph.isExact_quotedGlyph b, Glyph.continues_quotedGlyph b⟩

def between (t : Octets) : List Glyph :=
  .plain Octet.quote :: (t.map Octet.quotedGlyph ++ [.plain Octet.quote])

theorem flatMap_source_between (t : Octets) : (between t).flatMap Glyph.source = t.quoted := by
  rw [between, List.flatMap_cons, List.flatMap_append, Glyph.flatMap_source_quoted]
  rfl

theorem exact_between {t : Octets} : ∀ g ∈ between t, g.IsExact := by
  intro g hg
  have hquote : Glyph.IsExact (.plain Octet.quote) := Glyph.isExact_plain (by decide)
  simp only [between, List.mem_cons, List.mem_append, List.not_mem_nil, or_false] at hg
  rcases hg with rfl | hg | rfl
  · exact hquote
  · exact (exact_quoted g hg).1
  · exact hquote

theorem scan_between (t : Octets) (rest : List Glyph) :
    scan .between (between t ++ rest) = (scan .between rest).map (inQuotes t :: ·) := by
  have hscan := scan_quoted (fun g hg => (exact_quoted (t := t) g hg).2) rest
  rw [ofSeen_quoted] at hscan
  rw [between, List.cons_append, List.append_assoc]
  exact hscan

theorem spells_bare {t : Octets} (h : t.all Octet.isBare = true) (hne : t ≠ []) :
    Spells [t] [bare t] := by
  have hspells : Spells [(t.map Glyph.plain).flatMap Glyph.source] [bare t] := by
    refine Spells.of_glyphs (fun g hg => (exact_of_bare h g hg).1) fun rest hrest => ?_
    rw [scan_run (fun g hg => (exact_of_bare h g hg).2) (by simpa using hne) hrest, ofSeen_plain]
    rfl
  rwa [Glyph.flatMap_source_plain] at hspells

theorem spells_graphic {t : Octets} (h : t.isGraphic = true) (hne : t ≠ []) :
    Spells [t] [bare t] :=
  spells_bare (List.all_eq_true.2 fun b hb =>
    Octet.isBare_of_isGraphic (Octets.isGraphic_iff.1 h b hb)) hne

theorem spells_quoted (t : Octets) : Spells [t.quoted] [inQuotes t] := by
  rw [← flatMap_source_between]
  refine Spells.of_glyphs exact_between fun rest _ => ?_
  rw [scan_between]
  rfl

theorem spells_bare_quoted {s : Octets} (h : s.all Octet.isBare = true) (hne : s ≠ [])
    (t : Octets) : Spells [s ++ t.quoted] [bare s, inQuotes t] := by
  have hspells : Spells [(s.map Glyph.plain ++ between t).flatMap Glyph.source]
      [bare s, inQuotes t] := by
    refine Spells.of_glyphs (fun g hg => ?_) fun rest _ => ?_
    · rcases List.mem_append.1 hg with hg | hg
      · exact (exact_of_bare h g hg).1
      · exact exact_between g hg
    · have hstops : Stops (between t ++ rest) := stops_quote _
      rw [List.append_assoc, scan_run (fun g hg => (exact_of_bare h g hg).2) (by simpa using hne)
        hstops, scan_between, ofSeen_plain]
      cases scan .between rest <;> rfl
  rwa [List.flatMap_append, Glyph.flatMap_source_plain, flatMap_source_between] at hspells

theorem read_quoted (ts : List Octets) :
    read (Octets.words (ts.map Octets.quoted)) = .ok (ts.map inQuotes) :=
  Spells.read (Spells.map fun t _ => spells_quoted t)

theorem quoting_is_undone :
    (∀ ts : List Octets, read (Octets.words (ts.map Octets.quoted))
        = .ok (ts.map fun t => ⟨t, t.flatMap Octet.quoted, true⟩))
      ∧ ∀ content tokens, read content = .ok tokens → ∃ again,
          read (Octets.words (tokens.map fun token => token.bytes.quoted)) = .ok again
            ∧ again.map bytes = tokens.map bytes := by
  refine ⟨read_quoted, fun content tokens _ => ?_⟩
  have hread := read_quoted (tokens.map bytes)
  rw [List.map_map] at hread
  refine ⟨_, hread, ?_⟩
  rw [List.map_map]
  exact List.map_id _

theorem empty_text_is_quoted_again : ∃ tokens,
    read (octets "a\\.b\"\" \"\\200 \\\"\" \\065") = .ok tokens
      ∧ tokens.map bytes = [octets "a.b", [], [200, Octet.space, Octet.quote], octets "A"]
      ∧ ∃ again, read (Octets.words (tokens.map fun token => token.bytes.quoted)) = .ok again
          ∧ again.map bytes = tokens.map bytes := by
  have hread : read (octets "a\\.b\"\" \"\\200 \\\"\" \\065")
      = .ok [⟨octets "a.b", octets "a\\.b", false⟩, ⟨[], [], true⟩,
          ⟨[200, Octet.space, Octet.quote], octets "\\200 \\\"", true⟩,
          ⟨octets "A", octets "\\065", false⟩] := by
    decide
  exact ⟨_, hread, rfl, quoting_is_undone.2 _ _ hread⟩

end Token

end ZoneKeeper
