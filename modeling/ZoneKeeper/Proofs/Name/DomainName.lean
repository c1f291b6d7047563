import ZoneKeeper.Name.DomainName
import ZoneKeeper.Proofs.Text.Token

namespace ZoneKeeper

theorem Octet.toLower_toLower (b : UInt8) : toLower (toLower b) = toLower b := by
  refine forall_of_fin (P := fun b => toLower (toLower b) = toLower b) ?_ b
  decide +kernel

theorem Octets.lower_lower (t : Octets) : t.lower.lower = t.lower := by
  simp [lower, Octet.toLower_toLower]

namespace DomainName

structure IsValid (n : DomainName) : Prop where
  label : ∀ l ∈ n.labels, l ≠ [] ∧ l.length ≤ maxLabel
  length : n.wireLength ≤ maxWire

theorem valid_of_labelsOf {glyphs : List Glyph} {seen : Octets} {labels : List Octets}
    (h : labelsOf seen glyphs = .ok labels) : ∀ l ∈ labels, l ≠ [] ∧ l.length ≤ maxLabel := by
  fun_induction labelsOf seen glyphs generalizing labels with
  | case1 seen hseen =>
      obtain rfl := Except.ok.inj h
      simp
  | case2 seen hseen => cases h
  | case3 => cases h
  | case4 seen b source rest ih => exact ih h
  | case5 => cases h
  | case6 => cases h
  | case7 seen b rest hdot hempty hlong ih =>
      cases hrest : labelsOf [] rest with
      | error flaw =>
          rw [hrest] at h
          cases h
      | ok others =>
          rw [hrest] at h
          obtain rfl := Except.ok.inj h
          intro l hl
          rcases List.mem_cons.1 hl with rfl | hl
          · exact ⟨by simpa using hempty, by simpa using hlong⟩
          · exact ih hrest l hl
  | case8 seen b rest hdot ih => exact ih h

theorem isValid_of_read {text : Octets} {n : DomainName} (h : read text = .ok n) : n.IsValid := by
  unfold read at h
  split at h
  · cases h
  · split at h
    · obtain rfl := Except.ok.inj h
      exact ⟨by simp, by decide⟩
    · cases hlabels : labelsOf [] (Glyph.read text) with
      | error flaw =>
          rw [hlabels] at h
          cases h
      | ok labels =>
          rw [hlabels] at h
          change (if wireLength ⟨labels⟩ > maxWire then _ else _) = _ at h
          split at h
          · cases h
          · next hlength =>
              obtain rfl := Except.ok.inj h
              exact ⟨valid_of_labelsOf hlabels, Nat.le_of_not_gt hlength⟩

theorem wireLength_lower (n : DomainName) : n.lower.wireLength = n.wireLength := by
  rw [wireLength, wireLength, lower, List.foldr_map]
  simp [Octets.lower]

theorem IsValid.lower {n : DomainName} (h : n.IsValid) : n.lower.IsValid := by
  refine ⟨List.forall_mem_map.2 fun label hlabel => ?_, n.wireLength_lower ▸ h.length⟩
  simpa [Octets.lower] using h.label label hlabel

theorem lower_lower (n : DomainName) : n.lower.lower = n.lower := by
  simp [lower, Octets.lower_lower]

def octetGlyph (b : UInt8) : Glyph :=
  if isSpecial b then .escaped b [Octet.backslash, b]
  else if 0x21 ≤ b && b ≤ 0x7e then .plain b
  else .escaped b (Octet.backslash :: Octet.threeDigits b)

theorem source_octetGlyph (b : UInt8) : (octetGlyph b).source = writeOctet b := by
  unfold octetGlyph writeOctet
  split
  · rfl
  · split <;> rfl

theorem isExact_octetGlyph (b : UInt8) : (octetGlyph b).IsExact := by
  unfold octetGlyph
  split
  · next h =>
      refine Glyph.isExact_escaped ?_
      exact Octet.forall_of_fin (P := fun b => isSpecial b = true → Octet.isDigit b = false)
        (by decide +kernel) b h
  · next h =>
      split
      · refine Glyph.isExact_plain ?_
        rintro rfl
        exact h rfl
      · exact Glyph.isExact_numbered b

theorem continues_octetGlyph (b : UInt8) : (octetGlyph b).continues false = true := by
  refine Octet.forall_of_fin (P := fun b => (octetGlyph b).continues false = true) ?_ b
  decide +kernel

theorem labelsOf_octetGlyph (seen : Octets) (b : UInt8) (rest : List Glyph) :
    labelsOf seen (octetGlyph b :: rest) = labelsOf (b :: seen) rest := by
  unfold octetGlyph
  split
  · rfl
  · next h =>
      split
      · rw [labelsOf, if_neg]
        rintro hdot
        exact h (by rw [beq_iff_eq.1 hdot]; rfl)
      · rfl

theorem labelsOf_label (seen label : Octets) (rest : List Glyph) :
    labelsOf seen (label.map octetGlyph ++ rest) = labelsOf (label.reverse ++ seen) rest := by
  induction label generalizing seen with
  | nil => rfl
  | cons b label ih =>
      rw [List.map_cons, List.cons_append, labelsOf_octetGlyph, ih]
      simp

def glyphs (n : DomainName) : List Glyph :=
  if n.labels.isEmpty then [.plain Octet.dot]
  else n.labels.flatMap fun label => label.map octetGlyph ++ [.plain Octet.dot]

theorem isExact_of_mem_glyphs {n : DomainName} :
    ∀ g ∈ n.glyphs, g.IsExact ∧ g.continues false = true := by
  have hdot : Glyph.IsExact (.plain Octet.dot) := Glyph.isExact_plain (by decide)
  intro g hg
  unfold glyphs at hg
  split at hg
  · obtain rfl := List.mem_singleton.1 hg
    exact ⟨hdot, rfl⟩
  · obtain ⟨label, -, hg⟩ := List.mem_flatMap.1 hg
    rcases List.mem_append.1 hg with hg | hg
    · obtain ⟨b, -, rfl⟩ := List.mem_map.1 hg
      exact ⟨isExact_octetGlyph b, continues_octetGlyph b⟩
    · obtain rfl := List.mem_singleton.1 hg
      exact ⟨hdot, rfl⟩

theorem flatMap_source_glyphs (n : DomainName) : n.glyphs.flatMap Glyph.source = n.write := by
  unfold glyphs write
  split
  · rfl
  · rw [List.flatMap_assoc]
    congr 1
    funext label
    rw [List.flatMap_append, List.flatMap_map]
    simp only [source_octetGlyph]
    rfl

theorem labelsOf_labels {labels : List Octets} (h : ∀ l ∈ labels, l ≠ [] ∧ l.length ≤ maxLabel) :
    labelsOf [] (labels.flatMap fun label => label.map octetGlyph ++ [.plain Octet.dot])
      = .ok labels := by
  induction labels with
  | nil => rfl
  | cons label rest ih =>
      obtain ⟨hne, hlength⟩ := h label List.mem_cons_self
      rw [List.flatMap_cons, List.append_assoc, labelsOf_label, List.append_nil,
        List.singleton_append, labelsOf, if_pos (beq_self_eq_true _),
        if_neg (by simpa using hne), if_neg (by simpa using hlength),
        ih fun l hl => h l (List.mem_cons_of_mem _ hl), List.reverse_reverse]
      rfl

def token (n : DomainName) : Token := .ofSeen false n.glyphs.reverse

@[simp] theorem raw_token (n : DomainName) : n.token.raw = n.write := by
  rw [token, Token.ofSeen, List.reverse_reverse]
  exact n.flatMap_source_glyphs

theorem glyphs_ne_nil (n : DomainName) : n.glyphs ≠ [] := by
  unfold glyphs
  split
  · exact List.cons_ne_nil _ _
  · next h =>
      obtain ⟨label, rest, hlabels⟩ := List.exists_cons_of_ne_nil (by simpa using h)
      simp [hlabels]

theorem spells_token (n : DomainName) : Token.Spells [n.write] [n.token] := by
  rw [← n.flatMap_source_glyphs]
  refine Token.Spells.of_glyphs (fun g hg => (isExact_of_mem_glyphs g hg).1) fun rest hrest => ?_
  rw [Token.scan_run (fun g hg => (isExact_of_mem_glyphs g hg).2) n.glyphs_ne_nil hrest]
  rfl

theorem glyphs_write (n : DomainName) : Glyph.read n.write = n.glyphs := by
  have hread := Glyph.read_sources (fun g hg => (isExact_of_mem_glyphs (n := n) g hg).1) []
  rw [List.append_nil, flatMap_source_glyphs] at hread
  exact hread.trans (List.append_nil _)

theorem read_write {n : DomainName} (h : n.IsValid) : read n.write = .ok n := by
  have hglyphs := n.glyphs_write
  by_cases hroot : n.labels = []
  · obtain rfl : n = ⟨[]⟩ := congrArg DomainName.mk hroot
    rfl
  · have hlabels : labelsOf [] (Glyph.read n.write) = .ok n.labels := by
      rw [hglyphs, glyphs, if_neg (by simpa using hroot)]
      exact labelsOf_labels h.label
    have hne : n.write ≠ [] := by
      intro hnil
      rw [hnil] at hglyphs
      exact n.glyphs_ne_nil hglyphs.symm
    have hdot : n.write ≠ [Octet.dot] := by
      intro hdot
      rw [hdot] at hlabels
      cases hlabels
    rw [read, if_neg (by simpa using hne), if_neg (by simpa using hdot), hlabels]
    exact if_neg (Nat.not_lt.2 h.length)

theorem isAscii_writeOctet (b : UInt8) : (writeOctet b).isAscii = true := by
  refine Octet.forall_of_fin (P := fun b => (writeOctet b).isAscii = true) ?_ b
  decide +kernel

theorem isAscii_write (n : DomainName) : n.write.isAscii = true := by
  unfold write
  split
  · rfl
  · refine Octets.isAscii_flatMap fun label _ => ?_
    rw [writeLabel, Octets.isAscii_append]
    exact ⟨Octets.isAscii_flatMap fun b _ => isAscii_writeOctet b, rfl⟩

end DomainName

end ZoneKeeper
