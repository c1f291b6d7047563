import Mathlib.Data.List.Basic
import ZoneKeeper.Engine.Request
import ZoneKeeper.Proofs.Name.DomainName
import ZoneKeeper.Proofs.Text.Reader
import ZoneKeeper.Proofs.Zone.Name

namespace ZoneKeeper

theorem octets_inj {s t : String} (h : octets s = octets t) : s = t := by
  rw [← text_octets s, h, text_octets]

theorem toNat_of_mem_encodeChar {c : Char} {b : UInt8} (h : b ∈ String.utf8EncodeChar c)
    (hb : b < 0x80) : b.toNat = c.toNat := by
  have hlt : b.toNat < 128 := hb
  have hvalid : c.val.toNat < 0xd800 ∨ (0xdfff < c.val.toNat ∧ c.val.toNat < 0x110000) := c.valid
  rw [show c.toNat = c.val.toNat from rfl]
  simp only [String.utf8EncodeChar] at h
  generalize c.val.toNat = v at h hvalid
  split at h
  · obtain rfl := List.mem_singleton.1 h
    exact UInt8.toNat_ofNat_of_lt' (by simp [UInt8.size]; omega)
  -- All octets of a longer encoding have their high bit set.
  · exfalso
    split at h
    · simp at h
      rcases h with rfl | rfl <;> simp at hlt <;> omega
    · split at h
      · simp at h
        rcases h with rfl | rfl | rfl <;> simp at hlt <;> omega
      · simp at h
        rcases h with rfl | rfl | rfl | rfl <;> simp at hlt <;> omega

theorem exists_char_of_mem_octets {s : String} {b : UInt8} (h : b ∈ octets s) (hb : b < 0x80) :
    ∃ c ∈ s.toList, b.toNat = c.toNat := by
  rw [octets_eq] at h
  obtain ⟨c, hc, hmem⟩ := List.mem_flatMap.1 h
  exact ⟨c, hc, toNat_of_mem_encodeChar hmem hb⟩

theorem toLower_of_mem_normal {name : String} (h : normalizeDomain name = name) {c : Char}
    (hc : c ∈ name.toList) : c.toLower = c := by
  rw [← h, normalizeDomain, String.toList_ofList] at hc
  obtain ⟨d, -, rfl⟩ := List.mem_map.1 hc
  exact toLower_toLower d

theorem lower_octets_of_normal {name : String} (h : normalizeDomain name = name) :
    (octets name).lower = octets name := by
  refine (List.map_congr_left fun b hb => ?_).trans (List.map_id _)
  rw [Octet.toLower, if_neg, id]
  intro hupper
  simp only [Octet.isUpper, Bool.and_eq_true, decide_eq_true_eq, UInt8.le_iff_toNat_le] at hupper
  obtain ⟨hlow, hhigh⟩ := hupper
  have hlow : 65 ≤ b.toNat := hlow
  have hhigh : b.toNat ≤ 90 := hhigh
  obtain ⟨c, hc, hnat⟩ := exists_char_of_mem_octets hb
    (UInt8.lt_iff_toNat_lt.2 (show b.toNat < 128 by omega))
  have hfixed := congrArg Char.toNat (toLower_of_mem_normal h hc)
  rw [toNat_toLower (by omega)] at hfixed
  omega

def IsUnescaped (name : String) : Prop := '\\' ∉ name.toList

instance (name : String) : Decidable (IsUnescaped name) :=
  inferInstanceAs (Decidable ('\\' ∉ name.toList))

theorem IsUnescaped.backslash_notMem {name : String} (h : IsUnescaped name) :
    Octet.backslash ∉ octets name := by
  intro hmem
  obtain ⟨c, hc, hnat⟩ := exists_char_of_mem_octets hmem (by decide)
  obtain rfl : '\\' = c := Char.toNat_inj.1 hnat
  exact h hc

theorem Glyph.read_append_of_plain {s : Octets} (h : Octet.backslash ∉ s) (t : Octets) :
    Glyph.read (s ++ t) = s.map .plain ++ Glyph.read t := by
  have hexact : ∀ g ∈ s.map Glyph.plain, g.IsExact := by
    intro g hg
    obtain ⟨b, hb, rfl⟩ := List.mem_map.1 hg
    exact Glyph.isExact_plain fun heq => h (heq ▸ hb)
  have hread := Glyph.read_sources hexact t
  rwa [flatMap_source_plain] at hread

theorem Glyph.read_of_plain {t : Octets} (h : Octet.backslash ∉ t) :
    Glyph.read t = t.map .plain := by
  have hread := Glyph.read_append_of_plain h []
  rw [List.append_nil] at hread
  exact hread.trans (List.append_nil _)

theorem Glyph.length_le_of_read (t : Octets) (h : ∀ flaw, .broken flaw ∉ Glyph.read t) :
    t.length ≤ 4 * (Glyph.read t).length := by
  fun_induction Glyph.read t with
  | case1 => simp
  | case2 a rest _ ih =>
      have := ih fun flaw hmem => h flaw (List.mem_cons_of_mem _ hmem)
      simp only [List.length_cons]
      omega
  | case4 a _ b rest _ ih =>
      have := ih fun flaw hmem => h flaw (List.mem_cons_of_mem _ hmem)
      simp only [List.length_cons]
      omega
  | case5 a _ b _ c d rest _ n _ ih =>
      have := ih fun flaw hmem => h flaw (List.mem_cons_of_mem _ hmem)
      simp only [List.length_cons]
      omega
  | _ => exact absurd List.mem_cons_self (h _)

namespace DomainName

theorem eq_of_labelsOf_plain {seen t : Octets} {labels : List Octets}
    (h : labelsOf seen (t.map .plain) = .ok labels) :
    seen.reverse ++ t = labels.flatMap (· ++ [Octet.dot]) := by
  induction t generalizing seen labels with
  | nil =>
      rw [List.map_nil, labelsOf] at h
      split at h
      · next hseen =>
          obtain rfl := Except.ok.inj h
          simpa using hseen
      · cases h
  | cons b rest ih =>
      rw [List.map_cons, labelsOf] at h
      split at h
      · next hdot =>
          obtain rfl := beq_iff_eq.1 hdot
          split at h
          · cases h
          · split at h
            · cases h
            · obtain ⟨others, hothers, rfl⟩ := map_eq_ok.1 h
              simpa using ih hothers
      · simpa using ih h

theorem read_cases {text : Octets} {n : DomainName} (h : read text = .ok n) :
    (text = [Octet.dot] ∧ n.labels = []) ∨ labelsOf [] (Glyph.read text) = .ok n.labels := by
  unfold read at h
  split at h
  · cases h
  · split at h
    · next hdot =>
        obtain rfl := Except.ok.inj h
        exact Or.inl ⟨beq_iff_eq.1 hdot, rfl⟩
    · obtain ⟨labels, hlabels, h⟩ := bind_eq_ok.1 h
      dsimp only at h
      split at h
      · cases h
      · obtain rfl := Except.ok.inj h
        exact Or.inr hlabels

theorem labelsOf_of_read {text : Octets} {n : DomainName} (h : read text = .ok n)
    (hroot : n.labels ≠ []) : labelsOf [] (Glyph.read text) = .ok n.labels :=
  (read_cases h).resolve_left fun hdot => hroot hdot.2

theorem eq_of_read_plain {text : Octets} {n : DomainName} (h : read text = .ok n)
    (hplain : Octet.backslash ∉ text) (hroot : n.labels ≠ []) :
    text = n.labels.flatMap (· ++ [Octet.dot]) := by
  have hlabels := labelsOf_of_read h hroot
  rw [Glyph.read_of_plain hplain] at hlabels
  exact eq_of_labelsOf_plain hlabels

theorem length_of_labelsOf {seen : Octets} {glyphs : List Glyph} {labels : List Octets}
    (h : labelsOf seen glyphs = .ok labels) : (∀ flaw, .broken flaw ∉ glyphs)
      ∧ seen.length + glyphs.length + 1 = wireLength ⟨labels⟩ := by
  fun_induction labelsOf seen glyphs generalizing labels with
  | case1 seen hseen =>
      obtain rfl := Except.ok.inj h
      obtain rfl := List.isEmpty_iff.1 hseen
      exact ⟨by simp, rfl⟩
  | case4 seen b source rest ih =>
      obtain ⟨hwhole, hlength⟩ := ih h
      refine ⟨by simpa using hwhole, ?_⟩
      simp only [List.length_cons] at hlength ⊢
      omega
  | case7 seen b rest hdot hempty hlong ih =>
      cases hrest : labelsOf [] rest with
      | error flaw =>
          rw [hrest] at h
          cases h
      | ok others =>
          rw [hrest] at h
          obtain rfl := Except.ok.inj h
          obtain ⟨hwhole, hlength⟩ := ih hrest
          refine ⟨by simpa using hwhole, ?_⟩
          have hcons : wireLength ⟨seen.reverse :: others⟩
              = seen.length + 1 + wireLength ⟨others⟩ := by
            rw [wireLength, List.foldr_cons, List.length_reverse]
            rfl
          rw [hcons, ← hlength]
          simp only [List.length_cons, List.length_nil]
          omega
  | case8 seen b rest hdot ih =>
      obtain ⟨hwhole, hlength⟩ := ih h
      refine ⟨by simpa using hwhole, ?_⟩
      simp only [List.length_cons] at hlength ⊢
      omega
  | _ => cases h

theorem length_le_of_read {text : Octets} {n : DomainName} (h : read text = .ok n) :
    text.length ≤ 4 * maxWire := by
  have hlimit := (isValid_of_read h).length
  obtain ⟨rfl, -⟩ | hlabels := read_cases h
  · decide
  · obtain ⟨hwhole, hlength⟩ := length_of_labelsOf hlabels
    have := Glyph.length_le_of_read text hwhole
    change _ = n.wireLength at hlength
    simp only [List.length_nil] at hlength
    omega

theorem labels_ne_nil_of_isHostname {n : DomainName} (h : n.isHostname = true) : n.labels ≠ [] := by
  intro hnil
  rw [isHostname, hnil] at h
  cases h

theorem isHostLabel_lower (label : Octets) : isHostLabel label.lower = isHostLabel label := by
  have hsame (b : UInt8) : Octet.isAlphanumeric (Octet.toLower b) = Octet.isAlphanumeric b
      ∧ (Octet.toLower b == Octet.hyphen) = (b == Octet.hyphen) := by
    refine Octet.forall_of_fin (P := fun b =>
      Octet.isAlphanumeric (Octet.toLower b) = Octet.isAlphanumeric b
        ∧ (Octet.toLower b == Octet.hyphen) = (b == Octet.hyphen)) ?_ b
    decide +kernel
  simp only [isHostLabel, Octets.lower, List.all_map, List.head?_map, List.getLast?_map,
    Option.any_map, Function.comp_def, hsame]

theorem isHostname_lower (n : DomainName) : n.lower.isHostname = n.isHostname := by
  simp [isHostname, lower, Function.comp_def, isHostLabel_lower]

theorem writeLabel_of_isHostLabel {label : Octets} (h : isHostLabel label = true) :
    writeLabel label = label ++ [Octet.dot] := by
  have hwrite (b : UInt8) : (Octet.isAlphanumeric b || b == Octet.hyphen) = true →
      writeOctet b = [b] := by
    refine Octet.forall_of_fin (P := fun b =>
      (Octet.isAlphanumeric b || b == Octet.hyphen) = true → writeOctet b = [b]) ?_ b
    decide +kernel
  have hall : label.flatMap writeOctet = label.flatMap fun b => [b] :=
    List.flatMap_congr fun b hb => hwrite b (List.all_eq_true.1 (Bool.and_eq_true_iff.1
      (Bool.and_eq_true_iff.1 h).1).1 b hb)
  rw [writeLabel, hall, List.flatMap_singleton']

theorem write_of_isHostname {n : DomainName} (h : n.isHostname = true) :
    n.write = n.labels.flatMap (· ++ [Octet.dot]) := by
  simp only [isHostname, Bool.and_eq_true, Bool.not_eq_true', List.all_eq_true] at h
  rw [write, if_neg (by simp [h.1])]
  exact List.flatMap_congr fun label hlabel => writeLabel_of_isHostLabel (h.2 label hlabel)

end DomainName

def denoted? (name : String) : Option DomainName :=
  (DomainName.read (octets (name ++ "."))).toOption.map DomainName.lower

theorem exists_hostname_of_noError {name : String} (h : Request.nameError? name = none) :
    ∃ n, DomainName.read (octets (name ++ ".")) = .ok n ∧ n.isHostname = true := by
  unfold Request.nameError? at h
  split at h
  · cases h
  · next n hread =>
      split at h
      · cases h
      · next hhost =>
          simp only [Bool.or_eq_true, Bool.not_eq_true', not_or, Bool.not_eq_false] at hhost
          exact ⟨n, hread, hhost.2⟩

structure IsRegistrable (name : String) : Prop where
  isNormal : normalizeDomain name = name
  noError : Request.nameError? name = none

namespace IsRegistrable

variable {name : String}

theorem exists_read (h : IsRegistrable name) :
    ∃ n, DomainName.read (octets (name ++ ".")) = .ok n ∧ n.isHostname = true :=
  exists_hostname_of_noError h.noError

theorem isSome_denoted? (h : IsRegistrable name) : (denoted? name).isSome = true := by
  obtain ⟨n, hread, -⟩ := h.exists_read
  rw [denoted?, hread]
  rfl

theorem utf8ByteSize_le (h : IsRegistrable name) :
    (name ++ ".").utf8ByteSize ≤ 4 * DomainName.maxWire := by
  obtain ⟨n, hread, -⟩ := h.exists_read
  exact DomainName.length_le_of_read hread

theorem octets_eq_write (h : IsRegistrable name) (hplain : IsUnescaped name) :
    ∃ n, denoted? name = some n ∧ octets (name ++ ".") = n.write := by
  obtain ⟨n, hread, hhost⟩ := h.exists_read
  have hroot := DomainName.labels_ne_nil_of_isHostname hhost
  have hbackslash : Octet.backslash ∉ octets (name ++ ".") := by
    rw [octets_append, List.mem_append, not_or]
    exact ⟨hplain.backslash_notMem, by decide⟩
  have hlower : (octets (name ++ ".")).lower = octets (name ++ ".") := by
    rw [octets_append, Octets.lower, List.map_append, ← Octets.lower,
      lower_octets_of_normal h.isNormal]
    rfl
  refine ⟨n.lower, by rw [denoted?, hread]; rfl, ?_⟩
  calc octets (name ++ ".")
      = Octets.lower (n.labels.flatMap (· ++ [Octet.dot])) := by
        rw [← DomainName.eq_of_read_plain hread hbackslash hroot, hlower]
    _ = n.lower.labels.flatMap (· ++ [Octet.dot]) := by
        rw [Octets.lower, List.map_flatMap, DomainName.lower, List.flatMap_map]
        exact List.flatMap_congr fun label _ => List.map_append
    _ = n.lower.write := (DomainName.write_of_isHostname (n.isHostname_lower.trans hhost)).symm

theorem denoted?_inj {other : String} (h : IsRegistrable name) (h' : IsRegistrable other)
    (hplain : IsUnescaped name) (hplain' : IsUnescaped other) :
    denoted? name = denoted? other ↔ name = other := by
  refine ⟨fun hsame => ?_, fun hsame => hsame ▸ rfl⟩
  obtain ⟨n, hn, hwrite⟩ := h.octets_eq_write hplain
  obtain ⟨m, hm, hwrite'⟩ := h'.octets_eq_write hplain'
  obtain rfl : n = m := Option.some.inj (hn.symm.trans (hsame.trans hm))
  rw [octets_append] at hwrite hwrite'
  exact octets_inj (List.append_cancel_right (hwrite.trans hwrite'.symm))

end IsRegistrable

end ZoneKeeper
