import ZoneKeeper.Name.Subname
import ZoneKeeper.Proofs.Text.Split
import ZoneKeeper.Proofs.Zone.Spelling

namespace ZoneKeeper

namespace Glyph

theorem length_read_le (t : Octets) : (read t).length ≤ t.length := by
  fun_induction read t with
  | case1 => simp
  | _ => simp only [List.length_cons, List.length_nil] at *; omega

end Glyph

namespace Octets

theorem joinWith_append_sep (sep : UInt8) {pieces : List Octets} (h : pieces ≠ []) :
    joinWith [sep] pieces ++ [sep] = pieces.flatMap (· ++ [sep]) := by
  induction pieces with
  | nil => exact absurd rfl h
  | cons piece rest ih =>
      cases rest with
      | nil => simp [joinWith]
      | cons next rest =>
          rw [joinWith, List.intercalate_cons_cons, List.append_assoc, List.flatMap_cons,
            ← ih (List.cons_ne_nil _ _), joinWith, List.append_assoc]

theorem eq_append_of_strip? {s t r : Octets} (h : strip? s t = some r) : t = s ++ r := by
  fun_induction strip? s t with
  | case1 t => exact Option.some.inj h
  | case2 => cases h
  | case3 a s b t hab ih => rw [beq_iff_eq.1 hab, ih h, List.cons_append]
  | case4 => cases h

end Octets

namespace DomainName

theorem labelsOf_plain {label : Octets} (hdot : Octet.dot ∉ label) (seen : Octets)
    (rest : List Glyph) :
    labelsOf seen (label.map .plain ++ rest) = labelsOf (label.reverse ++ seen) rest := by
  induction label generalizing seen with
  | nil => rfl
  | cons b label ih =>
      obtain ⟨hb, hlabel⟩ := not_or.1 (mt List.mem_cons.2 hdot)
      rw [List.map_cons, List.cons_append, labelsOf, if_neg (by simpa using Ne.symm hb), ih hlabel,
        List.reverse_cons, List.append_assoc, List.singleton_append]

structure IsPlainLabel (label : Octets) : Prop where
  ne_nil : label ≠ []
  length : label.length ≤ maxLabel
  dot : Octet.dot ∉ label
  backslash : Octet.backslash ∉ label

theorem labelsOf_append {labels : List Octets} (h : ∀ label ∈ labels, IsPlainLabel label)
    (rest : List Glyph) :
    labelsOf [] ((labels.flatMap (· ++ [Octet.dot])).map .plain ++ rest)
      = (labelsOf [] rest).map (labels ++ ·) := by
  induction labels with
  | nil => cases hrest : labelsOf [] rest <;> simp [hrest, Except.map]
  | cons label labels ih =>
      obtain ⟨hne, hlength, hdot, -⟩ := h label List.mem_cons_self
      have hrest := ih fun other hother => h other (List.mem_cons_of_mem _ hother)
      rw [List.flatMap_cons, List.append_assoc, List.map_append, List.append_assoc,
        labelsOf_plain hdot, List.singleton_append, List.map_cons, List.cons_append, labelsOf,
        if_pos (beq_self_eq_true _), if_neg (by simpa using hne), if_neg (by simpa using hlength),
        hrest, List.append_nil, List.reverse_reverse]
      cases labelsOf [] rest <;> rfl

theorem wireLength_append (labels others : List Octets) :
    wireLength ⟨labels ++ others⟩
      = (labels.flatMap (· ++ [Octet.dot])).length + wireLength ⟨others⟩ := by
  induction labels with
  | nil => simp
  | cons label labels ih =>
      rw [List.cons_append, wireLength, List.foldr_cons, ← wireLength, ih]
      simp only [List.flatMap_cons, List.length_append, List.length_singleton]
      omega

theorem read_of_labelsOf {text : Octets} {labels : List Octets}
    (h : labelsOf [] (Glyph.read text) = .ok labels) (hne : labels ≠ []) :
    read text = if wireLength ⟨labels⟩ > maxWire then .error .tooLong else .ok ⟨labels⟩ := by
  have htext : text ≠ [] := by
    rintro rfl
    exact hne (Except.ok.inj h).symm
  have hdot : text ≠ [Octet.dot] := by
    rintro rfl
    cases h
  rw [read, if_neg (by simpa using htext), if_neg (by simpa using hdot), h]
  rfl

end DomainName

theorem length_octets_of_isAscii {s : String} (h : (octets s).isAscii = true) :
    (octets s).length = s.length := by
  have hsize : ∀ c ∈ s.toList, (String.utf8EncodeChar c).length = 1 := by
    intro c hc
    obtain ⟨b, hb⟩ := List.exists_mem_of_ne_nil _
      (List.ne_nil_of_length_pos ((String.length_utf8EncodeChar c).symm ▸ c.utf8Size_pos))
    have hascii : b < 0x80 := by
      refine of_decide_eq_true (List.all_eq_true.1 h b ?_)
      rw [octets_eq]
      exact List.mem_flatMap.2 ⟨c, hc, hb⟩
    have hnat := toNat_of_mem_encodeChar hb hascii
    rw [String.length_utf8EncodeChar, Char.utf8Size_eq_one_iff, UInt32.le_iff_toNat_le]
    have hlt : b.toNat < 128 := hascii
    change c.toNat ≤ 127
    omega
  rw [octets_eq, List.length_flatMap, List.map_congr_left hsize, ← String.length_toList]
  simp

namespace Subname

def labels (subname : String) : List Octets :=
  if subname.isEmpty then [] else (octets subname).splitOn Octet.dot

theorem label_of_hasSyntax {t label : Octets} (h : hasSyntax t = true)
    (hlabel : label ∈ t.splitOn Octet.dot) : label = octets "*" ∨ isLabel label = true := by
  unfold hasSyntax at h
  split at h
  · next hstar =>
      obtain rfl := beq_iff_eq.1 hstar
      rw [Octets.splitOn_of_notMem (by decide)] at hlabel
      exact Or.inl (List.mem_singleton.1 hlabel)
  · cases hstrip : Octets.strip? (octets "*.") t with
    | none =>
        rw [hstrip, Option.getD_none] at h
        exact Or.inr (List.all_eq_true.1 (Bool.and_eq_true_iff.1 h).2 label hlabel)
    | some rest =>
        rw [hstrip, Option.getD_some] at h
        obtain rfl := Octets.eq_append_of_strip? hstrip
        rw [show octets "*." ++ rest = octets "*" ++ Octet.dot :: rest from rfl, Octets.splitOn,
          splitOn_append] at hlabel
        rcases List.mem_append.1 hlabel with hlabel | hlabel
        · exact Or.inl (List.mem_singleton.1 hlabel)
        · exact Or.inr (List.all_eq_true.1 (Bool.and_eq_true_iff.1 h).2 label hlabel)

theorem octet_of_label {label : Octets} (h : label = octets "*" ∨ isLabel label = true)
    {b : UInt8} (hb : b ∈ label) :
    b < 0x80 ∧ Octet.toLower b = b ∧ b ≠ Octet.dot ∧ b ≠ Octet.backslash := by
  rcases h with rfl | h
  · obtain rfl := List.mem_singleton.1 hb
    decide
  · have hoctet : isLabelOctet b = true :=
      List.all_eq_true.1 (Bool.and_eq_true_iff.1 h).2 b hb
    refine Octet.forall_of_fin (P := fun b => isLabelOctet b = true →
      b < 0x80 ∧ Octet.toLower b = b ∧ b ≠ Octet.dot ∧ b ≠ Octet.backslash) ?_ b hoctet
    decide +kernel

theorem isPlainLabel {label : Octets} (h : label = octets "*" ∨ isLabel label = true) :
    DomainName.IsPlainLabel label := by
  have hlength : 1 ≤ label.length ∧ label.length ≤ DomainName.maxLabel := by
    rcases h with rfl | h
    · decide
    · simpa using (Bool.and_eq_true_iff.1 h).1
  exact ⟨List.ne_nil_of_length_pos hlength.1, hlength.2,
    fun hdot => (octet_of_label h hdot).2.2.1 rfl,
    fun hbackslash => (octet_of_label h hbackslash).2.2.2 rfl⟩

theorem octet_of_hasSyntax {t : Octets} (h : hasSyntax t = true) {b : UInt8} (hb : b ∈ t) :
    b < 0x80 ∧ Octet.toLower b = b := by
  rw [← Octets.joinWith_splitOn Octet.dot t] at hb
  rcases Octets.mem_joinWith hb with rfl | ⟨label, hlabel, hb⟩
  · decide
  · obtain ⟨hascii, hlower, -⟩ := octet_of_label (label_of_hasSyntax h hlabel) hb
    exact ⟨hascii, hlower⟩

theorem isAscii_of_hasSyntax {t : Octets} (h : hasSyntax t = true) : t.isAscii = true :=
  List.all_eq_true.2 fun _ hb => decide_eq_true (octet_of_hasSyntax h hb).1

theorem lower_of_hasSyntax {t : Octets} (h : hasSyntax t = true) : t.lower = t :=
  (List.map_congr_left fun _ hb => (octet_of_hasSyntax h hb).2).trans (List.map_id _)

theorem octets_ne_nil {subname : String} (hne : subname.isEmpty = false) : octets subname ≠ [] := by
  intro hnil
  rw [octets_inj (hnil.trans (show [] = octets "" from rfl))] at hne
  cases hne

theorem flatMap_labels {subname : String} (hne : subname.isEmpty = false) :
    (labels subname).flatMap (· ++ [Octet.dot]) = octets subname ++ [Octet.dot] := by
  rw [labels, hne, if_neg Bool.false_ne_true,
    ← Octets.joinWith_append_sep _ (Octets.splitOn_ne_nil _ _), Octets.joinWith_splitOn]

theorem octets_ownerName (subname domain : String) :
    octets (ownerName subname domain)
      = (labels subname).flatMap (· ++ [Octet.dot]) ++ octets (domain ++ ".") := by
  cases hempty : subname.isEmpty with
  | true => simp [ownerName, labels, hempty]
  | false =>
      rw [ownerName, hempty, if_neg Bool.false_ne_true, flatMap_labels hempty]
      simp only [octets_append, List.append_assoc]
      rfl

theorem check_eq_ok_iff {subname : String} (hne : octets subname ≠ []) (domain : String) :
    check subname domain = .ok () ↔ (octets subname).length ≤ maxLength
      ∧ hasSyntax (octets subname) = true
      ∧ (octets subname).length + 1 + (octets domain).length + 2 ≤ DomainName.maxWire := by
  have hempty : (octets subname).isEmpty = false := by simpa using hne
  simp only [check, hempty, Bool.not_false, Bool.true_and]
  constructor
  · intro h
    split_ifs at h with hascii hlength hlower hwellFormed hfits
    exact ⟨Nat.le_of_not_gt hlength, by simpa using hwellFormed, by simpa using hfits⟩
  · rintro ⟨hlength, hwellFormed, hfits⟩
    rw [isAscii_of_hasSyntax hwellFormed, lower_of_hasSyntax hwellFormed, hwellFormed,
      if_neg (by decide), if_neg (Nat.not_lt.2 hlength), if_neg (by simp), if_neg (by decide),
      if_neg (by simpa using hfits)]

theorem read_ownerName {subname domain : String} {d : DomainName}
    (hd : DomainName.read (octets (domain ++ ".")) = .ok d) (hroot : d.labels ≠ [])
    (hwellFormed : subname.isEmpty = false → hasSyntax (octets subname) = true) :
    DomainName.read (octets (ownerName subname domain))
      = if DomainName.wireLength ⟨labels subname ++ d.labels⟩ > DomainName.maxWire
        then .error .tooLong else .ok ⟨labels subname ++ d.labels⟩ := by
  have hplain : ∀ label ∈ labels subname, DomainName.IsPlainLabel label := by
    intro label hlabel
    unfold labels at hlabel
    split at hlabel
    · cases hlabel
    · next hempty =>
        exact isPlainLabel (label_of_hasSyntax (hwellFormed (by simpa using hempty)) hlabel)
  have hbackslash : Octet.backslash ∉ (labels subname).flatMap (· ++ [Octet.dot]) := by
    intro hmem
    obtain ⟨label, hlabel, hmem⟩ := List.mem_flatMap.1 hmem
    rcases List.mem_append.1 hmem with hmem | hmem
    · exact (hplain label hlabel).backslash hmem
    · exact absurd hmem (by decide)
  refine DomainName.read_of_labelsOf ?_ (by simp [hroot])
  rw [octets_ownerName, Glyph.read_append_of_plain hbackslash, DomainName.labelsOf_append hplain,
    DomainName.labelsOf_of_read hd hroot]
  rfl

theorem wireLength_owner {subname : String} (hne : subname.isEmpty = false) (d : DomainName) :
    DomainName.wireLength ⟨labels subname ++ d.labels⟩
      = (octets subname).length + 1 + d.wireLength := by
  rw [DomainName.wireLength_append, flatMap_labels hne, List.length_append]
  rfl

end Subname

theorem DomainName.wireLength_of_read {domain : String} {d : DomainName}
    (hd : read (octets (domain ++ ".")) = .ok d) (hroot : d.labels ≠ []) :
    d.wireLength ≤ (octets domain).length + 2
      ∧ (IsUnescaped domain → d.wireLength = (octets domain).length + 2) := by
  have hlength := (length_of_labelsOf (labelsOf_of_read hd hroot)).2
  have htext : (octets (domain ++ ".")).length = (octets domain).length + 1 := by
    rw [octets_append, List.length_append]
    rfl
  have hglyphs := Glyph.length_read_le (octets (domain ++ "."))
  change _ = d.wireLength at hlength
  rw [List.length_nil, Nat.zero_add] at hlength
  refine ⟨by omega, fun hplain => ?_⟩
  have hbackslash : Octet.backslash ∉ octets (domain ++ ".") := by
    rw [octets_append, List.mem_append, not_or]
    exact ⟨hplain.backslash_notMem, by decide⟩
  rw [Glyph.read_of_plain hbackslash, List.length_map] at hlength
  omega

theorem Subname.check_decides_owner {domain : String} (hdomain : Request.nameError? domain = none)
    (subname : String) :
    (check subname domain = .ok () →
      ∃ d n, DomainName.read (octets (domain ++ ".")) = .ok d
        ∧ DomainName.read (octets (ownerName subname domain)) = .ok n
        ∧ n.wireLength ≤ DomainName.maxWire ∧ n.labels = labels subname ++ d.labels)
    ∧ (IsUnescaped domain → subname ≠ "" → subname.length ≤ maxLength →
      hasSyntax (octets subname) = true →
      (check subname domain = .ok ()
        ↔ ∃ n, DomainName.read (octets (ownerName subname domain)) = .ok n)) := by
  obtain ⟨d, hd, hhost⟩ := exists_hostname_of_noError hdomain
  have hroot := DomainName.labels_ne_nil_of_isHostname hhost
  obtain ⟨hwire, hexact⟩ := DomainName.wireLength_of_read hd hroot
  constructor
  · intro hcheck
    have hchecked (hempty : subname.isEmpty = false) :=
      (check_eq_ok_iff (octets_ne_nil hempty) domain).1 hcheck
    have hread := read_ownerName hd hroot fun hempty => (hchecked hempty).2.1
    have hfits : DomainName.wireLength ⟨labels subname ++ d.labels⟩ ≤ DomainName.maxWire := by
      cases hempty : subname.isEmpty with
      | true =>
          rw [labels, hempty, if_pos rfl]
          exact (DomainName.isValid_of_read hd).length
      | false =>
          rw [wireLength_owner hempty]
          have hroom := (hchecked hempty).2.2
          omega
    rw [if_neg (Nat.not_lt.2 hfits)] at hread
    exact ⟨d, _, hd, hread, hfits, rfl⟩
  · intro hplain hne hlength hwellFormed
    have hempty : subname.isEmpty = false := by simpa using hne
    have hoctets : (octets subname).length ≤ maxLength := by
      rwa [length_octets_of_isAscii (isAscii_of_hasSyntax hwellFormed)]
    rw [check_eq_ok_iff (octets_ne_nil hempty), read_ownerName hd hroot fun _ => hwellFormed,
      wireLength_owner hempty, hexact hplain]
    split_ifs with hlong
    · simp only [exists_false, iff_false]
      rintro ⟨-, -, hfits⟩
      omega
    · exact ⟨fun _ => ⟨_, rfl⟩, fun _ => ⟨hoctets, hwellFormed, by omega⟩⟩

theorem Subname.owner_of_wildcard :
    (Request.nameError? "example.com" = none ∧ IsUnescaped "example.com" ∧ "*.a-b" ≠ ""
      ∧ "*.a-b".length ≤ maxLength ∧ hasSyntax (octets "*.a-b") = true
      ∧ check "*.a-b" "example.com" = .ok ())
    ∧ (∃ d n, DomainName.read (octets ("example.com" ++ ".")) = .ok d
        ∧ DomainName.read (octets (ownerName "*.a-b" "example.com")) = .ok n
        ∧ n.wireLength ≤ DomainName.maxWire ∧ n.labels = labels "*.a-b" ++ d.labels)
    ∧ (check "*.a-b" "example.com" = .ok ()
        ↔ ∃ n, DomainName.read (octets (ownerName "*.a-b" "example.com")) = .ok n) := by
  have hdomain : Request.nameError? "example.com" = none := by decide +kernel
  have hplain : IsUnescaped "example.com" := by decide +kernel
  have hlength : "*.a-b".length ≤ maxLength := by decide +kernel
  have hwellFormed : hasSyntax (octets "*.a-b") = true := by decide +kernel
  have hcheck : check "*.a-b" "example.com" = .ok () := by decide +kernel
  obtain ⟨hmade, hexact⟩ := check_decides_owner hdomain "*.a-b"
  exact ⟨⟨hdomain, hplain, by decide, hlength, hwellFormed, hcheck⟩, hmade hcheck,
    hexact hplain (by decide) hlength hwellFormed⟩

end ZoneKeeper
