import ZoneKeeper.Proofs.Name.DomainName

namespace ZoneKeeper

namespace DomainName

inductive IsWire : List Octets → Octets → Prop where
  | root : IsWire [] [0]
  | label {label : Octets} {count : UInt8} {labels : List Octets} {rest : Octets}
      (hcount : count.toNat = label.length) (hlength : 1 ≤ label.length ∧ label.length ≤ 63)
      (hrest : IsWire labels rest) : IsWire (label :: labels) (count :: (label ++ rest))

theorem isWire_of_labels {labels : List Octets}
    (h : ∀ l ∈ labels, l ≠ [] ∧ l.length ≤ maxLabel) :
    IsWire labels (labels.flatMap counted ++ [0]) := by
  induction labels with
  | nil => exact .root
  | cons label labels ih =>
      obtain ⟨hne, hlength⟩ := h label List.mem_cons_self
      have hcount : (UInt8.ofNat label.length).toNat = label.length :=
        UInt8.toNat_ofNat_of_lt' (Nat.lt_of_le_of_lt hlength (by decide))
      have hrest := ih fun l hl => h l (List.mem_cons_of_mem _ hl)
      rw [List.flatMap_cons, List.append_assoc]
      exact .label hcount ⟨List.length_pos_iff.2 hne, hlength⟩ hrest

theorem length_wire (n : DomainName) : n.wire.length = n.wireLength := by
  obtain ⟨labels⟩ := n
  simp only [wire, wireLength, List.length_append, List.length_singleton]
  induction labels with
  | nil => rfl
  | cons label labels ih =>
      simp only [List.flatMap_cons, List.length_append, counted, List.length_cons,
        List.foldr_cons] at ih ⊢
      omega

theorem read_token_write (n : DomainName) : Token.read n.write = .ok [n.token] := by
  have hread := n.spells_token.read
  rwa [Octets.words, Octets.joinWith, List.intercalate_singleton] at hread

theorem forms_tell_labels :
    (∀ labels : List Octets, (∀ l ∈ labels, 1 ≤ l.length ∧ l.length ≤ 63) →
        wireLength ⟨labels⟩ ≤ 255 →
        (∃ token, Token.read (write ⟨labels⟩) = .ok [token] ∧ token.quoted = false
            ∧ token.raw = write ⟨labels⟩)
          ∧ read (write ⟨labels⟩) = .ok ⟨labels⟩)
      ∧ ∀ text n, read text = .ok n →
          IsWire n.labels n.wire ∧ n.wire.length = n.wireLength ∧ n.wireLength ≤ 255 := by
  refine ⟨fun labels hlabels hlength => ?_, fun text n hread => ?_⟩
  · have hvalid : IsValid ⟨labels⟩ :=
      ⟨fun l hl => ⟨List.length_pos_iff.1 (hlabels l hl).1, (hlabels l hl).2⟩, hlength⟩
    exact ⟨⟨token ⟨labels⟩, read_token_write ⟨labels⟩, rfl, raw_token ⟨labels⟩⟩,
      read_write hvalid⟩
  · have hvalid := isValid_of_read hread
    exact ⟨isWire_of_labels hvalid.label, n.length_wire, hvalid.length⟩

theorem forms_of_dotted_label :
    read (write ⟨[octets "a.\"", [Octet.backslash, 0xff]]⟩)
        = .ok ⟨[octets "a.\"", [Octet.backslash, 0xff]]⟩
      ∧ read (octets "a\\.b.\\007c.") = .ok ⟨[octets "a.b", [7, 0x63]]⟩
      ∧ IsWire [octets "a.b", [7, 0x63]] [3, 0x61, 0x2e, 0x62, 2, 7, 0x63, 0] := by
  have hread : read (octets "a\\.b.\\007c.") = .ok ⟨[octets "a.b", [7, 0x63]]⟩ := by decide
  exact ⟨(forms_tell_labels.1 _ (by decide) (by decide)).2, hread,
    (forms_tell_labels.2 _ _ hread).1⟩

end DomainName

end ZoneKeeper
