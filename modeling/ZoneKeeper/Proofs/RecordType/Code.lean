import ZoneKeeper.Proofs.Text.Numeral
import ZoneKeeper.Proofs.Text.Reader
import ZoneKeeper.RecordType.Bitmap
import ZoneKeeper.RecordType.Code

namespace ZoneKeeper

namespace Decimal

@[simp] theorem upper_write (n : Nat) : (write n).upper = write n := by
  have hdigit : ∀ b, Octet.isDigit b = true → Octet.toUpper b = b :=
    Octet.forall_of_fin (by decide +kernel)
  rw [Octets.upper, List.map_congr_left fun b hb => hdigit b (isDigit_of_mem_write b hb),
    List.map_id']

@[simp] theorem lower_write (n : Nat) : (write n).lower = write n := by
  have hdigit : ∀ b, Octet.isDigit b = true → Octet.toLower b = b :=
    Octet.forall_of_fin (by decide +kernel)
  rw [Octets.lower, List.map_congr_left fun b hb => hdigit b (isDigit_of_mem_write b hb),
    List.map_id']

end Decimal

namespace RecordType

theorem numbered?_write (word : Octets) (n : UInt16) :
    numbered? word (word ++ Decimal.write n.toNat) = some n := by
  have hn := n.toNat_lt
  have hread : Decimal.readBits? 16 (Decimal.write n.toNat) = some n.toNat :=
    Decimal.readBits?_write (by simpa using hn)
  rw [numbered?, Octets.strip?_append]
  simp only [Option.bind_eq_bind, Option.bind_some, hread]
  exact congrArg some n.ofNat_toNat

theorem find?_numbered (table : List (String × UInt16)) (word : Octets)
    (htable : ∀ row ∈ table, Octets.strip? word (octets row.1) = none) (n : Nat) :
    table.find? (fun row => octets row.1 == word ++ Decimal.write n) = none := by
  rw [List.find?_eq_none]
  intro row hrow heq
  have hstrip := htable row hrow
  rw [beq_iff_eq.1 heq, Octets.strip?_append] at hstrip
  cases hstrip

theorem code?_codes : ∀ row ∈ codes, code? (octets row.1) = some row.2 := by
  decide +kernel

@[simp] theorem code?_word (c : UInt16) : code? (word c) = some c := by
  unfold word
  split
  · next w n hfind =>
      have hn : n = c := by simpa using List.find?_some hfind
      rw [← hn]
      exact code?_codes (w, n) (List.mem_of_find?_eq_some hfind)
  · have hupper : (octets "TYPE" ++ Decimal.write c.toNat).upper
        = octets "TYPE" ++ Decimal.write c.toNat := by
      rw [Octets.upper, List.map_append]
      exact congrArg (octets "TYPE" ++ ·) (Decimal.upper_write c.toNat)
    have hfind := find?_numbered codes (octets "TYPE") (by decide +kernel) c.toNat
    simp only [code?, hupper, hfind]
    exact numbered?_write _ c

theorem isGraphic_codes : ∀ row ∈ codes, (octets row.1).isGraphic = true ∧ octets row.1 ≠ [] := by
  decide +kernel

theorem isGraphic_word (c : UInt16) : (word c).isGraphic = true := by
  unfold word
  split
  · next w n hfind => exact (isGraphic_codes (w, n) (List.mem_of_find?_eq_some hfind)).1
  · exact Octets.isGraphic_append.2 ⟨rfl, Decimal.isGraphic_write _⟩

theorem word_ne_nil (c : UInt16) : word c ≠ [] := by
  intro hnil
  have hcode := code?_word c
  rw [hnil] at hcode
  cases hcode

end RecordType

namespace Bitmap

theorem mem_insert {code c : UInt16} {codes : List UInt16} (h : c ∈ insert code codes) :
    c = code ∨ c ∈ codes := by
  induction codes with
  | nil => exact Or.inl (List.mem_singleton.1 h)
  | cons first rest ih =>
      rw [insert] at h
      split at h
      · exact (List.mem_cons.1 h)
      · split at h
        · exact Or.inr h
        · rcases List.mem_cons.1 h with rfl | h
          · exact Or.inr List.mem_cons_self
          · exact (ih h).imp_right (List.mem_cons_of_mem _)

theorem pairwise_insert {code : UInt16} {codes : List UInt16} (h : codes.Pairwise (· < ·)) :
    (insert code codes).Pairwise (· < ·) := by
  induction codes with
  | nil => exact List.pairwise_singleton _ _
  | cons first rest ih =>
      obtain ⟨hfirst, hrest⟩ := List.pairwise_cons.1 h
      rw [insert]
      split
      · next hlt =>
          refine List.pairwise_cons.2 ⟨fun c hc => ?_, h⟩
          rcases List.mem_cons.1 hc with rfl | hc
          · exact hlt
          · exact UInt16.lt_trans hlt (hfirst c hc)
      · split
        · exact h
        · next hlt hne =>
            refine List.pairwise_cons.2 ⟨fun c hc => ?_, ih hrest⟩
            rcases mem_insert hc with rfl | hc
            · exact UInt16.lt_of_le_of_ne (UInt16.not_lt.1 hlt) fun heq =>
                hne (beq_iff_eq.2 heq.symm)
            · exact hfirst c hc

theorem insert_append {code : UInt16} {codes : List UInt16} (h : ∀ c ∈ codes, c < code) :
    insert code codes = codes ++ [code] := by
  induction codes with
  | nil => rfl
  | cons first rest ih =>
      have hfirst := h first List.mem_cons_self
      rw [insert, if_neg (UInt16.not_lt.2 (UInt16.le_of_lt hfirst)),
        if_neg (by simpa using (UInt16.ne_of_lt hfirst).symm),
        ih fun c hc => h c (List.mem_cons_of_mem _ hc)]
      rfl

end Bitmap

end ZoneKeeper
