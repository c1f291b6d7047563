import ZoneKeeper.Proofs.Text.Numeral

namespace ZoneKeeper

def SelfDelimiting {α : Type} (P : α → Prop) (wire : α → Octets) : Prop :=
  ∀ ⦃a b : α⦄, P a → P b → ∀ ⦃rest rest' : Octets⦄,
    wire a ++ rest = wire b ++ rest' → a = b ∧ rest = rest'

namespace SelfDelimiting

variable {α : Type} {P : α → Prop} {wire : α → Octets}

theorem inj (h : SelfDelimiting P wire) {a b : α} (ha : P a) (hb : P b) (heq : wire a = wire b) :
    a = b :=
  (@h a b ha hb [] [] (by rw [heq])).1

theorem mono {Q : α → Prop} (h : SelfDelimiting P wire) (hsub : ∀ a, Q a → P a) :
    SelfDelimiting Q wire :=
  fun _ _ ha hb => h (hsub _ ha) (hsub _ hb)

theorem of_length (size : Nat) (hsize : ∀ a, P a → (wire a).length = size)
    (hinj : ∀ a b, P a → P b → wire a = wire b → a = b) : SelfDelimiting P wire := by
  intro a b ha hb rest rest' h
  obtain ⟨hwire, hrest⟩ := List.append_inj h ((hsize a ha).trans (hsize b hb).symm)
  exact ⟨hinj a b ha hb hwire, hrest⟩

theorem append {β : Type} {Q : β → Prop} {wire' : β → Octets} (h : SelfDelimiting P wire)
    (h' : SelfDelimiting Q wire') :
    SelfDelimiting (fun p : α × β => P p.1 ∧ Q p.2) (fun p => wire p.1 ++ wire' p.2) := by
  rintro ⟨a, a'⟩ ⟨b, b'⟩ ⟨ha, ha'⟩ ⟨hb, hb'⟩ rest rest' heq
  rw [List.append_assoc, List.append_assoc] at heq
  obtain ⟨hfirst, hlater⟩ := h ha hb heq
  obtain ⟨hsecond, hrest⟩ := h' ha' hb' hlater
  exact ⟨Prod.ext hfirst hsecond, hrest⟩

theorem flatMap_inj (h : SelfDelimiting P wire) (hne : ∀ a, P a → wire a ≠ []) {as bs : List α}
    (has : ∀ a ∈ as, P a) (hbs : ∀ b ∈ bs, P b) (heq : as.flatMap wire = bs.flatMap wire) :
    as = bs := by
  induction as generalizing bs with
  | nil =>
      cases bs with
      | nil => rfl
      | cons b bs =>
          rw [List.flatMap_nil, List.flatMap_cons] at heq
          exact absurd (List.append_eq_nil_iff.1 heq.symm).1 (hne b (hbs b List.mem_cons_self))
  | cons a as ih =>
      cases bs with
      | nil =>
          rw [List.flatMap_nil, List.flatMap_cons] at heq
          exact absurd (List.append_eq_nil_iff.1 heq).1 (hne a (has a List.mem_cons_self))
      | cons b bs =>
          rw [List.flatMap_cons, List.flatMap_cons] at heq
          obtain ⟨rfl, hlater⟩ := h (has a List.mem_cons_self) (hbs b List.mem_cons_self) heq
          rw [ih (fun c hc => has c (List.mem_cons_of_mem _ hc))
            (fun c hc => hbs c (List.mem_cons_of_mem _ hc)) hlater]

end SelfDelimiting

theorem Octets.infix_flatMap {α : Type} (wire : α → Octets) {a : α} {as : List α} (h : a ∈ as) :
    wire a <:+: as.flatMap wire := by
  rw [List.flatMap_def]
  exact List.infix_of_mem_flatten (List.mem_map_of_mem h)

theorem be16_inj {m n : UInt16} (h : be16 m = be16 n) : m = n := by
  have hm := m.toNat_lt
  have hn := n.toNat_lt
  obtain ⟨hhigh, hlow⟩ := List.cons_eq_cons.1 h
  have hhigh := congrArg UInt8.toNat hhigh
  have hlow := congrArg UInt8.toNat (List.cons_eq_cons.1 hlow).1
  simp only [UInt8.toNat_ofNat'] at hhigh hlow
  exact UInt16.toNat_inj.1 (by omega)

theorem be32_inj {m n : UInt32} (h : be32 m = be32 n) : m = n := by
  have hm := m.toNat_lt
  have hn := n.toNat_lt
  simp only [be32, List.cons.injEq, and_true, ← UInt8.toNat_inj, UInt8.toNat_ofNat'] at h
  exact UInt32.toNat_inj.1 (by omega)

theorem selfDelimiting_be16 : SelfDelimiting (fun _ => True) be16 :=
  .of_length 2 (fun _ _ => rfl) fun _ _ _ _ => be16_inj

theorem selfDelimiting_be32 : SelfDelimiting (fun _ => True) be32 :=
  .of_length 4 (fun _ _ => rfl) fun _ _ _ _ => be32_inj

theorem selfDelimiting_octet : SelfDelimiting (fun _ => True) (fun b : UInt8 => [b]) :=
  .of_length 1 (fun _ _ => rfl) fun _ _ _ _ h => (List.cons_eq_cons.1 h).1

theorem selfDelimiting_counted : SelfDelimiting (·.length ≤ 255) counted := by
  intro s t hs ht rest rest' h
  obtain ⟨hcount, h⟩ := List.cons_eq_cons.1 h
  have hcount := congrArg UInt8.toNat hcount
  rw [UInt8.toNat_ofNat_of_lt' (Nat.lt_succ_of_le hs),
    UInt8.toNat_ofNat_of_lt' (Nat.lt_succ_of_le ht)] at hcount
  exact List.append_inj h hcount

theorem counted_ne_nil (t : Octets) : counted t ≠ [] := List.cons_ne_nil _ _

end ZoneKeeper
