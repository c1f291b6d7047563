import ZoneKeeper.Proofs.Record.Location

namespace ZoneKeeper

namespace Location

def cutSign : Octets → Bool × Octets
  | [] => (false, [])
  | b :: rest => if b == Octet.hyphen then (true, rest) else (false, b :: rest)

def cutPoint (digits : Octets) : Octets × Octets := (digits.cut Octet.dot).getD (digits, [])

def isMalformed (places : Nat) (whole fraction : Octets) : Bool :=
  whole.isEmpty || whole.length > 12 || fraction.length > places
    || !(whole ++ fraction).all Octet.isDigit

structure IsFixed (places : Nat) (whole fraction : Octets) : Prop where
  ne_nil : whole ≠ []
  length_whole : whole.length ≤ 12
  length_fraction : fraction.length ≤ places
  isDigit : ∀ b ∈ whole ++ fraction, Octet.isDigit b = true

theorem isFixed_of {places : Nat} {whole fraction : Octets}
    (h : ¬ isMalformed places whole fraction = true) : IsFixed places whole fraction := by
  simp only [isMalformed, Bool.or_eq_true, not_or, List.isEmpty_iff, decide_eq_true_eq, Nat.not_lt,
    Bool.not_eq_true', Bool.not_eq_false, List.all_eq_true] at h
  obtain ⟨⟨⟨hne, hwhole⟩, hfraction⟩, hdigits⟩ := h
  exact ⟨hne, hwhole, hfraction, hdigits⟩

def fixedSize (places : Nat) (whole fraction : Octets) : Nat :=
  10 ^ places * Decimal.ofDigits whole
    + 10 ^ (places - fraction.length) * Decimal.ofDigits fraction

theorem IsFixed.ofDigits_lt {places : Nat} {whole fraction : Octets}
    (h : IsFixed places whole fraction) : Decimal.ofDigits whole < 10 ^ 12 :=
  Nat.lt_of_lt_of_le (Decimal.ofDigits_lt (List.forall_mem_append.1 h.isDigit).1)
    (Nat.pow_le_pow_right (by decide) h.length_whole)

theorem IsFixed.size_lt {places : Nat} {whole fraction : Octets}
    (h : IsFixed places whole fraction) :
    fixedSize places whole fraction < 10 ^ places * 10 ^ 12 := by
  have hfraction := Decimal.ofDigits_lt (List.forall_mem_append.1 h.isDigit).2
  have hpow : 10 ^ (places - fraction.length) * 10 ^ fraction.length = 10 ^ places := by
    rw [← pow_add, Nat.sub_add_cancel h.length_fraction]
  have hpos : 0 < 10 ^ (places - fraction.length) := Nat.pow_pos (by decide)
  calc fixedSize places whole fraction
      < 10 ^ places * Decimal.ofDigits whole + 10 ^ places :=
        Nat.add_lt_add_left (hpow ▸ Nat.mul_lt_mul_of_pos_left hfraction hpos) _
    _ = 10 ^ places * (Decimal.ofDigits whole + 1) := by ring
    _ ≤ 10 ^ places * 10 ^ 12 := Nat.mul_le_mul_left _ h.ofDigits_lt

theorem readFixed?_eq {places : Nat} {text digits whole fraction : Octets} {negative : Bool}
    (hsign : cutSign text = (negative, digits)) (hpoint : cutPoint digits = (whole, fraction)) :
    readFixed? places text = if isMalformed places whole fraction then none
      else some (if negative then -(fixedSize places whole fraction : Int)
        else fixedSize places whole fraction) := by
  unfold readFixed?
  split
  next sign unsigned hsplit =>
    have hsame : cutSign text = (sign, unsigned) := by
      split at hsplit
      · exact hsplit
      · next hother =>
          rw [← hsplit]
          cases text with
          | nil => rfl
          | cons b rest =>
              refine if_neg fun hb => hother rest ?_
              rw [beq_iff_eq.1 hb]
    obtain ⟨rfl, rfl⟩ := Prod.mk.inj (hsign.symm.trans hsame)
    split
    next before behind hcut =>
      obtain ⟨rfl, rfl⟩ := Prod.mk.inj (hpoint.symm.trans hcut)
      split
      · next hcheck => exact (if_pos hcheck).symm
      · next hcheck =>
          have hlength := (isFixed_of hcheck).length_fraction
          rw [show isMalformed places whole fraction = false from Bool.eq_false_iff.2 hcheck]
          dsimp only
          rw [Decimal.ofDigits_append_eq, Decimal.ofDigits_zeros, List.length_append,
            List.length_replicate, Nat.add_sub_cancel' hlength]
          rfl

def withoutUnit (text : Octets) : Octets :=
  if text.getLast? = some 0x6d ∨ text.getLast? = some 0x4d then text.dropLast else text

theorem readMetres?_eq (text : Octets) : readMetres? text = readFixed? 2 (withoutUnit text) := by
  unfold readMetres? withoutUnit
  split
  · next h => rw [if_pos (Or.inl h)]
  · next h => rw [if_pos (Or.inr h)]
  · next hlower hupper => rw [if_neg (not_or.2 ⟨hlower, hupper⟩)]

theorem exponent_lt {n k : Nat} (h : n < 10 ^ (k + 1)) : (scientific n).2 < k + 1 := by
  induction k generalizing n with
  | zero =>
      have hlt : n < 10 := by simpa using h
      rw [scientific, if_pos hlt]
      exact Nat.zero_lt_one
  | succ k ih =>
      rw [scientific]
      split
      · exact Nat.succ_pos _
      · rw [pow_succ] at h
        exact Nat.succ_lt_succ (ih (by omega))

theorem lt_scientific (n : Nat) : n < ((scientific n).1 + 1) * 10 ^ (scientific n).2 := by
  induction n using Nat.strongRecOn with
  | ind n ih =>
      rw [scientific]
      split
      · simp
      · have hlt := ih (n / 10) (by omega)
        dsimp only
        rw [pow_succ, ← mul_assoc]
        omega

def readArc (axis : Axis) (words : List Octets) :
    Except LocationFlaw (Nat × Nat × List Octets) :=
  match nextUnlessHemisphere axis words with
  | none => .ok (0, 0, words)
  | some (text, words) =>
      match (Decimal.readBits? 32 text).filter (· < 60) with
      | none => .error (.badMinutes text)
      | some minutes =>
          match nextUnlessHemisphere axis words with
          | none => .ok (minutes, 0, words)
          | some (text, words) =>
              match (Location.readFixed? 3 text).filter fun ms => 0 ≤ ms && ms < 60000 with
              | none => .error (.badSeconds text)
              | some millis => .ok (minutes, millis.toNat, words)

theorem readMinutes_eq (axis : Axis) (words : List Octets) :
    readMinutes axis words
      = (readArc axis words).map
          (fun (minutes, millis, rest) => (minutes * 60000 + millis, rest)) := by
  unfold readMinutes readArc
  cases nextUnlessHemisphere axis words with
  | none => rfl
  | some first =>
      dsimp only
      cases (Decimal.readBits? 32 first.1).filter (· < 60) with
      | none => rfl
      | some minutes =>
          dsimp only
          cases nextUnlessHemisphere axis first.2 with
          | none => simp [Except.map]
          | some second =>
              dsimp only
              cases (readFixed? 3 second.1).filter fun ms => 0 ≤ ms && ms < 60000 <;> rfl

theorem readArc_bound {axis : Axis} {words rest : List Octets} {minutes millis : Nat}
    (h : readArc axis words = .ok (minutes, millis, rest)) : minutes < 60 ∧ millis < 60000 := by
  unfold readArc at h
  split at h
  · cases h
    decide
  · split at h
    · cases h
    · next hminutes =>
        have hbelow := of_decide_eq_true (Option.filter_eq_some_iff.1 hminutes).2
        split at h
        · cases h
          exact ⟨hbelow, by decide⟩
        · split at h
          · cases h
          · next hmillis =>
              have hwithin := (Option.filter_eq_some_iff.1 hmillis).2
              simp only [Bool.and_eq_true, decide_eq_true_eq] at hwithin
              cases h
              exact ⟨hbelow, by omega⟩

end Location

end ZoneKeeper
