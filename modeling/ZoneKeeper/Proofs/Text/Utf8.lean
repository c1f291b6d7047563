import ZoneKeeper.Text.Utf8

namespace ZoneKeeper

namespace Utf8

theorem enter_ascii {n : Nat} (h : n < 0x80) :
    State.enter (UInt8.ofNat n) = ([Char.ofNat n], .between) := by
  have hn : (UInt8.ofNat n).toNat = n := UInt8.toNat_ofNat_of_lt' (Nat.lt_trans h (by decide))
  have hlt : UInt8.ofNat n < 0x80 := by
    rw [UInt8.lt_iff_toNat_lt, hn]
    exact h
  rw [State.enter, if_pos hlt, hn]

theorem enter_two : ∀ n : Fin 32, 2 ≤ n.val →
    State.enter (UInt8.ofNat (n + 0xc0)) = ([], .owing n 0 0x80 0xbf) := by
  decide

theorem enter_three : ∀ n : Fin 16, State.enter (UInt8.ofNat (n + 0xe0))
    = ([], .owing n 1 (if n.val = 0 then 0xa0 else 0x80) (if n.val = 13 then 0x9f else 0xbf)) := by
  decide

theorem enter_four : ∀ n : Fin 5, State.enter (UInt8.ofNat (n + 0xf0))
    = ([], .owing n 2 (if n.val = 0 then 0x90 else 0x80) (if n.val = 4 then 0x8f else 0xbf)) := by
  decide

theorem feed_owing {value more n : Nat} {low high : UInt8} (hn : n < 64)
    (hlow : low.toNat ≤ n + 0x80) (hhigh : n + 0x80 ≤ high.toNat) :
    State.feed (UInt8.ofNat (n + 0x80)) (.owing value more low high)
      = match more with
        | 0 => ([Char.ofNat (value * 64 + n)], .between)
        | more + 1 => ([], .owing (value * 64 + n) more 0x80 0xbf) := by
  have hvalue : (UInt8.ofNat (n + 0x80)).toNat = n + 0x80 :=
    UInt8.toNat_ofNat_of_lt' (show n + 0x80 < 256 by omega)
  have hin : (low ≤ UInt8.ofNat (n + 0x80) && UInt8.ofNat (n + 0x80) ≤ high) = true := by
    simp only [Bool.and_eq_true, decide_eq_true_eq, UInt8.le_iff_toNat_le, hvalue]
    exact ⟨hlow, hhigh⟩
  cases more <;> simp only [State.feed, if_pos hin, hvalue, Nat.add_sub_cancel]

theorem decodeFrom_cons (state : State) (b : UInt8) (rest : Octets) :
    decodeFrom state (b :: rest)
      = (state.feed b).1 ++ decodeFrom (state.feed b).2 rest := by
  cases state <;> rfl

theorem decode_encodeChar (c : Char) (rest : Octets) :
    decodeFrom .between (String.utf8EncodeChar c ++ rest) = c :: decodeFrom .between rest := by
  have hc : Char.ofNat c.val.toNat = c := Char.ofNat_toNat c
  have hvalid : c.val.toNat < 0xd800 ∨ (0xdfff < c.val.toNat ∧ c.val.toNat < 0x110000) := c.valid
  simp only [String.utf8EncodeChar]
  generalize c.val.toNat = v at hc hvalid
  split
  · next h =>
      rw [List.singleton_append, decodeFrom_cons, State.feed, enter_ascii (by omega), hc]
      rfl
  split
  · next h h' =>
      rw [List.cons_append, List.singleton_append, decodeFrom_cons, State.feed,
        enter_two ⟨v / 64 % 0x20, by omega⟩ (by simp only; omega), decodeFrom_cons,
        feed_owing (by omega) (by simp) (by simp; omega)]
      simp only [List.nil_append, List.singleton_append]
      rw [show v / 64 % 0x20 * 64 + v % 0x40 = v by omega, hc]
  split
  · next h h' h'' =>
      rw [List.cons_append, List.cons_append, List.singleton_append, decodeFrom_cons, State.feed,
        enter_three ⟨v / 4096 % 0x10, by omega⟩, decodeFrom_cons, feed_owing (by omega)
          (by dsimp only; split <;> simp; omega) (by dsimp only; split <;> simp <;> omega),
        decodeFrom_cons, feed_owing (by omega) (by simp) (by simp; omega)]
      simp only [List.nil_append, List.singleton_append]
      rw [show (v / 4096 % 0x10 * 64 + v / 64 % 0x40) * 64 + v % 0x40 = v by omega, hc]
  · next h h' h'' =>
      rw [List.cons_append, List.cons_append, List.cons_append, List.singleton_append,
        decodeFrom_cons, State.feed, show v / 262144 % 0x08 + 0xf0 = v / 262144 + 0xf0 by omega,
        enter_four ⟨v / 262144, by omega⟩, decodeFrom_cons, feed_owing (by omega)
          (by dsimp only; split <;> simp; omega) (by dsimp only; split <;> simp <;> omega),
        decodeFrom_cons, feed_owing (by omega) (by simp) (by simp; omega), decodeFrom_cons,
        feed_owing (by omega) (by simp) (by simp; omega)]
      simp only [List.nil_append, List.singleton_append]
      rw [show ((v / 262144 * 64 + v / 4096 % 0x40) * 64 + v / 64 % 0x40) * 64 + v % 0x40 = v
        by omega, hc]

theorem decode_flatMap (chars : List Char) :
    decode (chars.flatMap String.utf8EncodeChar) = chars := by
  induction chars with
  | nil => rfl
  | cons c rest ih => rw [List.flatMap_cons, decode, decode_encodeChar, ← decode, ih]

end Utf8

theorem octets_ofList (chars : List Char) :
    octets (String.ofList chars) = chars.flatMap String.utf8EncodeChar := by
  rw [octets, String.toUTF8_eq_toByteArray, String.toByteArray_ofList, List.utf8Encode,
    List.toList_data_toByteArray]

theorem octets_eq (s : String) : octets s = s.toList.flatMap String.utf8EncodeChar := by
  rw [← octets_ofList, String.ofList_toList]

theorem octets_append (s t : String) : octets (s ++ t) = octets s ++ octets t := by
  rw [octets_eq, octets_eq, octets_eq, String.toList_append, List.flatMap_append]

@[simp] theorem text_octets (s : String) : (octets s).text = s := by
  rw [Octets.text, octets_eq, Utf8.decode_flatMap, String.ofList_toList]

namespace Octets

def IsText (t : Octets) : Prop := ∃ s, octets s = t

variable {s t : Octets}

theorem IsText.octets_text (h : t.IsText) : octets t.text = t := by
  obtain ⟨s, rfl⟩ := h
  rw [text_octets]

theorem IsText.append (hs : s.IsText) (ht : t.IsText) : (s ++ t).IsText := by
  obtain ⟨s, rfl⟩ := hs
  obtain ⟨t, rfl⟩ := ht
  exact ⟨s ++ t, octets_append s t⟩

@[simp] theorem isAscii_nil : isAscii [] = true := rfl

@[simp] theorem isAscii_cons {b : UInt8} :
    isAscii (b :: t) = true ↔ b < 0x80 ∧ t.isAscii = true := by
  simp [isAscii]

@[simp] theorem isAscii_append :
    isAscii (s ++ t) = true ↔ s.isAscii = true ∧ t.isAscii = true := by
  simp [isAscii]

theorem isAscii_flatMap {α : Type} {f : α → Octets} {l : List α}
    (h : ∀ a ∈ l, (f a).isAscii = true) : isAscii (l.flatMap f) = true := by
  simp only [isAscii, List.all_flatMap, List.all_eq_true] at h ⊢
  exact h

theorem isText_of_isAscii (h : t.isAscii = true) : t.IsText := by
  refine ⟨String.ofList (t.map fun b => Char.ofNat b.toNat), ?_⟩
  rw [octets_ofList]
  induction t with
  | nil => rfl
  | cons b rest ih =>
      simp only [isAscii, List.all_cons, Bool.and_eq_true, decide_eq_true_eq,
        UInt8.lt_iff_toNat_lt] at h ih
      have hb : (Char.ofNat b.toNat).val.toNat = b.toNat := by
        rw [Char.ofNat, dif_pos (Or.inl (Nat.lt_trans h.1 (by decide)))]
        rfl
      rw [List.map_cons, List.flatMap_cons, ih h.2]
      simp only [String.utf8EncodeChar, hb]
      rw [if_pos (Nat.le_of_lt_succ h.1), UInt8.ofNat_toNat]
      rfl

theorem isText_repair (t : Octets) : t.repair.IsText := by
  rw [repair]
  split
  · next h => exact isText_of_isAscii h
  · exact ⟨t.text, rfl⟩

theorem IsText.repair (h : t.IsText) : t.repair = t := by
  rw [Octets.repair]
  split
  · rfl
  · exact h.octets_text

theorem repair_of_isAscii (h : t.isAscii = true) : t.repair = t := if_pos h

end Octets

end ZoneKeeper
