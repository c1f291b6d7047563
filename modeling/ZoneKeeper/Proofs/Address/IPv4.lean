import ZoneKeeper.Address.IPv4
import ZoneKeeper.Proofs.Text.Numeral
import ZoneKeeper.Proofs.Text.Reader
import ZoneKeeper.Proofs.Text.Split

namespace ZoneKeeper

namespace IPv4

theorem ofBytes?_bytes (a : IPv4) : ofBytes? a.bytes = some a := dif_pos a.size

theorem readPart?_write (b : UInt8) : readPart? (Decimal.write b.toNat) = some b := by
  have hb := b.toNat_lt
  have hlength := Decimal.length_write_le (n := b.toNat) (k := 3) (by decide) (by omega)
  rw [readPart?, if_neg (Nat.not_lt.2 hlength), Decimal.readBits?_write (by simpa using hb),
    Option.map_some, UInt8.ofNat_toNat]

theorem splitOn_write (a : IPv4) :
    a.write.splitOn Octet.dot = a.bytes.map (Decimal.write ·.toNat) := by
  refine Octets.splitOn_joinWith_map (fun b => Decimal.notMem_write rfl) ?_
  intro hnil
  have hsize := a.size
  rw [hnil] at hsize
  cases hsize

@[simp] theorem read?_write (a : IPv4) : read? a.write = some a := by
  rw [read?, splitOn_write, mapM_map_eq_some fun b _ => readPart?_write b]
  exact a.ofBytes?_bytes

theorem hasLeadingZero_write (n : Nat) : hasLeadingZero (Decimal.write n) = false := by
  by_contra h
  simp only [hasLeadingZero, Bool.not_eq_false, Bool.and_eq_true, decide_eq_true_eq,
    beq_iff_eq] at h
  obtain ⟨hlength, hfirst⟩ := h
  rw [Decimal.head?_write hfirst] at hlength
  exact absurd hlength (by decide)

@[simp] theorem readStrict?_write (a : IPv4) : readStrict? a.write = some a := by
  rw [readStrict?, splitOn_write, if_neg, read?_write]
  simp [hasLeadingZero_write]

theorem mem_write {a : IPv4} {b : UInt8} (h : b ∈ a.write) :
    b = Octet.dot ∨ Octet.isDigit b = true := by
  rcases Octets.mem_joinWith_map h with hdot | ⟨n, -, hb⟩
  · exact Or.inl hdot
  · exact Or.inr (Decimal.isDigit_of_mem_write b hb)

theorem mem_of_read? {t : Octets} {a : IPv4} (h : read? t = some a) {b : UInt8} (hb : b ∈ t) :
    b = Octet.dot ∨ Octet.isDigit b = true := by
  obtain ⟨bytes, hbytes, -⟩ := Option.bind_eq_some_iff.1 h
  rw [← Octets.joinWith_splitOn Octet.dot t] at hb
  rcases Octets.mem_joinWith hb with hdot | ⟨part, hpart, hb⟩
  · exact Or.inl hdot
  · obtain ⟨n, hn⟩ := exists_of_mapM hbytes hpart
    rw [readPart?] at hn
    split at hn
    · cases hn
    · obtain ⟨value, hvalue, -⟩ := Option.map_eq_some_iff.1 hn
      exact Or.inr (Decimal.isDigit_of_read? (Option.filter_eq_some_iff.1 hvalue).1 b hb)

theorem read?_of_readStrict? {t : Octets} {a : IPv4} (h : readStrict? t = some a) :
    read? t = some a := by
  rw [readStrict?] at h
  split at h
  · cases h
  · exact h

theorem dot_mem_write (a : IPv4) : Octet.dot ∈ a.write := by
  by_contra hdot
  have hone := Octets.splitOn_of_notMem hdot
  rw [splitOn_write] at hone
  have := congrArg List.length hone
  rw [List.length_map, a.size] at this
  cases this

theorem write_ne_nil (a : IPv4) : a.write ≠ [] := List.ne_nil_of_mem a.dot_mem_write

theorem isGraphic_write (a : IPv4) : a.write.isGraphic = true :=
  Octets.all_joinWith_map rfl fun _ => Decimal.isGraphic_write _

end IPv4

end ZoneKeeper
