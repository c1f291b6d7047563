import ZoneKeeper.Proofs.Address.IPv6
import ZoneKeeper.Record.AddressPrefix

namespace ZoneKeeper

namespace Address

@[simp] theorem read?_write (a : Address) : read? a.family a.write = some a := by
  cases a <;> simp [read?, family, write]

theorem isGraphic_write (a : Address) : a.write.isGraphic = true := by
  cases a with
  | v4 a => exact a.isGraphic_write
  | v6 a => exact a.isGraphic_write

end Address

namespace AddressPrefix

def IsValid (p : AddressPrefix) : Prop := p.network.length ≤ p.network.address.family.bits

theorem isValid_of_readNetwork? {text : Octets} {network : Network}
    (h : readNetwork? text = some network) : network.length ≤ network.address.family.bits := by
  simp only [readNetwork?, Option.bind_eq_bind, Option.bind_eq_some_iff] at h
  obtain ⟨_, -, _, -, length, -, family, -, address, -, h⟩ := h
  unfold Network.make? at h
  split at h
  · obtain rfl := Option.some.inj h
    assumption
  · cases h

theorem isValid_of_read? {text : Octets} {p : AddressPrefix} (h : read? text = some p) :
    p.IsValid := by
  cases text with
  | nil => cases h
  | cons b rest =>
      rw [read?] at h
      split at h
      · obtain ⟨network, hnetwork, rfl⟩ := Option.map_eq_some_iff.1 h
        exact isValid_of_readNetwork? hnetwork
      · obtain ⟨network, hnetwork, rfl⟩ := Option.map_eq_some_iff.1 h
        exact isValid_of_readNetwork? hnetwork

theorem familyOf?_write (family : Family) :
    familyOf? (Decimal.write (familyNumber family).toNat) = some family := by
  cases family <;> rfl

def writeNetwork (n : Network) : Octets :=
  Decimal.write (familyNumber n.address.family).toNat
    ++ Octet.colon :: (n.address.write ++ Octet.slash :: Decimal.write n.length)

theorem write_eq (p : AddressPrefix) :
    p.write = (if p.negated then [Octet.bang] else []) ++ writeNetwork p.network := by
  simp [write, writeNetwork]

theorem readNetwork?_write {n : Network} (h : n.length ≤ n.address.family.bits) :
    readNetwork? (writeNetwork n) = some n := by
  have hcolon : (writeNetwork n).cut Octet.colon
      = some (Decimal.write (familyNumber n.address.family).toNat,
          n.address.write ++ Octet.slash :: Decimal.write n.length) :=
    Octets.cut_append_cons (Decimal.notMem_write rfl)
  have hslash : (n.address.write ++ Octet.slash :: Decimal.write n.length).cutLast Octet.slash
      = some (n.address.write, Decimal.write n.length) :=
    Octets.cutLast_append_cons _ (Decimal.notMem_write rfl)
  have hbits : n.length < 1 <<< 8 := by
    refine Nat.lt_of_le_of_lt h ?_
    cases n.address.family <;> decide
  simp only [readNetwork?, hcolon, hslash, Decimal.readBits?_write hbits, familyOf?_write,
    Address.read?_write, Option.bind_eq_bind, Option.bind_some]
  exact if_pos h

theorem isGraphic_writeNetwork (n : Network) : (writeNetwork n).isGraphic = true := by
  simp only [writeNetwork, Octets.isGraphic_append, Octets.isGraphic_cons,
    Decimal.isGraphic_write, Address.isGraphic_write]
  decide

theorem isGraphic_write (p : AddressPrefix) : p.write.isGraphic = true := by
  rw [write_eq, Octets.isGraphic_append]
  refine ⟨?_, isGraphic_writeNetwork p.network⟩
  cases p.negated <;> rfl

theorem read?_write {p : AddressPrefix} (h : p.IsValid) : read? p.write = some p := by
  obtain ⟨negated, network⟩ := p
  have hnetwork := readNetwork?_write h
  rw [write_eq]
  cases negated with
  | true =>
      change (readNetwork? (writeNetwork network)).map _ = _
      rw [hnetwork]
      rfl
  | false =>
      have hfirst : ∃ b rest, writeNetwork network = b :: rest ∧ b ≠ Octet.bang := by
        cases hfamily : network.address.family <;>
          exact ⟨_, _, by rw [writeNetwork, hfamily]; rfl, by decide⟩
      obtain ⟨b, rest, heq, hb⟩ := hfirst
      change read? (writeNetwork network) = _
      rw [heq] at hnetwork ⊢
      rw [read?, if_neg (by simpa using hb), hnetwork]
      rfl

theorem write_ne_nil (p : AddressPrefix) : p.write ≠ [] := by
  rw [write_eq]
  simp [writeNetwork]

end AddressPrefix

end ZoneKeeper
