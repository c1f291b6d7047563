import ZoneKeeper.CheckIn.Basic
import ZoneKeeper.Proofs.Record.Spelling

namespace ZoneKeeper

namespace Address

def text (a : Address) : String := a.write.text

theorem octets_text (a : Address) : octets a.text = a.write :=
  (Octets.isText_of_isAscii (Octets.isAscii_of_isGraphic a.isGraphic_write)).octets_text

theorem text_injective {a b : Address} (hfamily : a.family = b.family) (h : a.text = b.text) :
    a = b := by
  have hwrite := congrArg octets h
  rw [octets_text, octets_text] at hwrite
  have hread := b.read?_write
  rw [← hwrite, ← hfamily, read?_write] at hread
  exact Option.some.inj hread

end Address

theorem RecordData.read_single {type : String} {kind : FieldKind} {fields : List Field}
    (hlayout : RecordType.layout? type = some [kind]) (h : kind.Gives fields)
    (hkind : kind ≠ .service) :
    read type (RecordData.mk fields).write = .ok ⟨fields⟩ := by
  obtain ⟨tokens, hrereads⟩ := h.exists_rereads fun h => absurd h hkind
  have hread := hrereads.read [] fun _ => rfl
  rw [List.append_nil] at hread
  rw [read, write, hrereads.spells.read]
  simp only [hlayout, readFields, hread, bind, Except.bind]
  simp [Except.map, pure, Except.pure]

theorem RecordData.gives_of_read {type : String} {kind : FieldKind} {content : Octets}
    {d : RecordData} (hlayout : RecordType.layout? type = some [kind])
    (h : read type content = .ok d) : kind.Gives d.fields := by
  obtain ⟨tokens, kinds, -, hkinds, hfields⟩ := of_read h
  obtain rfl := Option.some.inj (hlayout.symm.trans hkinds)
  obtain ⟨⟨fields, rest⟩, hread, hfields⟩ := bind_eq_ok.1 hfields
  obtain ⟨later, hlater, hfields⟩ := bind_eq_ok.1 hfields
  obtain ⟨-, rfl⟩ := eq_nil_of_readFields_nil hlater
  rw [← Except.ok.inj hfields, List.append_nil]
  exact FieldKind.gives_of_read hread

def CanonicalRecord.ofAddress (a : Address) : CanonicalRecord := ⟨a.text, a.bytes⟩

@[simp] theorem RecordData.write_ipv4 (a : IPv4) : (mk [.ipv4 a]).write = a.write := by
  simp [write, Octets.words, Octets.joinWith, Field.words]

@[simp] theorem RecordData.write_ipv6 (a : IPv6) : (mk [.ipv6 a]).write = a.write := by
  simp [write, Octets.words, Octets.joinWith, Field.words]

theorem CanonicalRecord.read_address (a : Address) :
    read a.family.type a.text = .ok (ofAddress a) := by
  have hlength : ¬ (ofAddress a).wire.length > RecordFlaw.maxWire := by
    rw [ofAddress, a.length_bytes]
    cases a.family <;> decide
  obtain ⟨d, hd, hwrite, hwire⟩ : ∃ d : RecordData,
      RecordData.read a.family.type d.write = .ok d ∧ d.write = a.write ∧ d.wire = a.bytes := by
    cases a with
    | v4 a =>
        exact ⟨⟨[.ipv4 a]⟩, RecordData.read_single rfl (.ipv4 a) (by decide), by simp [Address.write],
          List.append_nil _⟩
    | v6 a =>
        exact ⟨⟨[.ipv6 a]⟩, RecordData.read_single rfl (.ipv6 a) (by decide), by simp [Address.write],
          List.append_nil _⟩
  have hrecord : ofData d = ofAddress a := by
    rw [ofData, ofAddress, hwrite, hwire, Address.text]
  rw [read, a.octets_text, ← hwrite, hd]
  simp only [bind, Except.bind, hrecord]
  exact if_neg hlength

theorem CanonicalRecord.exists_address {family : Family} {content : String}
    {record : CanonicalRecord} (h : read family.type content = .ok record) :
    ∃ a, a.family = family ∧ record = ofAddress a := by
  obtain ⟨⟨fields⟩, hd, rfl, -⟩ := of_read h
  cases family with
  | v4 =>
      cases RecordData.gives_of_read rfl hd with
      | ipv4 a =>
          refine ⟨.v4 a, rfl, ?_⟩
          rw [ofData, ofAddress, RecordData.write_ipv4]
          exact congrArg _ (List.append_nil _)
  | v6 =>
      cases RecordData.gives_of_read rfl hd with
      | ipv6 a =>
          refine ⟨.v6 a, rfl, ?_⟩
          rw [ofData, ofAddress, RecordData.write_ipv6]
          exact congrArg _ (List.append_nil _)

namespace RecordSet

variable {family : Family} {subname name : String} {addresses : List Address}

theorem reads_addresses (h : ∀ a ∈ addresses, a.family = family) :
    Reads family.type (addresses.map Address.text) (addresses.map CanonicalRecord.ofAddress) := by
  induction addresses with
  | nil => exact .nil
  | cons a rest ih =>
      obtain ⟨rfl, hrest⟩ := List.forall_mem_cons.1 h
      exact .cons (CanonicalRecord.read_address a) (ih hrest)

theorem shapeFlaws_address (family : Family) (subname : String) (count : Nat) :
    shapeFlaws family.type subname count = [] := by
  cases family <;> rfl

theorem read_addresses_iff {canonical : SortedSet String}
    (h : ∀ a ∈ addresses, a.family = family) :
    read family.type subname name (addresses.map Address.text) = .ok canonical
      ↔ addresses.Nodup ∧ estimate name canonical.toList ≤ maxResponse
        ∧ canonical = .ofList (addresses.map Address.text) := by
  have hreads := reads_addresses h
  have hwires : (addresses.map CanonicalRecord.ofAddress).Pairwise (fun a b => a.wire ≠ b.wire)
      ↔ addresses.Nodup := by
    rw [List.pairwise_map]
    refine List.Pairwise.iff_of_mem fun {a b} ha hb => not_congr ⟨fun hwire => ?_, fun heq => ?_⟩
    · exact Address.eq_of_bytes ((h a ha).trans (h b hb).symm) hwire
    · rw [heq]
  rw [← hwires]
  constructor
  · intro hread
    obtain ⟨records, hreads', rfl, hdiffer⟩ := reads_of_read hread
    obtain rfl := hreads.unique hreads'
    exact ⟨hdiffer, (read_eq_ok_iff.1 hread).2.2.1, by rw [List.map_map]; rfl⟩
  · rintro ⟨hdiffer, hfits, rfl⟩
    have heach : readEach family.type name [] (addresses.map Address.text)
        = ([], addresses.map CanonicalRecord.ofAddress) := hreads.readEach_eq hdiffer
    rw [read_eq_ok_iff, heach]
    exact ⟨shapeFlaws_address _ _ _, rfl, hfits, by rw [List.map_map]; rfl⟩

theorem exists_addresses {contents : List String} {canonical : SortedSet String}
    (h : read family.type subname name contents = .ok canonical) : ∃ addresses : List Address,
      (∀ a ∈ addresses, a.family = family) ∧ canonical.toList = addresses.map Address.text := by
  obtain ⟨records, hreads, rfl, -⟩ := reads_of_read h
  have htexts : ∀ text ∈ (SortedSet.ofList (records.map (·.presentation))).toList,
      ∃ a : Address, a.family = family ∧ a.text = text := by
    intro text htext
    obtain ⟨record, hrecord, rfl⟩ := List.mem_map.1 (SortedSet.mem_toList_ofList.1 htext)
    obtain ⟨content, -, hread⟩ := hreads.exists_content record hrecord
    obtain ⟨a, hfamily, rfl⟩ := CanonicalRecord.exists_address hread
    exact ⟨a, hfamily, rfl⟩
  generalize (SortedSet.ofList (records.map (·.presentation))).toList = texts at htexts
  induction texts with
  | nil => exact ⟨[], List.forall_mem_nil _, rfl⟩
  | cons text rest ih =>
      obtain ⟨⟨a, hfamily, rfl⟩, hrest⟩ := List.forall_mem_cons.1 htexts
      obtain ⟨addresses, hfamilies, rfl⟩ := ih hrest
      exact ⟨a :: addresses, List.forall_mem_cons.2 ⟨hfamily, hfamilies⟩, rfl⟩

end RecordSet

end ZoneKeeper
