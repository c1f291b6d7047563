import ZoneKeeper.Proofs.Name.DomainName
import ZoneKeeper.Proofs.Record.AddressPrefix
import ZoneKeeper.Proofs.Text.Delimited
import ZoneKeeper.Record.Field

namespace ZoneKeeper

namespace DomainName

theorem IsValid.length_le {n : DomainName} (h : n.IsValid) {label : Octets}
    (hlabel : label ∈ n.labels) : label.length ≤ 255 :=
  (h.label label hlabel).2.trans (by decide)

theorem eq_of_labels {labels labels' : List Octets}
    (h : ∀ l ∈ labels, l ≠ [] ∧ l.length ≤ maxLabel)
    (h' : ∀ l ∈ labels', l ≠ [] ∧ l.length ≤ maxLabel) {rest rest' : Octets}
    (heq : labels.flatMap counted ++ (0 :: rest) = labels'.flatMap counted ++ (0 :: rest')) :
    labels = labels' ∧ rest = rest' := by
  have hroot {l : Octets} (hl : l ≠ [] ∧ l.length ≤ maxLabel) {more t : Octets} :
      0 :: t ≠ counted l ++ more := by
    intro hcontra
    have hcount := congrArg UInt8.toNat (List.cons_eq_cons.1 hcontra).1
    rw [UInt8.toNat_ofNat_of_lt' (Nat.lt_of_le_of_lt hl.2 (by decide))] at hcount
    exact hl.1 (List.length_eq_zero_iff.1 hcount.symm)
  induction labels generalizing labels' with
  | nil =>
      cases labels' with
      | nil => exact ⟨rfl, (List.cons_eq_cons.1 heq).2⟩
      | cons l' labels' =>
          rw [List.flatMap_cons, List.append_assoc] at heq
          exact absurd heq (hroot (h' l' List.mem_cons_self))
  | cons l labels ih =>
      rw [List.flatMap_cons, List.append_assoc] at heq
      cases labels' with
      | nil => exact absurd heq.symm (hroot (h l List.mem_cons_self))
      | cons l' labels' =>
          rw [List.flatMap_cons, List.append_assoc] at heq
          obtain ⟨rfl, hlater⟩ := selfDelimiting_counted
            ((h l List.mem_cons_self).2.trans (by decide))
            ((h' l' List.mem_cons_self).2.trans (by decide)) heq
          obtain ⟨rfl, hrest⟩ := ih (fun m hm => h m (List.mem_cons_of_mem _ hm))
            (fun m hm => h' m (List.mem_cons_of_mem _ hm)) hlater
          exact ⟨rfl, hrest⟩

theorem selfDelimiting_wire : SelfDelimiting IsValid wire := by
  rintro ⟨labels⟩ ⟨labels'⟩ h h' rest rest' heq
  rw [wire, wire, List.append_assoc, List.append_assoc] at heq
  obtain ⟨rfl, hrest⟩ := eq_of_labels h.label h'.label heq
  exact ⟨rfl, hrest⟩

end DomainName

theorem IPv4.bytes_inj {a b : IPv4} (h : a.bytes = b.bytes) : a = b := by
  cases a
  cases b
  congr

namespace IPv6

theorem bytes_inj {a b : IPv6} (h : a.bytes = b.bytes) : a = b := by
  have hgroups : a.groups = b.groups :=
    selfDelimiting_be16.flatMap_inj (fun _ _ => List.cons_ne_nil _ _) (fun _ _ => trivial)
      (fun _ _ => trivial) h
  cases a
  cases b
  congr

theorem length_bytes (a : IPv6) : a.bytes.length = 16 := by
  have htwo : a.groups.map (fun g => (be16 g).length) = List.replicate 8 2 :=
    List.eq_replicate_iff.2 ⟨by rw [List.length_map, a.size], List.forall_mem_map.2 fun _ _ => rfl⟩
  rw [bytes, List.length_flatMap, htwo]
  rfl

end IPv6

theorem selfDelimiting_ipv4 : SelfDelimiting (fun _ => True) IPv4.bytes :=
  .of_length 4 (fun a _ => a.size) fun _ _ _ _ => IPv4.bytes_inj

theorem selfDelimiting_ipv6 : SelfDelimiting (fun _ => True) IPv6.bytes :=
  .of_length 16 (fun a _ => a.length_bytes) fun _ _ _ _ => IPv6.bytes_inj

namespace Location

theorem wire_inj {l m : Location} (h : l.wire = m.wire) : l = m := by
  rw [wire, wire, List.append_assoc, List.append_assoc, List.append_assoc, List.append_assoc] at h
  obtain ⟨hprecisions, h⟩ := List.append_inj h rfl
  obtain ⟨hlatitude, h⟩ := selfDelimiting_be32 trivial trivial h
  obtain ⟨hlongitude, h⟩ := selfDelimiting_be32 trivial trivial h
  have haltitude := be32_inj h
  simp only [List.cons.injEq, and_true, true_and] at hprecisions
  obtain ⟨hsize, hhorizontal, hvertical⟩ := hprecisions
  cases l
  cases m
  congr

theorem selfDelimiting_wire : SelfDelimiting (fun _ => True) wire :=
  .of_length 16 (fun _ _ => rfl) fun _ _ _ _ => wire_inj

end Location

theorem Address.length_bytes (a : Address) :
    a.bytes.length = match a.family with
      | .v4 => 4
      | .v6 => 16 := by
  cases a with
  | v4 a => exact a.size
  | v6 a => exact a.length_bytes

theorem Address.eq_of_bytes {a b : Address} (hfamily : a.family = b.family)
    (h : a.bytes = b.bytes) : a = b := by
  cases a with
  | v4 a =>
      cases b with
      | v4 b => exact congrArg _ (IPv4.bytes_inj h)
      | v6 b => cases hfamily
  | v6 a =>
      cases b with
      | v4 b => cases hfamily
      | v6 b => exact congrArg _ (IPv6.bytes_inj h)

namespace AddressPrefix

theorem exists_replicate (t : Octets) :
    ∃ zeros, dropTrailingZeros t ++ List.replicate zeros 0 = t := by
  induction t with
  | nil => exact ⟨0, rfl⟩
  | cons b rest ih =>
      obtain ⟨zeros, ih⟩ := ih
      rw [dropTrailingZeros]
      split
      · next hnil =>
          rw [hnil, List.nil_append] at ih
          split
          · next hzero =>
              obtain rfl := eq_of_beq hzero
              exact ⟨zeros + 1, congrArg (0 :: ·) ih⟩
          · exact ⟨zeros, congrArg (b :: ·) ih⟩
      · next hkept => exact ⟨zeros, congrArg (b :: ·) ih⟩

theorem dropTrailingZeros_inj {s t : Octets} (hlength : s.length = t.length)
    (h : dropTrailingZeros s = dropTrailingZeros t) : s = t := by
  obtain ⟨m, hm⟩ := exists_replicate s
  obtain ⟨n, hn⟩ := exists_replicate t
  have hzeros : m = n := by
    rw [← hm, ← hn, h, List.length_append, List.length_append, List.length_replicate,
      List.length_replicate] at hlength
    exact Nat.add_left_cancel hlength
  rw [← hm, ← hn, h, hzeros]

theorem length_kept_le (p : AddressPrefix) :
    (dropTrailingZeros p.network.address.bytes).length ≤ 16 := by
  obtain ⟨zeros, hzeros⟩ := exists_replicate p.network.address.bytes
  have hlength := congrArg List.length hzeros
  rw [List.length_append, p.network.address.length_bytes] at hlength
  split at hlength <;> omega

theorem countOctet_lt {n : Nat} (h : n ≤ 16) (negated : Bool) :
    (if negated then 128 else 0) + n < 256 := by
  split <;> omega

theorem IsValid.length_lt {p : AddressPrefix} (h : p.IsValid) : p.network.length < 256 := by
  refine Nat.lt_of_le_of_lt h ?_
  cases p.network.address.family <;> decide

theorem familyNumber_inj {f g : Family} (h : familyNumber f = familyNumber g) : f = g := by
  cases f <;> cases g <;> first | rfl | exact absurd h (by decide)

theorem selfDelimiting_wire : SelfDelimiting IsValid wire := by
  rintro ⟨negated, address, length⟩ ⟨negated', address', length'⟩ h h' rest rest' heq
  have hkept := length_kept_le ⟨negated, address, length⟩
  have hkept' := length_kept_le ⟨negated', address', length'⟩
  have hlength := h.length_lt
  have hlength' := h'.length_lt
  simp only [wire, List.append_assoc] at heq hkept hkept' hlength hlength'
  obtain ⟨hnumber, heq⟩ := selfDelimiting_be16 trivial trivial heq
  have hfamily := familyNumber_inj hnumber
  simp only [List.cons_append, List.nil_append, List.cons.injEq] at heq
  obtain ⟨hfirst, hcount, heq⟩ := heq
  have hfirst := congrArg UInt8.toNat hfirst
  have hcount := congrArg UInt8.toNat hcount
  rw [UInt8.toNat_ofNat_of_lt' hlength, UInt8.toNat_ofNat_of_lt' hlength'] at hfirst
  rw [UInt8.toNat_ofNat_of_lt' (countOctet_lt hkept negated),
    UInt8.toNat_ofNat_of_lt' (countOctet_lt hkept' negated')] at hcount
  have hnegated : negated = negated' := by
    cases negated <;> cases negated' <;> simp at hcount ⊢ <;> omega
  rw [hnegated, Nat.add_left_cancel_iff] at hcount
  obtain ⟨hbytes, hrest⟩ := List.append_inj heq hcount
  have haddress := Address.eq_of_bytes hfamily
    (dropTrailingZeros_inj (by rw [address.length_bytes, address'.length_bytes, hfamily]) hbytes)
  rw [hnegated, haddress, hfirst]
  exact ⟨rfl, hrest⟩

theorem wire_ne_nil (p : AddressPrefix) : p.wire ≠ [] := List.cons_ne_nil _ _

end AddressPrefix

namespace Field

theorem length_chunks {t piece : Octets} (h : piece ∈ chunks t) : piece.length ≤ 255 := by
  fun_induction chunks t with
  | case1 t ht =>
      obtain rfl := List.mem_singleton.1 h
      exact ht
  | case2 t ht ih =>
      rcases List.mem_cons.1 h with rfl | h
      · exact List.length_take_le 255 t
      · exact ih h

theorem chunks_of_le {t : Octets} (h : t.length ≤ 255) : chunks t = [t] := by
  rw [chunks, if_pos h]

end Field

end ZoneKeeper
