import Mathlib.Algebra.Group.Action.Defs
import ZoneKeeper.Proofs.Record.Addresses
import ZoneKeeper.Proofs.Record.Size

namespace ZoneKeeper

theorem length_octets (s : String) : (octets s).length = s.utf8ByteSize := by
  rw [octets, Array.length_toList]
  rfl

namespace RecordSet

variable {type subname name : String} {contents : List String} {canonical : SortedSet String}
  {records : List CanonicalRecord}

def responseSize (records : List CanonicalRecord) : Nat :=
  (records.map fun record => 12 + record.wire.length).sum

theorem estimate_eq (name : String) (presentations : List String) :
    estimate name presentations = 288 + name.utf8ByteSize
      + (presentations.map fun presentation => 12 + presentation.utf8ByteSize).sum := by
  rw [estimate]
  induction presentations with
  | nil =>
      simp only [List.foldr_nil, List.map_nil, List.sum_nil]
      omega
  | cons presentation rest ih =>
      rw [List.foldr_cons, ih, List.map_cons, List.sum_cons]
      omega

theorem length_wire_le_presentation {content : String} {record : CanonicalRecord} {excess : Nat}
    (h : CanonicalRecord.read type content = .ok record)
    (hexcess : RecordType.excess? type = some excess) : ∃ cuts,
    record.wire.length ≤ record.presentation.utf8ByteSize + excess + cuts
      ∧ 255 * cuts ≤ record.presentation.utf8ByteSize + 1
      ∧ (type ≠ "TXT" → type ≠ "SPF" → cuts = 0) := by
  obtain ⟨d, hd, rfl, -⟩ := CanonicalRecord.of_read h
  have hservice : ¬ (type = "SVCB" ∨ type = "HTTPS") := by
    rintro (rfl | rfl) <;> cases hexcess
  obtain ⟨htext, -⟩ := RecordData.read_write hd fun h => absurd h hservice
  have hpresentation : (CanonicalRecord.ofData d).presentation.utf8ByteSize = d.write.length := by
    rw [← length_octets]
    exact congrArg List.length htext.octets_text
  rw [hpresentation]
  refine ⟨d.cuts, ?_, d.cuts_le, RecordData.cuts_eq_zero hd⟩
  have hwire : d.wire.length ≤ d.write.length + d.cuts + excess :=
    RecordData.length_wire_le hd hexcess
  rw [CanonicalRecord.ofData]
  dsimp only
  omega

theorem Reads.responseSize_le {excess : Nat} (h : Reads type contents records)
    (hexcess : RecordType.excess? type = some excess) : ∃ cuts,
    responseSize records ≤ (records.map fun record => 12 + record.presentation.utf8ByteSize).sum
        + contents.length * excess + cuts
      ∧ 255 * cuts ≤ (records.map fun record => 12 + record.presentation.utf8ByteSize).sum
      ∧ (type ≠ "TXT" → type ≠ "SPF" → cuts = 0) := by
  induction h with
  | nil => exact ⟨0, Nat.zero_le _, Nat.zero_le _, fun _ _ => rfl⟩
  | @cons content record rest later hfirst _ ih =>
      obtain ⟨cuts, hsize, hcuts, hnone⟩ := ih
      obtain ⟨cut, hwire, hcut, hwhole⟩ := length_wire_le_presentation hfirst hexcess
      refine ⟨cut + cuts, ?_, ?_, fun htxt hspf => by rw [hwhole htxt hspf, hnone htxt hspf]⟩
      · rw [responseSize] at hsize ⊢
        simp only [List.map_cons, List.sum_cons, List.length_cons, Nat.succ_mul]
        omega
      · simp only [List.map_cons, List.sum_cons]
        omega

theorem Reads.responseSize_of_one (h : Reads type contents records)
    (hone : contents.length ≤ 1) : responseSize records ≤ 12 + RecordFlaw.maxWire := by
  cases h with
  | nil => exact Nat.zero_le _
  | cons hfirst hrest =>
      cases hrest with
      | nil =>
          obtain ⟨_, -, -, hlength⟩ := CanonicalRecord.of_read hfirst
          rw [responseSize, List.map_singleton, List.sum_singleton]
          omega
      | cons => simp at hone

theorem excess_of_strings (h : type = "TXT" ∨ type = "SPF") :
    RecordType.excess? type = some 0 := by
  rcases h with rfl | rfl <;> rfl

theorem responseSize_le_of_all {excess : Nat}
    (h : ∀ record ∈ records, record.wire.length ≤ record.presentation.utf8ByteSize + excess) :
    responseSize records ≤ (records.map fun record => 12 + record.presentation.utf8ByteSize).sum
      + records.length * excess := by
  induction records with
  | nil => exact Nat.zero_le _
  | cons record rest ih =>
      obtain ⟨hfirst, hrest⟩ := List.forall_mem_cons.1 h
      have hsize := ih hrest
      rw [responseSize] at hsize ⊢
      simp only [List.map_cons, List.sum_cons, List.length_cons, Nat.succ_mul]
      omega

/--
A set that is accepted fits a response if it has one record at most; and if the wire form of no
record has more than so many octets more than its written form, where that is made up for by what
the estimate allows for the question and the owner. Then the estimate is not below the real size.
-/
theorem response_fits (h : read type subname name contents = .ok canonical) : ∃ records,
    Reads type contents records
      ∧ (contents.length ≤ 1 → responseSize records ≤ maxResponse)
      ∧ ∀ excess, RecordType.excess? type = some excess ∨ (canonical.size = contents.length
          ∧ ∀ record ∈ records,
            record.wire.length ≤ record.presentation.utf8ByteSize + excess) →
        contents.length * excess ≤ 288 + name.utf8ByteSize →
        responseSize records ≤ estimate name canonical.toList
          ∧ estimate name canonical.toList ≤ maxResponse := by
  obtain ⟨records, hreads, hcanonical, -⟩ := reads_of_read h
  have hlimit := (read_eq_ok_iff.1 h).2.2.1
  have hestimate (hperm : canonical.toList.Perm (records.map (·.presentation))) :
      estimate name canonical.toList = 288 + name.utf8ByteSize
        + (records.map fun record => 12 + record.presentation.utf8ByteSize).sum := by
    rw [estimate_eq, (hperm.map _).sum_eq, List.map_map]
    rfl
  refine ⟨records, hreads, fun hone => ?_, fun excess hexcess hfew => ⟨?_, hlimit⟩⟩
  · exact (hreads.responseSize_of_one hone).trans (by decide)
  rcases hexcess with hexcess | ⟨hcount, hexcess⟩
  · have hservice : ¬ (type = "SVCB" ∨ type = "HTTPS") := by
      rintro (rfl | rfl) <;> cases hexcess
    obtain ⟨records', hreads', hperm, -, -⟩ := none_is_merged h fun h => absurd h hservice
    obtain rfl := hreads.unique hreads'
    obtain ⟨cuts, hsize, hcuts, hnone⟩ := hreads.responseSize_le hexcess
    have hestimate := hestimate hperm
    have hmax : maxResponse = 65535 := rfl
    -- strings are cut no more than 257 times within the limit, and have no other excess
    by_cases htype : type = "TXT" ∨ type = "SPF"
    · obtain rfl := Option.some.inj (hexcess.symm.trans (excess_of_strings htype))
      omega
    · obtain ⟨htxt, hspf⟩ := not_or.1 htype
      have hcuts := hnone htxt hspf
      omega
  · have hlength : contents.length = records.length := hreads.length_eq
    have hsize := responseSize_le_of_all hexcess
    subst hcanonical
    rw [hestimate (SortedSet.perm_toList_of_size (by rw [hcount, hlength, List.length_map]))]
    rw [hlength] at hfew
    omega

theorem exchanges_fit : ∃ (canonical : SortedSet String) (records : List CanonicalRecord),
    read "MX" "" "example.com." ["10 mx1.example.com.", "20 mx2.example.com."] = .ok canonical
      ∧ Reads "MX" ["10 mx1.example.com.", "20 mx2.example.com."] records
      ∧ responseSize records ≤ estimate "example.com." canonical.toList := by
  have haccepted : (read "MX" "" "example.com."
      ["10 mx1.example.com.", "20 mx2.example.com."]).isOk = true := by
    decide +kernel
  cases hread : read "MX" "" "example.com." ["10 mx1.example.com.", "20 mx2.example.com."] with
  | error flaws =>
      rw [hread] at haccepted
      cases haccepted
  | ok canonical =>
      obtain ⟨records, hreads, -, hfits⟩ := response_fits hread
      exact ⟨canonical, records, rfl, hreads, (hfits 1 (Or.inl rfl) (by decide +kernel)).1⟩

def shortAddresses (count : Nat) : List Address :=
  (List.range count).map fun n => .v6 ⟨[0, 0, 0, 0, 0, 0, 0, UInt16.ofNat (n + 1)], rfl⟩

theorem length_write_short {g : UInt16} (hg : g ≠ 0) :
    (IPv6.write ⟨[0, 0, 0, 0, 0, 0, 0, g], rfl⟩).length ≤ 6 := by
  have hrun : IPv6.longestZeroRun [0, 0, 0, 0, 0, 0, 0, g] = (0, 7) := by
    simp [IPv6.longestZeroRun, IPv6.zeroRun, hg]
  have hgroup : (IPv6.writeGroup g).length ≤ 4 := by
    rw [IPv6.writeGroup, List.length_map]
    exact (Nat.length_toDigits_le_iff (by decide) (by decide)).2 g.toNat_lt
  have hwrite : IPv6.write ⟨[0, 0, 0, 0, 0, 0, 0, g], rfl⟩
      = [Octet.colon, Octet.colon] ++ IPv6.writeGroup g := by
    simp [IPv6.write, IPv6.carried?, hrun, IPv6.writeGroups, Octets.joinWith]
  rw [hwrite, List.length_append, List.length_cons, List.length_singleton]
  omega

theorem nodup_shortAddresses {count : Nat} (h : count < 65536) :
    (shortAddresses count).Nodup := by
  refine List.Nodup.map_on (fun m hm n hn heq => ?_) List.nodup_range
  have hm := List.mem_range.1 hm
  have hn := List.mem_range.1 hn
  have hgroup : UInt16.ofNat (m + 1) = UInt16.ofNat (n + 1) := by simpa using heq
  have hnat := congrArg UInt16.toNat hgroup
  rw [UInt16.toNat_ofNat_of_lt' (show m + 1 < 65536 by omega),
    UInt16.toNat_ofNat_of_lt' (show n + 1 < 65536 by omega)] at hnat
  omega

variable {count : Nat}

theorem family_shortAddresses : ∀ a ∈ shortAddresses count, a.family = .v6 :=
  List.forall_mem_map.2 fun _ _ => rfl

theorem length_shortAddresses : (shortAddresses count).length = count := by
  rw [shortAddresses, List.length_map, List.length_range]

theorem responseSize_shortAddresses :
    responseSize ((shortAddresses count).map CanonicalRecord.ofAddress) = count * 28 := by
  have hall : ∀ a ∈ shortAddresses count,
      ((fun record : CanonicalRecord => 12 + record.wire.length) ∘ .ofAddress) a = 28 := by
    intro a ha
    simp only [Function.comp_apply, CanonicalRecord.ofAddress, a.length_bytes,
      family_shortAddresses a ha]
  rw [responseSize, List.map_map, List.map_congr_left hall, List.map_const', List.sum_replicate,
    length_shortAddresses, smul_eq_mul]

theorem estimate_shortAddresses (h : count < 65536) :
    estimate name (SortedSet.ofList ((shortAddresses count).map Address.text)).toList
      ≤ 288 + name.utf8ByteSize + count * 18 := by
  have hperm : (SortedSet.ofList ((shortAddresses count).map Address.text)).toList.Perm
      ((shortAddresses count).map Address.text) := by
    refine SortedSet.perm_toList_ofList ((nodup_shortAddresses h).map_on fun a ha b hb htext => ?_)
    exact Address.text_injective
      ((family_shortAddresses a ha).trans (family_shortAddresses b hb).symm) htext
  have hshort : ∀ a ∈ shortAddresses count, 12 + a.text.utf8ByteSize ≤ 18 := by
    refine List.forall_mem_map.2 fun n hn => ?_
    have hn := List.mem_range.1 hn
    have hne : UInt16.ofNat (n + 1) ≠ 0 := by
      intro hzero
      have hnat := congrArg UInt16.toNat hzero
      rw [UInt16.toNat_ofNat_of_lt' (show n + 1 < 65536 by omega)] at hnat
      exact Nat.succ_ne_zero n hnat
    rw [← length_octets, Address.octets_text]
    exact Nat.add_le_add_left (length_write_short hne) 12
  rw [estimate_eq, (hperm.map _).sum_eq, List.map_map]
  refine Nat.add_le_add_left ?_ _
  refine (List.sum_le_card_nsmul _ 18 (List.forall_mem_map.2 hshort)).trans ?_
  rw [List.length_map, length_shortAddresses, smul_eq_mul]

theorem short_addresses_do_not_fit :
    ∃ (canonical : SortedSet String) (records : List CanonicalRecord),
      read "AAAA" "www" "www.example.com." ((shortAddresses 2341).map Address.text) = .ok canonical
        ∧ Reads "AAAA" ((shortAddresses 2341).map Address.text) records
        ∧ responseSize records = 65548 ∧ maxResponse = 65535 := by
  have hestimate : estimate "www.example.com."
      (SortedSet.ofList ((shortAddresses 2341).map Address.text)).toList ≤ maxResponse :=
    (estimate_shortAddresses (by decide)).trans (by decide +kernel)
  exact ⟨_, _, (read_addresses_iff family_shortAddresses).2
      ⟨nodup_shortAddresses (by decide), hestimate, rfl⟩,
    reads_addresses family_shortAddresses, responseSize_shortAddresses, rfl⟩

end RecordSet

end ZoneKeeper
