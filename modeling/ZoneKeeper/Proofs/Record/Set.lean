import Mathlib.Data.List.Forall2
import ZoneKeeper.Proofs.Batch.Bounds
import ZoneKeeper.Proofs.Record.Presentation

namespace ZoneKeeper

namespace RecordSet

variable {type subname name : String} {contents : List String} {canonical : SortedSet String}
  {records : List CanonicalRecord}

theorem lengthFlaws_eq_nil_iff {presentations : List String} :
    lengthFlaws name presentations = [] ↔ estimate name presentations ≤ maxResponse := by
  -- the bound is too large a number to be computed with
  unfold lengthFlaws
  generalize maxResponse = bound
  dsimp only
  split
  · next hexcess => exact iff_of_false (List.cons_ne_nil _ _) (by omega)
  · next hnone => exact iff_of_true rfl (by omega)

theorem read_eq_ok_iff : read type subname name contents = .ok canonical
    ↔ shapeFlaws type subname contents.length = [] ∧ (readEach type name [] contents).1 = []
      ∧ estimate name canonical.toList ≤ maxResponse
      ∧ canonical = .ofList ((readEach type name [] contents).2.map (·.presentation)) := by
  rw [read_eq_ok_iff_flaws, lengthFlaws_eq_nil_iff]

def Reads (type : String) : List String → List CanonicalRecord → Prop :=
  List.Forall₂ fun content record => CanonicalRecord.read type content = .ok record

theorem Reads.exists_content (h : Reads type contents records) :
    ∀ record ∈ records, ∃ content ∈ contents, CanonicalRecord.read type content = .ok record := by
  induction h with
  | nil => exact List.forall_mem_nil _
  | cons hfirst _ ih =>
      refine List.forall_mem_cons.2 ⟨⟨_, List.mem_cons_self, hfirst⟩, fun record hrecord => ?_⟩
      obtain ⟨content, hcontent, hread⟩ := ih record hrecord
      exact ⟨content, List.mem_cons_of_mem _ hcontent, hread⟩

theorem Reads.unique {records' : List CanonicalRecord} (h : Reads type contents records)
    (h' : Reads type contents records') : records = records' := by
  induction h generalizing records' with
  | nil =>
      cases h'
      rfl
  | cons hfirst _ ih =>
      cases h' with
      | cons hfirst' hrest' => rw [Except.ok.inj (hfirst.symm.trans hfirst'), ih hrest']

theorem reads_of_readEach {seen : List CanonicalRecord}
    (hseen : seen.Pairwise fun a b => a.wire ≠ b.wire)
    (h : (readEach type name seen contents).1 = []) : ∃ records, Reads type contents records
      ∧ (readEach type name seen contents).2 = seen.reverse ++ records
      ∧ (seen.reverse ++ records).Pairwise fun a b => a.wire ≠ b.wire := by
  induction contents generalizing seen with
  | nil =>
      refine ⟨[], .nil, (List.append_nil _).symm, ?_⟩
      rw [List.append_nil, List.pairwise_reverse]
      exact hseen.imp Ne.symm
  | cons content rest ih =>
      simp only [readEach] at h ⊢
      split at h
      · cases h
      · next record hrecord =>
          split at h
          · cases h
          · next hnew =>
              have hnew : ∀ first ∈ seen, record.wire ≠ first.wire := fun first hfirst heq =>
                (List.find?_eq_none.1 hnew first hfirst) (beq_iff_eq.2 heq.symm)
              obtain ⟨records, hreads, hresult, hdiffer⟩ :=
                ih (List.pairwise_cons.2 ⟨hnew, hseen⟩) h
              rw [List.reverse_cons, List.append_assoc] at hresult hdiffer
              exact ⟨record :: records, .cons hrecord hreads, hresult, hdiffer⟩

theorem reads_of_read (h : read type subname name contents = .ok canonical) :
    ∃ records, Reads type contents records ∧ canonical = .ofList (records.map (·.presentation))
      ∧ records.Pairwise fun a b => a.wire ≠ b.wire := by
  obtain ⟨-, heach, rfl⟩ := of_read h
  obtain ⟨records, hreads, hresult, hdiffer⟩ := reads_of_readEach .nil heach
  rw [List.reverse_nil, List.nil_append] at hresult hdiffer
  exact ⟨records, hreads, by rw [hresult], hdiffer⟩

theorem none_is_merged (h : read type subname name contents = .ok canonical)
    (hspace : type = "SVCB" ∨ type = "HTTPS" → ∀ content ∈ contents, ∀ d,
      RecordData.read type (octets content) = .ok d → d.hasNoSpace = true) :
    ∃ records, Reads type contents records
      ∧ canonical.toList.Perm (records.map (·.presentation))
      ∧ canonical.size = contents.length
      ∧ records.Pairwise fun a b => a.wire ≠ b.wire ∧ a.presentation ≠ b.presentation := by
  obtain ⟨records, hreads, rfl, hdiffer⟩ := reads_of_read h
  have hpresented : records.Pairwise fun a b =>
      a.wire ≠ b.wire ∧ a.presentation ≠ b.presentation := by
    refine hdiffer.imp_of_mem fun {a b} ha hb hwire => ⟨hwire, fun hsame => hwire ?_⟩
    obtain ⟨s, hs, hread⟩ := hreads.exists_content a ha
    obtain ⟨t, ht, hread'⟩ := hreads.exists_content b hb
    refine congrArg _ (CanonicalRecord.eq_of_presentation hread hread' ?_ hsame)
    intro hservice content hcontent
    rcases List.mem_pair.1 hcontent with rfl | rfl
    · exact hspace hservice _ hs
    · exact hspace hservice _ ht
  have hperm : (SortedSet.ofList (records.map (·.presentation))).toList.Perm
      (records.map (·.presentation)) := by
    refine SortedSet.perm_toList_ofList ?_
    rw [List.Nodup, List.pairwise_map]
    exact hpresented.imp And.right
  have hlength := hperm.length_eq
  rw [SortedSet.toList, SortedMap.keys, List.length_map, List.length_map] at hlength
  exact ⟨records, hreads, hperm, hlength.trans hreads.length_eq.symm, hpresented⟩

theorem tabbed_id_is_kept :
    ∃ (canonical : SortedSet String) (records : List CanonicalRecord),
      read "HTTPS" "www" "www.example.com."
          ["1 . port=053 alpn=\"h2\\009\"", "1 . alpn=h2 port=53"] = .ok canonical
        ∧ canonical.toList.Perm (records.map (·.presentation)) ∧ canonical.size = 2
        ∧ records.Pairwise fun a b => a.wire ≠ b.wire ∧ a.presentation ≠ b.presentation := by
  have haccepted : (read "HTTPS" "www" "www.example.com."
      ["1 . port=053 alpn=\"h2\\009\"", "1 . alpn=h2 port=53"]).isOk = true := by
    decide +kernel
  have hplain : ∀ content ∈ ["1 . port=053 alpn=\"h2\\009\"", "1 . alpn=h2 port=53"],
      (RecordData.read "HTTPS" (octets content)).toOption.all RecordData.hasNoSpace = true := by
    decide +kernel
  cases hread : read "HTTPS" "www" "www.example.com."
      ["1 . port=053 alpn=\"h2\\009\"", "1 . alpn=h2 port=53"] with
  | error flaws =>
      rw [hread] at haccepted
      cases haccepted
  | ok canonical =>
      obtain ⟨records, -, hperm, hsize, hdiffer⟩ := none_is_merged hread
        fun _ content hcontent d hd => by
          have hnone := hplain content hcontent
          rwa [hd] at hnone
      exact ⟨canonical, records, rfl, hperm, hsize, hdiffer⟩

theorem spaced_id_is_merged :
    (read "SVCB" "www" "www.example.com." ["1 . alpn=\"h2 port=53\"", "1 . alpn=h2 port=53"]).map
        (·.toList) = .ok ["1 . alpn=h2 port=53"]
      ∧ CanonicalRecord.read "SVCB" "1 . alpn=\"h2 port=53\"" = .ok ⟨"1 . alpn=h2 port=53",
        [0, 1, 0, 0, 1, 0, 11, 10, 104, 50, 32, 112, 111, 114, 116, 61, 53, 51]⟩
      ∧ CanonicalRecord.read "SVCB" "1 . alpn=h2 port=53" = .ok ⟨"1 . alpn=h2 port=53",
        [0, 1, 0, 0, 1, 0, 3, 2, 104, 50, 0, 3, 0, 2, 0, 53]⟩ := by
  decide +kernel

end RecordSet

end ZoneKeeper
