import ZoneKeeper.Proofs.Record.Identity
import ZoneKeeper.Proofs.Record.Set

namespace ZoneKeeper

namespace Field

def hasShortStrings : Field → Bool
  | .strings pieces => pieces.all (·.length ≤ 255)
  | _ => true

theorem divided_of_short {f : Field} (h : f.hasShortStrings = true) : f.divided = f := by
  cases f with
  | strings pieces =>
      have hshort : ∀ piece ∈ pieces, piece.length ≤ 255 := fun piece hpiece => by
        simpa using List.all_eq_true.1 h piece hpiece
      have hsame : pieces.flatMap chunks = pieces.flatMap fun piece => [piece] :=
        List.flatMap_congr fun piece hpiece => chunks_of_le (hshort piece hpiece)
      rw [divided, hsame]
      exact congrArg strings (List.flatMap_singleton' pieces)
  | _ => rfl

end Field

namespace RecordData

def hasShortStrings (d : RecordData) : Bool := d.fields.all Field.hasShortStrings

theorem divided_of_short {d : RecordData} (h : d.hasShortStrings = true) : d.divided = d := by
  refine congrArg mk ((List.map_congr_left fun f hf => ?_).trans (List.map_id _))
  exact Field.divided_of_short (List.all_eq_true.1 h f hf)

end RecordData

namespace RecordSet

variable {type subname name : String} {contents contents' : List String}
  {records records' : List CanonicalRecord} {canonical canonical' : SortedSet String}

def CutAlike (type : String) (contents contents' : List String) : Prop :=
  ∀ s ∈ contents, ∀ t ∈ contents', ∀ d e, RecordData.read type (octets s) = .ok d →
    RecordData.read type (octets t) = .ok e → d.wire = e.wire → d = e

theorem Reads.exists_record (h : Reads type contents records) :
    ∀ content ∈ contents, ∃ record ∈ records, CanonicalRecord.read type content = .ok record := by
  induction h with
  | nil => exact List.forall_mem_nil _
  | cons hfirst _ ih =>
      refine List.forall_mem_cons.2 ⟨⟨_, List.mem_cons_self, hfirst⟩, fun content hcontent => ?_⟩
      obtain ⟨record, hrecord, hread⟩ := ih content hcontent
      exact ⟨record, List.mem_cons_of_mem _ hrecord, hread⟩

theorem Reads.divided_eq (h : Reads type contents records) {s t : String} (hs : s ∈ contents)
    {d e : RecordData} (hd : RecordData.read type (octets s) = .ok d)
    (he : RecordData.read type (octets t) = .ok e) (hwire : d.wire = e.wire) :
    d.divided = e.divided := by
  obtain ⟨record, -, hread⟩ := h.exists_record s hs
  obtain ⟨d', hd', rfl, hlength⟩ := CanonicalRecord.of_read hread
  obtain rfl := Except.ok.inj (hd.symm.trans hd')
  exact (RecordData.isSound_of_read hd).divided_eq (RecordData.isSound_of_read he)
    (Nat.lt_of_le_of_lt (Nat.not_lt.1 hlength) (by decide)) hwire

theorem Reads.cutAlike (h : Reads type contents records)
    (hshort : (type ≠ "TXT" ∧ type ≠ "SPF") ∨ ∀ s ∈ contents ++ contents', ∀ d,
      RecordData.read type (octets s) = .ok d → d.hasShortStrings = true) :
    CutAlike type contents contents' := by
  intro s hs t ht d e hd he hwire
  have hdivided := h.divided_eq hs hd he hwire
  rcases hshort with ⟨htxt, hspf⟩ | hshort
  · rw [(RecordData.isSound_of_read hd).divided htxt hspf,
      (RecordData.isSound_of_read he).divided htxt hspf] at hdivided
    exact hdivided
  · rw [RecordData.divided_of_short (hshort s (List.mem_append_left _ hs) d hd),
      RecordData.divided_of_short (hshort t (List.mem_append_right _ ht) e he)] at hdivided
    exact hdivided

def wires (type : String) (contents : List String) : List Octets :=
  contents.filterMap fun content => (CanonicalRecord.read type content).toOption.map (·.wire)

theorem Reads.wires_eq (h : Reads type contents records) :
    wires type contents = records.map (·.wire) := by
  induction h with
  | nil => rfl
  | cons hfirst _ ih =>
      rw [wires] at ih ⊢
      rw [List.filterMap_cons, hfirst, List.map_cons, ← ih]
      rfl

def SameWires (type : String) (contents contents' : List String) : Prop :=
  ∀ w, w ∈ wires type contents ↔ w ∈ wires type contents'

theorem SameWires.mem_iff (hsame : SameWires type contents contents')
    (hreads : Reads type contents records) (hreads' : Reads type contents' records')
    (hcut : CutAlike type contents contents') (record : CanonicalRecord) :
    record ∈ records ↔ record ∈ records' := by
  rw [SameWires, hreads.wires_eq, hreads'.wires_eq] at hsame
  have heq {a b : CanonicalRecord} (ha : a ∈ records) (hb : b ∈ records')
      (hwire : a.wire = b.wire) : a = b := by
    obtain ⟨s, hs, hread⟩ := hreads.exists_content a ha
    obtain ⟨t, ht, hread'⟩ := hreads'.exists_content b hb
    obtain ⟨d, hd, rfl, -⟩ := CanonicalRecord.of_read hread
    obtain ⟨e, he, rfl, -⟩ := CanonicalRecord.of_read hread'
    rw [hcut s hs t ht d e hd he hwire]
  constructor
  · intro hrecord
    obtain ⟨other, hother, hwire⟩ := List.mem_map.1
      ((hsame record.wire).1 (List.mem_map_of_mem hrecord))
    exact heq hrecord hother hwire.symm ▸ hother
  · intro hrecord
    obtain ⟨other, hother, hwire⟩ := List.mem_map.1
      ((hsame record.wire).2 (List.mem_map_of_mem hrecord))
    exact heq hother hrecord hwire ▸ hother

theorem ofList_eq_iff_cutAlike (hreads : Reads type contents records)
    (hreads' : Reads type contents' records')
    (hdiffer : records.Pairwise fun a b => a.wire ≠ b.wire)
    (hsame : SameWires type contents contents') :
    SortedSet.ofList (records.map (·.presentation))
        = SortedSet.ofList (records'.map (·.presentation))
      ↔ CutAlike type contents contents' := by
  rw [SortedSet.ofList_eq_iff]
  constructor
  · intro hpresented
    by_cases htype : type ≠ "TXT" ∧ type ≠ "SPF"
    · exact hreads.cutAlike (Or.inl htype)
    have hservice : ¬ (type = "SVCB" ∨ type = "HTTPS") := by
      rintro (rfl | rfl) <;> exact htype (by decide)
    intro s hs t ht d e hd he hwire
    obtain ⟨first, hfirst, hread⟩ := hreads.exists_record s hs
    obtain ⟨other, hother, hread'⟩ := hreads'.exists_record t ht
    obtain ⟨twin, htwin, hpresentation⟩ := List.mem_map.1
      ((hpresented other.presentation).2 (List.mem_map_of_mem hother))
    -- the one among the first records that is presented like the other has its wire form, too
    have hmem : other ∈ records := by
      obtain ⟨u, -, hread''⟩ := hreads.exists_content twin htwin
      rwa [← CanonicalRecord.eq_of_presentation hread'' hread' (fun h => absurd h hservice)
        hpresentation]
    obtain ⟨d', hd', rfl, -⟩ := CanonicalRecord.of_read hread
    obtain rfl := Except.ok.inj (hd.symm.trans hd')
    obtain ⟨e', he', rfl, -⟩ := CanonicalRecord.of_read hread'
    obtain rfl := Except.ok.inj (he.symm.trans he')
    have hnodup : (records.map (·.wire)).Nodup := by
      rw [List.Nodup, List.pairwise_map]
      exact hdiffer
    have hrecord := List.inj_on_of_nodup_map hnodup hfirst hmem hwire
    exact CanonicalRecord.data_eq_of_presentation hd he (fun h => absurd h hservice)
      (congrArg CanonicalRecord.presentation hrecord)
  · intro hcut a
    simp only [List.mem_map, hsame.mem_iff hreads hreads' hcut]

theorem Reads.readEach_eq (h : Reads type contents records) {seen : List CanonicalRecord}
    (hdiffer : (seen.reverse ++ records).Pairwise fun a b => a.wire ≠ b.wire) :
    readEach type name seen contents = ([], seen.reverse ++ records) := by
  induction h generalizing seen with
  | nil => rw [readEach, List.append_nil]
  | @cons content record rest later hfirst _ ih =>
      have hnew : seen.find? (·.wire == record.wire) = none := by
        rw [List.find?_eq_none]
        intro first hmem
        simpa using (List.pairwise_append.1 hdiffer).2.2 first (List.mem_reverse.2 hmem) record
          List.mem_cons_self
      rw [List.append_cons, ← List.reverse_cons] at hdiffer
      rw [readEach]
      simp only [hfirst, hnew]
      rw [ih hdiffer, List.reverse_cons, List.append_assoc, List.singleton_append]

theorem read_eq_of_same (h : read type subname name contents = .ok canonical)
    (hlength : contents'.length = contents.length)
    (hflaws : (readEach type name [] contents').1 = [])
    (hsame : canonical
      = .ofList ((readEach type name [] contents').2.map (·.presentation))) :
    read type subname name contents' = .ok canonical := by
  obtain ⟨hshape, -, hfits, -⟩ := read_eq_ok_iff_flaws.1 h
  exact read_eq_ok_iff_flaws.2 ⟨hlength ▸ hshape, hflaws, hfits, hsame⟩

theorem read_respelled (h : read type subname name contents = .ok canonical)
    (hreads' : Reads type contents' records')
    (hdiffer : records'.Pairwise fun a b => a.wire ≠ b.wire)
    (hsame : SameWires type contents contents') (hcut : CutAlike type contents contents') :
    read type subname name contents' = .ok canonical := by
  obtain ⟨records, hreads, rfl, hdistinct⟩ := reads_of_read h
  have hmem := hsame.mem_iff hreads hreads' hcut
  have heach : readEach type name [] contents' = ([], records') := hreads'.readEach_eq hdiffer
  have hperm := (List.perm_ext_iff_of_nodup
    (hdistinct.imp fun hwire heq => hwire (congrArg CanonicalRecord.wire heq))
    (hdiffer.imp fun hwire heq => hwire (congrArg CanonicalRecord.wire heq))).2 hmem
  refine read_eq_of_same h ?_ (by rw [heach]) ?_
  · exact hreads'.length_eq.trans (hperm.length_eq.symm.trans hreads.length_eq.symm)
  · rw [heach, SortedSet.ofList_eq_iff]
    exact fun a => (hperm.map _).mem_iff

end RecordSet

end ZoneKeeper
