import ZoneKeeper.Proofs.Record.Counts

namespace ZoneKeeper

namespace RecordData

def divided (d : RecordData) : RecordData := ⟨d.fields.map Field.divided⟩

def counts (d : RecordData) : List Count := d.fields.flatMap Field.counts

@[simp] theorem wire_divided (d : RecordData) : d.divided.wire = d.wire := by
  rw [wire, divided, List.flatMap_map, wire]
  exact List.flatMap_congr fun f _ => f.wire_divided

theorem yields_of_readFields {kinds : List FieldKind} {tokens : List Token} {fields : List Field}
    (h : readFields kinds tokens = .ok fields) :
    fields.map Field.form = kinds.flatMap FieldKind.forms ∧ ∀ f ∈ fields, f.divided.IsSound := by
  induction kinds generalizing tokens fields with
  | nil =>
      obtain ⟨-, rfl⟩ := eq_nil_of_readFields_nil h
      exact ⟨rfl, List.forall_mem_nil _⟩
  | cons kind kinds ih =>
      rw [readFields] at h
      obtain ⟨⟨first, rest⟩, hfirst, h⟩ := bind_eq_ok.1 h
      obtain ⟨later, hlater, h⟩ := bind_eq_ok.1 h
      obtain rfl := Except.ok.inj h
      have hyields := (FieldKind.gives_of_read hfirst).yields
      obtain ⟨hforms, hsound⟩ := ih hlater
      refine ⟨?_, List.forall_mem_append.2 ⟨hyields.sound, hsound⟩⟩
      rw [List.map_append, List.flatMap_cons, hyields.forms, hforms]

theorem endsItself_layout {type : String} {kinds : List FieldKind}
    (h : RecordType.layout? type = some kinds) :
    (kinds.flatMap FieldKind.forms).dropLast.all FieldKind.endsItself = true := by
  unfold RecordType.layout? at h
  split at h <;> cases h <;> rfl

theorem strings_notMem_layout {type : String} {kinds : List FieldKind}
    (h : RecordType.layout? type = some kinds) (htxt : type ≠ "TXT") (hspf : type ≠ "SPF") :
    .strings ∉ kinds.flatMap FieldKind.forms := by
  unfold RecordType.layout? at h
  split at h <;> cases h <;> first
    | exact absurd rfl htxt
    | exact absurd rfl hspf
    | decide

theorem fields_eq_of_wire {fs gs : List Field} (hforms : fs.map Field.form = gs.map Field.form)
    (hends : (fs.map Field.form).dropLast.all FieldKind.endsItself = true)
    (hf : ∀ f ∈ fs, f.IsSound) (hg : ∀ g ∈ gs, g.IsSound)
    (hlength : (fs.flatMap Field.wire).length < 65536)
    (h : fs.flatMap Field.wire = gs.flatMap Field.wire) : fs = gs := by
  induction fs generalizing gs with
  | nil => exact (List.map_eq_nil_iff.1 hforms.symm).symm
  | cons f fs ih =>
      cases gs with
      | nil => cases hforms
      | cons g gs =>
          obtain ⟨hform, hlaterForms⟩ := List.cons_eq_cons.1 hforms
          obtain ⟨hfirst, hlater⟩ := List.forall_mem_cons.1 hf
          obtain ⟨hfirst', hlater'⟩ := List.forall_mem_cons.1 hg
          rw [List.flatMap_cons, List.length_append] at hlength
          cases fs with
          | nil =>
              obtain rfl := List.map_eq_nil_iff.1 hlaterForms.symm
              simp only [List.flatMap_singleton] at h
              rw [Field.wire_inj hform hfirst hfirst' (by omega) h]
          | cons f' fs =>
              rw [List.map_cons, List.map_cons, List.dropLast_cons_cons, List.all_cons,
                Bool.and_eq_true] at hends
              obtain ⟨rfl, hrest⟩ := Field.selfDelimiting_wire hends.1 ⟨rfl, hfirst⟩
                ⟨hform.symm, hfirst'⟩ h
              rw [ih hlaterForms hends.2 hlater hlater' (by omega) hrest]

structure IsSound (type : String) (d : RecordData) : Prop where
  forms : ∃ kinds, RecordType.layout? type = some kinds
    ∧ d.fields.map Field.form = kinds.flatMap FieldKind.forms
  fields : ∀ f ∈ d.fields, f.divided.IsSound

theorem isSound_of_read {type : String} {content : Octets} {d : RecordData}
    (h : read type content = .ok d) : d.IsSound type := by
  obtain ⟨_, kinds, -, hkinds, hfields⟩ := of_read h
  obtain ⟨hforms, hsound⟩ := yields_of_readFields hfields
  exact ⟨⟨kinds, hkinds, hforms⟩, hsound⟩

variable {type : String} {d e : RecordData}

theorem forms_divided (d : RecordData) :
    d.divided.fields.map Field.form = d.fields.map Field.form := by
  rw [divided, List.map_map]
  exact List.map_congr_left fun f _ => f.form_divided

theorem IsSound.divided_eq (h : d.IsSound type) (h' : e.IsSound type)
    (hlength : d.wire.length < 65536) (hwire : d.wire = e.wire) : d.divided = e.divided := by
  rw [← wire_divided] at hlength
  obtain ⟨kinds, hkinds, hforms⟩ := h.forms
  obtain ⟨kinds', hkinds', hforms'⟩ := h'.forms
  obtain rfl := Option.some.inj (hkinds.symm.trans hkinds')
  refine congrArg RecordData.mk (fields_eq_of_wire ?_ ?_ (List.forall_mem_map.2 h.fields)
    (List.forall_mem_map.2 h'.fields) hlength ?_)
  · exact (d.forms_divided.trans hforms).trans (e.forms_divided.trans hforms').symm
  · exact (d.forms_divided.trans hforms) ▸ endsItself_layout hkinds
  · exact d.wire_divided.trans (hwire.trans e.wire_divided.symm)

theorem IsSound.divided (h : d.IsSound type) (htxt : type ≠ "TXT") (hspf : type ≠ "SPF") :
    d.divided = d := by
  obtain ⟨kinds, hkinds, hforms⟩ := h.forms
  have hnone := strings_notMem_layout hkinds htxt hspf
  rw [← hforms] at hnone
  refine congrArg RecordData.mk ((List.map_congr_left fun f hf => ?_).trans (List.map_id _))
  cases f with
  | strings pieces => exact absurd (List.mem_map_of_mem hf) hnone
  | _ => rfl

theorem IsSound.holds (h : d.IsSound type) (hlength : d.wire.length < 65536) :
    ∀ c ∈ d.counts, c.Holds d.wire := by
  intro c hc
  obtain ⟨f, hf, hc⟩ := List.mem_flatMap.1 hc
  have hin : f.wire <:+: d.wire := Octets.infix_flatMap Field.wire hf
  exact (Field.holds_of_mem_counts (h.fields f hf)
    (Nat.lt_of_le_of_lt hin.length_le hlength) c hc).mono hin

end RecordData

namespace CanonicalRecord

/--
Two records of a type that are accepted have the same wire form just when they have the same data
once strings are cut into pieces of at most 255 octets, and only texts have strings to cut.
-/
theorem identified_by_wire {type s t : String} {record other : CanonicalRecord}
    (h : read type s = .ok record) (h' : read type t = .ok other) :
    ∃ d e, RecordData.read type (octets s) = .ok d ∧ RecordData.read type (octets t) = .ok e
      ∧ (record.wire = other.wire ↔ d.divided = e.divided)
      ∧ (record.wire = other.wire → type ≠ "TXT" → type ≠ "SPF" → d = e)
      ∧ ∀ c ∈ d.counts, c.Holds record.wire := by
  obtain ⟨d, hd, rfl, hlength⟩ := of_read h
  obtain ⟨e, he, rfl, -⟩ := of_read h'
  have hsound := RecordData.isSound_of_read hd
  have hsound' := RecordData.isSound_of_read he
  have hlength : d.wire.length < 65536 := Nat.lt_of_le_of_lt (Nat.not_lt.1 hlength) (by decide)
  have hidentified : d.wire = e.wire → d.divided = e.divided := hsound.divided_eq hsound' hlength
  refine ⟨d, e, hd, he, ⟨hidentified, fun hdivided => ?_⟩, fun hwire htxt hspf => ?_,
    hsound.holds hlength⟩
  · exact d.wire_divided.symm.trans ((congrArg RecordData.wire hdivided).trans e.wire_divided)
  · rw [← hsound.divided htxt hspf, hidentified hwire, hsound'.divided htxt hspf]

theorem parameters_in_another_order :
    ∃ d, RecordData.read "HTTPS" (octets "1 . port=053 alpn=\"h2,h3\"") = .ok d
      ∧ RecordData.read "HTTPS" (octets "1 . alpn=h2,h3 port=53") = .ok d
      ∧ ∀ c ∈ d.counts,
        c.Holds [0, 1, 0, 0, 1, 0, 6, 2, 104, 50, 2, 104, 51, 0, 3, 0, 2, 0, 53] := by
  have hgiven : read "HTTPS" "1 . port=053 alpn=\"h2,h3\"" = .ok ⟨"1 . alpn=h2,h3 port=53",
      [0, 1, 0, 0, 1, 0, 6, 2, 104, 50, 2, 104, 51, 0, 3, 0, 2, 0, 53]⟩ := by
    decide +kernel
  have hother : read "HTTPS" "1 . alpn=h2,h3 port=53" = .ok ⟨"1 . alpn=h2,h3 port=53",
      [0, 1, 0, 0, 1, 0, 6, 2, 104, 50, 2, 104, 51, 0, 3, 0, 2, 0, 53]⟩ := by
    decide +kernel
  obtain ⟨d, e, hd, he, -, hsame, hcounts⟩ := identified_by_wire hgiven hother
  obtain rfl := hsame rfl (by decide) (by decide)
  exact ⟨d, hd, he, hcounts⟩

end CanonicalRecord

end ZoneKeeper
