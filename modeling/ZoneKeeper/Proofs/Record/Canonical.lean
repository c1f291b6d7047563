import ZoneKeeper.Proofs.Record.FieldKind
import ZoneKeeper.Record.Canonical

namespace ZoneKeeper

theorem Octets.isText_words {words : List Octets} (h : ∀ word ∈ words, word.IsText) :
    (Octets.words words).IsText := by
  induction words with
  | nil => exact ⟨"", rfl⟩
  | cons word rest ih =>
      have hword := h word List.mem_cons_self
      cases rest with
      | nil => simpa [Octets.words, joinWith] using hword
      | cons next rest =>
          have hspace : IsText [Octet.space] := isText_of_isAscii rfl
          rw [Octets.words, joinWith, List.intercalate_cons_cons]
          exact (hword.append hspace).append (ih fun w hw => h w (List.mem_cons_of_mem _ hw))

namespace RecordData

def isOrderly : List FieldKind → Bool
  | [] => true
  | kind :: kinds => (!kind.takesAll || kinds.isEmpty) && isOrderly kinds

theorem isOrderly_layout {type : String} {kinds : List FieldKind}
    (h : RecordType.layout? type = some kinds) : isOrderly kinds = true := by
  unfold RecordType.layout? at h
  split at h <;> cases h <;> rfl

theorem eq_of_service_mem_layout {type : String} {kinds : List FieldKind}
    (h : RecordType.layout? type = some kinds) (hservice : .service ∈ kinds) :
    type = "SVCB" ∨ type = "HTTPS" := by
  unfold RecordType.layout? at h
  split at h <;> cases h <;> first
    | exact absurd hservice (by decide)
    | exact Or.inl rfl
    | exact Or.inr rfl

theorem eq_nil_of_readFields_nil {tokens : List Token} {fields : List Field}
    (h : readFields [] tokens = .ok fields) : tokens = [] ∧ fields = [] := by
  cases tokens with
  | nil => exact ⟨rfl, (Except.ok.inj h).symm⟩
  | cons token rest => cases h

theorem exists_readFields {kinds : List FieldKind} {tokens : List Token} {fields : List Field}
    (hkinds : isOrderly kinds = true) (h : readFields kinds tokens = .ok fields)
    (hbare : .service ∈ kinds → ∀ f ∈ fields, f.hasBareIds = true) :
    ∃ tokens, Token.Spells (fields.flatMap Field.words) tokens
      ∧ (∀ word ∈ fields.flatMap Field.words, word.IsText)
      ∧ readFields kinds tokens = .ok fields := by
  induction kinds generalizing tokens fields with
  | nil =>
      obtain ⟨-, rfl⟩ := eq_nil_of_readFields_nil h
      exact ⟨[], .nil, by simp, rfl⟩
  | cons kind kinds ih =>
      simp only [isOrderly, Bool.and_eq_true, Bool.or_eq_true, Bool.not_eq_true',
        List.isEmpty_iff] at hkinds
      rw [readFields] at h
      obtain ⟨⟨first, rest⟩, hfirst, h⟩ := bind_eq_ok.1 h
      obtain ⟨later, hlater, h⟩ := bind_eq_ok.1 h
      obtain rfl := Except.ok.inj h
      obtain ⟨written, hwritten⟩ := (FieldKind.gives_of_read hfirst).exists_rereads
        fun hservice f hf => hbare (hservice ▸ List.mem_cons_self) f (List.mem_append_left _ hf)
      obtain ⟨more, hspells, htexts, hmore⟩ := ih hkinds.2 hlater fun hservice f hf =>
        hbare (List.mem_cons_of_mem _ hservice) f (List.mem_append_right _ hf)
      have hlast : kind.takesAll = true → more = [] := by
        intro hall
        obtain rfl : kinds = [] := hkinds.1.resolve_left (by simp [hall])
        exact (eq_nil_of_readFields_nil hmore).1
      refine ⟨written ++ more, ?_, ?_, ?_⟩
      · rw [List.flatMap_append]
        exact hwritten.spells.append hspells
      · rw [List.flatMap_append]
        intro word hword
        rcases List.mem_append.1 hword with hword | hword
        · exact hwritten.isText word hword
        · exact htexts word hword
      · simp only [readFields, hwritten.read more hlast, hmore, bind, Except.bind]
        rfl

def hasBareIds (d : RecordData) : Bool := d.fields.all Field.hasBareIds

theorem of_read {type : String} {content : Octets} {d : RecordData}
    (h : read type content = .ok d) : ∃ tokens kinds, Token.read content = .ok tokens
      ∧ RecordType.layout? type = some kinds ∧ readFields kinds tokens = .ok d.fields := by
  unfold read at h
  split at h
  · cases h
  · next tokens htokens =>
      split at h
      · cases h
      · next kinds hkinds =>
          obtain ⟨fields, hfields, rfl⟩ := map_eq_ok.1 h
          exact ⟨tokens, kinds, htokens, hkinds, hfields⟩

theorem read_write {type : String} {content : Octets} {d : RecordData}
    (h : read type content = .ok d)
    (hbare : type = "SVCB" ∨ type = "HTTPS" → d.hasBareIds = true) :
    d.write.IsText ∧ read type d.write = .ok d := by
  obtain ⟨tokens, kinds, -, hkinds, hfields⟩ := of_read h
  obtain ⟨written, hspells, htexts, hwritten⟩ :=
    exists_readFields (isOrderly_layout hkinds) hfields
      fun hservice => List.all_eq_true.1 (hbare (eq_of_service_mem_layout hkinds hservice))
  refine ⟨Octets.isText_words htexts, ?_⟩
  rw [read, write, hspells.read]
  simp only [hkinds, hwritten]
  rfl

end RecordData

namespace CanonicalRecord

theorem of_read {type content : String} {record : CanonicalRecord}
    (h : read type content = .ok record) : ∃ d, RecordData.read type (octets content) = .ok d
      ∧ record = ofData d ∧ ¬ record.wire.length > RecordFlaw.maxWire := by
  obtain ⟨d, hd, h⟩ := bind_eq_ok.1 h
  dsimp only at h
  split at h
  · cases h
  · next hlong =>
      obtain rfl := Except.ok.inj h
      exact ⟨d, hd, rfl, hlong⟩

theorem reread {type content : String} {record : CanonicalRecord}
    (h : read type content = .ok record)
    (hbare : type = "SVCB" ∨ type = "HTTPS" →
      ∀ d, RecordData.read type (octets content) = .ok d → d.hasBareIds = true) :
    read type record.presentation = .ok record := by
  obtain ⟨d, hd, rfl, hlong⟩ := of_read h
  obtain ⟨htext, hagain⟩ := RecordData.read_write hd fun hservice => hbare hservice d hd
  have hoctets : octets (ofData d).presentation = d.write := htext.octets_text
  simp only [read, hoctets, hagain, bind, Except.bind]
  exact if_neg hlong

theorem read_presentation {type content : String} {record : CanonicalRecord}
    (hsvcb : type ≠ "SVCB") (hhttps : type ≠ "HTTPS") (h : read type content = .ok record) :
    read type record.presentation = .ok record :=
  reread h fun hservice => absurd hservice (not_or.2 ⟨hsvcb, hhttps⟩)

theorem mail_exchange_is_reread :
    read "MX" "010 MAIL.example.COM." = .ok ⟨"10 mail.example.com.",
        [0, 10, 4, 109, 97, 105, 108, 7, 101, 120, 97, 109, 112, 108, 101, 3, 99, 111, 109, 0]⟩
      ∧ read "MX" "10 mail.example.com." = .ok ⟨"10 mail.example.com.",
        [0, 10, 4, 109, 97, 105, 108, 7, 101, 120, 97, 109, 112, 108, 101, 3, 99, 111, 109, 0]⟩ := by
  have hgiven : read "MX" "010 MAIL.example.COM." = .ok ⟨"10 mail.example.com.",
      [0, 10, 4, 109, 97, 105, 108, 7, 101, 120, 97, 109, 112, 108, 101, 3, 99, 111, 109, 0]⟩ := by
    decide +kernel
  exact ⟨hgiven, read_presentation (by decide) (by decide) hgiven⟩

theorem read_presentation_of_bareIds {type content : String} {record : CanonicalRecord}
    {d : RecordData} (h : read type content = .ok record)
    (hd : RecordData.read type (octets content) = .ok d) (hbare : d.hasBareIds = true) :
    read type record.presentation = .ok record := by
  refine reread h fun _ other hother => ?_
  obtain rfl := Except.ok.inj (hd.symm.trans hother)
  exact hbare

theorem protocol_list_is_reread :
    read "HTTPS" "1 . port=053 alpn=\"h2,h3\"" = .ok ⟨"1 . alpn=h2,h3 port=53",
        [0, 1, 0, 0, 1, 0, 6, 2, 104, 50, 2, 104, 51, 0, 3, 0, 2, 0, 53]⟩
      ∧ read "HTTPS" "1 . alpn=h2,h3 port=53" = .ok ⟨"1 . alpn=h2,h3 port=53",
        [0, 1, 0, 0, 1, 0, 6, 2, 104, 50, 2, 104, 51, 0, 3, 0, 2, 0, 53]⟩ := by
  have hgiven : read "HTTPS" "1 . port=053 alpn=\"h2,h3\"" = .ok ⟨"1 . alpn=h2,h3 port=53",
      [0, 1, 0, 0, 1, 0, 6, 2, 104, 50, 2, 104, 51, 0, 3, 0, 2, 0, 53]⟩ := by
    decide +kernel
  have hdata : RecordData.read "HTTPS" (octets "1 . port=053 alpn=\"h2,h3\"")
      = .ok ⟨[.number16 1, .name ⟨[]⟩,
          .parameters ⟨[(1, .alpn [octets "h2", octets "h3"]), (3, .port 53)]⟩]⟩ := by
    decide +kernel
  exact ⟨hgiven, read_presentation_of_bareIds hgiven hdata (by decide)⟩

theorem spaced_id_is_not_reread :
    read "SVCB" "1 . alpn=\"a b\""
        = .ok ⟨"1 . alpn=a b", [0, 1, 0, 0, 1, 0, 4, 3, 97, 32, 98]⟩
      ∧ read "SVCB" "1 . alpn=a b" = .error (.service (.unknownKey (octets "b"))) := by
  decide +kernel

end CanonicalRecord

end ZoneKeeper
