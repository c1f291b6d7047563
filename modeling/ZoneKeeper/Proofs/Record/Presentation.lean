import ZoneKeeper.Proofs.Record.Form

namespace ZoneKeeper

theorem Octets.words_append_space {words : List Octets} (hne : words ≠ []) :
    Octets.words words ++ [Octet.space] = words.flatMap (· ++ [Octet.space]) := by
  induction words with
  | nil => exact absurd rfl hne
  | cons word rest ih =>
      cases rest with
      | nil => simp [Octets.words, joinWith]
      | cons next rest =>
          have hlater := ih (List.cons_ne_nil next rest)
          rw [List.flatMap_cons, ← hlater, Octets.words, joinWith, List.intercalate_cons_cons]
          simp [Octets.words, joinWith]

theorem selfDelimiting_word :
    SelfDelimiting (fun t => Octet.space ∉ t) (fun t : Octets => t ++ [Octet.space]) := by
  intro s t hs ht rest rest' h
  rw [List.append_assoc, List.append_assoc, List.singleton_append, List.singleton_append] at h
  have hcut := congrArg (Octets.cut Octet.space) h
  rw [Octets.cut_append_cons hs, Octets.cut_append_cons ht] at hcut
  exact Prod.mk.inj (Option.some.inj hcut)

theorem selfDelimiting_quoted : SelfDelimiting (fun _ => True) Octets.quoted := by
  rintro s t - - rest rest' h
  have hread (u later : Octets) : Glyph.read (u.quoted ++ later)
      = Token.between u ++ Glyph.read later := by
    rw [← Token.flatMap_source_between, Glyph.read_sources Token.exact_between]
  have hglyphs := congrArg Glyph.read h
  rw [hread, hread, Token.between, Token.between, List.cons_append, List.cons_append,
    List.append_assoc, List.append_assoc] at hglyphs
  have hrun (u : Octets) (later : List Glyph) :
      (u.map Octet.quotedGlyph ++ ([Glyph.plain Octet.quote] ++ later)).takeWhile
          (Glyph.continues true) = u.map Octet.quotedGlyph := by
    rw [List.takeWhile_append_of_pos fun g hg => (Token.exact_quoted g hg).2]
    exact List.append_nil _
  have hrun' := congrArg (List.takeWhile (Glyph.continues true)) (List.cons_eq_cons.1 hglyphs).2
  rw [hrun, hrun] at hrun'
  have hvalue := congrArg (List.flatMap Glyph.value) hrun'
  rw [Glyph.flatMap_value_quoted, Glyph.flatMap_value_quoted] at hvalue
  subst hvalue
  exact ⟨rfl, List.append_cancel_left h⟩

namespace ServiceValue

def hasNoSpace (v : ServiceValue) : Bool := v.ids.all fun id => !id.contains Octet.space

theorem isQuoted_of_isFor {key : UInt16} {v w : ServiceValue} (hv : v.isFor key = true)
    (hw : w.isFor key = true) : v.isQuoted = w.isQuoted ∧ v.given.isSome = w.given.isSome := by
  cases v <;> cases w <;> first
    | exact ⟨rfl, rfl⟩
    | obtain rfl := eq_of_beq hv
      exact absurd hw Bool.false_ne_true
    | obtain rfl := eq_of_beq hw
      exact absurd hv Bool.false_ne_true

theorem space_notMem_given {key : UInt16} {v : ServiceValue} (hv : v.IsSettled key)
    (hspace : v.hasNoSpace = true) (hquoted : v.isQuoted = false) {t : Octets}
    (ht : v.given = some t) : Octet.space ∉ t := by
  intro hmem
  by_cases hbare : v.hasBareIds = true
  · have hspace := List.all_eq_true.1 (hv.bare hbare hquoted t ht).2 _ hmem
    cases hspace
  · cases v with
    | alpn ids =>
        obtain rfl := Option.some.inj ht
        rcases Octets.mem_joinWith hmem with hcomma | ⟨id, hid, hmem⟩
        · cases hcomma
        · have hnone := List.all_eq_true.1 hspace id hid
          simp [hmem] at hnone
    | _ => exact hbare rfl

theorem write_inj {key : UInt16} {v w : ServiceValue} (hv : v.IsSettled key) (hw : w.IsSettled key)
    (hspace : v.hasNoSpace = true) (hspace' : w.hasNoSpace = true) {rest rest' : Octets}
    (h : v.write ++ Octet.space :: rest = w.write ++ Octet.space :: rest') :
    v = w ∧ rest = rest' := by
  obtain ⟨hquoted, hsome⟩ := isQuoted_of_isFor (gives_of_read hv.read).suits.isFor
    (gives_of_read hw.read).suits.isFor
  have hsame (hgiven : v.given = w.given) : v = w := by
    have hread := hv.read
    rw [hgiven, hw.read] at hread
    exact (Except.ok.inj hread).symm
  rw [write_eq, write_eq] at h
  cases hgiven : v.given with
  | none =>
      have hgiven' : w.given = none := by simpa [hgiven] using hsome
      rw [hgiven, hgiven'] at h
      exact ⟨hsame (hgiven.trans hgiven'.symm), (List.cons_eq_cons.1 h).2⟩
  | some t =>
      obtain ⟨u, hgiven'⟩ : ∃ u, w.given = some u := by
        rw [← Option.isSome_iff_exists, ← hsome, hgiven]
        rfl
      rw [hgiven, hgiven'] at h
      have hvalue : (if v.isQuoted then t.quoted else t) ++ Octet.space :: rest
          = (if w.isQuoted then u.quoted else u) ++ Octet.space :: rest' :=
        (List.cons_eq_cons.1 h).2
      suffices t = u ∧ rest = rest' by
        obtain ⟨rfl, hrest⟩ := this
        exact ⟨hsame (hgiven.trans hgiven'.symm), hrest⟩
      cases hkind : v.isQuoted with
      | true =>
          rw [← hquoted, hkind] at hvalue
          obtain ⟨rfl, hrest⟩ := selfDelimiting_quoted trivial trivial hvalue
          exact ⟨rfl, (List.cons_eq_cons.1 hrest).2⟩
      | false =>
          rw [← hquoted, hkind, if_neg Bool.false_ne_true, if_neg Bool.false_ne_true,
            List.append_cons t, List.append_cons u] at hvalue
          exact selfDelimiting_word (space_notMem_given hv hspace hkind hgiven)
            (space_notMem_given hw hspace' (hquoted ▸ hkind) hgiven') hvalue

theorem exists_write_append (v : ServiceValue) (rest : Octets) :
    ∃ b later, v.write ++ Octet.space :: rest = b :: later
      ∧ (b = Octet.equal ∨ b = Octet.space) := by
  rw [write_eq]
  cases v.given with
  | none => exact ⟨_, _, rfl, Or.inr rfl⟩
  | some t => exact ⟨_, _, rfl, Or.inl rfl⟩

end ServiceValue

namespace ServiceParameters

structure IsPlain (e : UInt16 × ServiceValue) : Prop where
  settled : e.2.IsSettled e.1
  noSpace : e.2.hasNoSpace = true

def isNameOctet (b : UInt8) : Bool := b != Octet.equal && b != Octet.space

theorem takeWhile_name (key : UInt16) (v : ServiceValue) (rest : Octets) :
    (ServiceKey.name key ++ (v.write ++ Octet.space :: rest)).takeWhile isNameOctet
      = ServiceKey.name key := by
  obtain ⟨b, later, hlater, hb⟩ := v.exists_write_append rest
  have hname : ∀ c ∈ ServiceKey.name key, isNameOctet c = true := fun c hc => by
    have hequal : c ≠ Octet.equal := fun heq => ServiceKey.notMem_name rfl (by decide) (heq ▸ hc)
    have hspace : c ≠ Octet.space := fun heq => ServiceKey.notMem_name rfl (by decide) (heq ▸ hc)
    simp [isNameOctet, hequal, hspace]
  rw [List.takeWhile_append_of_pos hname, hlater, List.takeWhile_cons_of_neg, List.append_nil]
  rcases hb with rfl | rfl <;> decide

theorem selfDelimiting_written : SelfDelimiting IsPlain
    fun e => ServiceKey.name e.1 ++ e.2.write ++ [Octet.space] := by
  rintro ⟨key, v⟩ ⟨key', w⟩ hv hw rest rest' h
  simp only [List.append_assoc, List.singleton_append] at h
  have hname := congrArg (List.takeWhile isNameOctet) h
  rw [takeWhile_name, takeWhile_name] at hname
  have hcode := congrArg ServiceKey.code? hname
  rw [ServiceKey.code?_name, ServiceKey.code?_name] at hcode
  obtain rfl := Option.some.inj hcode
  obtain ⟨rfl, hrest⟩ := ServiceValue.write_inj hv.settled hw.settled hv.noSpace hw.noSpace
    (List.append_cancel_left h)
  exact ⟨rfl, hrest⟩

def hasNoSpace (p : ServiceParameters) : Bool := p.entries.all (·.2.hasNoSpace)

theorem words_inj {p q : ServiceParameters} (hp : p.IsSettled) (hq : q.IsSettled)
    (hspace : p.hasNoSpace = true) (hspace' : q.hasNoSpace = true)
    (h : p.words.flatMap (· ++ [Octet.space]) = q.words.flatMap (· ++ [Octet.space])) : p = q := by
  have hplain {r : ServiceParameters} (hr : r.IsSettled) (hnone : r.hasNoSpace = true) :
      ∀ e ∈ r.entries, IsPlain e :=
    fun e he => ⟨hr.entries.settled e he, List.all_eq_true.1 hnone e he⟩
  simp only [words, List.flatMap_map] at h
  obtain ⟨entries⟩ := p
  obtain ⟨entries'⟩ := q
  exact congrArg _ (selfDelimiting_written.flatMap_inj (fun e _ => by simp)
    (hplain hp hspace) (hplain hq hspace') h)

end ServiceParameters

namespace DomainName

theorem space_notMem_write (n : DomainName) : Octet.space ∉ n.write := by
  have hoctet : ∀ b, Octet.space ∉ writeOctet b := Octet.forall_of_fin (by decide +kernel)
  rw [write]
  split
  · decide
  · intro hmem
    obtain ⟨label, -, hlabel⟩ := List.mem_flatMap.1 hmem
    rcases List.mem_append.1 hlabel with hlabel | hdot
    · obtain ⟨b, -, hb⟩ := List.mem_flatMap.1 hlabel
      exact hoctet b hb
    · cases List.mem_singleton.1 hdot

theorem write_inj {m n : DomainName} (hm : m.IsValid) (hn : n.IsValid) (h : m.write = n.write) :
    m = n := by
  have hread := read_write hm
  rw [h, read_write hn] at hread
  exact (Except.ok.inj hread).symm

end DomainName

namespace RecordData

def hasNoSpace (d : RecordData) : Bool := d.fields.all fun
  | .parameters p => p.hasNoSpace
  | _ => true

theorem service_of_read {type : String} (hservice : type = "SVCB" ∨ type = "HTTPS")
    {content : Octets} {d : RecordData} (h : read type content = .ok d) :
    ∃ priority target p, d = ⟨[.number16 priority, .name target, .parameters p]⟩
      ∧ target.IsValid ∧ p.IsSettled := by
  obtain ⟨tokens, kinds, -, hkinds, hfields⟩ := of_read h
  obtain rfl : kinds = [.service] := by
    rcases hservice with rfl | rfl <;> exact (Option.some.inj hkinds).symm
  obtain ⟨⟨fields, rest⟩, hfirst, hfields⟩ := bind_eq_ok.1 hfields
  obtain ⟨later, hlater, hfields⟩ := bind_eq_ok.1 hfields
  obtain ⟨-, rfl⟩ := eq_nil_of_readFields_nil hlater
  have hfields := Except.ok.inj hfields
  rw [List.append_nil] at hfields
  obtain ⟨fields'⟩ := d
  obtain rfl : fields = fields' := hfields
  cases FieldKind.gives_of_read hfirst with
  | service htarget hp _ => exact ⟨_, _, _, rfl, htarget, hp⟩

theorem write_service (priority : UInt16) (target : DomainName) (p : ServiceParameters) :
    write ⟨[.number16 priority, .name target, .parameters p]⟩ ++ [Octet.space]
      = Decimal.write priority.toNat ++ [Octet.space] ++ (target.write ++ [Octet.space]
        ++ p.words.flatMap (· ++ [Octet.space])) := by
  rw [write, Octets.words_append_space (by simp [Field.words])]
  simp [Field.words]

theorem write_inj_of_service {type : String} (hservice : type = "SVCB" ∨ type = "HTTPS")
    {s t : Octets} {d e : RecordData} (hd : read type s = .ok d) (he : read type t = .ok e)
    (hspace : d.hasNoSpace = true) (hspace' : e.hasNoSpace = true) (h : d.write = e.write) :
    d = e := by
  obtain ⟨priority, target, p, rfl, htarget, hp⟩ := service_of_read hservice hd
  obtain ⟨priority', target', q, rfl, htarget', hq⟩ := service_of_read hservice he
  have hnumber (n : UInt16) : Octet.space ∉ Decimal.write n.toNat := Decimal.notMem_write rfl
  have hwords := congrArg (· ++ [Octet.space]) h
  simp only [write_service] at hwords
  obtain ⟨hpriority, hlater⟩ := selfDelimiting_word (hnumber _) (hnumber _) hwords
  obtain ⟨htargets, hparameters⟩ := selfDelimiting_word target.space_notMem_write
    target'.space_notMem_write hlater
  obtain rfl := DomainName.write_inj htarget htarget' htargets
  have hread := congrArg Decimal.read? hpriority
  rw [Decimal.read?_write, Decimal.read?_write] at hread
  obtain rfl := UInt16.toNat_inj.1 (Option.some.inj hread)
  obtain rfl := ServiceParameters.words_inj hp hq (by simpa [hasNoSpace] using hspace)
    (by simpa [hasNoSpace] using hspace') hparameters
  rfl

theorem isText_write {type : String} {content : Octets} {d : RecordData}
    (h : read type content = .ok d) : d.write.IsText := by
  by_cases hservice : type = "SVCB" ∨ type = "HTTPS"
  · obtain ⟨priority, target, p, rfl, -, hp⟩ := service_of_read hservice h
    refine Octets.isText_words fun word hword => ?_
    have hword : word = Decimal.write priority.toNat ∨ word = target.write ∨ word ∈ p.words := by
      simpa [Field.words] using hword
    rcases hword with rfl | rfl | hword
    · exact Octets.isText_of_isAscii (Octets.isAscii_of_isGraphic (Decimal.isGraphic_write _))
    · exact Octets.isText_of_isAscii target.isAscii_write
    · exact ServiceParameters.isText_of_mem_words hp word hword
  · exact (read_write h fun hs => absurd hs hservice).1

theorem write_inj {type : String} {s t : Octets} {d e : RecordData} (hd : read type s = .ok d)
    (he : read type t = .ok e)
    (hspace : type = "SVCB" ∨ type = "HTTPS" → d.hasNoSpace = true ∧ e.hasNoSpace = true)
    (h : d.write = e.write) : d = e := by
  by_cases hservice : type = "SVCB" ∨ type = "HTTPS"
  · exact write_inj_of_service hservice hd he (hspace hservice).1 (hspace hservice).2 h
  · have hagain := (read_write hd fun hs => absurd hs hservice).2
    rw [h, (read_write he fun hs => absurd hs hservice).2] at hagain
    exact (Except.ok.inj hagain).symm

end RecordData

namespace CanonicalRecord

theorem data_eq_of_presentation {type : String} {s t : Octets} {d e : RecordData}
    (hd : RecordData.read type s = .ok d) (he : RecordData.read type t = .ok e)
    (hspace : type = "SVCB" ∨ type = "HTTPS" → d.hasNoSpace = true ∧ e.hasNoSpace = true)
    (h : (ofData d).presentation = (ofData e).presentation) : d = e := by
  have hwrite := congrArg octets h
  rw [ofData, ofData, (RecordData.isText_write hd).octets_text,
    (RecordData.isText_write he).octets_text] at hwrite
  exact RecordData.write_inj hd he hspace hwrite

theorem eq_of_presentation {type s t : String} {record other : CanonicalRecord}
    (h : read type s = .ok record) (h' : read type t = .ok other)
    (hspace : type = "SVCB" ∨ type = "HTTPS" → ∀ content ∈ [s, t], ∀ d,
      RecordData.read type (octets content) = .ok d → d.hasNoSpace = true)
    (hsame : record.presentation = other.presentation) : record = other := by
  obtain ⟨d, hd, rfl, -⟩ := of_read h
  obtain ⟨e, he, rfl, -⟩ := of_read h'
  rw [data_eq_of_presentation hd he (fun hservice =>
    ⟨hspace hservice s (by simp) d hd, hspace hservice t (by simp) e he⟩) hsame]

end CanonicalRecord

end ZoneKeeper
