import ZoneKeeper.Proofs.Record.Location
import ZoneKeeper.Proofs.Record.Reader
import ZoneKeeper.Proofs.Record.ServiceParameters

namespace ZoneKeeper

def Field.hasBareIds : Field → Bool
  | .parameters p => p.hasBareIds
  | _ => true

namespace FieldKind

inductive Gives : FieldKind → List Field → Prop
  | number8 (n : UInt8) : Gives .number8 [.number8 n]
  | number16 (n : UInt16) : Gives .number16 [.number16 n]
  | number32 (n : UInt32) : Gives .number32 [.number32 n]
  | name {n : DomainName} (h : n.IsValid) : Gives .name [.name n.lower]
  | nameAsGiven {n : DomainName} (h : n.IsValid) : Gives .nameAsGiven [.name n]
  | host {role : String} {rootAllowed : Bool} {n : DomainName}
      (h : Reader.IsHost rootAllowed n) : Gives (.host role rootAllowed) [.name n]
  | ipv4 (a : IPv4) : Gives .ipv4 [.ipv4 a]
  | ipv4Strict (a : IPv4) : Gives .ipv4Strict [.ipv4 a]
  | ipv6 (a : IPv6) : Gives .ipv6 [.ipv6 a]
  | strings {pieces : List Octets} (h : pieces ≠ []) : Gives .strings [.strings pieces]
  | tag {t : Octets} (h : Reader.IsTag t) : Gives .tag [.tag t]
  | text (t : Octets) : Gives .text [.text t]
  | string {t : Octets} (h : t.length ≤ 255) : Gives .string [.string t]
  | stringPair {s t : Octets} (h : s.length ≤ 255 ∧ t.length ≤ 255) :
      Gives .stringPair [.string s, .string t]
  | target {t : Octets} (h : t ≠ []) : Gives .target [.text t]
  | hex {bytes : Octets} (h : bytes ≠ []) : Gives .hex [.hex bytes]
  | digest {type : UInt8} {bytes : Octets} (hne : bytes ≠ [])
      (hsize : Reader.digestSize? type = some bytes.length) :
      Gives .digest [.number8 type, .hex bytes]
  | base64 {bytes : Octets} (h : bytes ≠ []) : Gives .base64 [.base64 bytes]
  | certificate (code : UInt16) : Gives .certificate [.number16 code]
  | types {codes : List UInt16} (h : codes.Pairwise (· < ·)) : Gives .types [.types codes]
  | prefixes {items : List AddressPrefix} (hne : items ≠ []) (h : ∀ item ∈ items, item.IsValid) :
      Gives .prefixes [.prefixes items]
  | hardware {t : Octets} (h : t ≠ []) : Gives (.hardware t.length) [.hardware t]
  | locator {t : Octets} (h : t.length = 8) : Gives .locator [.locator t]
  | location {l : Location} (h : l.IsValid) : Gives .location [.location l]
  | service {priority : UInt16} {target : DomainName} {p : ServiceParameters}
      (htarget : target.IsValid) (hp : p.IsSettled)
      (halias : ¬ (priority == 0 && !p.isEmpty) = true) :
      Gives .service [.number16 priority, .name target, .parameters p]

theorem gives_of_service {tokens : List Token} {fields : List Field}
    (h : Reader.service tokens = .ok fields) : Gives .service fields := by
  obtain ⟨⟨priority, later⟩, -, h⟩ := bind_eq_ok.1 h
  obtain ⟨⟨target, later⟩, htarget, h⟩ := bind_eq_ok.1 h
  dsimp only at h
  split at h
  · cases h
  next p hp =>
  split at h
  · cases h
  next halias =>
  obtain rfl := Except.ok.inj h
  exact .service (Reader.isValid_of_name htarget) (ServiceParameters.isSettled_of_read hp) halias

theorem gives_of_read {kind : FieldKind} {tokens rest : List Token} {fields : List Field}
    (h : kind.read tokens = .ok (fields, rest)) : kind.Gives fields := by
  cases kind with
  | number8 | number16 | number32 | ipv4 | ipv4Strict | ipv6 | text | certificate =>
      obtain ⟨⟨n, later⟩, -, h⟩ := bind_eq_ok.1 h
      obtain ⟨rfl, -⟩ := Prod.mk.inj (Except.ok.inj h)
      constructor
  | name =>
      obtain ⟨⟨n, later⟩, hread, h⟩ := bind_eq_ok.1 h
      obtain ⟨rfl, -⟩ := Prod.mk.inj (Except.ok.inj h)
      exact .name (Reader.isValid_of_name hread)
  | nameAsGiven =>
      obtain ⟨⟨n, later⟩, hread, h⟩ := bind_eq_ok.1 h
      obtain ⟨rfl, -⟩ := Prod.mk.inj (Except.ok.inj h)
      exact .nameAsGiven (Reader.isValid_of_name hread)
  | host role rootAllowed =>
      obtain ⟨⟨n, later⟩, hread, h⟩ := bind_eq_ok.1 h
      obtain ⟨rfl, -⟩ := Prod.mk.inj (Except.ok.inj h)
      exact .host (Reader.of_host hread)
  | strings =>
      obtain ⟨pieces, -, h⟩ := bind_eq_ok.1 h
      split at h
      · cases h
      · next hempty =>
          obtain ⟨rfl, -⟩ := Prod.mk.inj (Except.ok.inj h)
          exact .strings (mt List.isEmpty_iff.2 hempty)
  | tag =>
      obtain ⟨⟨t, later⟩, hread, h⟩ := bind_eq_ok.1 h
      obtain ⟨rfl, -⟩ := Prod.mk.inj (Except.ok.inj h)
      exact .tag (Reader.of_tag hread)
  | string =>
      obtain ⟨⟨t, later⟩, hread, h⟩ := bind_eq_ok.1 h
      obtain ⟨rfl, -⟩ := Prod.mk.inj (Except.ok.inj h)
      exact .string (Reader.length_of_string hread)
  | stringPair =>
      obtain ⟨⟨⟨s, t⟩, later⟩, hread, h⟩ := bind_eq_ok.1 h
      obtain ⟨rfl, -⟩ := Prod.mk.inj (Except.ok.inj h)
      exact .stringPair (Reader.length_of_stringPair hread)
  | target =>
      obtain ⟨⟨t, later⟩, hread, h⟩ := bind_eq_ok.1 h
      obtain ⟨rfl, -⟩ := Prod.mk.inj (Except.ok.inj h)
      exact .target (Reader.target_ne_nil hread)
  | hex =>
      obtain ⟨bytes, hread, h⟩ := bind_eq_ok.1 h
      obtain ⟨rfl, -⟩ := Prod.mk.inj (Except.ok.inj h)
      obtain ⟨t, ht, ht'⟩ := Reader.of_binary hread
      exact .hex (Hex.read?_ne_nil ht' ht)
  | digest =>
      obtain ⟨⟨type, bytes⟩, hread, h⟩ := bind_eq_ok.1 h
      obtain ⟨rfl, -⟩ := Prod.mk.inj (Except.ok.inj h)
      obtain ⟨hne, hsize⟩ := Reader.of_digest hread
      exact .digest hne hsize
  | base64 =>
      obtain ⟨bytes, hread, h⟩ := bind_eq_ok.1 h
      obtain ⟨rfl, -⟩ := Prod.mk.inj (Except.ok.inj h)
      obtain ⟨t, ht, ht'⟩ := Reader.of_binary hread
      exact .base64 (Base64.read?_ne_nil ht' ht)
  | types =>
      obtain ⟨codes, hread, h⟩ := bind_eq_ok.1 h
      obtain ⟨rfl, -⟩ := Prod.mk.inj (Except.ok.inj h)
      exact .types (Reader.pairwise_types hread .nil)
  | prefixes =>
      obtain ⟨items, hread, h⟩ := bind_eq_ok.1 h
      split at h
      · cases h
      · next hempty =>
          obtain ⟨rfl, -⟩ := Prod.mk.inj (Except.ok.inj h)
          exact .prefixes (mt List.isEmpty_iff.2 hempty) (Reader.isValid_of_prefixes hread)
  | hardware size =>
      obtain ⟨⟨t, later⟩, hread, h⟩ := bind_eq_ok.1 h
      obtain ⟨rfl, -⟩ := Prod.mk.inj (Except.ok.inj h)
      obtain ⟨hne, rfl⟩ := Reader.of_hardware hread
      exact .hardware hne
  | locator =>
      obtain ⟨⟨t, later⟩, hread, h⟩ := bind_eq_ok.1 h
      obtain ⟨rfl, -⟩ := Prod.mk.inj (Except.ok.inj h)
      obtain ⟨given, hgiven⟩ := Reader.of_text hread
      exact .locator (Reader.length_of_locator? hgiven)
  | location =>
      rw [read] at h
      split at h
      · next l hread =>
          obtain ⟨rfl, -⟩ := Prod.mk.inj (Except.ok.inj h)
          exact .location (Location.isValid_of_read hread)
      · cases h
  | service =>
      obtain ⟨fields, hread, h⟩ := bind_eq_ok.1 h
      obtain ⟨rfl, -⟩ := Prod.mk.inj (Except.ok.inj h)
      exact gives_of_service hread

def takesAll : FieldKind → Bool
  | .strings => true
  | .hex => true
  | .digest => true
  | .base64 => true
  | .types => true
  | .prefixes => true
  | .location => true
  | .service => true
  | _ => false

structure Rereads (kind : FieldKind) (fields : List Field) (tokens : List Token) : Prop where
  spells : Token.Spells (fields.flatMap Field.words) tokens
  isText : ∀ word ∈ fields.flatMap Field.words, word.IsText
  read : ∀ more, (kind.takesAll = true → more = []) →
    kind.read (tokens ++ more) = .ok (fields, more)

namespace Rereads

variable {kind : FieldKind} {f : Field} {fields : List Field}

theorem of_graphic (words : List Octets) (hwords : fields.flatMap Field.words = words)
    (hgraphic : ∀ word ∈ words, word.isGraphic = true ∧ word ≠ [])
    (hread : ∀ more, (kind.takesAll = true → more = []) →
      kind.read (words.map Token.bare ++ more) = .ok (fields, more)) :
    kind.Rereads fields (words.map Token.bare) where
  spells := by
    rw [hwords]
    have hspells := Token.Spells.map (f := id) (g := Token.bare) fun word hword =>
      Token.spells_graphic (hgraphic word hword).1 (hgraphic word hword).2
    rwa [List.map_id] at hspells
  isText := by
    rw [hwords]
    exact fun word hword =>
      Octets.isText_of_isAscii (Octets.isAscii_of_isGraphic (hgraphic word hword).1)
  read := hread

theorem of_word {word : Octets} (hwords : f.words = [word]) (hgraphic : word.isGraphic = true)
    (hne : word ≠ []) (hread : ∀ more, kind.read (.bare word :: more) = .ok ([f], more)) :
    kind.Rereads [f] [.bare word] :=
  of_graphic [word] (by rw [List.flatMap_singleton, hwords])
    (by simpa using ⟨hgraphic, hne⟩) fun more _ => hread more

theorem of_last_word {word : Octets} (hall : kind.takesAll = true) (hwords : f.words = [word])
    (hgraphic : word.isGraphic = true) (hne : word ≠ [])
    (hread : kind.read [.bare word] = .ok ([f], [])) : kind.Rereads [f] [.bare word] :=
  of_graphic [word] (by rw [List.flatMap_singleton, hwords])
    (by simpa using ⟨hgraphic, hne⟩) fun more hmore => by
      obtain rfl := hmore hall
      exact hread

theorem of_name {n : DomainName} (hread : ∀ more, kind.read (n.token :: more)
    = .ok ([.name n], more)) : kind.Rereads [.name n] [n.token] where
  spells := n.spells_token
  isText word hword := by
    obtain rfl := List.mem_singleton.1 hword
    exact Octets.isText_of_isAscii n.isAscii_write
  read more _ := hread more

theorem of_quoted (pieces : List Octets)
    (hwords : fields.flatMap Field.words = pieces.map Octets.quoted)
    (hread : ∀ more, (kind.takesAll = true → more = []) →
      kind.read (pieces.map Token.inQuotes ++ more) = .ok (fields, more)) :
    kind.Rereads fields (pieces.map Token.inQuotes) where
  spells := by
    rw [hwords]
    exact Token.Spells.map fun piece _ => Token.spells_quoted piece
  isText := by
    rw [hwords]
    exact List.forall_mem_map.2 fun piece _ =>
      Octets.isText_of_isAscii (Octets.isAscii_quoted piece)
  read := hread

end Rereads

theorem rereads_service {priority : UInt16} {target : DomainName} {p : ServiceParameters}
    (htarget : target.IsValid) (hp : p.IsSettled)
    (halias : ¬ (priority == 0 && !p.isEmpty) = true) (hids : p.hasBareIds = true) :
    service.Rereads [.number16 priority, .name target, .parameters p]
      (.bare (Decimal.write priority.toNat) :: target.token :: p.tokens) := by
  have hpriority := Decimal.isGraphic_write priority.toNat
  refine ⟨?_, ?_, ?_⟩
  · have hspells := (Token.spells_graphic hpriority (Decimal.write_ne_nil _)).append
      (target.spells_token.append (ServiceParameters.spells_tokens hp hids))
    simpa [Field.words] using hspells
  · intro word hword
    simp only [List.flatMap_cons, List.flatMap_nil, Field.words, List.append_nil,
      List.singleton_append, List.mem_cons] at hword
    rcases hword with rfl | rfl | hword
    · exact Octets.isText_of_isAscii (Octets.isAscii_of_isGraphic hpriority)
    · exact Octets.isText_of_isAscii target.isAscii_write
    · exact ServiceParameters.isText_of_mem_words hp word hword
  · intro more hmore
    obtain rfl := hmore rfl
    simp only [List.append_nil, read, Reader.service, Reader.number16_write,
      Reader.name_token htarget, ServiceParameters.read_tokens hp hids, bind, Except.bind, halias]
    rfl

theorem Gives.exists_rereads {kind : FieldKind} {fields : List Field} (h : kind.Gives fields)
    (hbare : kind = .service → ∀ f ∈ fields, f.hasBareIds = true) :
    ∃ tokens, kind.Rereads fields tokens := by
  cases h with
  | number8 n =>
      exact ⟨_, .of_word rfl (Decimal.isGraphic_write _) (Decimal.write_ne_nil _) fun more => by
        rw [read, Reader.number8_write]
        rfl⟩
  | number16 n =>
      exact ⟨_, .of_word rfl (Decimal.isGraphic_write _) (Decimal.write_ne_nil _) fun more => by
        rw [read, Reader.number16_write]
        rfl⟩
  | number32 n =>
      exact ⟨_, .of_word rfl (Decimal.isGraphic_write _) (Decimal.write_ne_nil _) fun more => by
        rw [read, Reader.number32_write]
        rfl⟩
  | name hvalid =>
      exact ⟨_, .of_name fun more => by
        simp only [read, Reader.name_token hvalid.lower, DomainName.lower_lower, bind, Except.bind]
        rfl⟩
  | nameAsGiven hvalid =>
      exact ⟨_, .of_name fun more => by
        rw [read, Reader.name_token hvalid]
        rfl⟩
  | host hhost =>
      exact ⟨_, .of_name fun more => by
        rw [read, hhost.host_token]
        rfl⟩
  | ipv4 a =>
      exact ⟨_, .of_word rfl a.isGraphic_write a.write_ne_nil fun more => by
        rw [read, Reader.text_write a.isGraphic_write a.read?_write]
        rfl⟩
  | ipv4Strict a =>
      exact ⟨_, .of_word rfl a.isGraphic_write a.write_ne_nil fun more => by
        rw [read, Reader.text_write a.isGraphic_write a.readStrict?_write]
        rfl⟩
  | ipv6 a =>
      exact ⟨_, .of_word rfl a.isGraphic_write a.write_ne_nil fun more => by
        rw [read, Reader.text_write a.isGraphic_write a.read?_write]
        rfl⟩
  | @strings pieces hne =>
      refine ⟨_, .of_quoted pieces (List.flatMap_singleton ..) fun more hmore => ?_⟩
      obtain rfl := hmore rfl
      simp only [List.append_nil, read, Reader.strings_inQuotes, bind, Except.bind]
      exact if_neg (mt List.isEmpty_iff.1 hne)
  | tag htag =>
      exact ⟨_, .of_word rfl htag.isGraphic htag.ne_nil fun more => by
        rw [read, htag.tag_bare]
        rfl⟩
  | text t => exact ⟨_, .of_quoted [t] rfl fun more _ => rfl⟩
  | @string t hlength =>
      refine ⟨_, .of_quoted [t] rfl fun more _ => ?_⟩
      rw [List.map_singleton, List.singleton_append, read, Reader.string_inQuotes hlength]
      rfl
  | @stringPair s t hlengths =>
      refine ⟨_, .of_quoted [s, t] rfl fun more _ => ?_⟩
      simp only [List.map_cons, List.map_nil, List.cons_append, List.nil_append, read,
        Reader.stringPair_inQuotes hlengths, bind, Except.bind]
      rfl
  | @target t hne =>
      refine ⟨_, .of_quoted [t] rfl fun more _ => ?_⟩
      rw [List.map_singleton, List.singleton_append, read, Reader.target_inQuotes hne]
      rfl
  | @hex bytes hbytes =>
      have hgraphic := Hex.isGraphic_write bytes
      have hne := Hex.write_ne_nil hbytes
      exact ⟨_, .of_last_word rfl rfl hgraphic hne (by
        rw [read, Reader.binary_bare hgraphic hne (Hex.read?_write bytes)]
        rfl)⟩
  | @digest type bytes hne hsize =>
      refine ⟨_, .of_graphic [Decimal.write type.toNat, Hex.write bytes] rfl
        (by simpa using ⟨Decimal.isGraphic_write _, Hex.isGraphic_write bytes,
          Hex.write_ne_nil hne⟩) fun more hmore => ?_⟩
      obtain rfl := hmore rfl
      simp only [List.append_nil, List.map_cons, List.map_nil, read,
        Reader.digest_bare hne hsize, bind, Except.bind]
      rfl
  | @base64 bytes hbytes =>
      have hgraphic := Base64.isGraphic_write bytes
      have hne := Base64.write_ne_nil hbytes
      exact ⟨_, .of_last_word rfl rfl hgraphic hne (by
        rw [read, Reader.binary_bare hgraphic hne (Base64.read?_write bytes)]
        rfl)⟩
  | certificate code =>
      exact ⟨_, .of_word rfl (Decimal.isGraphic_write _) (Decimal.write_ne_nil _) fun more => by
        rw [read, Reader.text_write (Decimal.isGraphic_write _)
          (Reader.certificateType?_write code)]
        rfl⟩
  | @types codes hascends =>
      refine ⟨_, .of_graphic (codes.map RecordType.word) (List.flatMap_singleton ..)
        (List.forall_mem_map.2 fun code _ => ?_) fun more hmore => ?_⟩
      · exact ⟨RecordType.isGraphic_word code, RecordType.word_ne_nil code⟩
      · obtain rfl := hmore rfl
        have hagain := Reader.types_words [] hascends
        rw [List.append_nil, List.map_map, read]
        simp only [Function.comp_def, hagain, bind, Except.bind]
        rfl
  | @prefixes items hne hvalid =>
      refine ⟨_, .of_graphic (items.map AddressPrefix.write)
        (List.flatMap_singleton ..) (List.forall_mem_map.2 fun item _ => ?_)
        fun more hmore => ?_⟩
      · exact ⟨item.isGraphic_write, item.write_ne_nil⟩
      · obtain rfl := hmore rfl
        rw [List.append_nil, List.map_map, read]
        simp only [Function.comp_def, Reader.prefixes_write hvalid, bind, Except.bind]
        exact if_neg (mt List.isEmpty_iff.1 hne)
  | @hardware t hne =>
      exact ⟨_, .of_word rfl (Reader.isGraphic_hardwareText t) (Reader.hardwareText_ne_nil hne)
        fun more => by
          rw [← Reader.hardwareText, read, Reader.hardware_bare hne]
          rfl⟩
  | @locator t hlength =>
      obtain ⟨hne, hagain⟩ := Reader.locator?_write hlength
      exact ⟨_, .of_word rfl (Reader.isGraphic_locatorText t) hne fun more => by
        rw [← Reader.locatorText, read, Reader.text_write (Reader.isGraphic_locatorText t) hagain]
        rfl⟩
  | @location l hvalid =>
      refine ⟨_, .of_graphic l.words (List.flatMap_singleton ..)
        Location.isGraphic_of_mem_words fun more hmore => ?_⟩
      obtain rfl := hmore rfl
      have htexts : (l.words.map Token.bare).map Token.text = l.words := by
        rw [List.map_map]
        refine (List.map_congr_left fun word hword => ?_).trans (List.map_id _)
        exact Token.text_graphic (Location.isGraphic_of_mem_words word hword).1
      rw [List.append_nil, read, htexts, Location.read_words hvalid]
  | @service priority target p htarget hp halias =>
      exact ⟨_, rereads_service htarget hp halias (hbare rfl (.parameters p) (by simp))⟩

end FieldKind

end ZoneKeeper
