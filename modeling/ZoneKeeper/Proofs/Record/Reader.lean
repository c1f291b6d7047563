import ZoneKeeper.Proofs.Name.DomainName
import ZoneKeeper.Proofs.Record.AddressPrefix
import ZoneKeeper.Proofs.RecordType.Code
import ZoneKeeper.Record.FieldKind

namespace ZoneKeeper

namespace Hex

theorem length_of_read? {s t : Octets} (h : read? s = some t) : s.length = 2 * t.length := by
  fun_induction read? s generalizing t with
  | case1 =>
      obtain rfl := Option.some.inj h
      rfl
  | case2 => cases h
  | case3 a b rest ih =>
      simp only [Option.bind_eq_bind, Option.bind_eq_some_iff] at h
      obtain ⟨_, -, _, -, bytes, hbytes, h⟩ := h
      obtain rfl := Option.some.inj h
      rw [List.length_cons, List.length_cons, List.length_cons, ih hbytes]
      omega

theorem notMem_write {t : Octets} {b : UInt8} (hb : Octet.isAlphanumeric b = false) :
    b ∉ write t := by
  intro hmem
  have halphanumeric := isAlphanumeric_of_mem_write b hmem
  rw [hb] at halphanumeric
  cases halphanumeric

theorem write_ne_nil {t : Octets} (h : t ≠ []) : write t ≠ [] := by
  obtain ⟨b, rest, rfl⟩ := List.exists_cons_of_ne_nil h
  exact List.cons_ne_nil _ _

end Hex

theorem Token.text_graphic {t : Octets} (h : t.isGraphic = true) : (Token.bare t).text = t :=
  Token.text_bare (Octets.isAscii_of_isGraphic h)

namespace Reader

theorem number_write {bits n : Nat} (h : n < 1 <<< bits) (more : List Token) :
    number bits (.bare (Decimal.write n) :: more) = .ok (n, more) := by
  simp only [number, next, bind, Except.bind, Token.text_graphic (Decimal.isGraphic_write n),
    Decimal.readBits?_write h]

theorem number8_write (n : UInt8) (more : List Token) :
    number8 (.bare (Decimal.write n.toNat) :: more) = .ok (n, more) := by
  rw [number8, number_write (by simpa using n.toNat_lt)]
  exact congrArg (fun n => Except.ok (n, more)) n.ofNat_toNat

theorem number16_write (n : UInt16) (more : List Token) :
    number16 (.bare (Decimal.write n.toNat) :: more) = .ok (n, more) := by
  rw [number16, number_write (by simpa using n.toNat_lt)]
  exact congrArg (fun n => Except.ok (n, more)) n.ofNat_toNat

theorem number32_write (n : UInt32) (more : List Token) :
    number32 (.bare (Decimal.write n.toNat) :: more) = .ok (n, more) := by
  rw [number32, number_write (by simpa using n.toNat_lt)]
  exact congrArg (fun n => Except.ok (n, more)) n.ofNat_toNat

theorem isValid_of_name {tokens rest : List Token} {n : DomainName}
    (h : name tokens = .ok (n, rest)) : n.IsValid := by
  obtain ⟨⟨token, later⟩, -, h⟩ := bind_eq_ok.1 h
  dsimp only at h
  split at h
  · cases h
  · split at h
    · next hread =>
        obtain ⟨rfl, rfl⟩ := Prod.mk.inj (Except.ok.inj h)
        exact DomainName.isValid_of_read hread
    · cases h

theorem name_token {n : DomainName} (h : n.IsValid) (more : List Token) :
    name (n.token :: more) = .ok (n, more) := by
  have hquoted : n.token.quoted = false := rfl
  simp only [name, next, bind, Except.bind, hquoted, DomainName.raw_token,
    DomainName.read_write h]
  rfl

structure IsHost (rootAllowed : Bool) (n : DomainName) : Prop where
  isValid : n.IsValid
  lower : n.lower = n
  isHost : ((rootAllowed && n.isRoot) || n.isHostname) = true

theorem of_host {role : String} {rootAllowed : Bool} {tokens rest : List Token} {n : DomainName}
    (h : host role rootAllowed tokens = .ok (n, rest)) : IsHost rootAllowed n := by
  obtain ⟨⟨given, later⟩, hname, h⟩ := bind_eq_ok.1 h
  dsimp only at h
  split at h
  · next hhost =>
      obtain ⟨rfl, -⟩ := Prod.mk.inj (Except.ok.inj h)
      exact ⟨(isValid_of_name hname).lower, given.lower_lower, hhost⟩
  · cases h

theorem IsHost.host_token {rootAllowed : Bool} {n : DomainName} (h : IsHost rootAllowed n)
    (role : String) (more : List Token) :
    host role rootAllowed (n.token :: more) = .ok (n, more) := by
  simp only [host, name_token h.isValid, bind, Except.bind, h.lower, h.isHost]
  rfl

theorem text_write {α : Type} {read? : Octets → Option α} {flaw : Octets → RecordFlaw}
    {t : Octets} {a : α} (hgraphic : t.isGraphic = true) (hread : read? t = some a)
    (more : List Token) : text read? flaw (.bare t :: more) = .ok (a, more) := by
  simp only [text, next, bind, Except.bind, Token.text_graphic hgraphic, hread]

theorem of_text {α : Type} {read? : Octets → Option α} {flaw : Octets → RecordFlaw} {a : α}
    {tokens rest : List Token} (h : text read? flaw tokens = .ok (a, rest)) :
    ∃ t, read? t = some a := by
  obtain ⟨⟨token, later⟩, -, h⟩ := bind_eq_ok.1 h
  dsimp only at h
  split at h
  · next hread =>
      obtain ⟨rfl, -⟩ := Prod.mk.inj (Except.ok.inj h)
      exact ⟨_, hread⟩
  · cases h

theorem strings_inQuotes (pieces : List Octets) :
    strings (pieces.map Token.inQuotes) = .ok pieces := by
  induction pieces with
  | nil => rfl
  | cons piece rest ih =>
      rw [List.map_cons, strings, ih]
      rfl

structure IsTag (t : Octets) : Prop where
  ne_nil : t ≠ []
  length : t.length ≤ 255
  isAlphanumeric : t.all Octet.isAlphanumeric = true

theorem of_tag {tokens rest : List Token} {t : Octets} (h : tag tokens = .ok (t, rest)) :
    IsTag t := by
  obtain ⟨⟨token, later⟩, -, h⟩ := bind_eq_ok.1 h
  dsimp only at h
  split at h
  · cases h
  · next hcheck =>
      obtain ⟨rfl, -⟩ := Prod.mk.inj (Except.ok.inj h)
      simp only [Bool.or_eq_true, not_or, Bool.not_eq_true', Bool.not_eq_false,
        List.isEmpty_iff, decide_eq_true_eq, Nat.not_lt] at hcheck
      exact ⟨hcheck.1.1, hcheck.1.2, hcheck.2⟩

theorem IsTag.isGraphic {t : Octets} (h : IsTag t) : t.isGraphic = true :=
  Octets.isGraphic_iff.2 fun b hb =>
    Octet.isGraphic_of_isAlphanumeric (List.all_eq_true.1 h.isAlphanumeric b hb)

theorem IsTag.tag_bare {t : Octets} (h : IsTag t) (more : List Token) :
    tag (.bare t :: more) = .ok (t, more) := by
  refine if_neg ?_
  simp only [Bool.or_eq_true, not_or, Bool.not_eq_true', Bool.not_eq_false, List.isEmpty_iff,
    decide_eq_true_eq, Nat.not_lt]
  exact ⟨⟨h.ne_nil, h.length⟩, h.isAlphanumeric⟩

theorem length_of_string {tokens rest : List Token} {t : Octets}
    (h : string tokens = .ok (t, rest)) : t.length ≤ 255 := by
  obtain ⟨⟨token, later⟩, -, h⟩ := bind_eq_ok.1 h
  dsimp only at h
  split at h
  · cases h
  · next hlong =>
      obtain ⟨rfl, -⟩ := Prod.mk.inj (Except.ok.inj h)
      exact Nat.not_lt.1 hlong

theorem string_inQuotes {t : Octets} (h : t.length ≤ 255) (more : List Token) :
    string (.inQuotes t :: more) = .ok (t, more) :=
  if_neg (Nat.not_lt.2 h)

theorem length_of_stringPair {tokens rest : List Token} {s t : Octets}
    (h : stringPair tokens = .ok ((s, t), rest)) : s.length ≤ 255 ∧ t.length ≤ 255 := by
  obtain ⟨⟨first, later⟩, -, h⟩ := bind_eq_ok.1 h
  obtain ⟨⟨second, later⟩, -, h⟩ := bind_eq_ok.1 h
  dsimp only at h
  split at h
  · cases h
  · next hlong =>
      obtain ⟨hpair, -⟩ := Prod.mk.inj (Except.ok.inj h)
      obtain ⟨rfl, rfl⟩ := Prod.mk.inj hpair
      simpa only [Bool.or_eq_true, not_or, decide_eq_true_eq, Nat.not_lt] using hlong

theorem stringPair_inQuotes {s t : Octets} (h : s.length ≤ 255 ∧ t.length ≤ 255)
    (more : List Token) :
    stringPair (.inQuotes s :: .inQuotes t :: more) = .ok ((s, t), more) := by
  refine if_neg ?_
  simp only [Bool.or_eq_true, not_or, decide_eq_true_eq, Nat.not_lt]
  exact h

theorem target_ne_nil {tokens rest : List Token} {t : Octets}
    (h : target tokens = .ok (t, rest)) : t ≠ [] := by
  obtain ⟨⟨token, later⟩, -, h⟩ := bind_eq_ok.1 h
  dsimp only at h
  split at h
  · cases h
  · split at h
    · cases h
    · next hempty =>
        obtain ⟨rfl, -⟩ := Prod.mk.inj (Except.ok.inj h)
        exact mt List.isEmpty_iff.2 hempty

theorem target_inQuotes {t : Octets} (h : t ≠ []) (more : List Token) :
    target (.inQuotes t :: more) = .ok (t, more) :=
  if_neg (mt List.isEmpty_iff.1 h)

theorem binary_bare {read? : Octets → Option Octets} {t bytes : Octets}
    (hgraphic : t.isGraphic = true) (hne : t ≠ []) (hread : read? t = some bytes) :
    binary read? [.bare t] = .ok bytes := by
  have hjoined : concatenated [.bare t] = .ok t := by
    simp only [concatenated, List.flatMap_singleton, Token.text_graphic hgraphic]
    exact if_neg (by simpa using hne)
  simp only [binary, hjoined, bind, Except.bind, hread]

theorem of_binary {read? : Octets → Option Octets} {tokens : List Token} {bytes : Octets}
    (h : binary read? tokens = .ok bytes) : ∃ t, t ≠ [] ∧ read? t = some bytes := by
  obtain ⟨t, ht, h⟩ := bind_eq_ok.1 h
  split at h
  · next hread =>
      obtain rfl := Except.ok.inj h
      simp only [concatenated] at ht
      split at ht
      · cases ht
      · next hempty =>
          obtain rfl := Except.ok.inj ht
          exact ⟨_, by simpa using hempty, hread⟩
  · cases h

theorem of_digest {tokens : List Token} {type : UInt8} {bytes : Octets}
    (h : digest tokens = .ok (type, bytes)) :
    bytes ≠ [] ∧ digestSize? type = some bytes.length := by
  obtain ⟨⟨given, later⟩, -, h⟩ := bind_eq_ok.1 h
  obtain ⟨digits, hdigits, h⟩ := bind_eq_ok.1 h
  split at h
  · cases h
  · next size hsize =>
      split at h
      · next hlength =>
          obtain ⟨rfl, rfl⟩ := Prod.mk.inj (Except.ok.inj h)
          obtain ⟨t, ht, hread⟩ := of_binary hdigits
          exact ⟨Hex.read?_ne_nil hread ht, hsize.trans (congrArg some (eq_of_beq hlength).symm)⟩
      · cases h

theorem digest_bare {type : UInt8} {bytes : Octets} (hne : bytes ≠ [])
    (hsize : digestSize? type = some bytes.length) :
    digest [.bare (Decimal.write type.toNat), .bare (Hex.write bytes)] = .ok (type, bytes) := by
  simp only [digest, number8_write, bind, Except.bind, hsize,
    binary_bare (Hex.isGraphic_write bytes) (Hex.write_ne_nil hne) (Hex.read?_write _)]
  exact if_pos (beq_self_eq_true _)

theorem certificateType?_write (code : UInt16) :
    certificateType? (Decimal.write code.toNat) = some code := by
  have hword : ∀ row ∈ certificateTypes, (octets row.1).lower.all Octet.isDigit = false := by
    decide +kernel
  have hfind : certificateTypes.find?
      (fun row => (octets row.1).sameLetters (Decimal.write code.toNat)) = none := by
    rw [List.find?_eq_none]
    intro row hrow hsame
    have hletter := hword row hrow
    rw [Octets.sameLetters, Decimal.lower_write, beq_iff_eq] at hsame
    rw [hsame, List.all_eq_true.2 Decimal.isDigit_of_mem_write] at hletter
    cases hletter
  rw [certificateType?, hfind, Decimal.readBits?_write (by simpa using code.toNat_lt)]
  exact congrArg some code.ofNat_toNat

theorem pairwise_types {tokens : List Token} {seen codes : List UInt16}
    (h : types seen tokens = .ok codes) (hseen : seen.Pairwise (· < ·)) :
    codes.Pairwise (· < ·) := by
  induction tokens generalizing seen with
  | nil =>
      obtain rfl := Except.ok.inj h
      exact hseen
  | cons token rest ih =>
      rw [types] at h
      split at h
      · exact ih h (Bitmap.pairwise_insert hseen)
      · cases h

theorem types_words (seen : List UInt16) {codes : List UInt16}
    (h : (seen ++ codes).Pairwise (· < ·)) :
    types seen (codes.map fun code => .bare (RecordType.word code)) = .ok (seen ++ codes) := by
  induction codes generalizing seen with
  | nil => rw [List.map_nil, types, List.append_nil]
  | cons code rest ih =>
      have habove : ∀ c ∈ seen, c < code := fun c hc =>
        (List.pairwise_append.1 h).2.2 c hc code List.mem_cons_self
      rw [List.append_cons] at h
      rw [List.map_cons, types, Token.text_graphic (RecordType.isGraphic_word code),
        RecordType.code?_word]
      dsimp only
      rw [Bitmap.insert_append habove, ih _ h, List.append_cons seen code rest]

theorem isValid_of_prefixes {tokens : List Token} {items : List AddressPrefix}
    (h : prefixes tokens = .ok items) : ∀ item ∈ items, item.IsValid := by
  induction tokens generalizing items with
  | nil =>
      obtain rfl := Except.ok.inj h
      simp
  | cons token rest ih =>
      rw [prefixes] at h
      split at h
      · next first hfirst =>
          obtain ⟨later, hlater, rfl⟩ := map_eq_ok.1 h
          intro item hitem
          rcases List.mem_cons.1 hitem with rfl | hitem
          · exact AddressPrefix.isValid_of_read? hfirst
          · exact ih hlater item hitem
      · cases h

theorem prefixes_write {items : List AddressPrefix} (h : ∀ item ∈ items, item.IsValid) :
    prefixes (items.map fun item => .bare item.write) = .ok items := by
  induction items with
  | nil => rfl
  | cons item rest ih =>
      rw [List.map_cons, prefixes, Token.text_graphic item.isGraphic_write,
        AddressPrefix.read?_write (h item List.mem_cons_self)]
      dsimp only
      rw [ih fun other hother => h other (List.mem_cons_of_mem _ hother)]
      rfl

theorem length_flatten_of_all {groups : List Octets} {size : Nat}
    (h : groups.any (·.length != size) = false) :
    groups.flatten.length = size * groups.length := by
  induction groups with
  | nil => rfl
  | cons group rest ih =>
      simp only [List.any_cons, Bool.or_eq_false_iff, bne_eq_false_iff_eq] at h
      rw [List.flatten_cons, List.length_append, ih h.2, h.1, List.length_cons, Nat.mul_succ]
      exact Nat.add_comm ..

def hardwareText (t : Octets) : Octets := Octets.joinWith [Octet.hyphen] (t.map Hex.writeOctet)

theorem isGraphic_hardwareText (t : Octets) : (hardwareText t).isGraphic = true :=
  Octets.all_joinWith_map rfl fun b => Hex.isGraphic_write [b]

theorem hardwareText_ne_nil {t : Octets} (h : t ≠ []) : hardwareText t ≠ [] :=
  Octets.joinWith_map_ne_nil (fun _ => List.cons_ne_nil _ _) h

theorem of_hardware {size : Nat} {tokens rest : List Token} {t : Octets}
    (h : hardware size tokens = .ok (t, rest)) : t ≠ [] ∧ t.length = size := by
  obtain ⟨⟨token, later⟩, -, h⟩ := bind_eq_ok.1 h
  dsimp only at h
  split at h
  · cases h
  · next hgroups =>
      split at h
      · next bytes hread =>
          obtain ⟨rfl, -⟩ := Prod.mk.inj (Except.ok.inj h)
          simp only [Bool.or_eq_true, not_or, bne_iff_ne, not_not, Bool.not_eq_true] at hgroups
          have hlength := Hex.length_of_read? hread
          rw [length_flatten_of_all hgroups.2, hgroups.1] at hlength
          refine ⟨?_, by omega⟩
          rintro rfl
          have hzero : size = 0 := by simpa using hlength
          exact Octets.splitOn_ne_nil _ _ (List.length_eq_zero_iff.1 (hgroups.1.trans hzero))
      · cases h

theorem hardware_bare {t : Octets} (hne : t ≠ []) (more : List Token) :
    hardware t.length (.bare (hardwareText t) :: more) = .ok (t, more) := by
  have hsplit : (hardwareText t).splitOn Octet.hyphen = t.map Hex.writeOctet :=
    Octets.splitOn_joinWith_map (fun b => Hex.notMem_write (t := [b]) rfl) hne
  have hflatten : (t.map Hex.writeOctet).flatten = Hex.write t := List.flatMap_def.symm
  simp only [hardware, next, bind, Except.bind, Token.text_graphic (isGraphic_hardwareText t),
    hsplit, hflatten, Hex.read?_write]
  refine if_neg ?_
  simp only [List.length_map, List.any_map, Bool.or_eq_true, bne_iff_ne]
  rintro (hne | hany)
  · exact hne rfl
  · obtain ⟨b, -, hb⟩ := List.any_eq_true.1 hany
    cases hb

def locatorText (t : Octets) : Octets := Octets.joinWith [Octet.colon] (Field.locatorGroups t)

theorem mem_locatorGroups {t group : Octets} (h : group ∈ Field.locatorGroups t) :
    ∃ a b, group = Hex.write [a, b] := by
  fun_induction Field.locatorGroups t with
  | case1 a b rest ih =>
      rcases List.mem_cons.1 h with rfl | h
      · exact ⟨a, b, rfl⟩
      · exact ih h
  | case2 => cases h

theorem isGraphic_locatorText (t : Octets) : (locatorText t).isGraphic = true := by
  refine Octets.all_joinWith rfl fun group hgroup => ?_
  obtain ⟨a, b, rfl⟩ := mem_locatorGroups hgroup
  exact Hex.isGraphic_write [a, b]

theorem length_of_locator? {text t : Octets} (h : locator? text = some t) : t.length = 8 := by
  unfold locator? at h
  dsimp only at h
  split at h
  · cases h
  · next hgroups =>
      simp only [Bool.or_eq_true, not_or, bne_iff_ne, not_not, Bool.not_eq_true] at hgroups
      have hlength := Hex.length_of_read? h
      rw [length_flatten_of_all hgroups.2, hgroups.1] at hlength
      omega

theorem locator?_write {t : Octets} (h : t.length = 8) :
    locatorText t ≠ [] ∧ locator? (locatorText t) = some t := by
  obtain ⟨hcount, hsizes, hflatten, hne⟩ : (Field.locatorGroups t).length = 4
      ∧ (Field.locatorGroups t).any (·.length != 4) = false
      ∧ (Field.locatorGroups t).flatten = Hex.write t ∧ Field.locatorGroups t ≠ [] := by
    match t, h with
    | [_, _, _, _, _, _, _, _], _ => exact ⟨rfl, rfl, rfl, List.cons_ne_nil _ _⟩
  have hsplit : (locatorText t).splitOn Octet.colon = Field.locatorGroups t := by
    refine Octets.splitOn_joinWith (fun group hgroup => ?_) hne
    obtain ⟨a, b, rfl⟩ := mem_locatorGroups hgroup
    exact Hex.notMem_write rfl
  refine ⟨Octets.joinWith_ne_nil (fun group hgroup => ?_) hne, ?_⟩
  · obtain ⟨a, b, rfl⟩ := mem_locatorGroups hgroup
    exact Hex.write_ne_nil (List.cons_ne_nil _ _)
  · rw [locator?, hsplit, hcount, hsizes, hflatten, Hex.read?_write]
    rfl

end Reader

end ZoneKeeper
