import ZoneKeeper.Proofs.Address.IPv6
import ZoneKeeper.Proofs.RecordType.Code
import ZoneKeeper.Proofs.Text.Token
import ZoneKeeper.Record.ServiceParameters

namespace ZoneKeeper

theorem Octets.quoted_of_isGraphic {t : Octets} (h : t.isGraphic = true) :
    t.quoted = Octet.quote :: t ++ [Octet.quote] := by
  have hgraphic : ∀ b, Octet.isGraphic b = true → Octet.quoted b = [b] :=
    Octet.forall_of_fin (by decide +kernel)
  have hsame : t.flatMap Octet.quoted = t := by
    rw [List.flatMap_congr fun b hb => hgraphic b (isGraphic_iff.1 h b hb)]
    exact List.flatMap_singleton' t
  rw [quoted, hsame]

theorem Octets.items_joinWith {α : Type} {write : α → Octets} {items : List α} (hne : items ≠ [])
    (hgraphic : ∀ a, (write a).isGraphic = true) (hcomma : ∀ a, Octet.comma ∉ write a)
    (hwrite : ∀ a, write a ≠ []) :
    (joinWith [Octet.comma] (items.map write)).isGraphic = true
      ∧ joinWith [Octet.comma] (items.map write) ≠ []
      ∧ (joinWith [Octet.comma] (items.map write)).repair.splitOn Octet.comma
        = items.map write := by
  have hjoined : (joinWith [Octet.comma] (items.map write)).isGraphic = true :=
    all_joinWith_map rfl hgraphic
  refine ⟨hjoined, joinWith_map_ne_nil hwrite hne, ?_⟩
  rw [repair_of_isAscii (isAscii_of_isGraphic hjoined), splitOn_joinWith_map hcomma hne]

namespace ServiceKey

theorem code?_names : ∀ row ∈ names, code? (octets row.1) = some row.2 := by
  decide +kernel

@[simp] theorem code?_name (key : UInt16) : code? (name key) = some key := by
  unfold name
  split
  · next w n hfind =>
      have hn : n = key := by simpa using List.find?_some hfind
      rw [← hn]
      exact code?_names (w, n) (List.mem_of_find?_eq_some hfind)
  · have hlower : (octets "key" ++ Decimal.write key.toNat).lower
        = octets "key" ++ Decimal.write key.toNat := by
      rw [Octets.lower, List.map_append]
      exact congrArg (octets "key" ++ ·) (Decimal.lower_write key.toNat)
    have hfind := RecordType.find?_numbered names (octets "key") (by decide +kernel) key.toNat
    simp only [code?, hlower, hfind]
    exact RecordType.numbered?_write _ key

@[simp] theorem read_name (key : UInt16) : read (name key) = .ok key := by
  rw [read, code?_name]

theorem mem_name {key : UInt16} {b : UInt8} (h : b ∈ name key) :
    Octet.isAlphanumeric b = true ∨ b = Octet.hyphen := by
  have hnames : ∀ row ∈ names, ∀ b ∈ octets row.1,
      Octet.isAlphanumeric b = true ∨ b = Octet.hyphen := by
    decide +kernel
  have hkey : ∀ b ∈ octets "key", Octet.isAlphanumeric b = true := by decide +kernel
  unfold name at h
  split at h
  · next w n hfind => exact hnames (w, n) (List.mem_of_find?_eq_some hfind) b h
  · rcases List.mem_append.1 h with h | h
    · exact Or.inl (hkey b h)
    · rw [Octet.isAlphanumeric, Decimal.isDigit_of_mem_write b h]
      exact Or.inl rfl

theorem isGraphic_name (key : UInt16) : (name key).isGraphic = true := by
  refine Octets.isGraphic_iff.2 fun b hb => ?_
  rcases mem_name hb with hb | rfl
  · exact Octet.isGraphic_of_isAlphanumeric hb
  · rfl

theorem notMem_name {key : UInt16} {b : UInt8} (halphanumeric : Octet.isAlphanumeric b = false)
    (hhyphen : b ≠ Octet.hyphen) : b ∉ name key := by
  intro hmem
  rcases mem_name hmem with hb | hb
  · rw [halphanumeric] at hb
    cases hb
  · exact hhyphen hb

theorem name_ne_nil (key : UInt16) : name key ≠ [] := by
  intro hnil
  have hcode := code?_name key
  rw [hnil] at hcode
  cases hcode

end ServiceKey

namespace ServiceValue

def given : ServiceValue → Option Octets
  | .mandatory keys => some (Octets.joinWith [Octet.comma] (keys.map ServiceKey.name))
  | .alpn ids => some (Octets.joinWith [Octet.comma] ids)
  | .noDefaultAlpn => none
  | .port number => some (Decimal.write number.toNat)
  | .ipv4Hint addresses => some (Octets.joinWith [Octet.comma] (addresses.map IPv4.write))
  | .ech bytes => some (Base64.write bytes)
  | .ipv6Hint addresses => some (Octets.joinWith [Octet.comma] (addresses.map IPv6.write))
  | .other bytes => some bytes

def isQuoted : ServiceValue → Bool
  | .ech _ => true
  | .other _ => true
  | _ => false

theorem write_eq (v : ServiceValue) : v.write = match v.given with
    | none => []
    | some t => Octet.equal :: if v.isQuoted then t.quoted else t := by
  cases v with
  | ech bytes =>
      change _ = Octet.equal :: (Base64.write bytes).quoted
      rw [Octets.quoted_of_isGraphic (Base64.isGraphic_write bytes)]
      rfl
  | _ => rfl

def hasBareIds : ServiceValue → Bool
  | .alpn ids => ids.all (·.all Octet.isBare)
  | _ => true

structure IsSettled (key : UInt16) (v : ServiceValue) : Prop where
  read : ServiceValue.read key v.given = .ok v
  bare : v.hasBareIds = true → v.isQuoted = false →
    ∀ t, v.given = some t → t ≠ [] ∧ t.all Octet.isBare = true
  isText : v.isQuoted = false → ∀ t, v.given = some t → t.IsText

theorem IsSettled.of_quoted {key : UInt16} {v : ServiceValue} (hquoted : v.isQuoted = true)
    (hread : ServiceValue.read key v.given = .ok v) : v.IsSettled key := by
  refine ⟨hread, fun _ h => ?_, fun h => ?_⟩
  · rw [hquoted] at h
    cases h
  · rw [hquoted] at h
    cases h

theorem IsSettled.of_graphic {key : UInt16} {v : ServiceValue} {t : Octets}
    (hgiven : v.given = some t) (hgraphic : t.isGraphic = true) (hne : t ≠ [])
    (hread : ServiceValue.read key (some t) = .ok v) : v.IsSettled key := by
  refine ⟨by rw [hgiven, hread], fun _ _ s hs => ?_, fun _ s hs => ?_⟩
  · obtain rfl := Option.some.inj (hgiven.symm.trans hs)
    refine ⟨hne, List.all_eq_true.2 fun b hb => ?_⟩
    exact Octet.isBare_of_isGraphic (Octets.isGraphic_iff.1 hgraphic b hb)
  · obtain rfl := Option.some.inj (hgiven.symm.trans hs)
    exact Octets.isText_of_isAscii (Octets.isAscii_of_isGraphic hgraphic)

theorem readKeys_spec {text : Octets} {seen : List UInt16} {items : List Octets}
    {keys : List UInt16} (h : readKeys text seen items = .ok keys)
    (hseen : seen.Nodup ∧ ServiceKey.mandatory ∉ seen) :
    keys.Nodup ∧ ServiceKey.mandatory ∉ keys
      ∧ keys.length = seen.length + items.length := by
  induction items generalizing seen with
  | nil =>
      obtain rfl := Except.ok.inj h
      exact ⟨(List.reverse_perm seen).nodup_iff.2 hseen.1, by simpa using hseen.2, by simp⟩
  | cons item rest ih =>
      obtain ⟨key, -, h⟩ := bind_eq_ok.1 h
      split at h
      · cases h
      · next hkey =>
          simp only [Bool.or_eq_true, beq_iff_eq, List.contains_iff_mem, not_or] at hkey
          obtain ⟨hnodup, hmandatory, hlength⟩ := ih h
            ⟨List.nodup_cons.2 ⟨hkey.2, hseen.1⟩,
              fun hmem => (List.mem_cons.1 hmem).elim (fun h => hkey.1 h.symm) hseen.2⟩
          refine ⟨hnodup, hmandatory, ?_⟩
          rw [hlength, List.length_cons, List.length_cons]
          omega

theorem readKeys_names (text : Octets) (seen : List UInt16) {keys : List UInt16}
    (hkeys : keys.Nodup) (hmandatory : ServiceKey.mandatory ∉ keys)
    (hseen : ∀ key ∈ keys, key ∉ seen) :
    readKeys text seen (keys.map ServiceKey.name) = .ok (seen.reverse ++ keys) := by
  induction keys generalizing seen with
  | nil => rw [List.append_nil, List.map_nil, readKeys]
  | cons key rest ih =>
      obtain ⟨hkey, hrest⟩ := List.nodup_cons.1 hkeys
      obtain ⟨hne, hmandatory⟩ := not_or.1 (mt List.mem_cons.2 hmandatory)
      have hnew := hseen key List.mem_cons_self
      simp only [List.map_cons, readKeys, ServiceKey.read_name, bind, Except.bind]
      rw [if_neg (by simp [Ne.symm hne, hnew]), ih _ hrest hmandatory, List.reverse_cons,
        List.append_assoc]
      · rfl
      · intro other hother hmem
        rcases List.mem_cons.1 hmem with rfl | hmem
        · exact hkey hother
        · exact hseen other (List.mem_cons_of_mem _ hother) hmem

theorem sortKeys_sortKeys (keys : List UInt16) : sortKeys (sortKeys keys) = sortKeys keys := by
  refine List.mergeSort_of_pairwise (List.pairwise_mergeSort ?_ ?_ keys)
  · intro a b c hab hbc
    simp only [decide_eq_true_eq] at hab hbc ⊢
    exact UInt16.le_trans hab hbc
  · intro a b
    simpa using UInt16.le_total a b

theorem orBad_eq_ok {what : String} {text : Octets} {α : Type} {x : Option α} {a : α} :
    orBad what text x = .ok a ↔ x = some a := by
  cases x <;> simp [orBad]

theorem read_some {key : UInt16} (hkey : key ≠ ServiceKey.noDefaultAlpn)
    (hknown : ¬ key > ServiceKey.ipv6Hint) {t : Octets} (ht : t ≠ []) :
    ServiceValue.read key (some t) = readKnown key t := by
  obtain ⟨b, rest, rfl⟩ := List.exists_cons_of_ne_nil ht
  rw [ServiceValue.read, if_neg (by simpa using hkey), if_neg hknown]

theorem isSettled_mandatory {text : Octets} {items : List Octets} {keys : List UInt16}
    (hkeys : readKeys text [] items = .ok keys) (hitems : items ≠ []) :
    IsSettled ServiceKey.mandatory (.mandatory (sortKeys keys)) := by
  obtain ⟨hnodup, hnotin, hlength⟩ := readKeys_spec hkeys (by simp)
  have hperm : (sortKeys keys).Perm keys := List.mergeSort_perm keys _
  have hne : sortKeys keys ≠ [] := by
    intro hnil
    have hzero := hperm.length_eq
    rw [hnil, hlength] at hzero
    exact hitems (List.length_eq_zero_iff.1 (by simpa using hzero.symm))
  obtain ⟨hgraphic, hjoined, hsplit⟩ := Octets.items_joinWith hne ServiceKey.isGraphic_name
    (fun key => ServiceKey.notMem_name rfl (by decide)) ServiceKey.name_ne_nil
  have hagain := readKeys_names (Octets.joinWith [Octet.comma]
    ((sortKeys keys).map ServiceKey.name)).repair [] (hperm.nodup_iff.2 hnodup)
    (fun h => hnotin (hperm.mem_iff.1 h)) (by simp)
  refine .of_graphic rfl hgraphic hjoined ?_
  rw [read_some (by decide) (by decide) hjoined, readKnown, if_pos (by decide), hsplit, hagain]
  exact congrArg (fun keys => Except.ok (ServiceValue.mandatory keys)) (sortKeys_sortKeys keys)

theorem isSettled_alpn {text : Octets} (htext : text.IsText)
    (hids : (text.splitOn Octet.comma).all isAlpnId = true) :
    IsSettled ServiceKey.alpn (.alpn (text.splitOn Octet.comma)) := by
  have hjoin := Octets.joinWith_splitOn Octet.comma text
  have hne : text ≠ [] := by
    rw [← hjoin]
    refine Octets.joinWith_ne_nil (fun id hid => ?_) (Octets.splitOn_ne_nil _ _)
    have hid := List.all_eq_true.1 hids id hid
    simp only [isAlpnId, Bool.and_eq_true, Bool.not_eq_true', List.isEmpty_eq_false_iff] at hid
    exact hid.1
  refine ⟨?_, fun hbare _ t ht => ?_, fun _ t ht => ?_⟩
  · rw [given, hjoin, read_some (by decide) (by decide) hne, readKnown, if_neg (by decide),
      if_pos (by decide), htext.repair, if_pos hids]
    rfl
  · obtain rfl := Option.some.inj ht
    exact ⟨by rwa [hjoin], Octets.all_joinWith rfl (List.all_eq_true.1 hbare)⟩
  · obtain rfl := Option.some.inj ht
    rwa [hjoin]

theorem isSettled_port (n : UInt16) : IsSettled ServiceKey.port (.port n) := by
  have hgraphic := Decimal.isGraphic_write n.toNat
  have hbits : Decimal.readBits? 16 (Decimal.write n.toNat) = some n.toNat :=
    Decimal.readBits?_write (by simpa using n.toNat_lt)
  refine .of_graphic rfl hgraphic (Decimal.write_ne_nil _) ?_
  rw [read_some (by decide) (by decide) (Decimal.write_ne_nil _), readKnown, if_neg (by decide),
    if_neg (by decide), if_pos (by decide),
    Octets.repair_of_isAscii (Octets.isAscii_of_isGraphic hgraphic), hbits, Option.map_some,
    UInt16.ofNat_toNat]
  rfl

theorem isSettled_ipv4Hint {addresses : List IPv4} (hne : addresses ≠ []) :
    IsSettled ServiceKey.ipv4Hint (.ipv4Hint addresses) := by
  have hcomma (a : IPv4) : Octet.comma ∉ a.write := fun hmem => by
    rcases IPv4.mem_write hmem with h | h <;> cases h
  obtain ⟨hgraphic, hjoined, hsplit⟩ := Octets.items_joinWith hne IPv4.isGraphic_write hcomma
    IPv4.write_ne_nil
  refine .of_graphic rfl hgraphic hjoined ?_
  rw [read_some (by decide) (by decide) hjoined, readKnown, if_neg (by decide),
    if_neg (by decide), if_neg (by decide), if_pos (by decide), hsplit,
    mapM_map_eq_some fun a _ => a.readStrict?_write]
  rfl

theorem isSettled_ech {bytes : Octets} (hne : bytes ≠ []) :
    IsSettled ServiceKey.ech (.ech bytes) := by
  refine .of_quoted rfl ?_
  rw [given, read_some (by decide) (by decide) (Base64.write_ne_nil hne), readKnown,
    if_neg (by decide), if_neg (by decide), if_neg (by decide), if_neg (by decide),
    if_pos (by decide), Base64.read?_write]
  rfl

theorem isSettled_ipv6Hint {addresses : List IPv6} (hne : addresses ≠ []) :
    IsSettled ServiceKey.ipv6Hint (.ipv6Hint addresses) := by
  have hcomma (a : IPv6) : Octet.comma ∉ a.write := fun hmem => by
    rcases IPv6.mem_write hmem with h | h | h <;> cases h
  obtain ⟨hgraphic, hjoined, hsplit⟩ := Octets.items_joinWith hne IPv6.isGraphic_write hcomma
    IPv6.write_ne_nil
  refine .of_graphic rfl hgraphic hjoined ?_
  rw [read_some (by decide) (by decide) hjoined, readKnown, if_neg (by decide),
    if_neg (by decide), if_neg (by decide), if_neg (by decide), if_neg (by decide), hsplit,
    mapM_map_eq_some fun a _ => a.read?_write]
  rfl

theorem eq_ipv6Hint {key : UInt16} (hknown : ¬ key > ServiceKey.ipv6Hint)
    (hkey : key ≠ ServiceKey.noDefaultAlpn) (hmandatory : ¬ (key == ServiceKey.mandatory) = true)
    (halpn : ¬ (key == ServiceKey.alpn) = true) (hport : ¬ (key == ServiceKey.port) = true)
    (hhint : ¬ (key == ServiceKey.ipv4Hint) = true) (hech : ¬ (key == ServiceKey.ech) = true) :
    key = ServiceKey.ipv6Hint := by
  have hle : key.toNat ≤ 6 := UInt16.le_iff_toNat_le.1 (UInt16.not_lt.1 hknown)
  have hne {other : UInt16} (h : ¬ (key == other) = true) : key.toNat ≠ other.toNat :=
    fun heq => h (beq_iff_eq.2 (UInt16.toNat_inj.1 heq))
  have h₀ : key.toNat ≠ 0 := hne hmandatory
  have h₁ : key.toNat ≠ 1 := hne halpn
  have h₂ : key.toNat ≠ 2 := fun heq => hkey (UInt16.toNat_inj.1 heq)
  have h₃ : key.toNat ≠ 3 := hne hport
  have h₄ : key.toNat ≠ 4 := hne hhint
  have h₅ : key.toNat ≠ 5 := hne hech
  refine UInt16.toNat_inj.1 (show key.toNat = 6 from ?_)
  omega

inductive Gives : UInt16 → ServiceValue → Prop
  | mandatory {text : Octets} {items : List Octets} {keys : List UInt16}
      (hkeys : readKeys text [] items = .ok keys) (hitems : items ≠ []) :
      Gives ServiceKey.mandatory (.mandatory (sortKeys keys))
  | alpn {text : Octets} (htext : text.IsText)
      (hids : (text.splitOn Octet.comma).all isAlpnId = true) :
      Gives ServiceKey.alpn (.alpn (text.splitOn Octet.comma))
  | noDefaultAlpn : Gives ServiceKey.noDefaultAlpn .noDefaultAlpn
  | port (n : UInt16) : Gives ServiceKey.port (.port n)
  | ipv4Hint {addresses : List IPv4} (h : addresses ≠ []) :
      Gives ServiceKey.ipv4Hint (.ipv4Hint addresses)
  | ech {bytes : Octets} (h : bytes ≠ []) : Gives ServiceKey.ech (.ech bytes)
  | ipv6Hint {addresses : List IPv6} (h : addresses ≠ []) :
      Gives ServiceKey.ipv6Hint (.ipv6Hint addresses)
  | other {key : UInt16} (h : key > ServiceKey.ipv6Hint) (bytes : Octets) :
      Gives key (.other bytes)

theorem gives_of_readKnown {key : UInt16} (hkey : key ≠ ServiceKey.noDefaultAlpn)
    (hknown : ¬ key > ServiceKey.ipv6Hint) {value : Octets} (hvalue : value ≠ [])
    {v : ServiceValue} (h : readKnown key value = .ok v) : Gives key v := by
  have hitems : value.repair.splitOn Octet.comma ≠ [] := Octets.splitOn_ne_nil _ _
  unfold readKnown at h
  dsimp only at h
  split at h
  · next hmandatory =>
      obtain rfl := eq_of_beq hmandatory
      obtain ⟨keys, hkeys, rfl⟩ := map_eq_ok.1 h
      exact .mandatory hkeys hitems
  next hmandatory =>
  split at h
  · next halpn =>
      obtain rfl := eq_of_beq halpn
      have h := orBad_eq_ok.1 h
      split at h
      · next hids =>
          obtain rfl := Option.some.inj h
          exact .alpn (Octets.isText_repair value) hids
      · cases h
  next halpn =>
  split at h
  · next hport =>
      obtain rfl := eq_of_beq hport
      obtain ⟨n, -, rfl⟩ := Option.map_eq_some_iff.1 (orBad_eq_ok.1 h)
      exact .port _
  next hport =>
  split at h
  · next hhint =>
      obtain rfl := eq_of_beq hhint
      obtain ⟨addresses, haddresses, rfl⟩ := Option.map_eq_some_iff.1 (orBad_eq_ok.1 h)
      exact .ipv4Hint (mapM_ne_nil haddresses hitems)
  next hhint =>
  split at h
  · next hech =>
      obtain rfl := eq_of_beq hech
      obtain ⟨bytes, hbytes, rfl⟩ := Option.map_eq_some_iff.1 (orBad_eq_ok.1 h)
      exact .ech (Base64.read?_ne_nil hbytes hvalue)
  · next hech =>
      obtain rfl := eq_ipv6Hint hknown hkey hmandatory halpn hport hhint hech
      obtain ⟨addresses, haddresses, rfl⟩ := Option.map_eq_some_iff.1 (orBad_eq_ok.1 h)
      exact .ipv6Hint (mapM_ne_nil haddresses hitems)

theorem gives_of_read {key : UInt16} {value : Option Octets} {v : ServiceValue}
    (h : ServiceValue.read key value = .ok v) : Gives key v := by
  unfold ServiceValue.read at h
  split at h
  · next hkey =>
      split at h
      · obtain rfl := Except.ok.inj h
        obtain rfl := eq_of_beq hkey
        exact .noDefaultAlpn
      · cases h
  next hkey =>
  split at h
  · next hother =>
      obtain rfl := Except.ok.inj h
      exact .other hother _
  next hknown =>
  split at h
  · cases h
  · cases h
  · next value hvalue =>
      exact gives_of_readKnown (by simpa using hkey) hknown (fun hnil => hvalue (hnil ▸ rfl)) h

theorem isSettled_noDefaultAlpn : IsSettled ServiceKey.noDefaultAlpn .noDefaultAlpn := by
  refine ⟨rfl, fun _ _ t ht => ?_, fun _ t ht => ?_⟩
  · cases ht
  · cases ht

theorem isSettled_other {key : UInt16} (hkey : key > ServiceKey.ipv6Hint) (bytes : Octets) :
    IsSettled key (.other bytes) := by
  have hne : ¬ (key == ServiceKey.noDefaultAlpn) = true := by
    rintro heq
    obtain rfl := eq_of_beq heq
    exact absurd hkey (by decide)
  refine .of_quoted rfl ?_
  rw [given, ServiceValue.read, if_neg hne, if_pos hkey]
  rfl

theorem Gives.isSettled {key : UInt16} {v : ServiceValue} (h : Gives key v) : v.IsSettled key := by
  cases h with
  | mandatory hkeys hitems => exact isSettled_mandatory hkeys hitems
  | alpn htext hids => exact isSettled_alpn htext hids
  | noDefaultAlpn => exact isSettled_noDefaultAlpn
  | port n => exact isSettled_port n
  | ipv4Hint hne => exact isSettled_ipv4Hint hne
  | ech hne => exact isSettled_ech hne
  | ipv6Hint hne => exact isSettled_ipv6Hint hne
  | other hkey bytes => exact isSettled_other hkey bytes

end ServiceValue

end ZoneKeeper
