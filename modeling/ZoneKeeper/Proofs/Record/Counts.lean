import ZoneKeeper.Proofs.Record.Form

namespace ZoneKeeper

structure Count where
  bits : Nat
  octets : Octets
  data : Octets

namespace Count

def short (t : Octets) : Count := ⟨8, [UInt8.ofNat t.length], t⟩

def long (t : Octets) : Count := ⟨16, be16 (UInt16.ofNat t.length), t⟩

def given (c : Count) : Nat := c.octets.foldl (fun n b => n * 256 + b.toNat) 0 % 2 ^ c.bits

structure Holds (c : Count) (text : Octets) : Prop where
  stands : c.octets ++ c.data <:+: text
  exact : c.given = c.data.length

theorem Holds.mono {c : Count} {text text' : Octets} (h : c.Holds text) (hin : text <:+: text') :
    c.Holds text' :=
  ⟨h.stands.trans hin, h.exact⟩

theorem given_short {t : Octets} (h : t.length ≤ 255) : (short t).given = t.length := by
  simp only [given, short, List.foldl_cons, List.foldl_nil, Nat.zero_mul, Nat.zero_add,
    UInt8.toNat_ofNat_of_lt' (Nat.lt_succ_of_le h)]
  exact Nat.mod_eq_of_lt (Nat.lt_succ_of_le h)

theorem given_long {t : Octets} (h : t.length < 65536) : (long t).given = t.length := by
  simp only [given, long, be16, List.foldl_cons, List.foldl_nil, UInt8.toNat_ofNat',
    UInt16.toNat_ofNat', Nat.mod_eq_of_lt h]
  omega

theorem short_holds {t : Octets} (h : t.length ≤ 255) : (short t).Holds (counted t) :=
  ⟨List.infix_refl _, given_short h⟩

theorem holds_of_mem_short {pieces : List Octets} (h : ∀ piece ∈ pieces, piece.length ≤ 255) :
    ∀ c ∈ pieces.map short, c.Holds (pieces.flatMap counted) :=
  List.forall_mem_map.2 fun piece hpiece =>
    (short_holds (h piece hpiece)).mono (Octets.infix_flatMap counted hpiece)

end Count

def DomainName.counts (n : DomainName) : List Count := (n.labels ++ [[]]).map Count.short

def AddressPrefix.count (p : AddressPrefix) : Count :=
  let bytes := dropTrailingZeros p.network.address.bytes
  ⟨7, [UInt8.ofNat ((if p.negated then 128 else 0) + bytes.length)], bytes⟩

def ServiceParameters.counts (p : ServiceParameters) : List Count :=
  p.entries.flatMap fun e => Count.long e.2.wire :: e.2.ids.map Count.short

def Field.counts : Field → List Count
  | .name n => n.counts
  | .strings pieces => (pieces.flatMap chunks).map Count.short
  | .tag t => [Count.short t]
  | .string t => [Count.short t]
  | .types codes => (Bitmap.windows codes).map fun w => Count.short w.2
  | .prefixes items => items.map AddressPrefix.count
  | .parameters p => p.counts
  | _ => []

theorem DomainName.IsValid.holds {n : DomainName} (h : n.IsValid) :
    ∀ c ∈ n.counts, c.Holds n.wire := by
  have hlabels : ∀ l ∈ n.labels ++ [[]], l.length ≤ 255 := by
    intro l hl
    rcases List.mem_append.1 hl with hl | hl
    · exact h.length_le hl
    · obtain rfl := List.mem_singleton.1 hl
      exact Nat.zero_le _
  have hwire : n.wire = (n.labels ++ [[]]).flatMap counted := by
    rw [List.flatMap_append]
    rfl
  rw [hwire]
  exact Count.holds_of_mem_short hlabels

theorem AddressPrefix.holds (p : AddressPrefix) : p.count.Holds p.wire where
  stands := by
    refine List.IsSuffix.isInfix ⟨be16 (familyNumber p.network.address.family)
      ++ [UInt8.ofNat p.network.length], ?_⟩
    simp [wire, count]
  exact := by
    have hkept := p.length_kept_le
    simp only [Count.given, count, List.foldl_cons, List.foldl_nil, Nat.zero_mul, Nat.zero_add]
    rw [UInt8.toNat_ofNat_of_lt' (countOctet_lt hkept p.negated)]
    split <;> omega

theorem Bitmap.holds {codes : List UInt16} :
    ∀ c ∈ (Field.types codes).counts, c.Holds (Bitmap.wire codes) := by
  refine List.forall_mem_map.2 fun w hw => ?_
  have hshort := Count.short_holds ((length_of_mem_windows w hw).trans (by decide))
  refine (hshort.mono (List.suffix_cons w.1 _).isInfix).mono ?_
  exact Octets.infix_flatMap (fun w : UInt8 × Octets => w.1 :: counted w.2) hw

theorem ServiceParameters.IsSettled.holds {p : ServiceParameters} (h : p.IsSettled)
    (hlength : p.wire.length < 65536) : ∀ c ∈ p.counts, c.Holds p.wire := by
  intro c hc
  obtain ⟨e, he, hc⟩ := List.mem_flatMap.1 hc
  have hentry := isCountable_of_isSettled h hlength e he
  have hvalue := infix_of_mem he
  rcases List.mem_cons.1 hc with rfl | hc
  · exact ⟨hvalue, Count.given_long hentry.length⟩
  · have hids := Count.holds_of_mem_short hentry.suits.ids c hc
    have hwire : e.2.ids.flatMap counted <:+: e.2.wire := by
      cases e.2 with
      | alpn ids => exact List.infix_refl _
      | _ => exact List.nil_infix
    exact hids.mono (hwire.trans ((List.suffix_append _ _).isInfix.trans hvalue))

theorem Field.holds_of_mem_counts {f : Field} (h : f.divided.IsSound)
    (hlength : f.wire.length < 65536) : ∀ c ∈ f.counts, c.Holds f.wire := by
  cases f with
  | name n => exact DomainName.IsValid.holds h
  | strings pieces =>
      rw [wire_strings]
      exact Count.holds_of_mem_short h
  | tag t => exact List.forall_mem_singleton.2 (Count.short_holds h)
  | string t => exact List.forall_mem_singleton.2 (Count.short_holds h)
  | types codes => exact Bitmap.holds
  | prefixes items =>
      exact List.forall_mem_map.2 fun item hitem =>
        item.holds.mono (Octets.infix_flatMap AddressPrefix.wire hitem)
  | parameters p => exact ServiceParameters.IsSettled.holds h hlength
  | _ => exact List.forall_mem_nil _

end ZoneKeeper
