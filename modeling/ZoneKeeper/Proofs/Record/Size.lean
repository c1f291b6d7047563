import Mathlib.Algebra.Order.BigOperators.Group.List
import ZoneKeeper.Proofs.Record.Identity
import ZoneKeeper.RecordType.Policy

namespace ZoneKeeper

theorem Octets.length_quoted (t : Octets) : t.length + 2 ≤ t.quoted.length := by
  have hoctet (b : UInt8) : 1 ≤ (Octet.quoted b).length := by
    rw [Octet.quoted]
    split
    · exact Nat.succ_pos _
    · split <;> exact Nat.succ_pos _
  have hbody : t.length ≤ (t.flatMap Octet.quoted).length := by
    rw [List.length_flatMap]
    simpa using List.card_nsmul_le_sum (t.map fun b => (Octet.quoted b).length) 1
      (List.forall_mem_map.2 fun b _ => hoctet b)
  simp only [quoted, List.cons_append, List.length_cons, List.length_append, List.length_nil]
  omega

theorem Base64.length_write (t : Octets) : t.length ≤ (write t).length := by
  fun_induction write t with
  | case1 => exact Nat.le_refl 0
  | case2 | case3 => simp
  | case4 a b c rest ih =>
      simp only [List.length_cons]
      omega

theorem Hex.length_write (t : Octets) : (write t).length = 2 * t.length := by
  induction t with
  | nil => rfl
  | cons b rest ih =>
      rw [write, List.flatMap_cons, List.length_append, ← write, ih, List.length_cons, writeOctet]
      simp only [List.length_cons, List.length_nil]
      omega

namespace DomainName

theorem length_writeLabel (label : Octets) : label.length + 1 ≤ (writeLabel label).length := by
  have hoctet (b : UInt8) : 1 ≤ (writeOctet b).length := by
    rw [writeOctet]
    split
    · exact Nat.succ_pos _
    · split <;> exact Nat.succ_pos _
  rw [writeLabel, List.length_append, List.length_flatMap]
  refine Nat.succ_le_succ ?_
  simpa using List.card_nsmul_le_sum (label.map fun b => (writeOctet b).length) 1
    (List.forall_mem_map.2 fun b _ => hoctet b)

theorem length_wire_le (n : DomainName) : n.wire.length ≤ n.write.length + 1 := by
  rw [wire, write, List.length_append]
  split
  · next hroot =>
      rw [List.isEmpty_iff.1 hroot]
      decide
  · refine Nat.succ_le_succ ?_
    rw [List.length_flatMap, List.length_flatMap]
    exact List.sum_le_sum fun label _ => length_writeLabel label

end DomainName

theorem Octets.length_joinWith {sep : UInt8} {pieces : List Octets} (hne : pieces ≠ []) :
    (joinWith [sep] pieces).length + 1 = (pieces.map fun piece => piece.length + 1).sum := by
  induction pieces with
  | nil => exact absurd rfl hne
  | cons piece rest ih =>
      cases rest with
      | nil => simp [joinWith]
      | cons next rest =>
          have hrest := ih (List.cons_ne_nil _ _)
          rw [joinWith, List.intercalate_cons_cons, ← joinWith, List.length_append,
            List.length_append, List.length_singleton, List.map_cons, List.sum_cons, ← hrest]
          omega

theorem Octets.two_mul_length_le {words : List Octets} (h : ∀ word ∈ words, word ≠ []) :
    2 * words.length ≤ (words.map fun word => word.length + 1).sum := by
  induction words with
  | nil => exact Nat.le_refl 0
  | cons word rest ih =>
      have hword := List.length_pos_iff.2 (h word List.mem_cons_self)
      have hrest := ih fun other hother => h other (List.mem_cons_of_mem _ hother)
      rw [List.map_cons, List.sum_cons, List.length_cons]
      omega

theorem Octets.two_mul_length_le_joinWith {sep : UInt8} {words : List Octets}
    (h : ∀ word ∈ words, word ≠ []) (hne : words ≠ []) :
    2 * words.length ≤ (joinWith [sep] words).length + 1 := by
  rw [length_joinWith hne]
  exact two_mul_length_le h

theorem IPv4.length_write (a : IPv4) : 7 ≤ a.write.length := by
  have hlength : (a.bytes.map fun b => Decimal.write b.toNat).length = 4 :=
    (List.length_map _).trans a.size
  have hparts : ∀ part ∈ a.bytes.map fun b => Decimal.write b.toNat, part ≠ [] :=
    List.forall_mem_map.2 fun b _ => Decimal.write_ne_nil b.toNat
  have hjoined : 2 * (a.bytes.map fun b => Decimal.write b.toNat).length ≤ a.write.length + 1 :=
    Octets.two_mul_length_le_joinWith hparts (List.ne_nil_of_length_eq_add_one hlength)
  omega

theorem IPv6.length_write (a : IPv6) : 2 ≤ a.write.length := by
  rw [write]
  split
  · rw [List.length_append]
    exact Nat.le_add_right_of_le (by decide)
  · dsimp only
    split
    · simp only [List.length_append, List.length_cons, List.length_nil]
      omega
    · have hlength : (a.groups.map writeGroup).length = 8 := (List.length_map _).trans a.size
      have hgroups : ∀ group ∈ a.groups.map writeGroup, group ≠ [] :=
        List.forall_mem_map.2 fun group _ => writeGroup_ne_nil group
      have hjoined : 2 * (a.groups.map writeGroup).length ≤ (writeGroups a.groups).length + 1 :=
        Octets.two_mul_length_le_joinWith hgroups (List.ne_nil_of_length_eq_add_one hlength)
      omega

namespace Field

def room (f : Field) : Nat := (f.words.map fun word => word.length + 1).sum

def cuts : Field → Nat
  | .strings pieces => (pieces.map fun piece => (chunks piece).length - 1).sum
  | _ => 0

theorem room_locatorGroups (t : Octets) :
    ((locatorGroups t).map fun group => group.length + 1).sum = 5 * (t.length / 2) := by
  fun_induction locatorGroups t with
  | case1 a b rest ih =>
      rw [List.map_cons, List.sum_cons, ih, Hex.length_write]
      simp only [List.length_cons, List.length_nil]
      omega
  | case2 t hshort =>
      rcases t with _ | ⟨a, _ | ⟨b, rest⟩⟩
      · rfl
      · simp
      · exact absurd rfl (hshort a b rest)

theorem length_chunks_pos (t : Octets) : 1 ≤ (chunks t).length := by
  rw [chunks]
  split
  · exact Nat.le_refl 1
  · exact Nat.succ_pos _

theorem length_counted_chunks (t : Octets) :
    ((chunks t).flatMap counted).length = t.length + (chunks t).length := by
  fun_induction chunks t with
  | case1 t ht => simp [counted]
  | case2 t ht ih =>
      rw [List.flatMap_cons, List.length_append, ih, counted, List.length_cons, List.length_cons,
        List.length_take, List.length_drop]
      omega

theorem mul_cuts_le (t : Octets) : 255 * ((chunks t).length - 1) ≤ t.length := by
  fun_induction chunks t with
  | case1 t ht => simp
  | case2 t ht ih =>
      have hpos := length_chunks_pos (t.drop 255)
      rw [List.length_drop] at ih
      rw [List.length_cons]
      omega

theorem length_wire_strings (pieces : List Octets) :
    (strings pieces).wire.length
      = (pieces.map fun piece => piece.length + 1).sum + (strings pieces).cuts := by
  induction pieces with
  | nil => rfl
  | cons piece rest ih =>
      have hpos := length_chunks_pos piece
      simp only [wire, cuts, List.flatMap_cons, List.length_append, length_counted_chunks,
        List.map_cons, List.sum_cons] at ih ⊢
      omega

theorem room_strings (pieces : List Octets) :
    (pieces.map fun piece => piece.length + 1).sum + 2 * pieces.length ≤ (strings pieces).room
      ∧ 255 * (strings pieces).cuts ≤ (strings pieces).room := by
  induction pieces with
  | nil => decide
  | cons piece rest ih =>
      have hquoted := piece.length_quoted
      have hcuts := mul_cuts_le piece
      simp only [room, words, cuts, List.map_cons, List.sum_cons, List.length_cons] at ih ⊢
      omega

theorem cuts_le_room (f : Field) : 255 * f.cuts ≤ f.room := by
  cases f with
  | strings pieces => exact (room_strings pieces).2
  | _ => exact Nat.zero_le _

end Field

/-- How many octets the wire form of a field may have more than its words with a blank behind each,
by its form; nothing where that has no bound. The cuts of strings are counted apart. -/
def FieldKind.surplus? : FieldKind → Option Int
  | .number8 => some (-1)
  | .number16 => some 0
  | .number32 => some 2
  | .name => some 0
  | .ipv4 => some (-4)
  | .ipv6 => some 13
  | .strings => some (-2)
  | .tag => some 0
  | .text => some (-3)
  | .string => some (-2)
  | .hex => some (-1)
  | .base64 => some (-1)
  | .hardware _ => some (-1)
  | .locator => some (-1)
  | .location => some (-1)
  | _ => none

namespace Field

theorem length_wire_le {f : Field} {surplus : Int} (hne : f ≠ .strings [])
    (hsound : f.divided.IsSound) (hsurplus : f.form.surplus? = some surplus) :
    (f.wire.length : Int) ≤ f.room + f.cuts + surplus := by
  have hnumber (n : Nat) := List.length_pos_iff.2 (Decimal.write_ne_nil n)
  cases f <;> cases hsurplus
  case number8 n =>
    have := hnumber n.toNat
    simp [wire, room, words, cuts]
    omega
  case number16 n =>
    have := hnumber n.toNat
    simp [wire, room, words, cuts, be16]
    omega
  case number32 n =>
    have := hnumber n.toNat
    simp [wire, room, words, cuts, be32]
    omega
  case name n =>
    have := n.length_wire_le
    simp [wire, room, words, cuts]
    omega
  case ipv4 a =>
    have := a.length_write
    simp [wire, room, words, cuts, a.size]
    omega
  case ipv6 a =>
    have := a.length_write
    simp [wire, room, words, cuts, a.length_bytes]
    omega
  case strings pieces =>
    have hwire := length_wire_strings pieces
    have hroom := (room_strings pieces).1
    have hpieces := List.length_pos_iff.2 (mt (congrArg strings) hne)
    omega
  case tag t =>
    simp [wire, room, words, cuts, counted]
  case text t =>
    have := t.length_quoted
    simp [wire, room, words, cuts]
    omega
  case string t =>
    have := t.length_quoted
    simp [wire, room, words, cuts, counted]
    omega
  case hex t =>
    simp [wire, room, words, cuts, Hex.length_write]
    omega
  case base64 t =>
    have := Base64.length_write t
    simp [wire, room, words, cuts]
    omega
  case hardware t =>
    have hpairs : ∀ pair ∈ t.map Hex.writeOctet, pair ≠ [] :=
      List.forall_mem_map.2 fun _ _ => List.cons_ne_nil _ _
    have hjoined (hne : t.map Hex.writeOctet ≠ []) : 2 * (t.map Hex.writeOctet).length
        ≤ (Octets.joinWith [Octet.hyphen] (t.map Hex.writeOctet)).length + 1 :=
      Octets.two_mul_length_le_joinWith hpairs hne
    cases t <;> simp [wire, room, words, cuts] at hjoined ⊢
    omega
  case locator t =>
    have hlength : t.length = 8 := hsound
    have hgroups := room_locatorGroups t
    have hne : locatorGroups t ≠ [] := by
      intro hnil
      simp [hnil, hlength] at hgroups
    have hjoined : (Octets.joinWith [Octet.colon] (locatorGroups t)).length + 1 = _ :=
      Octets.length_joinWith hne
    simp [wire, room, words, cuts, hlength] at hgroups hjoined ⊢
    omega
  case location l =>
    have hwords := Octets.two_mul_length_le fun word hword =>
      (Location.isGraphic_of_mem_words (l := l) word hword).2
    have hcount : l.words.length = 12 := by simp [Location.words, Location.coordinateWords]
    have hwire : l.wire.length = 16 := by simp [Location.wire, be32]
    simp only [wire, room, words, cuts]
    omega

theorem length_flatMap_wire_le {fields : List Field} {surpluses : List Int}
    (hne : ∀ f ∈ fields, f ≠ .strings []) (hsound : ∀ f ∈ fields, f.divided.IsSound)
    (hsurpluses : (fields.map form).mapM FieldKind.surplus? = some surpluses) :
    ((fields.flatMap wire).length : Int)
      ≤ (fields.map room).sum + (fields.map cuts).sum + surpluses.sum := by
  induction fields generalizing surpluses with
  | nil =>
      obtain rfl := Option.some.inj hsurpluses
      exact Int.le_refl 0
  | cons f rest ih =>
      simp only [List.map_cons, List.mapM_cons, Option.bind_eq_bind,
        Option.bind_eq_some_iff] at hsurpluses
      obtain ⟨first, hfirst, later, hlater, heq⟩ := hsurpluses
      obtain rfl := Option.some.inj heq
      obtain ⟨hne, hneRest⟩ := List.forall_mem_cons.1 hne
      obtain ⟨hsound, hsoundRest⟩ := List.forall_mem_cons.1 hsound
      have hthis := length_wire_le hne hsound hfirst
      have hothers := ih hneRest hsoundRest hlater
      simp only [List.flatMap_cons, List.length_append, List.map_cons, List.sum_cons]
      omega

end Field

def RecordType.excess? (type : String) : Option Nat := do
  let kinds ← RecordType.layout? type
  let surpluses ← (kinds.flatMap FieldKind.forms).mapM FieldKind.surplus?
  -- there is no blank behind the last word
  return (surpluses.sum + 1).toNat

namespace RecordData

def cuts (d : RecordData) : Nat := (d.fields.map Field.cuts).sum

theorem room_le (d : RecordData) : (d.fields.map Field.room).sum ≤ d.write.length + 1 := by
  have hroom : (d.fields.map Field.room).sum
      = ((d.fields.flatMap Field.words).map fun word => word.length + 1).sum := by
    generalize d.fields = fields
    induction fields with
    | nil => rfl
    | cons f rest ih =>
        rw [List.map_cons, List.sum_cons, ih, List.flatMap_cons, List.map_append, List.sum_append,
          Field.room]
  rw [hroom, write, Octets.words]
  by_cases hne : d.fields.flatMap Field.words = []
  · rw [hne]
    exact Nat.zero_le _
  · exact (Octets.length_joinWith hne).ge

theorem cuts_le (d : RecordData) : 255 * d.cuts ≤ d.write.length + 1 := by
  refine Nat.le_trans ?_ d.room_le
  rw [cuts]
  generalize d.fields = fields
  induction fields with
  | nil => exact Nat.le_refl 0
  | cons f rest ih =>
      have hfirst := f.cuts_le_room
      simp only [List.map_cons, List.sum_cons]
      omega

variable {type : String} {content : Octets} {d : RecordData}

theorem ne_strings_nil (h : read type content = .ok d) : ∀ f ∈ d.fields, f ≠ .strings [] := by
  obtain ⟨tokens, kinds, -, -, hfields⟩ := of_read h
  generalize d.fields = fields at hfields ⊢
  clear h
  induction kinds generalizing tokens fields with
  | nil =>
      obtain ⟨-, rfl⟩ := eq_nil_of_readFields_nil hfields
      exact List.forall_mem_nil _
  | cons kind kinds ih =>
      rw [readFields] at hfields
      obtain ⟨⟨first, rest⟩, hfirst, hfields⟩ := bind_eq_ok.1 hfields
      obtain ⟨later, hlater, hfields⟩ := bind_eq_ok.1 hfields
      obtain rfl := Except.ok.inj hfields
      refine List.forall_mem_append.2 ⟨?_, ih _ _ hlater⟩
      cases FieldKind.gives_of_read hfirst <;> simp_all

theorem length_wire_le {excess : Nat} (h : read type content = .ok d)
    (hexcess : RecordType.excess? type = some excess) :
    d.wire.length ≤ d.write.length + d.cuts + excess := by
  obtain ⟨⟨kinds, hkinds, hforms⟩, hsound⟩ := isSound_of_read h
  simp only [RecordType.excess?, hkinds, Option.bind_eq_bind, Option.bind_some,
    Option.bind_eq_some_iff] at hexcess
  obtain ⟨surpluses, hsurpluses, hexcess⟩ := hexcess
  have hfields := Field.length_flatMap_wire_le (ne_strings_nil h) hsound (hforms ▸ hsurpluses)
  have hroom := d.room_le
  have hexcess := Option.some.inj hexcess
  rw [wire, cuts]
  omega

theorem cuts_eq_zero (h : read type content = .ok d) (htxt : type ≠ "TXT") (hspf : type ≠ "SPF") :
    d.cuts = 0 := by
  obtain ⟨kinds, hkinds, hforms⟩ := (isSound_of_read h).forms
  have hnone := strings_notMem_layout hkinds htxt hspf
  rw [← hforms] at hnone
  refine List.sum_eq_zero (List.forall_mem_map.2 fun f hf => ?_)
  cases f with
  | strings pieces => exact absurd (List.mem_map_of_mem hf) hnone
  | _ => rfl

end RecordData

end ZoneKeeper
