import ZoneKeeper.Proofs.Record.Delimited
import ZoneKeeper.Proofs.Record.ServiceParameters

namespace ZoneKeeper

namespace ServiceValue

def isFor (key : UInt16) : ServiceValue → Bool
  | .mandatory _ => key == ServiceKey.mandatory
  | .alpn _ => key == ServiceKey.alpn
  | .noDefaultAlpn => key == ServiceKey.noDefaultAlpn
  | .port _ => key == ServiceKey.port
  | .ipv4Hint _ => key == ServiceKey.ipv4Hint
  | .ech _ => key == ServiceKey.ech
  | .ipv6Hint _ => key == ServiceKey.ipv6Hint
  | .other _ => key > ServiceKey.ipv6Hint

def ids : ServiceValue → List Octets
  | .alpn ids => ids
  | _ => []

structure Suits (key : UInt16) (v : ServiceValue) : Prop where
  isFor : v.isFor key = true
  ids : ∀ id ∈ v.ids, id.length ≤ 255

theorem Gives.suits {key : UInt16} {v : ServiceValue} (h : Gives key v) : v.Suits key := by
  have hnone : ∀ id ∈ ([] : List Octets), id.length ≤ 255 := List.forall_mem_nil _
  cases h with
  | alpn htext hids =>
      refine ⟨rfl, fun id hid => ?_⟩
      have hid := List.all_eq_true.1 hids id hid
      simp only [isAlpnId, Bool.and_eq_true, decide_eq_true_eq] at hid
      exact hid.2
  | other hkey bytes => exact ⟨decide_eq_true hkey, hnone⟩
  | mandatory | noDefaultAlpn | port | ipv4Hint | ech | ipv6Hint => exact ⟨rfl, hnone⟩

theorem wire_inj {key : UInt16} {v w : ServiceValue} (hv : v.Suits key) (hw : w.Suits key)
    (h : v.wire = w.wire) : v = w := by
  have hfor := hv.isFor
  have hfor' := hw.isFor
  cases v <;> cases w
  case mandatory.mandatory keys keys' =>
    exact congrArg _ (selfDelimiting_be16.flatMap_inj (fun _ _ => List.cons_ne_nil _ _)
      (fun _ _ => trivial) (fun _ _ => trivial) h)
  case alpn.alpn ids ids' =>
    exact congrArg _ (selfDelimiting_counted.flatMap_inj (fun t _ => counted_ne_nil t)
      hv.ids hw.ids h)
  case noDefaultAlpn.noDefaultAlpn => rfl
  case port.port n n' => exact congrArg _ (be16_inj h)
  case ipv4Hint.ipv4Hint addresses addresses' =>
    exact congrArg _ (selfDelimiting_ipv4.flatMap_inj
      (fun a _ => List.ne_nil_of_length_eq_add_one a.size) (fun _ _ => trivial)
      (fun _ _ => trivial) h)
  case ech.ech bytes bytes' => exact congrArg _ h
  case ipv6Hint.ipv6Hint addresses addresses' =>
    exact congrArg _ (selfDelimiting_ipv6.flatMap_inj
      (fun a _ => List.ne_nil_of_length_eq_add_one a.length_bytes) (fun _ _ => trivial)
      (fun _ _ => trivial) h)
  case other.other bytes bytes' => exact congrArg _ h
  -- no key is for values of two sorts
  all_goals first
    | obtain rfl := eq_of_beq hfor
      exact absurd hfor' Bool.false_ne_true
    | obtain rfl := eq_of_beq hfor'
      exact absurd hfor Bool.false_ne_true

end ServiceValue

namespace ServiceParameters

structure IsCountable (e : UInt16 × ServiceValue) : Prop where
  suits : e.2.Suits e.1
  length : e.2.wire.length < 65536

theorem selfDelimiting_entry : SelfDelimiting IsCountable fun e => wireEntry e.1 e.2 := by
  rintro ⟨key, v⟩ ⟨key', v'⟩ h h' rest rest' heq
  simp only [wireEntry, List.append_assoc] at heq
  obtain ⟨hkey, hcounted⟩ := selfDelimiting_be16 trivial trivial heq
  obtain ⟨hcount, hvalue⟩ := selfDelimiting_be16 trivial trivial hcounted
  have hlength := congrArg UInt16.toNat hcount
  simp only [UInt16.toNat_ofNat', Nat.mod_eq_of_lt h.length, Nat.mod_eq_of_lt h'.length] at hlength
  obtain ⟨hwire, hrest⟩ := List.append_inj hvalue hlength
  obtain rfl : key = key' := hkey
  exact ⟨Prod.ext rfl (ServiceValue.wire_inj h.suits h'.suits hwire), hrest⟩

theorem infix_of_mem {p : ServiceParameters} {e : UInt16 × ServiceValue} (he : e ∈ p.entries) :
    be16 (UInt16.ofNat e.2.wire.length) ++ e.2.wire <:+: p.wire := by
  have hentry := Octets.infix_flatMap (fun e : UInt16 × ServiceValue => wireEntry e.1 e.2) he
  have hcounted : be16 (UInt16.ofNat e.2.wire.length) ++ e.2.wire <:+ wireEntry e.1 e.2 :=
    ⟨be16 e.1, (List.append_assoc ..).symm⟩
  exact hcounted.isInfix.trans hentry

theorem isCountable_of_isSettled {p : ServiceParameters} (h : p.IsSettled)
    (hlength : p.wire.length < 65536) : ∀ e ∈ p.entries, IsCountable e :=
  fun e he => ⟨(ServiceValue.gives_of_read (h.entries.settled e he).read).suits,
    Nat.lt_of_le_of_lt ((List.suffix_append _ _).isInfix.trans (infix_of_mem he)).length_le
      hlength⟩

theorem wire_inj {p q : ServiceParameters} (hp : ∀ e ∈ p.entries, IsCountable e)
    (hq : ∀ e ∈ q.entries, IsCountable e) (h : p.wire = q.wire) : p = q := by
  obtain ⟨entries⟩ := p
  obtain ⟨entries'⟩ := q
  exact congrArg _ (selfDelimiting_entry.flatMap_inj
    (fun e _ => by simp [wireEntry, be16]) hp hq h)

end ServiceParameters

end ZoneKeeper
