import Mathlib.Data.Nat.Digits.Lemmas
import ZoneKeeper.Address.Network

namespace ZoneKeeper

def numeral (width : Nat) (digits : List Nat) : Nat := Nat.ofDigits (2 ^ width) digits.reverse

def blend (size network host : Nat) : Nat := network / size * size + host % size

section Numbers

variable {width kept size a b n m : Nat} {digits network host : List Nat}

theorem numeral_cons (d : Nat) :
    numeral width (d :: digits) = d * 2 ^ (width * digits.length) + numeral width digits := by
  rw [numeral, List.reverse_cons, Nat.ofDigits_append, List.length_reverse, Nat.ofDigits_singleton,
    ← pow_mul, numeral]
  ring

theorem numeral_lt (hwidth : 0 < width) (h : ∀ d ∈ digits, d < 2 ^ width) :
    numeral width digits < 2 ^ (width * digits.length) := by
  have hlt := Nat.ofDigits_lt_base_pow_length (Nat.one_lt_two_pow hwidth.ne')
    fun d hd => h d (List.mem_reverse.1 hd)
  rwa [List.length_reverse, ← pow_mul] at hlt

theorem numeral_inj {digits' : List Nat} (hwidth : 0 < width)
    (hlength : digits.length = digits'.length) (h : ∀ d ∈ digits, d < 2 ^ width)
    (h' : ∀ d ∈ digits', d < 2 ^ width) (heq : numeral width digits = numeral width digits') :
    digits = digits' :=
  List.reverse_injective (Nat.ofDigits_inj_of_len_eq (Nat.one_lt_two_pow hwidth.ne')
    (by simpa using hlength) (fun d hd => h d (List.mem_reverse.1 hd))
    (fun d hd => h' d (List.mem_reverse.1 hd)) heq)

theorem blend_div (hsize : 0 < size) (a b : Nat) : blend size a b / size = a / size := by
  rw [blend, Nat.add_comm, Nat.add_mul_div_right _ _ hsize,
    Nat.div_eq_of_lt (Nat.mod_lt b hsize), Nat.zero_add]

theorem blend_mod (size a b : Nat) : blend size a b % size = b % size := by
  rw [blend, Nat.add_comm, Nat.add_mul_mod_self_right, Nat.mod_mod]

theorem eq_blend_iff (hsize : 0 < size) :
    n = blend size a b ↔ n / size = a / size ∧ n % size = b % size := by
  constructor
  · rintro rfl
    exact ⟨blend_div hsize a b, blend_mod size a b⟩
  · rintro ⟨hdiv, hmod⟩
    rw [blend, ← hdiv, ← hmod, Nat.div_add_mod']

theorem blend_one (a b : Nat) : blend 1 a b = a := by simp [blend, Nat.mod_one]

theorem blend_of_lt (hn : n < size) (hm : m < size) : blend size n m = m := by
  rw [blend, Nat.div_eq_of_lt hn, Nat.mod_eq_of_lt hm, Nat.zero_mul, Nat.zero_add]

theorem blend_of_dvd {block : Nat} (hsize : 0 < size) (h : size ∣ block) :
    blend size (a * block + n) (b * block + m) = a * block + blend size n m := by
  obtain ⟨c, rfl⟩ := h
  have hmul (x y : Nat) : x * (size * c) + y = y + size * (x * c) := by ring
  rw [eq_comm, eq_blend_iff hsize, hmul, hmul a n, hmul b m, Nat.add_mul_div_left _ _ hsize,
    Nat.add_mul_div_left _ _ hsize, Nat.add_mul_mod_self_left, Nat.add_mul_mod_self_left,
    blend_div hsize, blend_mod]
  exact ⟨rfl, rfl⟩

theorem blend_mul {block : Nat} (hsize : 0 < size) (hn : n < block) (hm : m < block) :
    blend (size * block) (a * block + n) (b * block + m) = blend size a b * block + m := by
  have hblock : 0 < block := Nat.zero_lt_of_lt hn
  have hquotient (x : Nat) {y : Nat} (hy : y < block) : (x * block + y) / block = x := by
    rw [Nat.add_comm, Nat.add_mul_div_right _ _ hblock, Nat.div_eq_of_lt hy, Nat.zero_add]
  have hdiv (x : Nat) {y : Nat} (hy : y < block) :
      (x * block + y) / (size * block) = x / size := by
    rw [Nat.mul_comm size, ← Nat.div_div_eq_div_mul, hquotient x hy]
  have hmod (x : Nat) {y : Nat} (hy : y < block) :
      (x * block + y) % (size * block) = x % size * block + y := by
    rw [Nat.mul_comm size, Nat.mod_mul, hquotient x hy, Nat.add_comm (x * block),
      Nat.add_mul_mod_self_right, Nat.mod_eq_of_lt hy]
    ring
  rw [eq_comm, eq_blend_iff (Nat.mul_pos hsize hblock), hdiv _ hm, hdiv _ hn, hmod _ hm, hmod _ hm,
    blend_div hsize, blend_mod]
  exact ⟨rfl, rfl⟩

theorem splice_eq (width kept a b : Nat) :
    splice width kept a b = blend (2 ^ (width - kept)) a b := by
  rw [splice, Nat.one_shiftLeft]
  rfl

theorem splice_lt (ha : a < 2 ^ width) : splice width kept a b < 2 ^ width := by
  have hsize : 0 < 2 ^ (width - kept) := Nat.two_pow_pos _
  obtain ⟨c, hc⟩ : 2 ^ (width - kept) ∣ 2 ^ width := Nat.pow_dvd_pow 2 (Nat.sub_le ..)
  have hblock : a / 2 ^ (width - kept) < c := by
    rw [Nat.div_lt_iff_lt_mul hsize, Nat.mul_comm, ← hc]
    exact ha
  calc splice width kept a b
      < (a / 2 ^ (width - kept) + 1) * 2 ^ (width - kept) := by
        rw [splice_eq, blend, Nat.succ_mul]
        exact Nat.add_lt_add_left (Nat.mod_lt b hsize) _
    _ ≤ c * 2 ^ (width - kept) := Nat.mul_le_mul_right _ hblock
    _ = 2 ^ width := by rw [hc, Nat.mul_comm]

def spliceDigits (width : Nat) : Nat → List Nat → List Nat → List Nat
  | kept, a :: network, b :: host =>
      splice width kept a b :: spliceDigits width (kept - width) network host
  | _, _, _ => []

theorem length_spliceDigits (h : network.length = host.length) (kept : Nat) :
    (spliceDigits width kept network host).length = host.length := by
  induction network generalizing kept host with
  | nil =>
      obtain rfl := List.length_eq_zero_iff.1 h.symm
      rfl
  | cons a network ih =>
      cases host with
      | nil => cases h
      | cons b host => rw [spliceDigits, List.length_cons, ih (Nat.succ.inj h), List.length_cons]

theorem numeral_spliceDigits (kept : Nat) (hwidth : 0 < width)
    (h : network.length = host.length) (hnetwork : ∀ d ∈ network, d < 2 ^ width)
    (hhost : ∀ d ∈ host, d < 2 ^ width) :
    numeral width (spliceDigits width kept network host)
      = blend (2 ^ (width * host.length - kept)) (numeral width network) (numeral width host) := by
  induction network generalizing kept host with
  | nil =>
      obtain rfl := List.length_eq_zero_iff.1 h.symm
      simp [spliceDigits, numeral, blend]
  | cons a network ih =>
      cases host with
      | nil => cases h
      | cons b host =>
          have hlength := Nat.succ.inj h
          obtain ⟨-, hnetwork⟩ := List.forall_mem_cons.1 hnetwork
          obtain ⟨-, hhost⟩ := List.forall_mem_cons.1 hhost
          rw [spliceDigits, numeral_cons, numeral_cons, numeral_cons, length_spliceDigits hlength,
            ih _ hlength hnetwork hhost, splice_eq, List.length_cons, Nat.mul_succ, hlength]
          by_cases hkept : kept ≤ width
          · -- all later digits are the host's
            have hlater : kept - width = 0 := by omega
            have hsize : width * host.length + width - kept
                = (width - kept) + width * host.length := by omega
            have hn := numeral_lt hwidth hnetwork
            have hm := numeral_lt hwidth hhost
            rw [hlength] at hn
            rw [hlater, hsize, Nat.pow_add, Nat.sub_zero, blend_mul (Nat.two_pow_pos _) hn hm,
              blend_of_lt hn hm]
          · -- this digit is the network's
            have hthis : width - kept = 0 := by omega
            have hsize : width * host.length + width - kept
                = width * host.length - (kept - width) := by omega
            rw [hthis, hsize, Nat.pow_zero, blend_one,
              blend_of_dvd (Nat.two_pow_pos _) (Nat.pow_dvd_pow 2 (Nat.sub_le ..))]

end Numbers

theorem map_spliceBytes (kept : Nat) (network host : Octets) :
    (spliceBytes kept network host).map UInt8.toNat
      = spliceDigits 8 kept (network.map UInt8.toNat) (host.map UInt8.toNat) := by
  induction network generalizing kept host with
  | nil => rfl
  | cons a network ih =>
      cases host with
      | nil => rfl
      | cons b host =>
          have hlt : splice 8 kept a.toNat b.toNat < 2 ^ 8 := splice_lt a.toNat_lt
          rw [spliceBytes, List.map_cons, ih, UInt8.toNat_ofNat_of_lt' hlt, List.map_cons,
            List.map_cons, spliceDigits]

theorem map_spliceGroups (kept : Nat) (network host : List UInt16) :
    (spliceGroups kept network host).map UInt16.toNat
      = spliceDigits 16 kept (network.map UInt16.toNat) (host.map UInt16.toNat) := by
  induction network generalizing kept host with
  | nil => rfl
  | cons a network ih =>
      cases host with
      | nil => rfl
      | cons b host =>
          have hlt : splice 16 kept a.toNat b.toNat < 2 ^ 16 := splice_lt a.toNat_lt
          rw [spliceGroups, List.map_cons, ih, UInt16.toNat_ofNat_of_lt' hlt, List.map_cons,
            List.map_cons, spliceDigits]

theorem IPv4.toNat_lt_of_mem (a : IPv4) : ∀ d ∈ a.bytes.map UInt8.toNat, d < 2 ^ 8 :=
  List.forall_mem_map.2 fun b _ => b.toNat_lt

theorem IPv6.toNat_lt_of_mem (a : IPv6) : ∀ d ∈ a.groups.map UInt16.toNat, d < 2 ^ 16 :=
  List.forall_mem_map.2 fun g _ => g.toNat_lt

namespace Address

def number : Address → Nat
  | .v4 a => numeral 8 (a.bytes.map UInt8.toNat)
  | .v6 a => numeral 16 (a.groups.map UInt16.toNat)

theorem eq_of_number {a b : Address} (hfamily : a.family = b.family) (h : a.number = b.number) :
    a = b := by
  cases a with
  | v4 a =>
      cases b with
      | v6 b => cases hfamily
      | v4 b =>
          have hdigits := numeral_inj (by decide) (by simp [a.size, b.size]) a.toNat_lt_of_mem
            b.toNat_lt_of_mem h
          have hbytes := List.map_injective_iff.2 (fun _ _ => UInt8.toNat_inj.1) hdigits
          cases a
          cases b
          congr
  | v6 a =>
      cases b with
      | v4 b => cases hfamily
      | v6 b =>
          have hdigits := numeral_inj (by decide) (by simp [a.size, b.size]) a.toNat_lt_of_mem
            b.toNat_lt_of_mem h
          have hgroups := List.map_injective_iff.2 (fun _ _ => UInt16.toNat_inj.1) hdigits
          cases a
          cases b
          congr

end Address

namespace Network

variable {n : Network} {a b : Address}

def hosts (n : Network) : Nat := 2 ^ (n.address.family.bits - n.length)

structure Places (n : Network) (a b : Address) : Prop where
  before : a.family = n.address.family
  after : b.family = n.address.family
  leading : b.number / n.hosts = n.address.number / n.hosts
  trailing : b.number % n.hosts = a.number % n.hosts

theorem hosts_pos (n : Network) : 0 < n.hosts := Nat.two_pow_pos _

def move (n : Network) (a : Address) : Address := (n.rewrite? a).getD a

theorem rewrite?_eq (h : a.family = n.address.family) : n.rewrite? a = some (n.move a) := by
  obtain ⟨address, length⟩ := n
  cases a <;> cases address <;> first | rfl | cases h

theorem places_move (h : a.family = n.address.family) : n.Places a (n.move a) := by
  obtain ⟨address, length⟩ := n
  have hplaces {b : Address} (hfamily : b.family = address.family)
      (hnumber : b.number = blend (hosts ⟨address, length⟩) address.number a.number) :
      Places ⟨address, length⟩ a b := by
    obtain ⟨hleading, htrailing⟩ := (eq_blend_iff (hosts_pos _)).1 hnumber
    exact ⟨h, hfamily, hleading, htrailing⟩
  cases address with
  | v4 network =>
      cases a with
      | v6 host => cases h
      | v4 host =>
          refine hplaces rfl ?_
          have hnumber := numeral_spliceDigits length (by decide : 0 < 8)
            (by simp [network.size, host.size]) network.toNat_lt_of_mem host.toNat_lt_of_mem
          rw [← map_spliceBytes, List.length_map, host.size] at hnumber
          exact hnumber
  | v6 network =>
      cases a with
      | v4 host => cases h
      | v6 host =>
          refine hplaces rfl ?_
          have hnumber := numeral_spliceDigits length (by decide : 0 < 16)
            (by simp [network.size, host.size]) network.toNat_lt_of_mem host.toNat_lt_of_mem
          rw [← map_spliceGroups, List.length_map, host.size] at hnumber
          exact hnumber

theorem Places.unique {b' : Address} (h : n.Places a b) (h' : n.Places a b') : b = b' := by
  refine Address.eq_of_number (h.after.trans h'.after.symm) ?_
  rw [← Nat.div_add_mod b.number n.hosts, ← Nat.div_add_mod b'.number n.hosts, h.leading,
    h'.leading, h.trailing, h'.trailing]

theorem places_same_iff {a' b' : Address} (h : n.Places a b) (h' : n.Places a' b') :
    b = b' ↔ a.number % n.hosts = a'.number % n.hosts := by
  constructor
  · rintro rfl
    exact h.trailing.symm.trans h'.trailing
  · intro hsame
    exact h.unique ⟨h.before, h'.after, h'.leading, h'.trailing.trans hsame.symm⟩

end Network

end ZoneKeeper
