import ZoneKeeper.Address.IPv6
import ZoneKeeper.Proofs.Address.IPv4

namespace ZoneKeeper

namespace IPv6

theorem ofGroups?_groups (a : IPv6) : ofGroups? a.groups = some a := dif_pos a.size

theorem map_toDigits (n : Nat) : (Nat.toDigits 16 n).map Char.toUInt8
    = if n < 16 then [Hex.digit n]
      else (Nat.toDigits 16 (n / 16)).map Char.toUInt8 ++ [Hex.digit (n % 16)] := by
  have hdigit {d : Nat} (h : d < 16) : (Nat.digitChar d).toUInt8 = Hex.digit d :=
    forall_lt_of_fin (P := fun d => (Nat.digitChar d).toUInt8 = Hex.digit d) (by decide) h
  rw [Nat.toDigits_eq_if (by decide)]
  split
  · next h => exact congrArg (fun b => [b]) (hdigit h)
  · rw [List.map_append]
    exact congrArg (fun b => _ ++ [b]) (hdigit (Nat.mod_lt n (by decide)))

theorem mapM_digitValue? (n : Nat) : ∃ digits,
    ((Nat.toDigits 16 n).map Char.toUInt8).mapM Hex.digitValue? = some digits
      ∧ digits.foldl (fun n d => 16 * n + d) 0 = n := by
  induction n using Nat.strongRecOn with
  | ind n ih =>
      rw [map_toDigits]
      split
      · next h =>
          refine ⟨[n], ?_, Nat.zero_add n⟩
          rw [List.mapM_cons, Hex.digitValue?_digit h]
          rfl
      · obtain ⟨digits, hdigits, hvalue⟩ := ih (n / 16) (by omega)
        refine ⟨digits ++ [n % 16], ?_, ?_⟩
        · rw [List.mapM_append, hdigits, List.mapM_cons,
            Hex.digitValue?_digit (Nat.mod_lt n (by decide))]
          rfl
        · rw [List.foldl_append, hvalue]
          exact Nat.div_add_mod n 16

theorem mem_writeGroup {g : UInt16} : ∀ b ∈ writeGroup g, Octet.isAlphanumeric b = true := by
  have hall (n : Nat) : ∀ b ∈ (Nat.toDigits 16 n).map Char.toUInt8,
      Octet.isAlphanumeric b = true := by
    induction n using Nat.strongRecOn with
    | ind n ih =>
        intro b hb
        rw [map_toDigits] at hb
        split at hb
        · next h =>
            obtain rfl := List.mem_singleton.1 hb
            exact Hex.isAlphanumeric_digit h
        · rcases List.mem_append.1 hb with hb | hb
          · exact ih (n / 16) (by omega) b hb
          · obtain rfl := List.mem_singleton.1 hb
            exact Hex.isAlphanumeric_digit (Nat.mod_lt n (by decide))
  exact hall g.toNat

theorem writeGroup_ne_nil (g : UInt16) : writeGroup g ≠ [] := by
  rw [writeGroup]
  simp

theorem colon_notMem_writeGroup (g : UInt16) : Octet.colon ∉ writeGroup g :=
  fun hmem => absurd (mem_writeGroup _ hmem) (by decide)

@[simp] theorem readGroup?_writeGroup (g : UInt16) : readGroup? (writeGroup g) = some g := by
  have hg := g.toNat_lt
  have hlength : (writeGroup g).length ≤ 4 := by
    rw [writeGroup, List.length_map]
    exact (Nat.length_toDigits_le_iff (by decide) (by decide)).2 hg
  obtain ⟨digits, hdigits, hvalue⟩ := mapM_digitValue? g.toNat
  rw [readGroup?, if_neg (by simp [writeGroup_ne_nil]; omega), writeGroup, hdigits,
    Option.map_some, hvalue, UInt16.ofNat_toNat]

theorem readGroup?_of_dot {t : Octets} (h : Octet.dot ∈ t) : readGroup? t = none := by
  have hnone : t.mapM Hex.digitValue? = none := by
    induction t with
    | nil => cases h
    | cons b rest ih =>
        rw [List.mapM_cons]
        rcases List.mem_cons.1 h with rfl | h
        · rfl
        · rw [ih h]
          cases Hex.digitValue? b <;> rfl
  rw [readGroup?, hnone]
  split <;> rfl

theorem splitOn_writeGroups {groups : List UInt16} (hne : groups ≠ []) :
    (writeGroups groups).splitOn Octet.colon = groups.map writeGroup :=
  Octets.splitOn_joinWith_map colon_notMem_writeGroup hne

theorem writeGroups_ne_nil {groups : List UInt16} (hne : groups ≠ []) :
    writeGroups groups ≠ [] :=
  Octets.joinWith_map_ne_nil writeGroup_ne_nil hne

theorem readGroups?_map {groups : List UInt16} (hne : groups ≠ []) :
    readGroups? (groups.map writeGroup) = some groups := by
  induction groups with
  | nil => exact absurd rfl hne
  | cons g rest ih =>
      cases rest with
      | nil => rw [List.map_singleton, readGroups?, readGroup?_writeGroup]
      | cons h rest =>
          rw [List.map_cons, List.map_cons, readGroups?, readGroup?_writeGroup, ← List.map_cons,
            ih (List.cons_ne_nil _ _)]
          · rfl
          · rintro ⟨⟩

theorem readHead?_writeGroups (groups : List UInt16) :
    readHead? (writeGroups groups) = some groups := by
  by_cases hne : groups = []
  · rw [hne]
    rfl
  · rw [readHead?, if_neg (by simpa using writeGroups_ne_nil hne), splitOn_writeGroups hne]
    exact mapM_map_eq_some fun g _ => readGroup?_writeGroup g

theorem readTail?_writeGroups (groups : List UInt16) :
    readTail? (writeGroups groups) = some groups := by
  by_cases hne : groups = []
  · rw [hne]
    rfl
  · rw [readTail?, if_neg (by simpa using writeGroups_ne_nil hne), splitOn_writeGroups hne,
      readGroups?_map hne]

theorem writeGroups_cons (g : UInt16) (groups : List UInt16) :
    writeGroups (g :: groups)
      = writeGroup g ++ groups.flatMap fun h => Octet.colon :: writeGroup h := by
  induction groups generalizing g with
  | nil =>
      rw [writeGroups, List.map_singleton, Octets.joinWith, List.intercalate_singleton]
      exact (List.append_nil _).symm
  | cons h groups ih =>
      rw [List.flatMap_cons, List.cons_append, ← ih, writeGroups, List.map_cons, List.map_cons,
        Octets.joinWith, List.intercalate_cons_cons, List.append_assoc]
      rfl

theorem cutGap_append {w : Octets} (hw : Octet.colon ∉ w) (rest : Octets) :
    cutGap (w ++ rest) = (cutGap rest).map fun (before, after) => (w ++ before, after) := by
  induction w with
  | nil => simp
  | cons b w ih =>
      obtain ⟨hb, hw⟩ := not_or.1 (mt List.mem_cons.2 hw)
      rw [List.cons_append]
      cases hrest : w ++ rest with
      | nil =>
          obtain ⟨rfl, rfl⟩ := List.append_eq_nil_iff.1 hrest
          rfl
      | cons c later =>
          rw [cutGap, if_neg (by simp [Ne.symm hb]), ← hrest, ih hw]
          cases cutGap rest <;> rfl

theorem cutGap_colon (g : UInt16) (rest : Octets) :
    cutGap (Octet.colon :: (writeGroup g ++ rest))
      = (cutGap (writeGroup g ++ rest)).map
          fun (before, after) => (Octet.colon :: before, after) := by
  cases hgroup : writeGroup g with
  | nil => exact absurd hgroup (writeGroup_ne_nil g)
  | cons b later =>
      have hb : b ≠ Octet.colon := fun hb =>
        colon_notMem_writeGroup g (hgroup ▸ hb ▸ List.mem_cons_self)
      rw [List.cons_append, cutGap, if_neg (by simp [hb])]

theorem cutGap_writeGroups (groups : List UInt16) (rest : Octets) :
    cutGap (writeGroups groups ++ rest)
      = (cutGap rest).map fun (before, after) => (writeGroups groups ++ before, after) := by
  cases groups with
  | nil => simp [writeGroups, Octets.joinWith]
  | cons g groups =>
      have hlater : cutGap ((groups.flatMap fun h => Octet.colon :: writeGroup h) ++ rest)
          = (cutGap rest).map fun (before, after) =>
              ((groups.flatMap fun h => Octet.colon :: writeGroup h) ++ before, after) := by
        induction groups with
        | nil => simp
        | cons h groups ih =>
            rw [List.flatMap_cons, List.cons_append, List.cons_append, List.append_assoc,
              cutGap_colon, cutGap_append (colon_notMem_writeGroup h), ih]
            cases cutGap rest <;> simp
      rw [writeGroups_cons, List.append_assoc, cutGap_append (colon_notMem_writeGroup g), hlater]
      cases cutGap rest <;> simp

theorem takeWhile_zero (groups : List UInt16) :
    groups = List.replicate (zeroRun groups) 0 ++ groups.drop (zeroRun groups) := by
  induction groups with
  | nil => rfl
  | cons g rest ih =>
      by_cases hg : g = 0
      · subst hg
        have hrun : zeroRun (0 :: rest) = zeroRun rest + 1 := rfl
        rw [hrun, List.replicate_succ, List.drop_succ_cons, List.cons_append, ← ih]
      · have hrun : zeroRun (g :: rest) = 0 := by simp [zeroRun, hg]
        rw [hrun]
        rfl

theorem longestZeroRun_spec (groups : List UInt16) :
    groups = groups.take (longestZeroRun groups).1
      ++ List.replicate (longestZeroRun groups).2 0
      ++ groups.drop ((longestZeroRun groups).1 + (longestZeroRun groups).2) := by
  induction groups with
  | nil => rfl
  | cons g rest ih =>
      simp only [longestZeroRun]
      split
      · simpa using takeWhile_zero (g :: rest)
      · rw [Nat.add_right_comm, List.take_succ_cons, List.drop_succ_cons, List.cons_append,
          List.cons_append, ← ih]

theorem pairs_be16 (g h : UInt16) : pairs (be16 g ++ be16 h) = [g, h] := by
  have hpair (n : UInt16) :
      UInt16.ofNat ((UInt8.ofNat (n.toNat / 256)).toNat * 256 + (UInt8.ofNat n.toNat).toNat)
        = n := by
    have hn := n.toNat_lt
    rw [UInt8.toNat_ofNat', UInt8.toNat_ofNat', show n.toNat / 256 % 2 ^ 8 * 256 + n.toNat % 2 ^ 8
      = n.toNat by omega, UInt16.ofNat_toNat]
  change [UInt16.ofNat _, UInt16.ofNat _] = _
  rw [hpair, hpair]

theorem length_pairs_bytes (a : IPv4) : (pairs a.bytes).length = 2 := by
  obtain ⟨bytes, hsize⟩ := a
  match bytes, hsize with
  | [_, _, _, _], _ => rfl

theorem colon_notMem_write (a : IPv4) : Octet.colon ∉ a.write := by
  intro hmem
  rcases IPv4.mem_write hmem with h | h <;> cases h

theorem readTail?_carried (a : IPv4) :
    readTail? (octets "ffff" ++ Octet.colon :: a.write) = some (0xffff :: pairs a.bytes) := by
  have hpieces : ∀ piece ∈ [octets "ffff", a.write], Octet.colon ∉ piece := by
    intro piece hpiece
    rcases List.mem_cons.1 hpiece with rfl | hpiece
    · decide
    · obtain rfl := List.mem_singleton.1 hpiece
      exact colon_notMem_write a
  have hsplit : (octets "ffff" ++ Octet.colon :: a.write).splitOn Octet.colon
      = [octets "ffff", a.write] := by
    simpa [Octets.joinWith] using Octets.splitOn_joinWith hpieces (by simp)
  have hlast : readGroups? [a.write] = some (pairs a.bytes) := by
    rw [readGroups?, readGroup?_of_dot a.dot_mem_write, IPv4.readStrict?_write]
    rfl
  rw [readTail?, if_neg (by simp), hsplit, readGroups?, hlast]
  · rfl
  · rintro ⟨⟩

theorem read?_carried (a : IPv4) :
    read? (octets "::ffff:" ++ a.write)
      = ofGroups? ([0, 0, 0, 0, 0, 0xffff] ++ pairs a.bytes) := by
  have hgap : cutGap (octets "::ffff:" ++ a.write)
      = some ([], octets "ffff" ++ Octet.colon :: a.write) := rfl
  have hhead : readHead? [] = some [] := rfl
  simp only [read?, hgap, hhead, readTail?_carried, Option.bind_eq_bind, Option.bind_some,
    List.length_cons, List.length_nil, length_pairs_bytes]
  rfl

theorem read?_gap {head tail : List UInt16} (hlength : head.length + tail.length ≤ 7) :
    read? (writeGroups head ++ [Octet.colon, Octet.colon] ++ writeGroups tail)
      = ofGroups? (head ++ List.replicate (8 - head.length - tail.length) 0 ++ tail) := by
  have hgap : cutGap (writeGroups head ++ [Octet.colon, Octet.colon] ++ writeGroups tail)
      = some (writeGroups head, writeGroups tail) := by
    rw [List.append_assoc, cutGap_writeGroups]
    exact congrArg (fun before => some (before, writeGroups tail)) (List.append_nil _)
  simp only [read?, hgap, readHead?_writeGroups, readTail?_writeGroups, Option.bind_eq_bind,
    Option.bind_some]
  exact if_neg (Nat.not_lt.2 hlength)

theorem read?_writeGroups {groups : List UInt16} (hne : groups ≠ []) :
    read? (writeGroups groups) = ofGroups? groups := by
  have hgap : cutGap (writeGroups groups) = none := by
    have := cutGap_writeGroups groups []
    rwa [List.append_nil] at this
  simp only [read?, hgap, splitOn_writeGroups hne, readGroups?_map hne, Option.bind_eq_bind,
    Option.bind_some]

theorem groups_of_carried {a : IPv6} {carried : IPv4} (h : a.carried? = some carried) :
    [0, 0, 0, 0, 0, 0xffff] ++ pairs carried.bytes = a.groups := by
  unfold carried? at h
  split at h
  · next g h' hgroups =>
      obtain ⟨hsize, rfl⟩ : ∃ hsize, ⟨be16 g ++ be16 h', hsize⟩ = carried := by
        unfold IPv4.ofBytes? at h
        split at h
        · next hsize => exact ⟨hsize, Option.some.inj h⟩
        · cases h
      rw [pairs_be16, hgroups]
      rfl
  · cases h

@[simp] theorem read?_write (a : IPv6) : read? a.write = some a := by
  unfold write
  split
  · next carried hcarried =>
      rw [read?_carried, groups_of_carried hcarried, ofGroups?_groups]
  · have hspec := longestZeroRun_spec a.groups
    have hsize := a.size
    generalize longestZeroRun a.groups = run at hspec
    obtain ⟨start, length⟩ := run
    simp only at hspec ⊢
    have hlength := congrArg List.length hspec
    simp only [List.length_append, List.length_take, List.length_replicate, List.length_drop]
      at hlength
    split
    · have hgroups : 8 - (a.groups.take start).length
          - (a.groups.drop (start + length)).length = length := by
        rw [List.length_take, List.length_drop]
        omega
      rw [read?_gap (by rw [List.length_take, List.length_drop]; omega), hgroups, ← hspec,
        ofGroups?_groups]
    · rw [read?_writeGroups (by rintro hnil; rw [hnil] at hsize; cases hsize), ofGroups?_groups]

theorem mem_writeGroups {groups : List UInt16} {b : UInt8} (h : b ∈ writeGroups groups) :
    b = Octet.colon ∨ Octet.isAlphanumeric b = true := by
  rcases Octets.mem_joinWith_map h with hcolon | ⟨g, -, hb⟩
  · exact Or.inl hcolon
  · exact Or.inr (mem_writeGroup b hb)

theorem mem_write {a : IPv6} {b : UInt8} (h : b ∈ a.write) :
    b = Octet.colon ∨ b = Octet.dot ∨ Octet.isAlphanumeric b = true := by
  have hgroups {groups : List UInt16} (h : b ∈ writeGroups groups) :
      b = Octet.colon ∨ b = Octet.dot ∨ Octet.isAlphanumeric b = true :=
    (mem_writeGroups h).imp_right Or.inr
  unfold write at h
  split at h
  · rcases List.mem_append.1 h with h | h
    · have hstart : ∀ b ∈ octets "::ffff:", b = Octet.colon ∨ Octet.isAlphanumeric b = true := by
        decide +kernel
      exact (hstart b h).imp_right Or.inr
    · rcases IPv4.mem_write h with rfl | hdigit
      · exact Or.inr (Or.inl rfl)
      · exact Or.inr (Or.inr (by rw [Octet.isAlphanumeric, hdigit]; rfl))
  · dsimp only at h
    split at h
    · rcases List.mem_append.1 h with h | h
      · rcases List.mem_append.1 h with h | h
        · exact hgroups h
        · exact Or.inl (by simpa using h)
      · exact hgroups h
    · exact hgroups h

theorem isGraphic_write (a : IPv6) : a.write.isGraphic = true := by
  refine Octets.isGraphic_iff.2 fun b hb => ?_
  rcases mem_write hb with rfl | rfl | hb
  · rfl
  · rfl
  · exact Octet.isGraphic_of_isAlphanumeric hb

theorem write_ne_nil (a : IPv6) : a.write ≠ [] := by
  intro hnil
  have hread := a.read?_write
  rw [hnil] at hread
  cases hread

end IPv6

end ZoneKeeper
