import ZoneKeeper.CheckIn.Basic
import ZoneKeeper.Proofs.Address.IPv4
import ZoneKeeper.Proofs.Sorted.Map
import ZoneKeeper.Proofs.Text.Utf8

namespace ZoneKeeper

namespace Family

def Spells : Family → String → Prop
  | .v4, text => (IPv4.read? (octets text)).isSome ∨ (Network.read .v4 (octets text)).isOk
  | .v6, text => (IPv6.read? (octets text)).isSome ∨ (Network.read .v6 (octets text)).isOk

variable {family : Family} {text : String}

theorem Spells.ne_empty (h : family.Spells text) : text ≠ "" := by
  rintro rfl
  cases family <;> exact absurd h (by simp only [Spells]; decide)

theorem Spells.ne_preserve (h : family.Spells text) : text ≠ "preserve" := by
  rintro rfl
  cases family <;> exact absurd h (by simp only [Spells]; decide)

end Family

namespace Network

theorem colon_notMem_of_read {t : Octets} {n : Network} (h : read .v4 t = .ok n) :
    Octet.colon ∉ t := by
  have haddress {t : Octets} {a : IPv4} (h : IPv4.readStrict? t = some a) : Octet.colon ∉ t :=
    fun hmem => absurd (IPv4.mem_of_read? (IPv4.read?_of_readStrict? h) hmem) (by decide)
  have hread {t : Octets} {a : Address} (h : Address.read? .v4 t = some a) : Octet.colon ∉ t := by
    obtain ⟨_, h, -⟩ := Option.map_eq_some_iff.1 h
    exact haddress h
  have hlength {t : Octets} {n : Nat} (h : readLength? .v4 t = some n) : Octet.colon ∉ t := by
    cases hmask : IPv4.readStrict? t with
    | some mask => exact haddress hmask
    | none =>
        simp only [readLength?, hmask, Option.filter_eq_some_iff] at h
        cases hvalue : Decimal.readSigned 8 t with
        | error e =>
            rw [hvalue] at h
            cases h.1
        | ok value =>
            exact fun hmem => absurd (Decimal.isDigit_of_readSigned hvalue _ hmem) (by decide)
  rw [read] at h
  split at h
  · split at h
    · cases h
    · next haddress => exact hread haddress
  · next before after hcut =>
      rw [Octets.eq_of_cut hcut, List.mem_append, List.mem_cons]
      split at h
      · cases h
      split at h
      · cases h
      · next hbefore =>
          split at h
          · cases h
          · next hafter =>
              rintro (hmem | hmem | hmem)
              · exact hread hbefore hmem
              · cases hmem
              · exact hlength hafter hmem

end Network

theorem Family.Spells.colon_notMem {text : String} (h : Family.v4.Spells text) :
    ':' ∉ text.toList := by
  intro hmem
  have hcolon : Octet.colon ∈ octets text := by
    rw [octets_eq]
    exact List.mem_flatMap.2 ⟨':', hmem, by decide⟩
  rcases h with h | h
  · obtain ⟨a, ha⟩ := Option.isSome_iff_exists.1 h
    exact absurd (IPv4.mem_of_read? ha hcolon) (by decide)
  · cases hread : Network.read .v4 (octets text) with
    | error e =>
        rw [hread] at h
        cases h
    | ok n => exact Network.colon_notMem_of_read hread hcolon

namespace AddressUpdate

def trimmed (piece : List Char) : String := String.ofList (Text.trimChars piece)

def ofParts (family : Family) (parts : List String) : Except CheckInFlaw (Option AddressUpdate) :=
  match (SortedSet.ofList (parts.filter (concerns family))).toList with
  | [] => .ok none
  | values => (ofValues "myip" family values).map some

theorem readShared_eq (family : Family) (value : String) :
    readShared family value = ofParts family ((splitOn ',' value.toList).map trimmed) := rfl

section Parts

variable {family : Family} {parts front back : List String} {part : String}

theorem ofParts_congr {parts' : List String}
    (h : ∀ part, concerns family part = true → (part ∈ parts ↔ part ∈ parts')) :
    ofParts family parts = ofParts family parts' := by
  have hset : SortedSet.ofList (parts.filter (concerns family))
      = SortedSet.ofList (parts'.filter (concerns family)) := by
    refine SortedSet.ofList_eq_iff.2 fun part => ?_
    rw [List.mem_filter, List.mem_filter]
    exact and_congr_left fun hconcerns => h part hconcerns
  rw [ofParts, hset]
  rfl

theorem ofParts_of_not_concerns (h : concerns family part = false) :
    ofParts family (front ++ part :: back) = ofParts family (front ++ back) := by
  refine ofParts_congr fun other hother => ?_
  have hne : other ≠ part := by
    rintro rfl
    exact Bool.false_ne_true (h.symm.trans hother)
  simp [hne]

theorem ofParts_of_mem (h : part ∈ front ++ back) :
    ofParts family (front ++ part :: back) = ofParts family (front ++ back) := by
  refine ofParts_congr fun other _ => ?_
  by_cases hother : other = part
  · subst hother
    simpa using h
  · simp [hother]

end Parts

theorem ofValues_of_many {parameter : String} {family : Family} {values : List String}
    (h : 1 < values.length) : ofValues parameter family values
      = if "" ∈ values ∨ "preserve" ∈ values then .error (.mixed parameter)
        else if ∃ value ∈ values, hasSlash value = true then .error (.subnetAmongMany parameter)
        else .ok (.set values) := by
  match values, h with
  | first :: second :: rest, _ => simp only [ofValues, Bool.or_eq_true, List.contains_iff_mem,
      List.any_eq_true]

def IsRefusedAsMany {α : Type} : Except CheckInFlaw α → Prop
  | .error (.mixed _) | .error (.subnetAmongMany _) => True
  | _ => False

theorem isRefusedAsMany_map {α β : Type} {f : α → β} {x : Except CheckInFlaw α} :
    IsRefusedAsMany (x.map f) ↔ IsRefusedAsMany x := by
  cases x with
  | error flaw => cases flaw <;> exact Iff.rfl
  | ok a => exact Iff.rfl

theorem ofValues_singleton (parameter : String) (family : Family) (value : String) :
    ¬ IsRefusedAsMany (ofValues parameter family [value])
      ∧ ∀ values, ofValues parameter family [value] = .ok (.set values) → values.length ≤ 1 := by
  simp only [ofValues, readSubnet]
  refine ⟨?_, fun values h => ?_⟩
  · repeat' split
    all_goals exact id
  · repeat' split at h
    all_goals cases h
    all_goals simp

theorem ofValues_insert {parameter : String} {family : Family} {value : String}
    {values values' : List String} (hempty : value ≠ "") (hpreserve : value ≠ "preserve")
    (hmem : ∀ other, other ∈ values' ↔ other = value ∨ other ∈ values)
    (hlength : values'.length = values.length + 1) (hne : values ≠ []) :
    ofValues parameter family values' = ofValues parameter family values
      ↔ IsRefusedAsMany (ofValues parameter family values) := by
  have hpos := List.length_pos_iff.2 hne
  have hmany' : ofValues parameter family values' = _ :=
    ofValues_of_many (by omega : 1 < values'.length)
  rcases Nat.lt_or_ge 1 values.length with hmany | hone
  · have hmixed : "" ∈ values' ∨ "preserve" ∈ values' ↔ "" ∈ values ∨ "preserve" ∈ values := by
      simp [hmem, hempty.symm, hpreserve.symm]
    have hslash (h : ∃ value ∈ values, hasSlash value = true) :
        ∃ value ∈ values', hasSlash value = true := by
      obtain ⟨other, hother, h⟩ := h
      exact ⟨other, (hmem other).2 (Or.inr hother), h⟩
    have hother : values' ≠ values := by
      rintro rfl
      omega
    rw [hmany', ofValues_of_many hmany]
    simp only [hmixed]
    split
    · exact iff_of_true rfl trivial
    split
    · next hsome =>
        split
        · exact iff_of_true rfl trivial
        · exact iff_of_false nofun id
    · next hnone =>
        rw [if_neg (mt hslash hnone)]
        exact iff_of_false (fun h => hother (AddressUpdate.set.inj (Except.ok.inj h))) id
  · obtain ⟨other, rfl⟩ := List.length_eq_one_iff.1 (by omega : values.length = 1)
    obtain ⟨hnot, hset⟩ := ofValues_singleton parameter family other
    refine iff_of_false (fun h => ?_) hnot
    rw [← h, hmany'] at hnot hset
    split at hnot
    · exact hnot trivial
    split at hnot
    · exact hnot trivial
    · next hmixed hslash =>
        rw [if_neg hmixed, if_neg hslash] at hset
        have := hset values' rfl
        simp only [List.length_singleton] at hlength
        omega

theorem map_some_injective {ε α : Type} :
    Function.Injective (Except.map some : Except ε α → Except ε (Option α)) := by
  intro x y h
  cases x <;> cases y <;> simp_all [Except.map]

theorem ofParts_insert {family : Family} {front back : List String} {part : String}
    (hempty : part ≠ "") (hpreserve : part ≠ "preserve") (hconcerns : concerns family part = true)
    (hnew : part ∉ front ++ back) :
    ofParts family (front ++ part :: back) = ofParts family (front ++ back)
      ↔ IsRefusedAsMany (ofParts family (front ++ back)) := by
  have hmem (other : String) :
      other ∈ (SortedSet.ofList ((front ++ part :: back).filter (concerns family))).toList
        ↔ other = part ∨ other
          ∈ (SortedSet.ofList ((front ++ back).filter (concerns family))).toList := by
    simp only [SortedSet.mem_toList_ofList, List.mem_filter, List.mem_append, List.mem_cons]
    constructor
    · rintro ⟨h | h | h, hother⟩
      · exact Or.inr ⟨Or.inl h, hother⟩
      · exact Or.inl h
      · exact Or.inr ⟨Or.inr h, hother⟩
    · rintro (rfl | ⟨h | h, hother⟩)
      · exact ⟨Or.inr (Or.inl rfl), hconcerns⟩
      · exact ⟨Or.inl h, hother⟩
      · exact ⟨Or.inr (Or.inr h), hother⟩
  have hnotin : part ∉ (SortedSet.ofList ((front ++ back).filter (concerns family))).toList := by
    rw [SortedSet.mem_toList_ofList]
    exact fun h => hnew (List.mem_filter.1 h).1
  have hperm : (SortedSet.ofList ((front ++ part :: back).filter (concerns family))).toList.Perm
      (part :: (SortedSet.ofList ((front ++ back).filter (concerns family))).toList) := by
    refine (List.perm_ext_iff_of_nodup (SortedSet.nodup_toList _)
      (List.nodup_cons.2 ⟨hnotin, SortedSet.nodup_toList _⟩)).2 fun other => ?_
    rw [hmem, List.mem_cons]
  simp only [ofParts]
  generalize (SortedSet.ofList ((front ++ part :: back).filter (concerns family))).toList
    = values' at hmem hperm
  generalize (SortedSet.ofList ((front ++ back).filter (concerns family))).toList = values
    at hmem hperm
  obtain ⟨first', rest', rfl⟩ := List.exists_cons_of_ne_nil
    (List.ne_nil_of_mem ((hmem part).2 (Or.inl rfl)))
  cases values with
  | nil =>
      refine iff_of_false (fun h => ?_) id
      obtain ⟨_, -, hnone⟩ := map_eq_ok.1 h
      cases hnone
  | cons first rest =>
      have hinsert : ofValues "myip" family (first' :: rest') = _ ↔ _ :=
        ofValues_insert hempty hpreserve hmem (by simpa using hperm.length_eq)
          (List.cons_ne_nil _ _)
      dsimp only
      rw [isRefusedAsMany_map, ← hinsert]
      exact map_some_injective.eq_iff

end AddressUpdate

namespace CheckIn

def joinParts : List (List Char) → Option String
  | [] => none
  | pieces => some (String.ofList ([','].intercalate pieces))

theorem ofShared_joinParts {family : Family} {pieces : List (List Char)}
    (h : ∀ piece ∈ pieces, ',' ∉ piece) :
    ofShared family (joinParts pieces)
      = AddressUpdate.ofParts family (pieces.map AddressUpdate.trimmed) := by
  cases pieces with
  | nil => rfl
  | cons piece rest =>
      rw [joinParts, ofShared, AddressUpdate.readShared_eq, String.toList_ofList, splitOn_eq,
        List.splitOn_intercalate _ h (List.cons_ne_nil _ _)]
      nofun

open AddressUpdate in
theorem shared_part_is_ignored_iff {family other : Family} {value : String}
    {front back : List (List Char)} {part : List Char}
    (hvalue : splitOn ',' value.toList = front ++ part :: back)
    (hpart : family.Spells (trimmed part)) (hother : other ≠ family) :
    ofShared other (some value) = ofShared other (joinParts (front ++ back))
      ↔ (family = .v4 ∨ '.' ∉ (trimmed part).toList)
        ∨ trimmed part ∈ (front ++ back).map trimmed
        ∨ IsRefusedAsMany (ofShared other (joinParts (front ++ back))) := by
  have hpieces : ∀ piece ∈ front ++ back, ',' ∉ piece := by
    intro piece hpiece
    refine notMem_of_mem_splitOn (l := value.toList) ?_
    rw [hvalue]
    exact List.mem_append.2 ((List.mem_append.1 hpiece).imp_right (List.mem_cons_of_mem _))
  rw [ofShared_joinParts hpieces, ofShared, readShared_eq, hvalue, List.map_append, List.map_cons,
    List.map_append]
  have hconcerns : concerns other (trimmed part) = true
      ↔ other.separator ∈ (trimmed part).toList := by
    simp [concerns, hpart.ne_empty, hpart.ne_preserve]
  have hseparator : other.separator ∉ (trimmed part).toList
      ↔ family = .v4 ∨ '.' ∉ (trimmed part).toList := by
    cases family with
    | v4 =>
        obtain rfl : other = .v6 := by cases other <;> simp_all
        exact iff_of_true hpart.colon_notMem (Or.inl rfl)
    | v6 =>
        obtain rfl : other = .v4 := by cases other <;> simp_all
        simp [Family.separator]
  rw [← hseparator, ← hconcerns, Bool.not_eq_true]
  cases hcase : concerns other (trimmed part) with
  | false => exact iff_of_true (ofParts_of_not_concerns hcase) (Or.inl rfl)
  | true =>
      by_cases hmem : trimmed part ∈ front.map trimmed ++ back.map trimmed
      · exact iff_of_true (ofParts_of_mem hmem) (Or.inr (Or.inl hmem))
      · rw [ofParts_insert hpart.ne_empty hpart.ne_preserve hcase hmem]
        simp [hmem]

open AddressUpdate in
theorem shared_ipv4_part_is_ignored :
    splitOn ',' "2001:db8::1, 192.0.2.1".toList
        = ["2001:db8::1".toList] ++ " 192.0.2.1".toList :: []
      ∧ Family.v4.Spells (trimmed " 192.0.2.1".toList) ∧ Family.v6 ≠ Family.v4
      ∧ (ofShared .v6 (some "2001:db8::1, 192.0.2.1")
          = ofShared .v6 (joinParts ["2001:db8::1".toList])) := by
  have hvalue : splitOn ',' "2001:db8::1, 192.0.2.1".toList
      = ["2001:db8::1".toList] ++ " 192.0.2.1".toList :: [] := by decide +kernel
  have hpart : Family.v4.Spells (trimmed " 192.0.2.1".toList) := Or.inl (by decide +kernel)
  have hother : Family.v6 ≠ Family.v4 := by decide
  exact ⟨hvalue, hpart, hother,
    (shared_part_is_ignored_iff hvalue hpart hother).2 (Or.inl (Or.inl rfl))⟩

open AddressUpdate in
theorem shared_ipv6_part_asked_of_ipv4 :
    splitOn ',' "::ffff:192.0.2.1".toList = [] ++ "::ffff:192.0.2.1".toList :: []
      ∧ Family.v6.Spells (trimmed "::ffff:192.0.2.1".toList)
      ∧ ofShared .v4 (some "::ffff:192.0.2.1") = .ok (some (.set ["::ffff:192.0.2.1"]))
      ∧ ofShared .v4 (joinParts ([] ++ [])) = .ok none := by
  refine ⟨by decide +kernel, Or.inl (by decide +kernel), by decide +kernel, rfl⟩

end CheckIn

end ZoneKeeper
