import ZoneKeeper.Proofs.Instant
import ZoneKeeper.Proofs.Json.Printer
import ZoneKeeper.Proofs.Text.Reader
import ZoneKeeper.Proofs.Zone.Table
import ZoneKeeper.Store.Document

namespace ZoneKeeper

namespace SortedMap

variable {κ ν : Type} [Ord κ] [Std.TransOrd κ] [Std.LawfulEqOrd κ]

@[simp] theorem ofList_entries [DecidableEq κ] (m : SortedMap κ ν) : ofList m.entries = m := by
  refine ext_get? fun k => ?_
  rw [get?_ofList m.get? fun e he => get?_eq_some_iff.2 he]
  split
  · rfl
  · next hk =>
      cases hv : m.get? k with
      | none => rfl
      | some v => exact absurd (List.mem_map_of_mem (get?_eq_some_iff.1 hv)) hk

theorem mem_of_get?_ofList [DecidableEq κ] {l : List (κ × ν)} {k : κ} {v : ν}
    (h : (ofList l).get? k = some v) : (k, v) ∈ l := by
  have general (m : SortedMap κ ν) (hm : (l.foldl (fun m e => m.insert e.1 e.2) m).get? k = some v) :
      (k, v) ∈ l ∨ m.get? k = some v := by
    clear h
    induction l generalizing m with
    | nil => exact .inr hm
    | cons e rest ih =>
        rcases ih _ hm with hmem | hinsert
        · exact .inl (List.mem_cons_of_mem _ hmem)
        · rw [get?_insert] at hinsert
          split at hinsert
          · next hk =>
              obtain rfl := Option.some.inj hinsert
              subst hk
              exact .inl List.mem_cons_self
          · exact .inr hinsert
  rcases general empty h with hmem | hnone
  · exact hmem
  · cases hnone

end SortedMap

@[simp] theorem SortedSet.ofList_toList {α : Type} [Ord α] [Std.TransOrd α] [Std.LawfulEqOrd α]
    [DecidableEq α] (s : SortedSet α) : ofList s.toList = s := by
  refine SortedMap.ext_get? fun a => ?_
  have hmem : (ofList s.toList).get? a = some () ↔ s.get? a = some () := by
    rw [← mem_toList_iff, mem_toList_ofList, mem_toList_iff]
  cases hs : s.get? a with
  | none => rw [hs] at hmem; cases h : (ofList s.toList).get? a <;> simp_all
  | some u => rw [hs] at hmem; exact hmem.2 rfl

namespace Json

theorem memberOf_eq {name : String} {value : Json} {members : List (String × Json)}
    (hnames : (members.map (·.1)).Nodup) (hmem : (name, value) ∈ members) :
    memberOf [name] members = some (some value) := by
  have hfilter : members.filter ([name].contains ·.1) = [(name, value)] := by
    induction members with
    | nil => cases hmem
    | cons member rest ih =>
        rw [List.map_cons, List.nodup_cons] at hnames
        rcases List.mem_cons.1 hmem with rfl | hmem
        · have hrest : rest.filter ([name].contains ·.1) = [] := by
            rw [List.filter_eq_nil_iff]
            intro other hother hsame
            refine hnames.1 (List.mem_map.2 ⟨other, hother, ?_⟩)
            simpa using hsame
          rw [List.filter_cons_of_pos (by simp), hrest]
        · have hne : member.1 ≠ name := by
            rintro rfl
            exact hnames.1 (List.mem_map.2 ⟨_, hmem, rfl⟩)
          rw [List.filter_cons_of_neg (by simpa using hne), ih hnames.2 hmem]
  rw [memberOf, hfilter]

theorem fields?_object {members : List (String × Json)} {fields : List (Option Json)}
    (names : List String) (hnames : names.Nodup) (hmembers : members.map (·.1) = names)
    (hfields : members.map (fun member => some member.2) = fields) :
    fields? (names.map ([·])) (.object members) = some fields := by
  subst hmembers hfields
  rw [fields?, List.map_map]
  exact mapM_map_eq_some_map fun _ hmem => memberOf_eq hnames hmem

theorem optional?_of_ne_null {α : Type} {decode : Json → Option α} {value : Json}
    (h : value ≠ .null) : optional? decode value = (decode value).map some := by
  cases value <;> first | rfl | exact absurd rfl h

end Json

structure Domain.Fits (d : Domain) : Prop where
  minimumTtl : d.minimumTtl < 1 <<< 32
  created : d.created.IsValid
  published : ∀ t ∈ d.published, t.IsValid

structure Rrset.Fits (r : Rrset) : Prop where
  ttl : r.ttl < 1 <<< 32
  created : r.created.IsValid
  touched : r.touched.IsValid

structure Zone.Fits (zone : Zone) : Prop where
  domain : zone.domain.Fits
  rrsets : ∀ key r, zone.rrsets.get? key = some r → r.Fits

def Zones.Fits (zones : Zones) : Prop := ∀ name zone, zones.zone? name = some zone → zone.Fits

def Zone.rekeyed (zone : Zone) : Zone :=
  { zone with rrsets := SortedMap.ofList (zone.rrsets.values.map fun r => (r.key, r)) }

def Zones.rekeyed (zones : Zones) : Zones :=
  SortedMap.ofList (zones.entries.map fun (name, zone) => (name, zone.rekeyed))

theorem Zone.rekeyed_of_isKeyed {zone : Zone} (h : zone.IsKeyed) : zone.rekeyed = zone := by
  have hentries : zone.rrsets.values.map (fun r => (r.key, r)) = zone.rrsets.entries := by
    rw [SortedMap.values, List.map_map]
    refine (List.map_congr_left fun e he => ?_).trans (List.map_id _)
    exact Prod.ext (h e.1 e.2 (SortedMap.get?_eq_some_iff.2 he)) rfl
  rw [rekeyed, hentries, SortedMap.ofList_entries]

theorem Zones.zone?_rekeyed (zones : Zones) (name : String) :
    zones.rekeyed.zone? name = (zones.zone? name).map Zone.rekeyed := by
  have hentries : ∀ e ∈ zones.entries.map fun (name, zone) => (name, zone.rekeyed),
      (zones.zone? e.1).map Zone.rekeyed = some e.2 := by
    rintro _ hmem
    obtain ⟨⟨n, zone⟩, he, rfl⟩ := List.mem_map.1 hmem
    rw [zone?, SortedMap.get?_eq_some_iff.2 he]
    rfl
  rw [zone?, rekeyed, SortedMap.get?_ofList (fun n => (zones.zone? n).map Zone.rekeyed) hentries]
  split
  · rfl
  · next hnone =>
      cases hzone : zones.zone? name with
      | none => rfl
      | some zone =>
          refine absurd ?_ hnone
          have he := SortedMap.get?_eq_some_iff.1 hzone
          exact List.mem_map.2 ⟨_, List.mem_map_of_mem he, rfl⟩

theorem Zones.rekeyed_of_isKeyed {zones : Zones} (h : zones.IsKeyed) : zones.rekeyed = zones := by
  refine ext_zone? fun name => ?_
  rw [zone?_rekeyed]
  cases hzone : zones.zone? name with
  | none => rfl
  | some zone => exact congrArg some (Zone.rekeyed_of_isKeyed (h name zone hzone))

theorem Instant.ofJson?_toJson {t : Instant} (h : t.IsValid) : ofJson? t.toJson = some t :=
  read?_write h

theorem natOfBits?_ofNat {bits n : Nat} (h : n < 1 <<< bits) :
    Json.required (Json.natOfBits? bits) (some (.ofNat n)) = some n := by
  have hrange : (decide (0 ≤ (n : Int)) && decide ((n : Int) < ((1 <<< bits : Nat) : Int))) = true := by
    rw [Bool.and_eq_true, decide_eq_true_eq, decide_eq_true_eq]
    exact ⟨Int.natCast_nonneg n, Int.ofNat_lt.2 h⟩
  exact if_pos hrange

theorem published?_toJson {published : Option Instant} (h : ∀ t ∈ published, t.IsValid) :
    Json.optional? Instant.ofJson? (.ofOption Instant.toJson published) = some published := by
  cases published with
  | none => rfl
  | some t =>
      have hne : t.toJson ≠ .null := nofun
      rw [Json.ofOption, Json.optional?_of_ne_null hne, Instant.ofJson?_toJson (h t rfl)]
      rfl

theorem Domain.ofJson?_of_fields {value : Json} {d : Domain}
    {name owner minimumTtl created published : Option Json}
    (hfields : value.fields? [["name"], ["owner"], ["minimum_ttl"], ["created"], ["published"]]
      = some [name, owner, minimumTtl, created, published])
    (hname : Json.required Json.string? name = some d.name)
    (howner : Json.required Json.string? owner = some d.owner)
    (hminimum : Json.required (Json.natOfBits? 32) minimumTtl = some d.minimumTtl)
    (hcreated : Json.required Instant.ofJson? created = some d.created)
    (hpublished : Json.withDefault none (Json.optional? Instant.ofJson?) published
      = some d.published) : ofJson? value = some d := by
  simp only [ofJson?, hfields, hname, howner, hminimum, hcreated, hpublished, Option.bind_eq_bind,
    Option.bind_some]
  rfl

theorem Domain.ofJson?_toJson {d : Domain} (h : d.Fits) : ofJson? d.toJson = some d := by
  refine ofJson?_of_fields
    (Json.fields?_object ["name", "owner", "minimum_ttl", "created", "published"]
      (by simp) rfl rfl)
    rfl rfl ?_ ?_ ?_
  · exact natOfBits?_ofNat h.minimumTtl
  · exact Instant.ofJson?_toJson h.created
  · exact published?_toJson h.published

theorem strings?_recordsToJson (records : SortedSet String) :
    Json.list? Json.string? (recordsToJson records) = some records.toList :=
  mapM_map_eq_some fun _ _ => rfl

theorem Rrset.ofJson?_of_fields {value : Json} {r : Rrset} {contents : List String}
    {subname type ttl records created touched : Option Json}
    (hfields : value.fields? [["subname"], ["type"], ["ttl"], ["records"], ["created"], ["touched"]]
      = some [subname, type, ttl, records, created, touched])
    (hsubname : Json.required Json.string? subname = some r.subname)
    (htype : Json.required Json.string? type = some r.type)
    (httl : Json.required (Json.natOfBits? 32) ttl = some r.ttl)
    (hrecords : Json.required (Json.list? Json.string?) records = some contents)
    (hcontents : SortedSet.ofList contents = r.records)
    (hcreated : Json.required Instant.ofJson? created = some r.created)
    (htouched : Json.required Instant.ofJson? touched = some r.touched) :
    ofJson? value = some r := by
  simp only [ofJson?, hfields, hsubname, htype, httl, hrecords, hcontents, hcreated, htouched,
    Option.bind_eq_bind, Option.bind_some]
  rfl

theorem Rrset.ofJson?_toJson {r : Rrset} (h : r.Fits) : ofJson? r.toJson = some r := by
  refine ofJson?_of_fields
    (Json.fields?_object ["subname", "type", "ttl", "records", "created", "touched"]
      (by simp) rfl rfl)
    rfl rfl ?_ (strings?_recordsToJson r.records) (SortedSet.ofList_toList r.records) ?_ ?_
  · exact natOfBits?_ofNat h.ttl
  · exact Instant.ofJson?_toJson h.created
  · exact Instant.ofJson?_toJson h.touched

theorem Zone.ofJson?_of_fields {value : Json} {domain : Domain} {sets : List Rrset}
    {owner rrsets : Option Json} (hfields : value.fields? [["domain"], ["rrsets"]] = some [owner, rrsets])
    (hdomain : Json.required Domain.ofJson? owner = some domain)
    (hrrsets : Json.required (Json.list? Rrset.ofJson?) rrsets = some sets) :
    ofJson? value = some ⟨domain, SortedMap.ofList (sets.map fun r => (r.key, r))⟩ := by
  simp only [ofJson?, hfields, hdomain, hrrsets, Option.bind_eq_bind, Option.bind_some]
  rfl

theorem Zone.ofJson?_toJson {zone : Zone} (h : zone.Fits) :
    ofJson? zone.toJson = some zone.rekeyed := by
  refine ofJson?_of_fields (Json.fields?_object ["domain", "rrsets"] (by simp) rfl rfl)
    ?_ ?_
  · rw [Json.required, Domain.ofJson?_toJson h.domain]
  · rw [Json.required, Json.list?, mapM_map_eq_some fun r hr => ?_]
    obtain ⟨key, hkey⟩ := SortedMap.mem_values_iff.1 hr
    exact Rrset.ofJson?_toJson (h.rrsets key r hkey)

namespace Zones

variable {zones : Zones}

theorem ofDocument?_toDocument (h : zones.Fits) :
    ofDocument? zones.toDocument = some zones.rekeyed := by
  have hversion : Json.memberOf ["version"] [("version", .string documentVersion),
      ("zones", .object (zones.entries.map fun (name, zone) => (name, zone.toJson)))]
      = some (some (.string documentVersion)) :=
    Json.memberOf_eq (show ["version", "zones"].Nodup by decide) List.mem_cons_self
  have hzones : Json.memberOf ["zones"] [("version", .string documentVersion),
      ("zones", .object (zones.entries.map fun (name, zone) => (name, zone.toJson)))]
      = some (some (.object (zones.entries.map fun (name, zone) => (name, zone.toJson)))) :=
    Json.memberOf_eq (show ["version", "zones"].Nodup by decide)
      (List.mem_cons_of_mem _ List.mem_cons_self)
  have hread : (zones.entries.map fun (name, zone) => (name, zone.toJson)).mapM ofMember?
      = some (zones.entries.map fun (name, zone) => (name, zone.rekeyed)) := by
    refine mapM_map_eq_some_map fun ⟨name, zone⟩ he => ?_
    have hfits := h name zone (SortedMap.get?_eq_some_iff.2 he)
    simp only [ofMember?, Zone.ofJson?_toJson hfits, Option.map_some]
  simp only [ofDocument?, toDocument, hversion, hzones, hread, Json.required, Json.string?,
    Option.bind_eq_bind, Option.bind_some]
  rfl

def documentDepth : Nat := 6

theorem fits_instant {depth : Nat} (t : Instant) : Json.Fits depth t.toJson := .string _

theorem fits_word {depth n : Nat} (h : n < 1 <<< 32) : Json.Fits depth (.ofNat n) :=
  .nat n (Nat.lt_trans h (by decide))

theorem fits_domain {depth : Nat} {d : Domain} (h : d.Fits) : Json.Fits (depth + 1) d.toJson := by
  have hpublished : Json.Fits depth (.ofOption Instant.toJson d.published) := by
    cases d.published with
    | none => exact .null
    | some t => exact fits_instant t
  refine .object _ ?_
  simp only [List.forall_mem_cons]
  exact ⟨.string _, .string _, fits_word h.minimumTtl, fits_instant _, hpublished, nofun⟩

theorem fits_rrset {depth : Nat} {r : Rrset} (h : r.Fits) : Json.Fits (depth + 2) r.toJson := by
  have hrecords : Json.Fits (depth + 1) (recordsToJson r.records) := by
    refine .array _ fun item hitem => ?_
    obtain ⟨text, -, rfl⟩ := List.mem_map.1 hitem
    exact .string text
  refine .object _ ?_
  simp only [List.forall_mem_cons]
  exact ⟨.string _, .string _, fits_word h.ttl, hrecords, fits_instant _, fits_instant _, nofun⟩

theorem fits_zone {depth : Nat} {zone : Zone} (h : zone.Fits) :
    Json.Fits (depth + 4) zone.toJson := by
  have hrrsets : Json.Fits (depth + 3) (.array (zone.rrsets.values.map Rrset.toJson)) := by
    refine .array _ fun item hitem => ?_
    obtain ⟨r, hr, rfl⟩ := List.mem_map.1 hitem
    obtain ⟨key, hkey⟩ := SortedMap.mem_values_iff.1 hr
    exact fits_rrset (h.rrsets key r hkey)
  refine .object _ ?_
  simp only [List.forall_mem_cons]
  exact ⟨fits_domain h.domain, hrrsets, nofun⟩

theorem fits_toDocument (h : zones.Fits) : Json.Fits documentDepth zones.toDocument := by
  have hzones : Json.Fits 5 (.object (zones.entries.map fun (name, zone) => (name, zone.toJson))) := by
    refine .object _ fun member hmember => ?_
    obtain ⟨⟨name, zone⟩, he, rfl⟩ := List.mem_map.1 hmember
    exact fits_zone (h name zone (SortedMap.get?_eq_some_iff.2 he))
  refine .object _ ?_
  simp only [List.forall_mem_cons]
  exact ⟨.string _, hzones, nofun⟩

theorem read?_write (h : zones.Fits) : read? zones.write = some zones.rekeyed := by
  rw [read?, write, Json.parse?_pretty (fits_toDocument h) (by decide)]
  exact ofDocument?_toDocument h

end Zones

theorem Json.natOfBits?_lt {bits n : Nat} {value : Json} (h : natOfBits? bits value = some n) :
    n < 1 <<< bits := by
  unfold natOfBits? below? at h
  split at h
  · split at h
    · next hrange =>
        rw [Bool.and_eq_true, decide_eq_true_eq, decide_eq_true_eq] at hrange
        obtain rfl := Option.some.inj h
        omega
    · cases h
  · cases h

theorem Json.required_eq_some {α : Type} {decode : Json → Option α} {field : Option Json} {a : α}
    (h : required decode field = some a) : ∃ value, field = some value ∧ decode value = some a := by
  cases field with
  | none => cases h
  | some value => exact ⟨value, rfl, h⟩

theorem Instant.isValid_of_ofJson? {value : Json} {t : Instant} (h : ofJson? value = some t) :
    t.IsValid := by
  cases value with
  | string s => exact isValid_of_read? h
  | _ => cases h

theorem isValid_of_published? {field : Option Json} {published : Option Instant}
    (h : Json.withDefault none (Json.optional? Instant.ofJson?) field = some published) :
    ∀ t ∈ published, t.IsValid := by
  rintro t rfl
  cases field with
  | none => cases h
  | some value =>
      by_cases hnull : value = .null
      · subst hnull
        cases h
      · rw [Json.withDefault, Json.optional?_of_ne_null hnull] at h
        obtain ⟨_, hread, hsome⟩ := Option.map_eq_some_iff.1 h
        obtain rfl := Option.some.inj hsome
        exact Instant.isValid_of_ofJson? hread

theorem Domain.fits_of_ofJson? {value : Json} {d : Domain} (h : ofJson? value = some d) :
    d.Fits := by
  simp only [ofJson?, Option.bind_eq_bind, Option.bind_eq_some_iff] at h
  obtain ⟨fields, -, h⟩ := h
  split at h
  · simp only [Option.bind_eq_some_iff] at h
    obtain ⟨name, -, owner, -, minimum, hminimum, created, hcreated, published, hpublished, h⟩ := h
    obtain rfl := Option.some.inj h
    obtain ⟨_, -, hminimum⟩ := Json.required_eq_some hminimum
    obtain ⟨_, -, hcreated⟩ := Json.required_eq_some hcreated
    exact ⟨Json.natOfBits?_lt hminimum, Instant.isValid_of_ofJson? hcreated,
      isValid_of_published? hpublished⟩
  · cases h

theorem Rrset.fits_of_ofJson? {value : Json} {r : Rrset} (h : ofJson? value = some r) :
    r.Fits := by
  simp only [ofJson?, Option.bind_eq_bind, Option.bind_eq_some_iff] at h
  obtain ⟨fields, -, h⟩ := h
  split at h
  · simp only [Option.bind_eq_some_iff] at h
    obtain ⟨_, -, _, -, ttl, httl, _, -, created, hcreated, touched, htouched, h⟩ := h
    obtain rfl := Option.some.inj h
    obtain ⟨_, -, httl⟩ := Json.required_eq_some httl
    obtain ⟨_, -, hcreated⟩ := Json.required_eq_some hcreated
    obtain ⟨_, -, htouched⟩ := Json.required_eq_some htouched
    exact ⟨Json.natOfBits?_lt httl, Instant.isValid_of_ofJson? hcreated,
      Instant.isValid_of_ofJson? htouched⟩
  · cases h

theorem Zone.fits_of_ofJson? {value : Json} {zone : Zone} (h : ofJson? value = some zone) :
    zone.Fits ∧ zone.IsKeyed := by
  simp only [ofJson?, Option.bind_eq_bind, Option.bind_eq_some_iff] at h
  obtain ⟨fields, -, h⟩ := h
  split at h
  · simp only [Option.bind_eq_some_iff] at h
    obtain ⟨domain, hdomain, rrsets, hrrsets, h⟩ := h
    obtain rfl := Option.some.inj h
    obtain ⟨_, -, hdomain⟩ := Json.required_eq_some hdomain
    obtain ⟨sets, -, hrrsets⟩ := Json.required_eq_some hrrsets
    have hread : ∀ r ∈ rrsets, ∃ item, Rrset.ofJson? item = some r := by
      intro r hr
      cases sets with
      | array items =>
          obtain ⟨item, -, hitem⟩ := mem_of_mapM hrrsets hr
          exact ⟨item, hitem⟩
      | _ => cases hrrsets
    have hentry {key : Key} {r : Rrset}
        (hkey : (SortedMap.ofList (rrsets.map fun r => (r.key, r))).get? key = some r) :
        r ∈ rrsets ∧ r.key = key := by
      obtain ⟨other, hother, hsame⟩ := List.mem_map.1 (SortedMap.mem_of_get?_ofList hkey)
      obtain ⟨rfl, rfl⟩ := Prod.mk.inj hsame
      exact ⟨hother, rfl⟩
    refine ⟨⟨Domain.fits_of_ofJson? hdomain, fun key r hkey => ?_⟩, fun key r hkey => (hentry hkey).2⟩
    obtain ⟨item, hitem⟩ := hread r (hentry hkey).1
    exact Rrset.fits_of_ofJson? hitem
  · cases h

theorem Zones.fits_of_read? {text : String} {zones : Zones} (h : read? text = some zones) :
    zones.Fits ∧ zones.IsKeyed := by
  obtain ⟨value, -, hvalue⟩ := Option.bind_eq_some_iff.1 h
  unfold ofDocument? at hvalue
  split at hvalue
  · simp only [Option.bind_eq_bind, Option.bind_eq_some_iff] at hvalue
    obtain ⟨_, -, _, -, field, -, hvalue⟩ := hvalue
    split at hvalue
    · obtain ⟨entries, hentries, hzones⟩ := Option.bind_eq_some_iff.1 hvalue
      obtain rfl := Option.some.inj hzones
      have hread {name : String} {zone : Zone}
          (hzone : zone? (SortedMap.ofList entries) name = some zone) :
          ∃ item, Zone.ofJson? item = some zone := by
        obtain ⟨member, -, hmember⟩ := mem_of_mapM hentries (SortedMap.mem_of_get?_ofList hzone)
        obtain ⟨other, hother, hsame⟩ := Option.map_eq_some_iff.1 hmember
        obtain ⟨-, rfl⟩ := Prod.mk.inj hsame
        exact ⟨member.2, hother⟩
      refine ⟨fun name zone hzone => ?_, fun name zone hzone => ?_⟩
      · obtain ⟨item, hitem⟩ := hread hzone
        exact (Zone.fits_of_ofJson? hitem).1
      · obtain ⟨item, hitem⟩ := hread hzone
        exact (Zone.fits_of_ofJson? hitem).2
    · cases hvalue
  · cases hvalue

namespace StoreCall

def Fits : StoreCall → Prop
  | .createDomain domain => domain.Fits
  | .markPublished _ time => time.IsValid
  | .upsert _ _ ttl _ => ttl < 1 <<< 32
  | .restore _ _ previous => ∀ r ∈ previous, r.Fits
  | _ => True

end StoreCall

theorem Zone.Fits.put {zone : Zone} (h : zone.Fits) {key : Key} {left : Option Rrset}
    (hleft : ∀ r ∈ left, r.Fits) : (zone.put key left).Fits := by
  refine ⟨?_, fun k r hr => ?_⟩
  · rw [domain_put]
    exact h.domain
  · rw [get?_put] at hr
    split at hr
    · exact hleft r hr
    · exact h.rrsets k r hr

namespace Zones

variable {zones : Zones}

theorem fits_of_mem_leftBy {key : Key} {ttl : Nat} {records : SortedSet String} {now : Instant}
    {stored : Option Rrset} (hstored : ∀ r ∈ stored, r.Fits) (httl : ttl < 1 <<< 32)
    (hnow : now.IsValid) : ∀ r ∈ leftBy key ttl records now stored, r.Fits := by
  intro r hr
  unfold leftBy at hr
  split at hr
  · cases hr
  · obtain rfl := Option.some.inj hr
    cases stored with
    | none => exact ⟨httl, hnow, hnow⟩
    | some s => exact ⟨httl, (hstored s rfl).created, hnow⟩

theorem fits_empty : empty.Fits := fun _ _ h => nomatch h

theorem isKeyed_empty : empty.IsKeyed := fun _ _ h => nomatch h

theorem Fits.call {c : StoreCall} {now : Instant} (h : zones.Fits) (hc : c.Fits)
    (hnow : now.IsValid) : (zones.call now c).2.Fits := by
  intro n zone hzone
  by_cases hn : c.domain? = some n
  · rcases zone?_call_cases zones now hn with hsame | ⟨domain, rfl, -, hnew⟩ | ⟨rfl, hgone⟩ | hrest
    · exact h n zone (hsame ▸ hzone)
    · obtain rfl := Option.some.inj (hnew.symm.trans hzone)
      exact ⟨hc, fun _ _ hr => nomatch hr⟩
    · rw [hgone] at hzone
      cases hzone
    · obtain ⟨old, hold, ⟨time, rfl, hnew⟩ | ⟨key, ttl, records, rfl, hnew⟩
        | ⟨key, previous, rfl, hnew⟩⟩ := hrest
      · obtain rfl := Option.some.inj (hnew.symm.trans hzone)
        have hdomain := (h n old hold).domain
        refine ⟨⟨hdomain.minimumTtl, hdomain.created, ?_⟩, (h n old hold).rrsets⟩
        rintro t ⟨⟩
        exact hc
      · obtain rfl := Option.some.inj (hnew.symm.trans hzone)
        exact (h n old hold).put (fits_of_mem_leftBy ((h n old hold).rrsets key) hc hnow)
      · obtain rfl := Option.some.inj (hnew.symm.trans hzone)
        exact (h n old hold).put hc
  · exact h n zone (zone?_call_of_ne zones now hn ▸ hzone)

end Zones

end ZoneKeeper
