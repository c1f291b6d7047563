import ZoneKeeper.Proofs.Address.Network
import ZoneKeeper.Proofs.CheckIn.Setting
import ZoneKeeper.Proofs.Record.Addresses

namespace ZoneKeeper

namespace Network

variable {n : Network} {addresses : List Address} {records : SortedSet String} {domain : String}

structure Moves (n : Network) (before after : SortedSet String) : Prop where
  given : ∀ text ∈ before.toList, ∃ a : Address, a.family = n.address.family ∧ text = a.text
  made : ∀ text, text ∈ after.toList
    ↔ ∃ a b : Address, a.text ∈ before.toList ∧ n.Places a b ∧ text = b.text

def Separates (n : Network) (records : SortedSet String) : Prop :=
  ∀ a b : Address, a.family = n.address.family → b.family = n.address.family →
    a.text ∈ records.toList → b.text ∈ records.toList →
      a.number % n.hosts = b.number % n.hosts → a = b

def moved (n : Network) (records : SortedSet String) : SortedSet String :=
  .ofList (n.rewriteRecords records.toList)

def CanMove (n : Network) (domain : String) (stored : Option Rrset) : Prop :=
  ∀ r, stored = some r → n.Separates r.records
    ∧ RecordSet.estimate (ownerName "" domain) (n.moved r.records).toList ≤ RecordSet.maxResponse

theorem family_of_read {family : Family} {text : Octets} (h : read family text = .ok n) :
    n.address.family = family := by
  have haddress {t : Octets} {a : Address} (ha : Address.read? family t = some a) :
      a.family = family := by
    cases family <;> (obtain ⟨b, -, rfl⟩ := Option.map_eq_some_iff.1 ha; rfl)
  unfold read at h
  repeat' split at h
  all_goals cases h
  all_goals exact haddress ‹_›

theorem rewriteRecords_map (h : ∀ a ∈ addresses, a.family = n.address.family) :
    n.rewriteRecords (addresses.map Address.text) = (addresses.map n.move).map Address.text := by
  rw [rewriteRecords, List.filterMap_map, List.map_map, ← List.filterMap_eq_map]
  refine List.filterMap_congr fun a ha => ?_
  rw [Function.comp_apply, a.octets_text, ← h a ha, Address.read?_write]
  simp only [Option.bind_eq_bind, Option.bind_some, rewrite?_eq (h a ha)]
  rfl

section Addresses

variable (h : ∀ a ∈ addresses, a.family = n.address.family)
  (hrecords : records.toList = addresses.map Address.text)
include h hrecords

theorem text_mem_iff {a : Address} (ha : a.family = n.address.family) :
    a.text ∈ records.toList ↔ a ∈ addresses := by
  rw [hrecords, List.mem_map]
  constructor
  · rintro ⟨b, hb, htext⟩
    exact Address.text_injective ((h b hb).trans ha.symm) htext ▸ hb
  · exact fun hmem => ⟨a, hmem, rfl⟩

theorem moved_eq : n.moved records = .ofList ((addresses.map n.move).map Address.text) := by
  rw [moved, hrecords, rewriteRecords_map h]

theorem moves_moved : n.Moves records (n.moved records) := by
  refine ⟨fun text htext => ?_, fun text => ?_⟩
  · rw [hrecords] at htext
    obtain ⟨a, ha, rfl⟩ := List.mem_map.1 htext
    exact ⟨a, h a ha, rfl⟩
  rw [moved_eq h hrecords, SortedSet.mem_toList_ofList, List.map_map, List.mem_map]
  constructor
  · rintro ⟨a, ha, rfl⟩
    exact ⟨a, n.move a, (text_mem_iff h hrecords (h a ha)).2 ha, places_move (h a ha), rfl⟩
  · rintro ⟨a, b, ha, hplaces, rfl⟩
    obtain rfl := hplaces.unique (places_move hplaces.before)
    exact ⟨a, (text_mem_iff h hrecords hplaces.before).1 ha, rfl⟩

theorem nodup_moved_iff : (addresses.map n.move).Nodup ↔ n.Separates records := by
  have hnodup : addresses.Nodup := List.Nodup.of_map Address.text (hrecords ▸ records.nodup_toList)
  rw [List.nodup_map_iff_inj_on hnodup]
  constructor
  · intro hinj a b ha hb hmem hmem' hsame
    exact hinj a ((text_mem_iff h hrecords ha).1 hmem) b ((text_mem_iff h hrecords hb).1 hmem')
      ((places_same_iff (places_move ha) (places_move hb)).2 hsame)
  · intro hseparates a ha b hb hsame
    have hfamily := h a ha
    have hfamily' := h b hb
    exact hseparates a b hfamily hfamily' ((text_mem_iff h hrecords hfamily).2 ha)
      ((text_mem_iff h hrecords hfamily').2 hb)
      ((places_same_iff (places_move hfamily) (places_move hfamily')).1 hsame)

theorem read_rewritten_iff {canonical : SortedSet String} :
    RecordSet.read n.address.family.type "" (ownerName "" domain)
        (n.rewriteRecords records.toList) = .ok canonical
      ↔ n.Separates records
        ∧ RecordSet.estimate (ownerName "" domain) (n.moved records).toList ≤ RecordSet.maxResponse
        ∧ canonical = n.moved records := by
  have hfamily : ∀ b ∈ addresses.map n.move, b.family = n.address.family :=
    List.forall_mem_map.2 fun a ha => (places_move (h a ha)).after
  have hmoved := moved_eq h hrecords
  rw [hrecords, rewriteRecords_map h, RecordSet.read_addresses_iff hfamily,
    nodup_moved_iff h hrecords, ← hmoved]
  exact and_congr_right fun _ => and_congr_left fun heq => by rw [heq]

end Addresses

def rewritten (n : Network) (zone : Zone) (family : Family) : Option (List String) :=
  if family = n.address.family then
    some (n.rewriteRecords (((zone.rrsets.get? family.key).map (·.records.toList)).getD []))
  else none

structure Rewrites (n : Network) (settings : CheckInSettings) (zone zone' : Zone) : Prop where
  domain : zone'.domain = zone.domain
  absent : zone.rrsets.get? n.address.family.key = none →
    zone'.rrsets.get? n.address.family.key = none
  moves : ∀ r, zone.rrsets.get? n.address.family.key = some r →
    ∃ r', zone'.rrsets.get? n.address.family.key = some r' ∧ r'.key = r.key
      ∧ r'.ttl = settings.ttl ∧ n.Moves r.records r'.records
  others : ∀ key, key ≠ n.address.family.key → zone'.rrsets.get? key = zone.rrsets.get? key

section Zone

variable {settings : CheckInSettings} {zone zone' : Zone} (hsound : zone.IsSound .read)
include hsound

theorem exists_stored {family : Family} {r : Rrset} (hr : zone.rrsets.get? family.key = some r) :
    r.key = family.key ∧ r.records.isEmpty = false ∧ ∃ addresses : List Address,
      (∀ a ∈ addresses, a.family = family) ∧ r.records.toList = addresses.map Address.text := by
  obtain ⟨hkey, hallowed⟩ := hsound _ r hr
  rw [Charter.AllowsSet, hkey] at hallowed
  obtain ⟨contents, hcontents, hread⟩ := hallowed
  exact ⟨hkey, RecordSet.isEmpty_of_read hread hcontents, RecordSet.exists_addresses hread⟩

theorem allStorable_iff
    (hsize : (ownerName "" zone.domain.name).utf8ByteSize ≤ 4 * DomainName.maxWire) :
    CheckIn.AllStorable (n.rewritten zone) zone.domain.name
      ↔ n.CanMove zone.domain.name (zone.rrsets.get? n.address.family.key) := by
  have hone : CheckIn.AllStorable (n.rewritten zone) zone.domain.name
      ↔ CheckIn.AreStorable n.address.family zone.domain.name (n.rewriteRecords
        (((zone.rrsets.get? n.address.family.key).map (·.records.toList)).getD [])) := by
    constructor
    · exact fun hall => hall _ _ (if_pos rfl)
    · intro hstorable family addresses haddresses
      rw [rewritten] at haddresses
      split at haddresses
      · next hfamily =>
          obtain rfl := Option.some.inj haddresses
          rw [hfamily]
          exact hstorable
      · cases haddresses
  rw [hone]
  cases hr : zone.rrsets.get? n.address.family.key with
  | none =>
      refine iff_of_true ⟨_, RecordSet.read_nil hsize⟩ ?_
      rintro r ⟨⟩
  | some r =>
      obtain ⟨-, -, addresses, hfamilies, hrecords⟩ := exists_stored hsound hr
      constructor
      · rintro ⟨canonical, hread⟩ _ ⟨⟩
        obtain ⟨hseparates, hfits, -⟩ := (read_rewritten_iff hfamilies hrecords).1 hread
        exact ⟨hseparates, hfits⟩
      · intro hcan
        obtain ⟨hseparates, hfits⟩ := hcan r rfl
        exact ⟨_, (read_rewritten_iff hfamilies hrecords).2 ⟨hseparates, hfits, rfl⟩⟩

theorem rewrites_of_sets (h : CheckIn.Sets settings (n.rewritten zone) zone zone') :
    n.Rewrites settings zone zone' := by
  obtain ⟨canonical, hread, hcontent⟩ := h.addresses n.address.family _ (if_pos rfl)
  refine ⟨h.domain, fun hnone => ?_, fun r hr => ?_, fun key hkey => ?_⟩
  · rw [hnone] at hread
    rw [if_pos ((RecordSet.isEmpty_iff_of_read hread).2 rfl)] at hcontent
    exact Option.map_eq_none_iff.1 hcontent
  · obtain ⟨hkey, hfull, addresses, hfamilies, hrecords⟩ := exists_stored hsound hr
    rw [hr] at hread
    have hsome : canonical.isEmpty = false := by
      refine RecordSet.isEmpty_of_read hread fun hnil => ?_
      change n.rewriteRecords r.records.toList = [] at hnil
      rw [hrecords, rewriteRecords_map hfamilies, List.map_eq_nil_iff, List.map_eq_nil_iff] at hnil
      rw [hnil] at hrecords
      have hempty := List.map_eq_nil_iff.1 hrecords
      rw [SortedMap.isEmpty, hempty] at hfull
      cases hfull
    obtain ⟨-, -, rfl⟩ := (read_rewritten_iff hfamilies hrecords).1 hread
    rw [if_neg (by simp [hsome])] at hcontent
    obtain ⟨r', hr', hcontent⟩ := Option.map_eq_some_iff.1 hcontent
    obtain ⟨httl, hafter⟩ := Prod.mk.inj hcontent
    refine ⟨r', hr', (h.isKeyed _ r' hr').trans hkey.symm, httl, ?_⟩
    rw [hafter]
    exact moves_moved hfamilies hrecords
  · refine h.others key fun family heq => if_neg fun hfamily => hkey ?_
    rw [heq, hfamily]

end Zone

end Network

theorem Zone.find?_apex {zone : Zone} (hkeyed : zone.IsKeyed) (family : Family) :
    (zone.rrsets.values.filter (Filter.ofSubname "").accepts).find? (·.type == family.type)
      = zone.rrsets.get? family.key := by
  have hmine (r : Rrset) : (r ∈ zone.rrsets.values.filter (Filter.ofSubname "").accepts
      ∧ (r.type == family.type) = true) ↔ zone.rrsets.get? family.key = some r := by
    rw [List.mem_filter, SortedMap.mem_values_iff]
    constructor
    · rintro ⟨⟨⟨key, hkey⟩, hsubname⟩, htype⟩
      obtain rfl := hkeyed key r hkey
      have hsubname : "" = r.subname := by simpa [Filter.accepts, Filter.ofSubname] using hsubname
      rw [Family.key, hsubname, ← beq_iff_eq.1 htype]
      exact hkey
    · intro hr
      obtain ⟨hsubname, htype⟩ := Key.mk.inj (hkeyed _ r hr)
      refine ⟨⟨⟨_, hr⟩, ?_⟩, beq_iff_eq.2 htype⟩
      simp [Filter.accepts, Filter.ofSubname, hsubname]
  cases hfound : (zone.rrsets.values.filter (Filter.ofSubname "").accepts).find?
      (·.type == family.type) with
  | none =>
      refine (Option.eq_none_iff_forall_ne_some.2 fun r hr => ?_).symm
      obtain ⟨hmem, htype⟩ := (hmine r).2 hr
      exact List.find?_eq_none.1 hfound r hmem htype
  | some r =>
      refine ((hmine r).1 ⟨List.mem_of_find?_eq_some hfound, ?_⟩).symm
      simpa using List.find?_some hfound

theorem AddressUpdate.read_network {family : Family} {value : String} {n : Network}
    (hcomma : ',' ∉ value.toList) (hslash : hasSlash (Text.trim value) = true)
    (hread : Network.read family (octets (Text.trim value)) = .ok n) :
    read family value = .ok (.subnet n) := by
  have hparts : parts value = [Text.trim value] := by
    rw [parts, splitOn_eq, List.splitOn_eq_singleton hcomma]
    rfl
  have hplain {word : String} (hword : hasSlash word = false) :
      (Text.trim value == word) = false := by
    refine beq_eq_false_iff_ne.2 ?_
    rintro heq
    cases hword.symm.trans (heq ▸ hslash)
  rw [read, hparts]
  change ofValues family.parameter family [Text.trim value] = .ok (.subnet n)
  simp only [ofValues, hplain (by decide : hasSlash "" = false),
    hplain (by decide : hasSlash "preserve" = false), hslash, readSubnet, hread,
    Bool.false_eq_true, if_false, if_true]

namespace CheckIn

structure IsMove (c : CheckIn) (n : Network) : Prop where
  asks : c.updateFor n.address.family = .ok (some (.subnet n))
  alone : ∀ family, family ≠ n.address.family → c.updateFor family = .ok none

variable {c : CheckIn} {n : Network} {settings : CheckInSettings} {zone : Zone}

def own (value : String) : Family → CheckIn
  | .v4 => ⟨none, some value, none⟩
  | .v6 => ⟨none, none, some value⟩

theorem updateFor_own (value : String) (family : Family) :
    (own value family).updateFor family = (AddressUpdate.read family value).map some := by
  cases family with
  | v4 => rfl
  | v6 =>
      simp only [updateFor, own, ofOwn]
      cases AddressUpdate.read .v6 value <;> rfl

theorem updateFor_own_of_ne (value : String) {family other : Family} (h : other ≠ family) :
    (own value family).updateFor other = .ok none := by
  cases family <;> cases other <;> first | rfl | exact absurd rfl h

theorem isMove_own {family : Family} {value : String} (hcomma : ',' ∉ value.toList)
    (hslash : AddressUpdate.hasSlash (Text.trim value) = true)
    (hread : Network.read family (octets (Text.trim value)) = .ok n) :
    (own value family).IsMove n := by
  obtain rfl := Network.family_of_read hread
  refine ⟨?_, fun other hother => updateFor_own_of_ne value hother⟩
  rw [updateFor_own, AddressUpdate.read_network hcomma hslash hread]
  rfl

theorem IsMove.familyUpdates (h : c.IsMove n) :
    Request.familyUpdates c = .ok [(n.address.family, .subnet n)] := by
  obtain ⟨hasks, halone⟩ := h
  simp only [Request.familyUpdates, List.mapM_cons, List.mapM_nil]
  generalize n.address.family = family at *
  cases family with
  | v4 =>
      rw [hasks, halone .v6 (by decide)]
      rfl
  | v6 =>
      rw [hasks, halone .v4 (by decide)]
      rfl

theorem checkInBatch_move (hkeyed : zone.IsKeyed) :
    Request.checkInBatch settings [(n.address.family, .subnet n)]
        (zone.rrsets.values.filter (Filter.ofSubname "").accepts)
      = setting settings (n.rewritten zone) := by
  have hitem : Request.familyItem? settings
      (zone.rrsets.values.filter (Filter.ofSubname "").accepts) n.address.family (.subnet n)
        = (n.rewritten zone n.address.family).map (item settings n.address.family) := by
    rw [Network.rewritten, if_pos rfl, ← Zone.find?_apex hkeyed]
    rfl
  have hother (family : Family) (h : family ≠ n.address.family) :
      n.rewritten zone family = none := if_neg h
  simp only [Request.checkInBatch, setting, Family.all, List.filterMap_cons, List.filterMap_nil,
    hitem]
  generalize n.address.family = family at hother ⊢
  cases family with
  | v4 => rw [hother .v6 (by decide), Option.map_none]
  | v6 => rw [hother .v4 (by decide), Option.map_none]

section Program

open Engine

variable {engine : EngineSettings} {zones : Zones} {principal : Principal} {name : String}

inductive MoveEnds (n : Network) (settings : CheckInSettings) (zone : Zone) :
    CheckInStatus → Option Zone → Prop where
  | moved {zone' : Zone} (hcan : n.CanMove zone.domain.name (zone.rrsets.get? n.address.family.key))
      (hrewrites : n.Rewrites settings zone zone') : MoveEnds n settings zone .good (some zone')
  | refused (hnot : ¬ n.CanMove zone.domain.name (zone.rrsets.get? n.address.family.key)) :
      MoveEnds n settings zone .dnsError (some zone)

theorem undisturbed_move (hsettings : engine.validate = .ok ()) (hzones : zones.IsSettled)
    (hzone : zones.zone? (normalizeDomain name) = some zone) (hsound : zone.IsSound .read)
    (howns : principal.owns zone.domain = true) (hmove : c.IsMove n) :
    Undisturbed (.alone (fun _ _ => False) (normalizeDomain name))
      (Request.mergeCheckIn engine principal name c).run
      ⟨zones.zone? (normalizeDomain name), []⟩ fun r later =>
      MoveEnds n engine.checkIn zone (statusOf r) later.zone := by
  refine Request.undisturbed_visibleDomain rfl (Request.holds_alone hzones.isProper _ _) ?_ ?_
  · rintro e later - - (⟨_, ⟨⟩⟩ | ⟨-, hforeign⟩)
    exact absurd ((hforeign zone hzone).symm.trans howns) Bool.false_ne_true
  · intro found later hlater hfound hsame _
    obtain rfl := Option.some.inj (hzone.symm.trans hfound)
    have hkeyed := (hlater.keeps zone hsame).2
    have hsize : (ownerName "" zone.domain.name).utf8ByteSize ≤ 4 * DomainName.maxWire := by
      rw [hzones.isProper.isNamed _ _ hzone]
      exact (hzones.isRegistrable _ (by rw [hzone]; rfl)).utf8ByteSize_le
    have hcan := Network.allStorable_iff (n := n) hsound hsize
    rw [hmove.familyUpdates]
    refine Undisturbed.engine_bind (undisturbed_setting hsettings hsame hlater howns
      (hzones.noAlias _ _ hzone) (checkInBatch_move hkeyed)) ?_ ?_
    · intro e final hsettled
      generalize final.zone = left at hsettled ⊢
      cases hsettled with
      | refused hnot => exact .refused fun h => hnot (hcan.2 h)
    · intro o final hsettled
      change MoveEnds n engine.checkIn zone .good final.zone
      generalize final.zone = left at hsettled ⊢
      cases hsettled with
      | stored hall hsets => exact .moved (hcan.1 hall) (Network.rewrites_of_sets hsound hsets)

end Program

end CheckIn

namespace Traffic

theorem move_ends {settings : EngineSettings} (hsettings : settings.validate = .ok ())
    {mayFail : StoreCall → Bool} {feed : List ZoneChange} {events : List Event} {s : Traffic}
    (h : (start settings mayFail .empty feed).run events = some s) {calm : Fate}
    (hcalm : calm.FailsAs fun _ _ => False) {principal : Principal} {name : String} {zone : Zone}
    (hzone : s.zones.zone? (normalizeDomain name) = some zone)
    (howns : principal.owns zone.domain = true) {c : CheckIn} {n : Network} (hmove : c.IsMove n) :
    (∃ status, calm.reply settings s.zones (.checkIn (some principal) name c)
          = .ok (.status status)
        ∧ CheckIn.MoveEnds n settings.checkIn zone status
          ((calm.leaves settings s.zones (.checkIn (some principal) name c)).zone?
            (normalizeDomain name)))
      ∧ ∀ other, other ≠ normalizeDomain name →
          (calm.leaves settings s.zones (.checkIn (some principal) name c)).zone? other
            = s.zones.zone? other :=
  (CheckIn.undisturbed_run_of_merge (Q := fun status later =>
      CheckIn.MoveEnds n settings.checkIn zone status later.zone)
    (CheckIn.undisturbed_move hsettings (isSettled_of_run h) hzone
      ((HoldsRead.of_run h).stored _ zone hzone).2 howns hmove)).run hcalm (by rintro _ ⟨⟩)

namespace Example

def addressing (addresses : String) : List Event :=
  .arrive (create "alice") :: events 0 creating
    ++ .arrive (.checkIn (some ⟨"alice"⟩) "example.com" (.own addresses .v4))
    :: events 1 [answer, answer, goOn, .refer, .join, goOn, answer, answer, answer, goOn, goOn,
      answer, goOn, goOn, goOn, goOn]

def lone : Address := .v4 ⟨[203, 0, 113, 77], rfl⟩

def moved : Address := .v4 ⟨[198, 51, 100, 77], rfl⟩

def network : Network := ⟨.v4 ⟨[198, 51, 100, 0], rfl⟩, 24⟩

def crowded : Network := ⟨.v4 ⟨[10, 0, 0, 0], rfl⟩, 24⟩

theorem isMove_network : (CheckIn.own "198.51.100.0/24" .v4).IsMove network :=
  CheckIn.isMove_own (by decide) (by decide) (by decide +kernel)

theorem canMove_lone {r : Rrset} (h : r.records.toList = ["203.0.113.77"]) :
    network.CanMove "example.com" (some r) := by
  have hfits : RecordSet.estimate (ownerName "" "example.com")
      (SortedSet.ofList (network.rewriteRecords ["203.0.113.77"])).toList
        ≤ RecordSet.maxResponse := by
    decide +kernel
  rintro _ ⟨⟩
  refine ⟨fun a b ha hb hmem hmem' _ => ?_, ?_⟩
  · rw [h, List.mem_singleton] at hmem hmem'
    exact Address.text_injective (ha.trans hb.symm) (hmem.trans hmem'.symm)
  · rw [Network.moved, h]
    exact hfits

end Example

theorem exists_addressed (addresses : String) (texts : List String)
    (h : ((start .default (fun _ => false) .empty []).run (Example.addressing addresses)).any
      (fun s => (s.zones.zone? "example.com").any fun zone => zone.domain.owner == "alice"
        && zone.domain.name == "example.com"
        && (zone.rrsets.get? ⟨"", "A"⟩).any fun r => r.records.toList == texts) = true) :
    ∃ s zone r,
      (start .default (fun _ => false) .empty []).run (Example.addressing addresses) = some s
      ∧ s.zones.zone? "example.com" = some zone ∧ zone.domain.owner = "alice"
      ∧ zone.domain.name = "example.com" ∧ zone.rrsets.get? ⟨"", "A"⟩ = some r
      ∧ r.records.toList = texts := by
  obtain ⟨s, hs, h⟩ := (Option.any_eq_true _ _).1 h
  obtain ⟨zone, hzone, h⟩ := (Option.any_eq_true _ _).1 h
  simp only [Bool.and_eq_true, beq_iff_eq] at h
  obtain ⟨⟨howner, hname⟩, h⟩ := h
  obtain ⟨r, hr, h⟩ := (Option.any_eq_true _ _).1 h
  exact ⟨s, zone, r, hs, hzone, howner, hname, hr, beq_iff_eq.1 h⟩

/-- On every store that requests lead to, also while some are on their way, a check-in of which no
call fails moves the stored addresses of a family into a network, if no two of them have the same
bits behind those of the network and the set of the moved ones is not too large. Otherwise it
changes nothing. -/
theorem addresses_move_into_network {settings : EngineSettings}
    (hsettings : settings.validate = .ok ()) {mayFail : StoreCall → Bool} {feed : List ZoneChange}
    {events : List Event} {s : Traffic}
    (h : (start settings mayFail .empty feed).run events = some s) {calm : Fate}
    (hcalm : calm.FailsAs fun _ _ => False) {principal : Principal} {name : String} {zone : Zone}
    (hzone : s.zones.zone? (normalizeDomain name) = some zone)
    (howns : principal.owns zone.domain = true) {c : CheckIn} {n : Network} (hmove : c.IsMove n) :
    (n.CanMove zone.domain.name (zone.rrsets.get? n.address.family.key) →
        calm.reply settings s.zones (.checkIn (some principal) name c) = .ok (.status .good)
          ∧ ∃ zone', (calm.leaves settings s.zones (.checkIn (some principal) name c)).zone?
              (normalizeDomain name) = some zone' ∧ n.Rewrites settings.checkIn zone zone')
      ∧ (¬ n.CanMove zone.domain.name (zone.rrsets.get? n.address.family.key) →
        calm.reply settings s.zones (.checkIn (some principal) name c) = .ok (.status .dnsError)
          ∧ (calm.leaves settings s.zones (.checkIn (some principal) name c)).zone?
              (normalizeDomain name) = some zone)
      ∧ ∀ other, other ≠ normalizeDomain name →
          (calm.leaves settings s.zones (.checkIn (some principal) name c)).zone? other
            = s.zones.zone? other := by
  obtain ⟨⟨status, hreply, hends⟩, helse⟩ := move_ends hsettings h hcalm hzone howns hmove
  generalize (calm.leaves settings s.zones (.checkIn (some principal) name c)).zone?
    (normalizeDomain name) = left at hends ⊢
  cases hends with
  | moved hcan hrewrites =>
      exact ⟨fun _ => ⟨hreply, _, rfl, hrewrites⟩, fun hnot => absurd hcan hnot, helse⟩
  | refused hnot => exact ⟨fun hcan => absurd hcan hnot, fun _ => ⟨hreply, rfl⟩, helse⟩

theorem lone_address_moves : ∃ s zone r zone' r',
    (start .default (fun _ => false) .empty []).run (Example.addressing "203.0.113.77") = some s
      ∧ s.zones.zone? "example.com" = some zone ∧ zone.rrsets.get? ⟨"", "A"⟩ = some r
      ∧ r.records.toList = ["203.0.113.77"]
      ∧ (ZoneKeeper.Example.calm.leaves .default s.zones (.checkIn (some ⟨"alice"⟩) "example.com"
          (.own "198.51.100.0/24" .v4))).zone? "example.com" = some zone'
      ∧ zone'.rrsets.get? ⟨"", "A"⟩ = some r'
      ∧ ∀ text, text ∈ r'.records.toList ↔ text = "198.51.100.77" := by
  have hname : normalizeDomain "example.com" = "example.com" := by decide +kernel
  have hlone : Example.lone.text = "203.0.113.77" := by decide +kernel
  have hmoved : Example.moved.text = "198.51.100.77" := by decide +kernel
  have hplaces : Example.network.Places Example.lone Example.moved :=
    ⟨rfl, rfl, by decide +kernel, by decide +kernel⟩
  obtain ⟨s, zone, r, hs, hzone, howner, hdomain, hr, hrecords⟩ :=
    exists_addressed "203.0.113.77" ["203.0.113.77"] (by decide +kernel)
  obtain ⟨hmoves, -, -⟩ := addresses_move_into_network rfl hs (ZoneKeeper.Example.calm_failsAs _)
    (hname ▸ hzone) (beq_iff_eq.2 howner) Example.isMove_network
  obtain ⟨-, zone', hzone', hrewrites⟩ := hmoves (by
    rw [hdomain]
    exact hr ▸ Example.canMove_lone hrecords)
  obtain ⟨r', hr', -, -, hmade⟩ := hrewrites.moves r hr
  refine ⟨s, zone, r, zone', r', hs, hzone, hr, hrecords, hname ▸ hzone', hr', fun text => ?_⟩
  rw [hmade.made, hrecords]
  constructor
  · rintro ⟨a, b, ha, hab, rfl⟩
    have hfirst := Address.text_injective (hab.before.trans hplaces.before.symm)
      ((List.mem_singleton.1 ha).trans hlone.symm)
    rw [hfirst] at hab
    rw [hab.unique hplaces, hmoved]
  · rintro rfl
    exact ⟨Example.lone, Example.moved, List.mem_singleton.2 hlone, hplaces, hmoved.symm⟩

theorem alike_addresses_do_not_move : ∃ s zone r,
    (start .default (fun _ => false) .empty []).run
        (Example.addressing "192.0.2.1,198.51.100.1") = some s
      ∧ EngineSettings.default.validate = .ok ()
      ∧ s.zones.zone? "example.com" = some zone ∧ zone.domain.owner = "alice"
      ∧ zone.rrsets.get? ⟨"", "A"⟩ = some r ∧ r.records.toList = ["192.0.2.1", "198.51.100.1"]
      ∧ (CheckIn.own "10.0.0.0/24" .v4).IsMove Example.crowded
      ∧ ZoneKeeper.Example.calm.reply .default s.zones (.checkIn (some ⟨"alice"⟩) "example.com"
          (.own "10.0.0.0/24" .v4)) = .ok (.status .dnsError)
      ∧ (ZoneKeeper.Example.calm.leaves .default s.zones (.checkIn (some ⟨"alice"⟩) "example.com"
          (.own "10.0.0.0/24" .v4))).zone? "example.com" = some zone := by
  have hname : normalizeDomain "example.com" = "example.com" := by decide +kernel
  have hmove : (CheckIn.own "10.0.0.0/24" .v4).IsMove Example.crowded :=
    CheckIn.isMove_own (by decide) (by decide) (by decide +kernel)
  obtain ⟨s, zone, r, hs, hzone, howner, -, hr, hrecords⟩ :=
    exists_addressed "192.0.2.1,198.51.100.1" ["192.0.2.1", "198.51.100.1"] (by decide +kernel)
  have hnot : ¬ Example.crowded.Separates r.records := by
    intro hseparates
    rw [Network.Separates, hrecords] at hseparates
    have hsame := hseparates (.v4 ⟨[192, 0, 2, 1], rfl⟩) (.v4 ⟨[198, 51, 100, 1], rfl⟩) rfl rfl
      (by decide +kernel) (by decide +kernel) (by decide +kernel)
    revert hsame
    decide
  obtain ⟨⟨status, hreply, hends⟩, -⟩ := move_ends rfl hs (ZoneKeeper.Example.calm_failsAs _)
    (hname ▸ hzone) (beq_iff_eq.2 howner) hmove
  rw [hname] at hends
  generalize hleft : (ZoneKeeper.Example.calm.leaves .default s.zones (.checkIn (some ⟨"alice"⟩)
    "example.com" (.own "10.0.0.0/24" .v4))).zone? "example.com" = left at hends
  cases hends with
  | moved hcan => exact absurd (hcan r hr).1 hnot
  | refused => exact ⟨s, zone, r, hs, rfl, hzone, howner, hr, hrecords, hmove, hreply, hleft⟩

end Traffic

end ZoneKeeper
