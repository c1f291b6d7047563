import ZoneKeeper.Proofs.CheckIn.Setting

namespace ZoneKeeper

namespace CheckIn

def isRefused (c : CheckIn) (domain : String) (family : Family) : Bool :=
  match c.updateFor family with
  | .error _ => true
  | .ok (some (.set addresses)) => !addresses.isEmpty
      && !(RecordSet.read family.type "" (ownerName "" domain) addresses).isOk
  | .ok _ => false

def asksNothing (c : CheckIn) (family : Family) : Bool :=
  match c.updateFor family with
  | .ok none => true
  | _ => false

def verdict (c : CheckIn) (principal : Option Principal) (found : Option Domain) : CheckInStatus :=
  match principal with
  | none => .badAuth
  | some principal =>
      match found.filter principal.owns with
      | none => .noHost
      | some domain =>
          if Family.all.any (c.isRefused domain.name) then .dnsError
          else if Family.all.all c.asksNothing then .unchanged
          else .good

def Leaves (c : CheckIn) (settings : CheckInSettings) (domain : String) (family : Family)
    (stored left : Option Rrset) : Prop :=
  match c.updateFor family with
  | .ok (some (.set [])) => left = none
  | .ok (some (.set addresses)) => ∃ r, left = some r ∧ r.key = family.key ∧ r.ttl = settings.ttl
      ∧ RecordSet.read family.type "" (ownerName "" domain) addresses = .ok r.records
  | _ => left = stored

structure Updates (c : CheckIn) (settings : CheckInSettings) (zone zone' : Zone) : Prop where
  domain : zone'.domain = zone.domain
  addresses : ∀ family, c.Leaves settings zone.domain.name family (zone.rrsets.get? family.key)
    (zone'.rrsets.get? family.key)
  others : ∀ key, (∀ family, key ≠ Family.key family) →
    zone'.rrsets.get? key = zone.rrsets.get? key

structure Follows (c : CheckIn) (settings : CheckInSettings) (principal : Option Principal)
    (before after : Option Zone) (status : CheckInStatus) : Prop where
  isVerdict : status = c.verdict principal (before.map (·.domain))
  unchanged : status ≠ .good → after = before
  updates : status = .good → ∃ zone zone', before = some zone ∧ after = some zone'
    ∧ c.Updates settings zone zone'

variable {c : CheckIn} {settings : CheckInSettings} {family : Family} {zone : Zone}

theorem leaves_of_none {domain : String} {stored left : Option Rrset}
    (h : c.addresses? family = none) (hsame : left = stored) :
    c.Leaves settings domain family stored left := by
  unfold Leaves
  split
  · next hset => cases h.symm.trans (addresses?_eq_some_iff.2 hset)
  · next hset => cases h.symm.trans (addresses?_eq_some_iff.2 hset)
  · exact hsame

theorem leaves_of_some {domain : String} {stored left : Option Rrset} {addresses : List String}
    (h : c.addresses? family = some addresses) {canonical : SortedSet String}
    (hread : RecordSet.read family.type "" (ownerName "" domain) addresses = .ok canonical)
    (hcontent : left.map Rrset.content
      = if canonical.isEmpty then none else some (settings.ttl, canonical))
    (hkey : ∀ r, left = some r → r.key = family.key) :
    c.Leaves settings domain family stored left := by
  rw [Leaves, addresses?_eq_some_iff.1 h]
  cases addresses with
  | nil =>
      obtain rfl := (RecordSet.of_read hread).2.2
      exact Option.map_eq_none_iff.1 hcontent
  | cons first rest =>
      rw [RecordSet.isEmpty_of_read hread (List.cons_ne_nil first rest)] at hcontent
      obtain ⟨r, hr, hcontent⟩ := Option.map_eq_some_iff.1 hcontent
      obtain ⟨httl, hrecords⟩ := Prod.mk.inj hcontent
      exact ⟨r, hr, hkey r hr, httl, hrecords ▸ hread⟩

section Families

variable {updates : List (Family × AddressUpdate)}

theorem familyUpdates_cases (c : CheckIn) :
    (∃ family flaw, c.updateFor family = .error flaw ∧ Request.familyUpdates c = .error flaw)
      ∨ ∃ update4 update6, c.updateFor .v4 = .ok update4 ∧ c.updateFor .v6 = .ok update6
          ∧ Request.familyUpdates c
            = .ok ([update4.map (.v4, ·), update6.map (.v6, ·)].filterMap id) := by
  simp only [Request.familyUpdates, List.mapM_cons, List.mapM_nil]
  cases h4 : c.updateFor .v4 with
  | error flaw => exact Or.inl ⟨.v4, flaw, h4, rfl⟩
  | ok update4 =>
      cases h6 : c.updateFor .v6 with
      | error flaw => exact Or.inl ⟨.v6, flaw, h6, rfl⟩
      | ok update6 => exact Or.inr ⟨update4, update6, rfl, rfl, rfl⟩

theorem exists_update (h : Request.familyUpdates c = .ok updates) (family : Family) :
    ∃ update?, c.updateFor family = .ok update? := by
  rcases familyUpdates_cases c with ⟨_, flaw, -, hnone⟩ | ⟨update4, update6, h4, h6, -⟩
  · cases h.symm.trans hnone
  · cases family
    · exact ⟨update4, h4⟩
    · exact ⟨update6, h6⟩

theorem updates_eq_nil_iff (h : Request.familyUpdates c = .ok updates) :
    updates = [] ↔ Family.all.all c.asksNothing = true := by
  rcases familyUpdates_cases c with ⟨_, flaw, -, hnone⟩ | ⟨update4, update6, h4, h6, hsome⟩
  · cases h.symm.trans hnone
  · obtain rfl := Except.ok.inj (h.symm.trans hsome)
    cases update4 <;> cases update6 <;> simp [Family.all, asksNothing, h4, h6]

theorem checkInBatch_eq (hplain : c.IsPlain) (h : Request.familyUpdates c = .ok updates)
    (apex : List Rrset) : Request.checkInBatch settings updates apex = c.batch settings := by
  have hitem (family : Family) (update? : Option AddressUpdate)
      (hupdate : c.updateFor family = .ok update?) :
      update?.bind (Request.familyItem? settings apex family)
        = (c.addresses? family).map (item settings family) := by
    simp only [addresses?, hupdate]
    rcases update? with _ | _ | network | _
    · rfl
    · rfl
    · exact absurd hupdate (hplain family network)
    · rfl
  rcases familyUpdates_cases c with ⟨_, flaw, -, hnone⟩ | ⟨update4, update6, h4, h6, hsome⟩
  · cases h.symm.trans hnone
  · obtain rfl := Except.ok.inj (h.symm.trans hsome)
    have hv4 := hitem .v4 update4 h4
    have hv6 := hitem .v6 update6 h6
    simp only [Request.checkInBatch, batch, Family.all, List.filterMap_cons, List.filterMap_nil,
      ← hv4, ← hv6]
    cases update4 <;> cases update6 <;> rfl

theorem any_isRefused_of_error {flaw : CheckInFlaw} (h : Request.familyUpdates c = .error flaw)
    (domain : String) : Family.all.any (c.isRefused domain) = true := by
  rcases familyUpdates_cases c with ⟨family, _, hfamily, -⟩ | ⟨_, _, -, -, hsome⟩
  · refine List.any_eq_true.2 ⟨family, family.mem_all, ?_⟩
    rw [isRefused, hfamily]
  · cases h.symm.trans hsome

theorem any_isRefused_of_nothing (h : Family.all.all c.asksNothing = true) (domain : String) :
    Family.all.any (c.isRefused domain) = false := by
  refine List.any_eq_false.2 fun family hfamily => ?_
  have hnothing := List.all_eq_true.1 h family hfamily
  unfold asksNothing at hnothing
  split at hnothing
  · next hnone => simp [isRefused, hnone]
  · cases hnothing

theorem all_storable_iff (h : Request.familyUpdates c = .ok updates) {domain : String}
    (hsize : (ownerName "" domain).utf8ByteSize ≤ 4 * DomainName.maxWire) :
    Family.all.any (c.isRefused domain) = false
      ↔ ∀ family addresses, c.addresses? family = some addresses →
          AreStorable family domain addresses := by
  have hfamily (family : Family) : c.isRefused domain family = false
      ↔ ∀ addresses, c.addresses? family = some addresses →
          AreStorable family domain addresses := by
    obtain ⟨update?, hupdate⟩ := exists_update h family
    simp only [isRefused, addresses?_eq_some_iff, hupdate]
    rcases update? with _ | (_ | ⟨first, rest⟩) | network | _
    · exact iff_of_true rfl (by rintro _ ⟨⟩)
    · refine iff_of_true rfl ?_
      rintro _ ⟨⟩
      exact ⟨_, RecordSet.read_nil hsize⟩
    · dsimp only
      cases hread : RecordSet.read family.type "" (ownerName "" domain) (first :: rest) with
      | ok canonical =>
          refine iff_of_true rfl ?_
          rintro _ ⟨⟩
          exact ⟨canonical, hread⟩
      | error flaws =>
          refine iff_of_false Bool.noConfusion fun hall => ?_
          obtain ⟨canonical, hok⟩ := hall _ rfl
          cases hread.symm.trans hok
    · exact iff_of_true rfl (by rintro _ ⟨⟩)
    · exact iff_of_true rfl (by rintro _ ⟨⟩)
  rw [List.any_eq_false]
  constructor
  · intro hall family
    exact (hfamily family).1 (by simpa using hall family family.mem_all)
  · intro hall family _
    simpa using (hfamily family).2 (hall family)

end Families

theorem Sets.updates {zone' : Zone} (h : Sets settings c.addresses? zone zone') :
    c.Updates settings zone zone' := by
  refine ⟨h.domain, fun family => ?_, fun key hkey =>
    h.others key fun family heq => absurd heq (hkey family)⟩
  cases haddresses : c.addresses? family with
  | none =>
      refine leaves_of_none haddresses (h.others family.key fun other heq => ?_)
      rw [← Family.key_inj.1 heq, haddresses]
  | some addresses =>
      obtain ⟨canonical, hread, hcontent⟩ := h.addresses family addresses haddresses
      exact leaves_of_some haddresses hread hcontent (h.isKeyed family.key)

section Verdict

variable {principal : Principal} {before after : Option Zone}

theorem follows_of_unseen (h : ∀ zone ∈ before, principal.owns zone.domain = false) :
    c.Follows settings (some principal) before before .noHost := by
  refine ⟨?_, fun _ => rfl, by rintro ⟨⟩⟩
  have hnone : (before.map (·.domain)).filter principal.owns = none := by
    cases before with
    | none => rfl
    | some zone =>
        refine Option.filter_eq_none_iff.2 ?_
        rintro _ ⟨⟩
        simpa using h zone rfl
  rw [verdict, hnone]

variable (howns : principal.owns zone.domain = true)
include howns

theorem verdict_of_owns : c.verdict (some principal) (some zone.domain)
    = if Family.all.any (c.isRefused zone.domain.name) then .dnsError
      else if Family.all.all c.asksNothing then .unchanged else .good := by
  rw [verdict, Option.filter_some, if_pos howns]

theorem follows_of_refused (h : Family.all.any (c.isRefused zone.domain.name) = true) :
    c.Follows settings (some principal) (some zone) (some zone) .dnsError := by
  refine ⟨?_, fun _ => rfl, by rintro ⟨⟩⟩
  rw [Option.map_some, verdict_of_owns howns, if_pos h]

theorem follows_of_nothing (hnone : Family.all.any (c.isRefused zone.domain.name) = false)
    (h : Family.all.all c.asksNothing = true) :
    c.Follows settings (some principal) (some zone) (some zone) .unchanged := by
  refine ⟨?_, fun _ => rfl, by rintro ⟨⟩⟩
  rw [Option.map_some, verdict_of_owns howns, if_neg (by simp [hnone]), if_pos h]

theorem follows_of_updates {zone' : Zone}
    (hnone : Family.all.any (c.isRefused zone.domain.name) = false)
    (hsome : Family.all.all c.asksNothing ≠ true) (h : c.Updates settings zone zone') :
    c.Follows settings (some principal) (some zone) (some zone') .good := by
  refine ⟨?_, fun hnot => absurd rfl hnot, fun _ => ⟨zone, zone', rfl, rfl, h⟩⟩
  rw [Option.map_some, verdict_of_owns howns, if_neg (by simp [hnone]), if_neg hsome]

end Verdict

section Program

open Engine

variable {c : CheckIn} {settings : EngineSettings} {zones : Zones} {principal : Principal}
  {name : String} {past : Past} {zone : Zone}

theorem undisturbed_applyFor (hsettings : settings.validate = .ok ()) (hplain : c.IsPlain)
    {updates : List (Family × AddressUpdate)} (hupdates : Request.familyUpdates c = .ok updates)
    (hne : updates ≠ []) (hpast : past.zone = some zone)
    (hholds : (Watch.alone (fun _ _ => False) (normalizeDomain name)).Holds past)
    (howns : principal.owns zone.domain = true) (hnone : ¬ zone.HasSet .apexAlias)
    (hsize : (ownerName "" zone.domain.name).utf8ByteSize ≤ 4 * DomainName.maxWire) :
    Undisturbed (.alone (fun _ _ => False) (normalizeDomain name))
      (Request.applyFor settings principal name ⟨.update,
        .derived "" fun apex => .ok (Request.checkInBatch settings.checkIn updates apex),
        some settings.checkIn.minimumTtl⟩).run past fun r later =>
      c.Follows settings.checkIn (some principal) (some zone) later.zone
        (statusOf (r.map fun _ => .good)) := by
  have hstorable := all_storable_iff hupdates hsize
  refine (undisturbed_setting hsettings hpast hholds howns hnone
    (checkInBatch_eq hplain hupdates _)).mono ?_
  intro r final hsettled
  generalize final.zone = left at hsettled ⊢
  cases hsettled with
  | refused hnot =>
      exact follows_of_refused howns (by simpa using fun hfine => hnot (hstorable.1 hfine))
  | stored hall hsets =>
      refine follows_of_updates howns (hstorable.2 hall) ?_ hsets.updates
      rwa [Ne, ← updates_eq_nil_iff hupdates]

theorem undisturbed_mergeCheckIn (hsettings : settings.validate = .ok ()) (hzones : zones.IsSettled)
    (hplain : c.IsPlain) :
    Undisturbed (.alone (fun _ _ => False) (normalizeDomain name))
      (Request.mergeCheckIn settings principal name c).run
      ⟨zones.zone? (normalizeDomain name), []⟩ fun r later =>
      c.Follows settings.checkIn (some principal) (zones.zone? (normalizeDomain name)) later.zone
        (statusOf r) := by
  refine Request.undisturbed_visibleDomain rfl (Request.holds_alone hzones.isProper _ _) ?_ ?_
  · rintro e later - hsame (⟨_, ⟨⟩⟩ | ⟨rfl, hforeign⟩)
    rw [hsame]
    exact follows_of_unseen hforeign
  · intro zone later hlater hzone hsame howns
    have hzone : zones.zone? (normalizeDomain name) = some zone := hzone
    have hsize : (ownerName "" zone.domain.name).utf8ByteSize ≤ 4 * DomainName.maxWire := by
      rw [hzones.isProper.isNamed _ _ hzone]
      exact (hzones.isRegistrable _ (by rw [hzone]; rfl)).utf8ByteSize_le
    rw [hzone]
    split
    · next flaw hflaw =>
        change c.Follows settings.checkIn (some principal) (some zone) later.zone .dnsError
        rw [hsame]
        exact follows_of_refused howns (any_isRefused_of_error hflaw _)
    · next hnil =>
        have hnothing := (updates_eq_nil_iff hnil).1 rfl
        change c.Follows settings.checkIn (some principal) (some zone) later.zone .unchanged
        rw [hsame]
        exact follows_of_nothing howns (any_isRefused_of_nothing hnothing _) hnothing
    · next updates hne hupdates =>
        refine (undisturbed_applyFor hsettings hplain hupdates hne hsame hlater howns
          (hzones.noAlias _ _ hzone) hsize).engine_bind ?_ ?_
        · exact fun e final hfollows => hfollows
        · exact fun o final hfollows => hfollows

theorem undisturbed_run (hsettings : settings.validate = .ok ()) (hzones : zones.IsSettled)
    (hplain : c.IsPlain) :
    Undisturbed (.alone (fun _ _ => False) (normalizeDomain name))
      (Request.run settings (.checkIn (some principal) name c)).run
      ⟨zones.zone? (normalizeDomain name), []⟩ fun result later =>
      ∃ status, result = .ok (.status status) ∧ c.Follows settings.checkIn (some principal)
        (zones.zone? (normalizeDomain name)) later.zone status :=
  undisturbed_run_of_merge (Q := fun status later => c.Follows settings.checkIn (some principal)
    (zones.zone? (normalizeDomain name)) later.zone status)
    (undisturbed_mergeCheckIn hsettings hzones hplain)

end Program

end CheckIn

theorem Traffic.check_ins_follow_table {settings : EngineSettings}
    (hsettings : settings.validate = .ok ()) {mayFail : StoreCall → Bool} {events : List Event}
    {s : Traffic} (h : (start settings mayFail .empty []).runInTurn events = some s) {calm : Fate}
    (hcalm : calm.FailsAs fun _ _ => False) (principal : Option Principal) (name : String)
    {c : CheckIn} (hplain : c.IsPlain) :
    ∃ status, calm.reply settings s.zones (.checkIn principal name c) = .ok (.status status)
      ∧ c.Follows settings.checkIn principal (s.zones.zone? (normalizeDomain name))
          ((calm.leaves settings s.zones (.checkIn principal name c)).zone? (normalizeDomain name))
          status
      ∧ ∀ other, other ≠ normalizeDomain name →
          (calm.leaves settings s.zones (.checkIn principal name c)).zone? other
            = s.zones.zone? other := by
  cases principal with
  | none => exact ⟨.badAuth, rfl, ⟨rfl, fun _ => rfl, by rintro ⟨⟩⟩, fun _ _ => rfl⟩
  | some principal =>
      obtain ⟨⟨status, hreply, hfollows⟩, helse⟩ := (CheckIn.undisturbed_run hsettings
        (isSettled_of_runInTurn h) hplain).run hcalm (by rintro _ ⟨⟩)
      exact ⟨status, hreply, hfollows, helse⟩

namespace Traffic

namespace Example

def checkIn : CheckIn := ⟨none, some "192.0.2.1", some ""⟩

theorem isPlain_checkIn : checkIn.IsPlain := by
  have hv4 : checkIn.updateFor .v4 = .ok (some (.set ["192.0.2.1"])) := by decide +kernel
  have hv6 : checkIn.updateFor .v6 = .ok (some (.set [])) := by decide +kernel
  rintro (_ | _) network
  · rw [hv4]
    rintro ⟨⟩
  · rw [hv6]
    rintro ⟨⟩

end Example

theorem check_in_sets_address : ∃ s zone r,
    (start .default (fun _ => false) .empty []).runInTurn
        (.arrive (Example.create "alice") :: Example.events 0 Example.creating) = some s
      ∧ (ZoneKeeper.Example.calm.leaves .default s.zones
          (.checkIn (some ⟨"alice"⟩) "example.com" Example.checkIn)).zone? "example.com" = some zone
      ∧ zone.rrsets.get? ⟨"", "A"⟩ = some r ∧ r.ttl = 60 ∧ zone.rrsets.get? ⟨"", "AAAA"⟩ = none := by
  have hends : ((start .default (fun _ => false) .empty []).runInTurn
      (.arrive (Example.create "alice") :: Example.events 0 Example.creating)).any
        (fun s => Example.checkIn.verdict (some ⟨"alice"⟩)
          ((s.zones.zone? "example.com").map (·.domain)) == .good) = true := by
    decide +kernel
  have hname : normalizeDomain "example.com" = "example.com" := by decide +kernel
  have hv4 : Example.checkIn.updateFor .v4 = .ok (some (.set ["192.0.2.1"])) := by decide +kernel
  have hv6 : Example.checkIn.updateFor .v6 = .ok (some (.set [])) := by decide +kernel
  obtain ⟨s, hs, hgood⟩ := (Option.any_eq_true _ _).1 hends
  obtain ⟨status, -, hfollows, -⟩ := check_ins_follow_table rfl hs
    (ZoneKeeper.Example.calm_failsAs _) (some ⟨"alice"⟩) "example.com" Example.isPlain_checkIn
  rw [hname] at hfollows
  obtain ⟨zone, zone', -, hzone', hupdates⟩ :=
    hfollows.updates (hfollows.isVerdict.trans (beq_iff_eq.1 hgood))
  have haddress := hupdates.addresses .v4
  have hnone := hupdates.addresses .v6
  simp only [CheckIn.Leaves, hv4] at haddress
  simp only [CheckIn.Leaves, hv6] at hnone
  obtain ⟨r, hr, -, httl, -⟩ := haddress
  exact ⟨s, zone', r, hs, hzone', hr, httl, hnone⟩

end Traffic

end ZoneKeeper
