import ZoneKeeper.Proofs.Engine.Application
import ZoneKeeper.Proofs.Traffic.Contents

namespace ZoneKeeper

namespace Family

def all : List Family := [.v4, .v6]

def key (family : Family) : Key := ⟨"", family.type⟩

theorem mem_all (family : Family) : family ∈ all := by cases family <;> decide

theorem key_ne_apexAlias (family : Family) : family.key ≠ .apexAlias := by
  cases family <;> decide

theorem key_inj {family other : Family} : family.key = other.key ↔ family = other := by
  cases family <;> cases other <;> decide

theorem eq_alias_of_excludes {family : Family} {type : String}
    (h : Review.excludes type family.type = true) : type = "CNAME" := by
  cases family <;> simpa [Review.excludes, Family.type] using h

end Family

namespace CheckIn

def IsPlain (c : CheckIn) : Prop :=
  ∀ family network, c.updateFor family ≠ .ok (some (.subnet network))

def addresses? (c : CheckIn) (family : Family) : Option (List String) :=
  match c.updateFor family with
  | .ok (some (.set addresses)) => some addresses
  | _ => none

def item (settings : CheckInSettings) (family : Family) (addresses : List String) : BatchItem :=
  ⟨some "", some family.type, some settings.ttl, some addresses⟩

def setting (settings : CheckInSettings) (wanted : Family → Option (List String)) : Batch :=
  .ofItems (Family.all.filterMap fun family => (wanted family).map (item settings family))

def batch (c : CheckIn) (settings : CheckInSettings) : Batch :=
  .ofItems (Family.all.filterMap fun family => (c.addresses? family).map (item settings family))

def AreStorable (family : Family) (domain : String) (addresses : List String) : Prop :=
  ∃ canonical, RecordSet.read family.type "" (ownerName "" domain) addresses = .ok canonical

variable {c : CheckIn} {settings : CheckInSettings} {family : Family} {addresses : List String}
  {wanted : Family → Option (List String)}

theorem addresses?_eq_some_iff :
    c.addresses? family = some addresses ↔ c.updateFor family = .ok (some (.set addresses)) := by
  unfold addresses?
  split
  · next set hset => simp [hset]
  · next hnot => simpa using hnot addresses

theorem mem_setting {shaped : Except ItemErrors BatchItem} :
    shaped ∈ (setting settings wanted).items ↔ ∃ family addresses, wanted family = some addresses
      ∧ shaped = .ok (item settings family addresses) := by
  simp only [setting, Batch.ofItems, List.mem_map, List.mem_filterMap, Option.map_eq_some_iff]
  constructor
  · rintro ⟨_, ⟨family, -, addresses, haddresses, rfl⟩, rfl⟩
    exact ⟨family, addresses, haddresses, rfl⟩
  · rintro ⟨family, addresses, haddresses, rfl⟩
    exact ⟨_, ⟨family, family.mem_all, addresses, haddresses, rfl⟩, rfl⟩

theorem pairwise_setting (settings : CheckInSettings) (wanted : Family → Option (List String)) :
    (setting settings wanted).items.Pairwise fun a b => Review.named? a ≠ Review.named? b := by
  rw [setting, Batch.ofItems, List.pairwise_map, List.pairwise_filterMap]
  refine List.Pairwise.imp (R := fun family other => family ≠ other) ?_ (by decide)
  intro family other hne a ha b hb hsame
  obtain ⟨addresses, -, rfl⟩ := Option.map_eq_some_iff.1 ha
  obtain ⟨others, -, rfl⟩ := Option.map_eq_some_iff.1 hb
  exact hne (Family.key_inj.1 (Option.some.inj hsame))

section Review

variable {ctx : ReviewContext} {snapshot : Snapshot} {zone : Zone}

theorem key?_item (settings : CheckInSettings) (family : Family) (addresses : List String)
    (domain : String) : (item settings family addresses).key? domain = some family.key := by
  have hsubname : (item settings family addresses).subnameProblems domain = [] := rfl
  have htype : (item settings family addresses).typeProblems = [] := by
    change BatchItem.typeProblems ⟨none, some family.type, none, none⟩ = []
    cases family <;> decide +kernel
  rw [BatchItem.key?, hsubname, htype]
  rfl

theorem canonicalRecords_item {rules : FieldRules} (hrules : rules.recordsNonempty = false) :
    (item settings family addresses).canonicalRecords ctx.domain rules (some family.key)
      = match RecordSet.read family.type "" (ownerName "" ctx.domain) addresses with
        | .ok canonical => .ok (some canonical)
        | .error flaws => .error (flaws.map (BatchItem.recordProblem family.type)) := by
  cases hread : RecordSet.read family.type "" (ownerName "" ctx.domain) addresses <;>
    simp only [BatchItem.canonicalRecords, item, hrules, Bool.and_false, Bool.false_eq_true,
      if_false, Family.key, hread]

theorem ttlProblems_item (hminimum : ctx.minimumTtl ≤ settings.ttl)
    (hmaximum : settings.ttl ≤ ctx.maximumTtl) (rules : FieldRules) :
    (item settings family addresses).ttlProblems ctx rules = [] := by
  simp only [BatchItem.ttlProblems, item]
  rw [if_neg (by omega), if_neg (by omega)]

theorem exists_ready (snapshot : Snapshot) (hupdate : ctx.operation = .update)
    (hminimum : ctx.minimumTtl ≤ settings.ttl) (hmaximum : settings.ttl ≤ ctx.maximumTtl)
    (h : AreStorable family ctx.domain addresses) :
    ∃ action, Review.own ctx snapshot (.ok (item settings family addresses))
      = .ready family.key (item settings family addresses).isClearing action := by
  obtain ⟨canonical, hread⟩ := h
  obtain ⟨action, haction⟩ :=
    Action.exists_of? (snapshot.get? family.key) settings.ttl canonical
  have hkey := key?_item settings family addresses ctx.domain
  obtain ⟨htype, hsubname⟩ := BatchItem.problems_of_key hkey
  refine ⟨action, ?_⟩
  have httl : (item settings family addresses).ttl.map Int.toNat = some settings.ttl := rfl
  have hrecords (isThere : Bool) : (item settings family addresses).canonicalRecords ctx.domain
      (Operation.update.rules isThere (item settings family addresses)) (some family.key)
      = .ok (some canonical) := by
    rw [canonicalRecords_item rfl, hread]
  simp only [Review.own, Review.ofItem, key?_item, Option.bind_some, hupdate, hrecords, htype,
    hsubname, ttlProblems_item hminimum hmaximum, List.append_nil, httl, haction]

theorem exists_make_iff (hupdate : ctx.operation = .update)
    (hminimum : ctx.minimumTtl ≤ settings.ttl) (hmaximum : settings.ttl ≤ ctx.maximumTtl)
    (hagrees : Review.Agrees (setting settings wanted) snapshot zone)
    (hnone : ¬ zone.HasSet .apexAlias) :
    (∃ plan, Plan.make ctx (setting settings wanted) snapshot = .ok plan)
      ↔ ∀ family addresses, wanted family = some addresses →
          AreStorable family ctx.domain addresses := by
  constructor
  · rintro ⟨plan, hmake⟩ family addresses haddresses
    obtain ⟨i, hi⟩ := List.mem_iff_getElem?.1 (mem_setting.2 ⟨family, addresses, haddresses, rfl⟩)
    obtain ⟨p, -, -, hpasses⟩ := Plan.exists_planned hmake hi
    obtain hkey := Option.some.inj ((key?_item ..).symm.trans hpasses.hasKey)
    obtain ⟨records, hrecords, -⟩ := hpasses.hasAction
    rw [← hkey, hupdate, canonicalRecords_item rfl] at hrecords
    split at hrecords
    · next canonical hread => exact ⟨canonical, hread⟩
    · cases hrecords
  · intro hall
    have hready : ∀ review ∈ Review.staged ctx snapshot (setting settings wanted).items,
        ∃ family clearing action, review = .ready (Family.key family) clearing action := by
      rw [Review.staged_eq_map (pairwise_setting settings wanted) (by rw [hupdate]; rintro ⟨⟩)]
      intro review hreview
      obtain ⟨_, hmem, rfl⟩ := List.mem_map.1 hreview
      obtain ⟨family, addresses, haddresses, rfl⟩ := mem_setting.1 hmem
      obtain ⟨action, hown⟩ := exists_ready snapshot hupdate hminimum hmaximum
        (hall family addresses haddresses)
      exact ⟨family, _, action, hown⟩
    have hpass : ∀ review ∈ Review.staged ctx snapshot (setting settings wanted).items,
        review.errors = [] := by
      intro review hreview
      obtain ⟨family, clearing, action, rfl⟩ := hready review hreview
      rfl
    rw [Plan.exists_make_iff, Review.ofItems_eq]
    intro last hlast
    obtain ⟨review, hreview, rfl⟩ := List.mem_map.1 hlast
    obtain ⟨family, clearing, action, rfl⟩ := hready review hreview
    by_cases hleaves : action.leaves = true
    · -- only an alias could be in the way, and there is none
      rw [Review.rivalFree_iff hpass hagrees hreview hleaves]
      intro type hexcludes hstays
      obtain rfl := Family.eq_alias_of_excludes hexcludes
      rcases hstays with ⟨other, hother, hkey, -⟩ | ⟨hstored, -⟩
      · obtain ⟨family', _, _, rfl⟩ := hready other hother
        exact family'.key_ne_apexAlias (Option.some.inj hkey)
      · exact hnone hstored
    · rw [Review.afterExclusion, if_neg hleaves]
      rfl

end Review

structure Sets (settings : CheckInSettings) (wanted : Family → Option (List String))
    (zone zone' : Zone) : Prop where
  domain : zone'.domain = zone.domain
  isKeyed : zone'.IsKeyed
  addresses : ∀ family addresses, wanted family = some addresses → ∃ canonical,
    RecordSet.read family.type "" (ownerName "" zone.domain.name) addresses = .ok canonical
      ∧ (zone'.rrsets.get? family.key).map Rrset.content
        = if canonical.isEmpty then none else some (settings.ttl, canonical)
  others : ∀ key, (∀ family, key = Family.key family → wanted family = none) →
    zone'.rrsets.get? key = zone.rrsets.get? key

section Plan

variable {ctx : ReviewContext} {snapshot : Snapshot} {plan : Plan} {done : List DoneStep}
  {zone : Zone} (hmake : Plan.make ctx (setting settings wanted) snapshot = .ok plan)
include hmake

theorem exists_family {p : PlannedItem} (hp : p ∈ plan.items) :
    ∃ family addresses, wanted family = some addresses ∧ p.key = family.key := by
  obtain ⟨item, hitem, hpasses, -⟩ := Plan.exists_item hmake hp
  obtain ⟨family, addresses, haddresses, hsame⟩ := mem_setting.1 (List.mem_of_getElem? hitem)
  obtain rfl := Except.ok.inj hsame
  exact ⟨family, addresses, haddresses, Option.some.inj (hpasses.hasKey.symm.trans (key?_item ..))⟩

theorem exists_target (haddresses : wanted family = some addresses)
    (hupdate : ctx.operation = .update) :
    ∃ p ∈ plan.items, p.key = family.key ∧ ∃ canonical,
      RecordSet.read family.type "" (ownerName "" ctx.domain) addresses = .ok canonical
        ∧ p.target = if canonical.isEmpty then none else some (settings.ttl, canonical) := by
  obtain ⟨i, hi⟩ := List.mem_iff_getElem?.1 (mem_setting.2 ⟨family, addresses, haddresses, rfl⟩)
  obtain ⟨p, hp, -, hpasses⟩ := Plan.exists_planned hmake hi
  have hkey := Option.some.inj (hpasses.hasKey.symm.trans (key?_item ..))
  obtain ⟨records, hrecords, haction⟩ := hpasses.hasAction
  refine ⟨p, hp, hkey, ?_⟩
  rw [hkey, hupdate, canonicalRecords_item rfl] at hrecords
  split at hrecords
  · next canonical hread =>
      obtain rfl := Except.ok.inj hrecords
      refine ⟨canonical, hread, ?_⟩
      have hmap := Action.map_target (snapshot.get? p.key)
        ((item settings family addresses).ttl.map Int.toNat) (some canonical)
      rw [haction, Option.map_some, ← Plan.previous_eq hmake hp] at hmap
      have htarget : some p.target = _ := hmap
      simp only [Action.asked?, Option.getD_some] at htarget
      split at htarget
      · next hempty => rw [if_pos hempty, Option.some.inj htarget]
      · next hfull =>
          rw [if_neg hfull]
          exact Option.some.inj htarget
  · cases hrecords

theorem sets_after (hdomain : ctx.domain = zone.domain.name) (hupdate : ctx.operation = .update)
    (hagrees : Review.Agrees (setting settings wanted) snapshot zone) (hkeyed : zone.IsKeyed)
    (hsteps : done.map (·.item) = plan.steps) (hfor : ∀ d ∈ done, d.IsFor zone) :
    Sets settings wanted zone (zone.after done.reverse) := by
  refine ⟨Zone.domain_after .., hkeyed.after fun d hd => hfor d (List.mem_reverse.1 hd),
    fun family addresses haddresses => ?_, fun key hkey => ?_⟩
  · obtain ⟨p, hp, hkey, canonical, hread, htarget⟩ := exists_target hmake haddresses hupdate
    have hcontent := Plan.content_after hmake hagrees hsteps hfor hp
    rw [hkey, htarget] at hcontent
    exact ⟨canonical, hdomain ▸ hread, hcontent⟩
  · refine Plan.get?_after_of_ne hsteps fun p hp heq => ?_
    obtain ⟨family, addresses, haddresses, hfamily⟩ := exists_family hmake hp
    cases haddresses.symm.trans (hkey family (heq.symm.trans hfamily))

end Plan

end CheckIn

end ZoneKeeper
