import ZoneKeeper.Proofs.Batch.Plan
import ZoneKeeper.Settings.Basic

namespace ZoneKeeper

structure Domain.Admits (domain : Domain) (settings : EngineSettings) (key : Key) (ttl : Nat)
    (records : SortedSet String) : Prop where
  isNonempty : records.isEmpty = false
  isManageable : key.type ∈ RecordType.manageable
  hasSubname : Subname.check key.subname domain.name = .ok ()
  atMost : ttl ≤ settings.maximumTtl
  atLeast : min domain.minimumTtl settings.checkIn.minimumTtl ≤ ttl
  isSingle : key.type = "CNAME" ∨ key.type = "DNAME" → records.size = 1
  isBelowApex : key.type = "CNAME" ∨ key.type = "DS" → key.subname ≠ ""
  isAtApex : key.type = "DNSKEY" → key.subname = ""

def Domain.AdmitsSet (domain : Domain) (settings : EngineSettings) (r : Rrset) : Prop :=
  domain.Admits settings r.key r.ttl r.records

namespace RecordSet

variable {type subname name : String} {contents : List String} {canonical : SortedSet String}

theorem isEmpty_iff_of_read (h : read type subname name contents = .ok canonical) :
    canonical.isEmpty = true ↔ contents = [] := by
  constructor
  · intro hempty
    by_contra hne
    exact Bool.false_ne_true ((isEmpty_of_read h hne).symm.trans hempty)
  · rintro rfl
    rw [(of_read h).2.2]
    rfl

theorem size_of_read (h : read type subname name contents = .ok canonical)
    (hone : contents.length = 1) : canonical.size = 1 := by
  obtain ⟨-, heach, rfl⟩ := of_read h
  have hlength := length_readEach contents [] heach
  rw [hone] at hlength
  obtain ⟨record, hrecord⟩ := List.length_eq_one_iff.1 hlength
  rw [hrecord]
  rfl

theorem count_of_read (h : read type subname name contents = .ok canonical)
    (htype : type = "CNAME" ∨ type = "DNAME") : contents.length ≤ 1 := by
  have hshape := (of_read h).1
  have hsingle : isSingle type = true := by
    rcases htype with rfl | rfl <;> rfl
  by_contra hmany
  simp [shapeFlaws, hsingle, show 1 < contents.length by omega] at hshape

theorem subname_of_read (h : read type subname name contents = .ok canonical)
    (hne : contents ≠ []) :
    (type = "CNAME" ∨ type = "DS" → subname ≠ "") ∧ (type = "DNSKEY" → subname = "") := by
  have hshape := (of_read h).1
  have hcount := List.length_pos_iff.2 hne
  constructor
  · rintro htype rfl
    have hbarred : isBarredFromApex type = true := by
      rcases htype with rfl | rfl <;> rfl
    simp [shapeFlaws, hbarred, hcount] at hshape
  · rintro rfl
    simp only [shapeFlaws, List.append_eq_nil_iff, ite_eq_right_iff, Bool.and_eq_true,
      decide_eq_true_eq, reduceCtorEq, imp_false, not_and, and_imp] at hshape
    by_contra hsubname
    exact hshape.2 rfl (by simpa using hsubname) hcount

end RecordSet

theorem RecordType.mem_manageable_of_refusal {type : String} (h : refusal? type = none) :
    type ∈ manageable := by
  have hnormal : standing type = .normal := by
    unfold refusal? at h
    split at h
    · assumption
    · cases h
    · split at h <;> cases h
  unfold standing at hnormal
  split at hnormal
  · cases hnormal
  · split at hnormal
    · next hmem => exact List.contains_iff_mem.1 hmem
    · cases hnormal

namespace BatchItem

variable {ctx : ReviewContext} {item : BatchItem} {key : Key}

theorem refusal?_of_key (h : item.key? ctx.domain = some key) :
    RecordType.refusal? key.type = none := by
  unfold key? at h
  split at h
  · next type htype hnone _ =>
      obtain rfl := Option.some.inj h
      simp only [typeProblems, htype] at hnone
      split at hnone
      · cases hnone
      · split at hnone
        · cases hnone
        · assumption
  · cases h

theorem isManageable_of_key (h : item.key? ctx.domain = some key) :
    key.type ∈ RecordType.manageable :=
  RecordType.mem_manageable_of_refusal (refusal?_of_key h)

theorem check_of_key (h : item.key? ctx.domain = some key) :
    Subname.check key.subname ctx.domain = .ok () := by
  unfold key? at h
  split at h
  · next hnone =>
      obtain rfl := Option.some.inj h
      unfold subnameProblems at hnone
      split at hnone
      · assumption
      · cases hnone
  · cases h

theorem ttl_of_problems_nil {rules : FieldRules} (h : item.ttlProblems ctx rules = []) {ttl : Int}
    (httl : item.ttl = some ttl) : ctx.minimumTtl ≤ ttl.toNat ∧ ttl.toNat ≤ ctx.maximumTtl := by
  simp only [ttlProblems, httl] at h
  split at h
  · cases h
  · split at h
    · cases h
    · omega

theorem toNat_of_problems_nil {rules : FieldRules} (h : item.ttlProblems ctx rules = []) {ttl : Int}
    (httl : item.ttl = some ttl) : (ttl.toNat : Int) = ttl := by
  simp only [ttlProblems, httl] at h
  split at h
  · cases h
  · omega

theorem canonicalRecords_cases {rules : FieldRules} {records : Option (SortedSet String)}
    (h : item.canonicalRecords ctx.domain rules (some key) = .ok records) :
    (item.records = none ∧ records = none) ∨ ∃ contents canonical,
      item.records = some contents ∧ records = some canonical
        ∧ RecordSet.read key.type key.subname (ownerName key.subname ctx.domain) contents
          = .ok canonical := by
  unfold canonicalRecords at h
  split at h
  · next hnone =>
      split at h
      · cases h
      · exact Or.inl ⟨hnone, (Except.ok.inj h).symm⟩
  · next contents hgiven =>
      split at h
      · cases h
      · dsimp only at h
        split at h
        · next canonical hread =>
            exact Or.inr ⟨contents, canonical, hgiven, (Except.ok.inj h).symm, hread⟩
        · cases h

theorem read_of_given {rules : FieldRules} {records : Option (SortedSet String)}
    {contents : List String}
    (h : item.canonicalRecords ctx.domain rules (some key) = .ok records)
    (hgiven : item.records = some contents) :
    ∃ canonical, records = some canonical
      ∧ RecordSet.read key.type key.subname (ownerName key.subname ctx.domain) contents
        = .ok canonical := by
  rcases canonicalRecords_cases h with ⟨hnone, -⟩ | ⟨own, canonical, hown, rfl, hread⟩
  · cases hnone.symm.trans hgiven
  · obtain rfl := Option.some.inj (hown.symm.trans hgiven)
    exact ⟨canonical, rfl, hread⟩

theorem read_of_canonicalRecords {rules : FieldRules} {canonical : SortedSet String}
    (h : item.canonicalRecords ctx.domain rules (some key) = .ok (some canonical)) :
    ∃ contents, RecordSet.read key.type key.subname (ownerName key.subname ctx.domain) contents
      = .ok canonical := by
  rcases canonicalRecords_cases h with ⟨-, ⟨⟩⟩ | ⟨contents, _, -, ⟨⟩, hread⟩
  exact ⟨contents, hread⟩

end BatchItem

namespace Action

variable {stored : Option Rrset} {ttl : Option Nat} {records : Option (SortedSet String)}

theorem source_of_write {t : Nat} {rs : SortedSet String}
    (h : of? stored ttl records = some (.write t rs)) :
    (ttl = some t ∨ ttl = none ∧ ∃ r, stored = some r ∧ r.ttl = t)
      ∧ (records = some rs ∨ ∃ r, stored = some r ∧ r.records = rs) := by
  have hne := (of_write h).1
  simp only [of?] at h
  split at h
  · split at h <;> simp at h
  · split at h
    · cases h
    · next t' httl =>
        split at h
        · cases h
        · obtain ⟨rfl, hrecords⟩ : t' = t ∧ _ = rs := by simpa using h
          constructor
          · cases ttl with
            | some own => exact Or.inl (by simpa using httl)
            | none => exact Or.inr ⟨rfl, by simpa using httl⟩
          · cases records with
            | some own => exact Or.inl (congrArg some hrecords)
            | none =>
                right
                cases stored with
                | some r => exact ⟨r, rfl, hrecords⟩
                | none =>
                    rw [← hrecords] at hne
                    cases hne

end Action

namespace Review

variable {ctx : ReviewContext} {snapshot : Snapshot}

theorem ttlProblems_of_ready {item : BatchItem} {key : Key} {clearing : Bool} {action : Action}
    (h : ofItem ctx snapshot item = .ready key clearing action) :
    ∃ rules, item.ttlProblems ctx rules = [] := by
  refine ⟨ctx.operation.rules ((item.key? ctx.domain).bind snapshot.get?).isSome item, ?_⟩
  simp only [ofItem] at h
  split at h
  · cases h
  · next hnone =>
      exact (List.append_eq_nil_iff.1 (List.append_eq_nil_iff.1 hnone).1).2
  · cases h

end Review

namespace Plan

variable {ctx : ReviewContext} {batch : Batch} {snapshot : Snapshot} {plan : Plan}

theorem ttlProblems_of_mem (h : make ctx batch snapshot = .ok plan) {p : PlannedItem}
    (hp : p ∈ plan.items) {item : BatchItem} (hitem : batch.items[p.index]? = some (.ok item)) :
    ∃ rules, item.ttlProblems ctx rules = [] := by
  obtain ⟨⟨clearing, hstaged⟩, -⟩ := staged_of_mem h hp
  exact Review.ttlProblems_of_ready (Review.eq_own_of_staged hitem hstaged rfl).1.symm

theorem records_of_write (h : make ctx batch snapshot = .ok plan) {p : PlannedItem}
    (hp : p ∈ plan.items) {ttl : Nat} {records : SortedSet String}
    (hwrite : p.action = .write ttl records) :
    (∃ contents, contents ≠ [] ∧ RecordSet.read p.key.type p.key.subname
        (ownerName p.key.subname ctx.domain) contents = .ok records)
      ∨ ∃ r, snapshot.get? p.key = some r ∧ r.records = records := by
  obtain ⟨item, hitem, hpasses, -⟩ := exists_item h hp
  obtain ⟨given, hcanonical, haction⟩ := hpasses.hasAction
  rw [hwrite] at haction
  rcases (Action.source_of_write haction).2 with rfl | hstored
  · obtain ⟨contents, hread⟩ := BatchItem.read_of_canonicalRecords hcanonical
    refine Or.inl ⟨contents, ?_, hread⟩
    rintro rfl
    have hne := (Action.of_write haction).1
    rw [(RecordSet.of_read hread).2.2] at hne
    cases hne
  · exact Or.inr hstored

theorem admits_of_write {settings : EngineSettings} {domain : Domain}
    (h : make ctx batch snapshot = .ok plan) (hdomain : ctx.domain = domain.name)
    (hmaximum : ctx.maximumTtl = settings.maximumTtl)
    (hminimum : min domain.minimumTtl settings.checkIn.minimumTtl ≤ ctx.minimumTtl)
    (hstored : ∀ key r, snapshot.get? key = some r → r.key = key ∧ domain.AdmitsSet settings r)
    {p : PlannedItem} (hp : p ∈ plan.items) {ttl : Nat} {records : SortedSet String}
    (hwrite : p.action = .write ttl records) : domain.Admits settings p.key ttl records := by
  obtain ⟨item, hitem, hpasses, -⟩ := exists_item h hp
  obtain ⟨given, hcanonical, haction⟩ := hpasses.hasAction
  obtain ⟨rules, hproblems⟩ := ttlProblems_of_mem h hp hitem
  rw [hwrite] at haction
  have hne := (Action.of_write haction).1
  have httl := (Action.source_of_write haction).1
  have hfound (r : Rrset) (hr : snapshot.get? p.key = some r) :
      domain.Admits settings p.key r.ttl r.records := by
    obtain ⟨hkey, hadmits⟩ := hstored _ r hr
    rw [← hkey]
    exact hadmits
  have hbounds : ttl ≤ settings.maximumTtl
      ∧ min domain.minimumTtl settings.checkIn.minimumTtl ≤ ttl := by
    rcases httl with hown | ⟨-, r, hr, rfl⟩
    · obtain ⟨own, howns, rfl⟩ := Option.map_eq_some_iff.1 hown
      have := BatchItem.ttl_of_problems_nil hproblems howns
      omega
    · exact ⟨(hfound r hr).atMost, (hfound r hr).atLeast⟩
  have hshape : (p.key.type = "CNAME" ∨ p.key.type = "DNAME" → records.size = 1)
      ∧ (p.key.type = "CNAME" ∨ p.key.type = "DS" → p.key.subname ≠ "")
      ∧ (p.key.type = "DNSKEY" → p.key.subname = "") := by
    rcases records_of_write h hp hwrite with ⟨contents, hcontents, hread⟩ | ⟨r, hr, rfl⟩
    · refine ⟨fun htype => RecordSet.size_of_read hread ?_,
        RecordSet.subname_of_read hread hcontents⟩
      have := RecordSet.count_of_read hread htype
      have := List.length_pos_iff.2 hcontents
      omega
    · exact ⟨(hfound r hr).isSingle, (hfound r hr).isBelowApex, (hfound r hr).isAtApex⟩
  exact ⟨hne, BatchItem.isManageable_of_key hpasses.hasKey,
    hdomain ▸ BatchItem.check_of_key hpasses.hasKey, hbounds.1, hbounds.2, hshape.1, hshape.2.1,
    hshape.2.2⟩

end Plan

end ZoneKeeper
