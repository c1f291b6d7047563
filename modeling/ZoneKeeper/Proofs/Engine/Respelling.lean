import ZoneKeeper.Proofs.Engine.Renewal
import ZoneKeeper.Proofs.Record.Spelling

namespace ZoneKeeper

namespace Action

variable {stored : Option Rrset} {ttl : Option Nat} {records canonical : SortedSet String}
  {action : Action}

theorem eq_of_write {t : Nat} {written : SortedSet String}
    (h : of? stored ttl (some records) = some (.write t written)) : written = records := by
  simp only [of?, Option.getD_some] at h
  split at h
  · split at h <;> cases h
  · split at h
    · cases h
    · split at h
      · cases h
      · cases h
        rfl

theorem of_stored {r : Rrset} (hne : r.records.isEmpty = false) :
    of? (some r) (some r.ttl) (some r.records) = some .keep := by
  simp only [of?, Option.getD_some, hne, Bool.false_eq_true, if_false, Option.orElse_some,
    Option.any_some, beq_self_eq_true, (SortedMap.beq_iff_eq).2, Bool.and_self, if_true]

theorem eq_keep_iff {r : Rrset} (hne : canonical.isEmpty = false)
    (h : of? (some r) (some r.ttl) (some canonical) = some action) :
    action = .keep ↔ r.records = canonical := by
  simp only [of?, Option.getD_some, hne, Option.orElse_some, Option.any_some, Bool.false_eq_true,
    if_false] at h
  split at h
  · next hsame =>
      obtain rfl := Option.some.inj h
      simpa [SortedMap.beq_iff_eq] using hsame
  · next hdiffers =>
      obtain rfl := Option.some.inj h
      simpa [SortedMap.beq_iff_eq] using hdiffers

end Action

namespace BatchItem

variable {item : BatchItem}

theorem key?_congr {other : BatchItem} {domain : String}
    (h : Review.named? (.ok item) = Review.named? (.ok other)) :
    item.key? domain = other.key? domain := by
  cases htype : item.type with
  | none =>
      cases htype' : other.type with
      | none => simp only [key?, htype, htype']
      | some type => simp [Review.named?, htype, htype'] at h
  | some type =>
      cases htype' : other.type with
      | none => simp [Review.named?, htype, htype'] at h
      | some type' =>
          obtain ⟨howner, rfl⟩ : item.owner = other.owner ∧ type = type' := by
            simpa [Review.named?, htype, htype'] using h
          simp only [key?, typeProblems, subnameProblems, htype, htype', howner]

end BatchItem

/-- A record set as an accepted batch has written it, with the contents that its records were given
as: by that batch or, if it left them out, by an earlier one. -/
inductive Rrset.IsWritten (domain : String) (contents : List String) : Rrset → Prop where
  | given {ctx : ReviewContext} {batch : Batch} {snapshot : Snapshot} {plan : Plan}
      {p : PlannedItem} {item : BatchItem} {r : Rrset} (hdomain : ctx.domain = domain)
      (hmake : Plan.make ctx batch snapshot = .ok plan) (hp : p ∈ plan.items)
      (hitem : batch.items[p.index]? = some (.ok item)) (hgiven : item.records = some contents)
      (hkey : r.key = p.key) (haction : p.action = .write r.ttl r.records) :
      IsWritten domain contents r
  | kept {ctx : ReviewContext} {batch : Batch} {snapshot : Snapshot} {plan : Plan}
      {p : PlannedItem} {item : BatchItem} {r earlier : Rrset} (hdomain : ctx.domain = domain)
      (hmake : Plan.make ctx batch snapshot = .ok plan) (hp : p ∈ plan.items)
      (hitem : batch.items[p.index]? = some (.ok item)) (hgiven : item.records = none)
      (hkey : r.key = p.key) (haction : p.action = .write r.ttl r.records)
      (hstored : snapshot.get? p.key = some earlier) (hkeyed : earlier.key = p.key)
      (hearlier : IsWritten domain contents earlier) : IsWritten domain contents r

namespace Rrset.IsWritten

variable {domain : String} {contents : List String} {r : Rrset}

theorem origin (h : r.IsWritten domain contents) :
    (∃ item : BatchItem, item.key? domain = some r.key) ∧ r.records.isEmpty = false
      ∧ RecordSet.read r.type r.subname (ownerName r.subname domain) contents = .ok r.records := by
  induction h with
  | @given ctx batch snapshot plan p item r hdomain hmake hp hitem hgiven hkey haction =>
      obtain ⟨own, hown, hpasses, -⟩ := Plan.exists_item hmake hp
      obtain rfl := Except.ok.inj (Option.some.inj (hitem.symm.trans hown))
      obtain ⟨records, hrecords, hplanned⟩ := hpasses.hasAction
      obtain ⟨canonical, rfl, hread⟩ := BatchItem.read_of_given hrecords hgiven
      rw [haction] at hplanned
      have hpassed := hpasses.hasKey
      rw [hdomain, ← hkey] at hpassed hread
      refine ⟨⟨item, hpassed⟩, (Action.of_write hplanned).1, ?_⟩
      rw [Action.eq_of_write hplanned]
      exact hread
  | @kept ctx batch snapshot plan p item r earlier hdomain hmake hp hitem hgiven hkey haction
      hstored hkeyed _ ih =>
      obtain ⟨hitem', hne, hread⟩ := ih
      have hsame : r.key = earlier.key := hkey.trans hkeyed.symm
      obtain ⟨hsubname, htype⟩ := Key.mk.inj hsame
      have hrecords : r.records = earlier.records := by
        obtain ⟨own, hown, hpasses, -⟩ := Plan.exists_item hmake hp
        obtain rfl := Except.ok.inj (Option.some.inj (hitem.symm.trans hown))
        obtain ⟨records, hcanonical, hplanned⟩ := hpasses.hasAction
        have hnone : records = none := by
          rcases BatchItem.canonicalRecords_cases hcanonical with ⟨-, rfl⟩ | ⟨_, _, hown, -⟩
          · rfl
          · cases hown.symm.trans hgiven
        rw [haction, hstored, hnone] at hplanned
        rcases (Action.source_of_write hplanned).2 with hnew | ⟨stored, hfound, hkept⟩
        · cases hnew
        · rw [← hkept, Option.some.inj hfound]
      rw [hsame, hsubname, htype, hrecords]
      exact ⟨hitem', hne, hread⟩

end Rrset.IsWritten

def Plan.Spares (plan : Plan) (domain : String) (key : Key) : Prop :=
  ∀ before after : Share, ∀ zone : Zone, before.zone = some zone → zone.IsKeyed →
    plan.IsCarriedOut domain before after →
      (∃ zone', after.zone = some zone' ∧ zone'.rrsets.get? key = zone.rrsets.get? key)
        ∧ ∃ new, after.feed = before.feed ++ new
          ∧ ∀ announced ∈ new, ∀ change ∈ announced.changes, change.key ≠ key

namespace Plan

variable {ctx : ReviewContext} {batch : Batch} {snapshot : Snapshot} {plan : Plan}

theorem spares_of_keep (hmake : make ctx batch snapshot = .ok plan) {p : PlannedItem}
    (hp : p ∈ plan.items) (hkeep : p.action = .keep) (domain : String) :
    plan.Spares domain p.key := by
  intro before after zone hzone hkeyed ⟨found, done, hfound, hsteps, hfor, hafter, hnone, hsome⟩
  obtain rfl := Option.some.inj (hzone.symm.trans hfound)
  have hother : ∀ d ∈ done, d.item.key ≠ p.key := by
    intro d hd heq
    obtain ⟨hmem, hkind⟩ := mem_steps (hsteps ▸ List.mem_map_of_mem hd)
    obtain rfl := List.inj_on_of_nodup_map (nodup_keys hmake) hmem hp heq
    rw [hkeep] at hkind
    rcases hkind with h | h <;> cases h
  refine ⟨⟨_, hafter, Zone.get?_after_of_ne fun d hd => hother d (List.mem_reverse.1 hd)⟩, ?_⟩
  by_cases hdone : done = []
  · exact ⟨[], by rw [hnone hdone, List.append_nil], List.forall_mem_nil _⟩
  · obtain ⟨time, hfeed⟩ := hsome hdone
    refine ⟨_, hfeed, List.forall_mem_singleton.2 fun change hchange => ?_⟩
    obtain ⟨d, hd, rfl⟩ := List.mem_map.1 hchange
    rw [DoneStep.change, KeyChange.key_ofLeft ((hfor d hd).key_of_mem_left hkeyed)]
    exact hother d hd

end Plan

structure BatchItem.Respells (item : BatchItem) (r : Rrset) (contents : List String)
    (given : List String) : Prop where
  named : Review.named? (.ok item) = some r.key
  ttl : item.ttl = some (r.ttl : Int)
  records : item.records = some given
  same : RecordSet.SameWires r.type contents given

namespace BatchItem.Respells

variable {ctx : ReviewContext} {snapshot : Snapshot} {item : BatchItem} {r : Rrset}
  {contents given : List String}

theorem key?_eq (h : item.Respells r contents given)
    (hkey : ∃ other : BatchItem, other.key? ctx.domain = some r.key) :
    item.key? ctx.domain = some r.key := by
  obtain ⟨other, hother⟩ := hkey
  rw [← hother]
  exact key?_congr (h.named.trans (named_of_key hother).symm)

theorem ne_nil (h : item.Respells r contents given) (hwritten : r.IsWritten ctx.domain contents) :
    given ≠ [] := by
  rintro rfl
  obtain ⟨-, hne, hread⟩ := hwritten.origin
  obtain ⟨records, hreads, hrecords, -⟩ := RecordSet.reads_of_read hread
  cases records with
  | nil =>
      rw [hrecords] at hne
      cases hne
  | cons record rest =>
      have hwire : record.wire ∈ RecordSet.wires r.type contents := by
        rw [hreads.wires_eq]
        exact List.mem_cons_self
      cases (h.same record.wire).1 hwire

theorem eq_keep_iff (h : item.Respells r contents given)
    (hwritten : r.IsWritten ctx.domain contents) {action : Action} {rules : FieldRules}
    {records : Option (SortedSet String)}
    (hrecords : item.canonicalRecords ctx.domain rules (some r.key) = .ok records)
    (haction : Action.of? (some r) (item.ttl.map Int.toNat) records = some action) :
    action = .keep ↔ RecordSet.CutAlike r.type contents given := by
  obtain ⟨-, -, hread⟩ := hwritten.origin
  obtain ⟨canonical, rfl, hread'⟩ := read_of_given hrecords h.records
  have hne := RecordSet.isEmpty_of_read hread' (h.ne_nil hwritten)
  rw [h.ttl, Option.map_some, Int.toNat_natCast] at haction
  rw [Action.eq_keep_iff hne haction]
  obtain ⟨own, hreads, hown, hdiffer⟩ := RecordSet.reads_of_read hread
  obtain ⟨others, hreads', rfl, -⟩ := RecordSet.reads_of_read hread'
  rw [hown]
  exact RecordSet.ofList_eq_iff_cutAlike hreads hreads' hdiffer h.same

theorem ofItem_eq (h : item.Respells r contents given) (hwritten : r.IsWritten ctx.domain contents)
    (hstored : snapshot.get? r.key = some r) (hminimum : ctx.minimumTtl ≤ r.ttl)
    (hmaximum : r.ttl ≤ ctx.maximumTtl)
    (hflaws : (RecordSet.readEach r.type (ownerName r.subname ctx.domain) [] given).1 = [])
    (hcut : RecordSet.CutAlike r.type contents given) :
    Review.ofItem ctx snapshot item = .ready r.key false .keep := by
  obtain ⟨hkey, hne, hread⟩ := hwritten.origin
  have hgiven := h.ne_nil hwritten
  refine Review.ofItem_eq_ready_iff.2 ⟨h.key?_eq hkey, ?_, ?_, some r.records, ?_, ?_⟩
  · rw [isClearing, h.records, Option.any_some, List.isEmpty_eq_false_iff.2 hgiven]
  · simp only [ttlProblems, h.ttl]
    rw [if_neg (by omega), if_neg (by omega)]
  · obtain ⟨records, hreads, -, hdiffer⟩ := RecordSet.reads_of_readEach .nil hflaws
    have hread' : RecordSet.read r.key.type r.key.subname (ownerName r.key.subname ctx.domain) given
        = .ok r.records := RecordSet.read_respelled hread hreads hdiffer h.same hcut
    simp only [canonicalRecords, h.records, hread', List.isEmpty_eq_false_iff.2 hgiven,
      Bool.false_and, Bool.false_eq_true, if_false]
  · rw [hstored, h.ttl, Option.map_some, Int.toNat_natCast]
    exact Action.of_stored hne

end BatchItem.Respells

/-- A stored set that is given once more by an item of an accepted batch is kept, with nothing
written or announced, just when its strings are cut alike. Only texts with strings of more than 255
octets can be cut in several ways, and the item itself is no reason to refuse the batch. -/
theorem respelled_is_kept_iff {ctx : ReviewContext} {snapshot : Snapshot} {item : BatchItem}
    {r : Rrset} {contents given : List String} (h : item.Respells r contents given)
    (hwritten : r.IsWritten ctx.domain contents) (hstored : snapshot.get? r.key = some r) :
    (∀ batch plan, Plan.make ctx batch snapshot = .ok plan →
        ∀ i, batch.items[i]? = some (.ok item) →
          ∃ p ∈ plan.items, p.index = i ∧ p.key = r.key
            ∧ (p.action = .keep ↔ RecordSet.CutAlike r.type contents given)
            ∧ (p.action = .keep → plan.Spares ctx.domain r.key))
      ∧ ((r.type ≠ "TXT" ∧ r.type ≠ "SPF") ∨ (∀ content ∈ contents ++ given, ∀ d,
          RecordData.read r.type (octets content) = .ok d → d.hasShortStrings = true) →
        RecordSet.CutAlike r.type contents given)
      ∧ (RecordSet.CutAlike r.type contents given →
        (RecordSet.readEach r.type (ownerName r.subname ctx.domain) [] given).1 = [] →
        ctx.minimumTtl ≤ r.ttl → r.ttl ≤ ctx.maximumTtl →
        Review.ofItem ctx snapshot item = .ready r.key false .keep) := by
  refine ⟨fun batch plan hmake i hitem => ?_, fun hshort => ?_, fun hcut hflaws hmin hmax => ?_⟩
  · obtain ⟨p, hp, hi, hpasses⟩ := Plan.exists_planned hmake hitem
    have hkey : p.key = r.key := Option.some.inj
      (hpasses.hasKey.symm.trans (h.key?_eq hwritten.origin.1))
    obtain ⟨records, hrecords, haction⟩ := hpasses.hasAction
    rw [hkey] at hrecords haction
    rw [hstored] at haction
    exact ⟨p, hp, hi, hkey, h.eq_keep_iff hwritten hrecords haction,
      fun hkeep => hkey ▸ Plan.spares_of_keep hmake hp hkeep ctx.domain⟩
  · obtain ⟨records, hreads, -⟩ := RecordSet.reads_of_read hwritten.origin.2.2
    exact hreads.cutAlike hshort
  · exact h.ofItem_eq hwritten hstored hmin hmax hflaws hcut

namespace Example

def rewriting : ReviewContext := ⟨"example.com", .replace, 3600, 86400⟩

def giving (type : String) (contents : List String) : BatchItem :=
  ⟨some "www", some type, some 3600, some contents⟩

def presented (type : String) (presentations : List String) : Rrset :=
  ⟨"www", type, 3600, .ofList presentations, ⟨0, 0⟩, ⟨0, 0⟩⟩

def storing (r : Rrset) : Snapshot := SortedMap.empty.insert r.key r

def rewritten (type : String) (contents : List String) (snapshot : Snapshot) :
    Except BatchErrors Plan :=
  Plan.make rewriting (.ofItem (giving type contents)) snapshot

def isWriteOf (r : Rrset) : Action → Bool
  | .write ttl records => r.ttl == ttl && r.records == records
  | _ => false

def asks (plan : Except BatchErrors Plan) (wanted : Action → Bool) : Bool :=
  plan.toOption.any fun plan => plan.items.any fun p => wanted p.action

theorem exists_of_asks {plan : Except BatchErrors Plan} {wanted : Action → Bool}
    (h : asks plan wanted = true) :
    ∃ made, plan = .ok made ∧ ∃ p ∈ made.items, wanted p.action = true := by
  cases plan with
  | error errors => cases h
  | ok made => exact ⟨made, rfl, List.any_eq_true.1 h⟩

theorem item_of_rewritten {type : String} {contents : List String} {snapshot : Snapshot}
    {plan : Plan} (h : rewritten type contents snapshot = .ok plan) {p : PlannedItem}
    (hp : p ∈ plan.items) : (Batch.ofItem (giving type contents)).items[p.index]?
        = some (.ok (giving type contents)) ∧ p.key = ⟨"www", type⟩ := by
  obtain ⟨item, hitem, hpasses, -⟩ := Plan.exists_item h hp
  obtain rfl : giving type contents = item :=
    Except.ok.inj (List.mem_singleton.1 (List.mem_of_getElem? hitem)).symm
  exact ⟨hitem, Option.some.inj (BatchItem.named_of_key hpasses.hasKey).symm⟩

theorem isWritten_presented {type : String} {contents presentations : List String}
    (h : asks (rewritten type contents SortedMap.empty)
      (isWriteOf (presented type presentations)) = true) :
    (presented type presentations).IsWritten "example.com" contents := by
  obtain ⟨plan, hmake, p, hp, hwrites⟩ := exists_of_asks h
  obtain ⟨hitem, hkey⟩ := item_of_rewritten hmake hp
  refine .given rfl hmake hp hitem rfl hkey.symm ?_
  cases haction : p.action with
  | write ttl records =>
      rw [haction, isWriteOf, Bool.and_eq_true, beq_iff_eq, SortedMap.beq_iff_eq] at hwrites
      rw [hwrites.1, hwrites.2]
  | delete | keep | nothing =>
      rw [haction] at hwrites
      cases hwrites

theorem respells_presented {type : String} {contents given presentations : List String}
    (h : RecordSet.wires type contents = RecordSet.wires type given) :
    (giving type given).Respells (presented type presentations) contents given :=
  ⟨rfl, rfl, rfl, fun w => by rw [show (presented type presentations).type = type from rfl, h]⟩

def letters (n : Nat) : String := String.ofList ('"' :: List.replicate n 'x' ++ ['"'])

theorem get?_storing (r : Rrset) : (storing r).get? r.key = some r := by
  rw [storing, SortedMap.get?_insert, if_pos rfl]

end Example

theorem spelled_exchange_is_kept : ∃ plan, ∃ p ∈ plan.items,
    (Example.presented "MX" ["10 mail.example.com."]).IsWritten "example.com"
        ["10 Mail.Example.COM."]
      ∧ Example.rewritten "MX" ["010 mail.example.com."]
          (Example.storing (Example.presented "MX" ["10 mail.example.com."])) = .ok plan
      ∧ p.action = .keep ∧ plan.Spares "example.com" ⟨"www", "MX"⟩ := by
  have hwritten : (Example.presented "MX" ["10 mail.example.com."]).IsWritten
      Example.rewriting.domain ["10 Mail.Example.COM."] :=
    Example.isWritten_presented (by decide +kernel)
  have hrespells : (Example.giving "MX" ["010 mail.example.com."]).Respells
      (Example.presented "MX" ["10 mail.example.com."]) ["10 Mail.Example.COM."]
      ["010 mail.example.com."] :=
    Example.respells_presented (by decide +kernel)
  have haccepted : Example.asks (Example.rewritten "MX" ["010 mail.example.com."]
      (Example.storing (Example.presented "MX" ["10 mail.example.com."]))) (fun _ => true)
        = true := by
    decide +kernel
  obtain ⟨plan, hmake, -⟩ := Example.exists_of_asks haccepted
  obtain ⟨hplanned, hcut, -⟩ :=
    respelled_is_kept_iff hrespells hwritten (Example.get?_storing _)
  obtain ⟨p, hp, -, -, hkeep, hspares⟩ := hplanned _ plan hmake 0 rfl
  have hkept := hkeep.2 (hcut (Or.inl (by decide)))
  exact ⟨plan, p, hp, hwritten, hmake, hkept, hspares hkept⟩

theorem cut_string_is_rewritten : ∃ plan, ∃ p ∈ plan.items,
    (Example.presented "TXT" [Example.letters 256]).IsWritten "example.com" [Example.letters 256]
      ∧ RecordSet.SameWires "TXT" [Example.letters 256]
          [Example.letters 255 ++ " " ++ Example.letters 1]
      ∧ Example.rewritten "TXT" [Example.letters 255 ++ " " ++ Example.letters 1]
          (Example.storing (Example.presented "TXT" [Example.letters 256])) = .ok plan
      ∧ p.key = ⟨"www", "TXT"⟩ ∧ p.action.isWrite = true := by
  have hsame : RecordSet.wires "TXT" [Example.letters 256]
      = RecordSet.wires "TXT" [Example.letters 255 ++ " " ++ Example.letters 1] := by
    decide +kernel
  have hplanned : Example.asks (Example.rewritten "TXT"
      [Example.letters 255 ++ " " ++ Example.letters 1]
      (Example.storing (Example.presented "TXT" [Example.letters 256]))) Action.isWrite = true := by
    decide +kernel
  obtain ⟨plan, hmake, p, hp, hwrites⟩ := Example.exists_of_asks hplanned
  exact ⟨plan, p, hp, Example.isWritten_presented (by decide +kernel), fun w => by rw [hsame],
    hmake, (Example.item_of_rewritten hmake hp).2, hwrites⟩

end ZoneKeeper
