import ZoneKeeper.Proofs.Engine.Application
import ZoneKeeper.Proofs.Engine.Faults
import ZoneKeeper.Proofs.Record.Set
import ZoneKeeper.Proofs.Traffic.Sequence

namespace ZoneKeeper

def Zone.IsFilled (zone : Zone) : Prop :=
  ∀ key r, zone.rrsets.get? key = some r → r.records.isEmpty = false

theorem Zone.IsFilled.after {zone : Zone} (h : zone.IsFilled) {done : List DoneStep}
    (hdone : ∀ d ∈ done, d.IsFor zone) : (zone.after done).IsFilled := by
  induction done with
  | nil => exact h
  | cons d rest ih =>
      intro key r hr
      rw [Zone.after, Zone.get?_put] at hr
      split at hr
      · obtain ⟨now, hleft⟩ := (hdone d List.mem_cons_self).left
        rw [hleft, Zones.leftBy] at hr
        split at hr
        · cases hr
        · next hne =>
            obtain rfl := Option.some.inj hr
            rw [← Bool.not_eq_true]
            cases zone.rrsets.get? d.item.key <;> exact hne
      · exact ih (fun e he => hdone e (List.mem_cons_of_mem d he)) key r hr

structure Zones.IsOrderly (zones : Zones) : Prop where
  isProper : zones.IsProper
  isFilled : ∀ name zone, zones.zone? name = some zone → zone.IsFilled

def Batch.keys (batch : Batch) : List Key := batch.items.filterMap Review.named?

structure BatchItem.Means (item : BatchItem) (domain : String) (key : Key)
    (calls : List CallRecord) (before after : Option Rrset) : Prop where
  absent : after = none ↔ item.records = some [] ∨ item.records = none ∧ before = none
  isAt : ∀ r ∈ after, r.key = key
  given : ∀ contents, item.records = some contents → ∀ r ∈ after, ∃ records,
    RecordSet.Reads key.type contents records ∧ r.records = .ofList (records.map (·.presentation))
  omitted : item.records = none → ∀ r ∈ after, before.map (·.records) = some r.records
  ttlGiven : ∀ ttl, item.ttl = some ttl → ∀ r ∈ after, (r.ttl : Int) = ttl
  ttlOmitted : item.ttl = none → ∀ r ∈ after, before.map (·.ttl) = some r.ttl
  created : ∀ stored ∈ before, ∀ r ∈ after, r.created = stored.created
  kept : ∀ stored ∈ before, ∀ r ∈ after, r.content = stored.content → r.touched = stored.touched
  renewed : ∀ r ∈ after, before.map Rrset.content ≠ some r.content →
    (∃ x ∈ calls, x.call = .upsert domain key r.ttl r.records ∧ x.outcome = .carriedOut r.touched)
      ∧ (before = none → r.created = r.touched)

structure Batch.Means (batch : Batch) (calls : List CallRecord) (zone zone' : Zone)
    (o : BatchOutcome) : Prop where
  domain : zone'.domain = zone.domain
  nodup : batch.keys.Nodup
  isNamed : ∀ item, .ok item ∈ batch.items → (Review.named? (.ok item)).isSome = true
  items : ∀ item key, .ok item ∈ batch.items → Review.named? (.ok item) = some key →
    item.Means zone.domain.name key calls (zone.rrsets.get? key) (zone'.rrsets.get? key)
  others : ∀ key, key ∉ batch.keys → zone'.rrsets.get? key = zone.rrsets.get? key
  views : o.views = batch.keys.filterMap fun key =>
    (zone'.rrsets.get? key).map (Rrset.view zone'.domain.name)
  deleted : o.deleted = batch.keys.filter fun key =>
    (zone.rrsets.get? key).isSome && (zone'.rrsets.get? key).isNone
  shape : o.shape = batch.shape

namespace Action

variable {stored : Option Content} {ttl : Option Nat} {records : Option (SortedSet String)}
  {left : Option Content}

theorem of_asked (h : asked? stored ttl records = some left) :
    (left = none ↔ (records.getD ((stored.map (·.2)).getD .empty)).isEmpty = true)
      ∧ ∀ content ∈ left, content.2 = records.getD ((stored.map (·.2)).getD .empty)
        ∧ (ttl.orElse fun _ => stored.map (·.1)) = some content.1 := by
  simp only [asked?] at h
  split at h
  · next hempty =>
      obtain rfl := Option.some.inj h
      exact ⟨iff_of_true rfl hempty, by rintro _ ⟨⟩⟩
  · next hne =>
      obtain ⟨t, ht, rfl⟩ := Option.map_eq_some_iff.1 h
      refine ⟨iff_of_false (by rintro ⟨⟩) hne, ?_⟩
      rintro _ ⟨⟩
      exact ⟨rfl, ht⟩

end Action

namespace Plan

variable {ctx : ReviewContext} {batch : Batch} {snapshot : Snapshot} {plan : Plan} {zone : Zone}
  {done : List DoneStep}

theorem keys_eq (hmake : make ctx batch snapshot = .ok plan) :
    plan.items.map (·.key) = batch.keys := by
  have hkey (review : Review) (i : Nat) : (item? snapshot (review, i)).map (·.key)
      = (review.asked? snapshot).map Prod.fst := by
    cases review <;> rfl
  rw [map_items hmake hkey, ofItems_eq_own hmake, List.filterMap_map, Batch.keys]
  refine List.filterMap_congr fun shaped hshaped => ?_
  have hpass : (Review.own ctx snapshot shaped).errors = [] :=
    (items_of_make hmake).2 _ (ofItems_eq_own hmake ▸ List.mem_map_of_mem hshaped)
  cases shaped with
  | error problems => rfl
  | ok item =>
      obtain ⟨key, action, hready, hnamed, -⟩ := Review.ofItem_of_errors_nil hpass
      rw [BatchItem.named_of_key hnamed, Function.comp, Review.own, hready]
      rfl

end Plan

namespace Commit

section Outcome

variable {ctx : ReviewContext} {batch : Batch} {snapshot : Snapshot} {plan : Plan} {zone : Zone}
  {done : List DoneStep} (hmake : Plan.make ctx batch snapshot = .ok plan)
  (hagrees : Review.Agrees batch snapshot zone) (hsteps : done.map (·.item) = plan.steps)
  (hfor : ∀ d ∈ done, d.IsFor zone)

include hmake hagrees hsteps hfor

theorem left?_eq {p : PlannedItem} (hp : p ∈ plan.items) :
    left? done p = (zone.after done.reverse).rrsets.get? p.key := by
  have hfind := find?_step hmake hsteps hp
  have hchange := Plan.get?_after zone hmake hsteps hp
  unfold left?
  split
  · next hkeep =>
      rcases hchange with ⟨d, hd, rfl, -⟩ | ⟨-, hsame⟩
      · obtain ⟨-, hkind⟩ := Plan.mem_steps (hsteps ▸ List.mem_map_of_mem hd)
        rw [hkeep] at hkind
        rcases hkind with hkind | hkind <;> cases hkind
      · rw [hsame, Plan.previous_eq hmake hp,
          hagrees p.key (Plan.mem_touchedSubnames hmake hp)]
  · next hkeep =>
      cases hstep : done.find? fun d => d.item.index == p.index with
      | some d =>
          rw [hstep] at hfind
          obtain ⟨hd, rfl⟩ := hfind
          exact (Zone.get?_after_of_mem (Plan.nodup_done_keys hmake hsteps)
            (List.mem_reverse.2 hd)).symm
      | none =>
          rw [hstep] at hfind
          have hcontent := Plan.content_after hmake hagrees hsteps hfor hp
          rw [Plan.target_of_not_step hp hfind hkeep, Zone.content,
            Option.map_eq_none_iff] at hcontent
          exact hcontent.symm

theorem views_outcome (domain : String) (shape : BatchShape) :
    (outcome domain plan shape done).views = batch.keys.filterMap fun key =>
      ((zone.after done.reverse).rrsets.get? key).map (Rrset.view domain) := by
  rw [← Plan.keys_eq hmake, List.filterMap_map, outcome, List.map_filterMap]
  exact List.filterMap_congr fun p hp =>
    congrArg _ (left?_eq hmake hagrees hsteps hfor hp)

end Outcome

end Commit

theorem DoneStep.IsDated.of_left {d : DoneStep} {t : Watch} {zone : Zone} {log : List CallRecord}
    (h : d.IsDated t zone log) {r : Rrset} (hr : d.left = some r) :
    (∃ x ∈ log, x.call = .upsert t.domain d.item.key r.ttl r.records
        ∧ x.outcome = .carriedOut r.touched)
      ∧ r.created = ((zone.rrsets.get? d.item.key).map (·.created)).getD r.touched := by
  obtain ⟨now, hmem, hleft⟩ := h
  rw [hleft, Zones.leftBy] at hr
  split at hr
  · cases hr
  · obtain rfl := Option.some.inj hr
    cases zone.rrsets.get? d.item.key with
    | none => exact ⟨⟨_, hmem, rfl, rfl⟩, rfl⟩
    | some stored => exact ⟨⟨_, hmem, rfl, rfl⟩, rfl⟩

structure Plan.IsFollowed (plan : Plan) (t : Watch) (ctx : ReviewContext) (batch : Batch)
    (zone : Zone) (done : List DoneStep) (log : List CallRecord) : Prop where
  isKeyed : zone.IsKeyed
  make : Plan.make ctx batch (.ofRrsets (zone.listAt batch.touchedSubnames)) = .ok plan
  steps : done.map (·.item) = plan.steps
  isFor : ∀ d ∈ done, d.IsFor zone
  isDated : ∀ d ∈ done, d.IsDated t zone log

namespace Plan.IsFollowed

variable {ctx : ReviewContext} {batch : Batch} {plan : Plan} {zone : Zone} {done : List DoneStep}
  {t : Watch} {log : List CallRecord} {p : PlannedItem} {item : BatchItem}
  (h : plan.IsFollowed t ctx batch zone done log)

include h

theorem agrees : Review.Agrees batch (.ofRrsets (zone.listAt batch.touchedSubnames)) zone :=
  Review.agrees_of_isKeyed h.isKeyed batch

theorem keyed_after : (zone.after done.reverse).IsKeyed :=
  h.isKeyed.after fun d hd => h.isFor d (List.mem_reverse.1 hd)

theorem refusal?_of_mem {key : Key} (hkey : key ∈ batch.keys) :
    RecordType.refusal? key.type = none := by
  rw [← keys_eq h.make] at hkey
  obtain ⟨p, hp, rfl⟩ := List.mem_map.1 hkey
  obtain ⟨item, -, hpasses, -⟩ := exists_item h.make hp
  exact BatchItem.refusal?_of_key hpasses.hasKey

variable (hp : p ∈ plan.items)

include hp

theorem content_eq : ((zone.after done.reverse).rrsets.get? p.key).map Rrset.content = p.target :=
  content_after h.make h.agrees h.steps h.isFor hp

theorem isDelete_eq : p.action.isDelete = ((zone.rrsets.get? p.key).isSome
    && ((zone.after done.reverse).rrsets.get? p.key).isNone) := by
  obtain ⟨ttl, records, hof⟩ := exists_action h.make hp
  rw [h.agrees p.key (mem_touchedSubnames h.make hp)] at hof
  have hleaves : ((zone.after done.reverse).rrsets.get? p.key).isSome = p.action.leaves := by
    rw [← isSome_target h.make hp, ← h.content_eq hp, Option.isSome_map]
  rw [← Option.not_isSome, hleaves]
  cases haction : p.action with
  | delete =>
      rw [haction] at hof
      rw [Action.of_delete hof]
      rfl
  | nothing =>
      rw [haction] at hof
      rw [Action.eq_none_of_nothing hof]
      rfl
  | write | keep => exact (Bool.and_false _).symm

theorem dates_of_stored {stored r : Rrset} (hstored : zone.rrsets.get? p.key = some stored)
    (hr : (zone.after done.reverse).rrsets.get? p.key = some r) :
    r.created = stored.created ∧ (r.content = stored.content → r.touched = stored.touched) := by
  rcases get?_after zone h.make h.steps hp with ⟨d, hd, rfl, hafter⟩ | ⟨-, hafter⟩
  · constructor
    · rw [((h.isDated d hd).of_left (hafter.symm.trans hr)).2, hstored]
      rfl
    · -- a step is taken only where it makes a difference
      intro hcontent
      refine absurd ?_ ((h.isFor d hd).content_ne h.isKeyed h.make
        (h.steps ▸ List.mem_map_of_mem hd))
      rw [Zone.content, ← hafter, hr, hstored]
      exact congrArg some hcontent.symm
  · obtain rfl := Option.some.inj (hr.symm.trans (hafter.trans hstored))
    exact ⟨rfl, fun _ => rfl⟩

theorem dates_of_written {r : Rrset}
    (hr : (zone.after done.reverse).rrsets.get? p.key = some r)
    (hdiffers : (zone.rrsets.get? p.key).map Rrset.content ≠ some r.content) :
    (∃ x ∈ log, x.call = .upsert t.domain p.key r.ttl r.records
        ∧ x.outcome = .carriedOut r.touched)
      ∧ (zone.rrsets.get? p.key = none → r.created = r.touched) := by
  rcases get?_after zone h.make h.steps hp with ⟨d, hd, rfl, hafter⟩ | ⟨-, hafter⟩
  · obtain ⟨hwritten, hcreated⟩ := (h.isDated d hd).of_left (hafter.symm.trans hr)
    refine ⟨hwritten, fun hnone => ?_⟩
    rw [hcreated, hnone]
    rfl
  · rw [← hafter, hr] at hdiffers
    exact absurd rfl hdiffers

variable (hitem : batch.items[p.index]? = some (.ok item))

include hitem

theorem exists_asked : ∃ rules records,
    item.canonicalRecords ctx.domain rules (some p.key) = .ok records
      ∧ Action.asked? ((zone.rrsets.get? p.key).map Rrset.content) (item.ttl.map Int.toNat) records
        = some (((zone.after done.reverse).rrsets.get? p.key).map Rrset.content) := by
  obtain ⟨own, hown, hpasses, hprevious⟩ := exists_item h.make hp
  obtain rfl := Except.ok.inj (Option.some.inj (hitem.symm.trans hown))
  obtain ⟨records, hrecords, haction⟩ := hpasses.hasAction
  refine ⟨_, records, hrecords, ?_⟩
  rw [h.content_eq hp, PlannedItem.target, hprevious,
    ← h.agrees p.key (mem_touchedSubnames h.make hp), ← Action.map_target, haction]
  rfl

theorem absent_iff (hfilled : zone.IsFilled) : (zone.after done.reverse).rrsets.get? p.key = none
    ↔ item.records = some [] ∨ item.records = none ∧ zone.rrsets.get? p.key = none := by
  obtain ⟨rules, records, hrecords, hasked⟩ := h.exists_asked hp hitem
  rw [← Option.map_eq_none_iff (f := Rrset.content), (Action.of_asked hasked).1]
  rcases BatchItem.canonicalRecords_cases hrecords with ⟨hnone, rfl⟩ | ⟨contents, canonical, hgiven,
    rfl, hread⟩
  · cases hstored : zone.rrsets.get? p.key with
    | none => exact iff_of_true rfl (Or.inr ⟨hnone, rfl⟩)
    | some stored => simp [hnone, Rrset.content, hfilled p.key stored hstored]
  · rw [Option.getD_some, RecordSet.isEmpty_iff_of_read hread, hgiven]
    simp

theorem records_after {r : Rrset} (hr : (zone.after done.reverse).rrsets.get? p.key = some r) :
    (∀ contents, item.records = some contents → ∃ given, RecordSet.Reads p.key.type contents given
        ∧ r.records = .ofList (given.map (·.presentation)))
      ∧ (item.records = none → r.records
        = ((zone.rrsets.get? p.key).map (·.records)).getD SortedSet.empty) := by
  obtain ⟨rules, records, hrecords, hasked⟩ := h.exists_asked hp hitem
  have hsame := ((Action.of_asked hasked).2 r.content (by rw [hr]; exact rfl)).1
  rcases BatchItem.canonicalRecords_cases hrecords with ⟨hnone, rfl⟩ | ⟨own, canonical, hown, rfl,
    hread⟩
  · refine ⟨fun contents hgiven => ?_, fun _ => ?_⟩
    · cases hnone.symm.trans hgiven
    · rw [Option.map_map] at hsame
      exact hsame
  · refine ⟨fun contents hgiven => ?_, fun homitted => ?_⟩
    · obtain rfl := Option.some.inj (hown.symm.trans hgiven)
      obtain ⟨given, hreads, rfl, -⟩ := RecordSet.reads_of_read hread
      exact ⟨given, hreads, hsame⟩
    · cases homitted.symm.trans hown

theorem ttl_after {r : Rrset} (hr : (zone.after done.reverse).rrsets.get? p.key = some r) :
    (∀ ttl, item.ttl = some ttl → (r.ttl : Int) = ttl)
      ∧ (item.ttl = none → (zone.rrsets.get? p.key).map (·.ttl) = some r.ttl) := by
  obtain ⟨rules, records, -, hasked⟩ := h.exists_asked hp hitem
  have hsame := ((Action.of_asked hasked).2 r.content (by rw [hr]; exact rfl)).2
  constructor
  · intro ttl hgiven
    obtain ⟨rules, hproblems⟩ := ttlProblems_of_mem h.make hp hitem
    rw [hgiven] at hsame
    rw [← BatchItem.toNat_of_problems_nil hproblems hgiven]
    exact congrArg Nat.cast (Option.some.inj hsame).symm
  · intro homitted
    rw [homitted, Option.map_map] at hsame
    exact hsame

theorem means (hfilled : zone.IsFilled) : item.Means t.domain p.key log (zone.rrsets.get? p.key)
    ((zone.after done.reverse).rrsets.get? p.key) where
  absent := h.absent_iff hp hitem hfilled
  isAt := h.keyed_after p.key
  given := fun contents hgiven r hr => (h.records_after hp hitem hr).1 contents hgiven
  omitted := fun homitted r hr => by
    have hrecords := (h.records_after hp hitem hr).2 homitted
    cases hstored : zone.rrsets.get? p.key with
    | some stored =>
        rw [hrecords, hstored]
        rfl
    | none =>
        have hnone := (h.absent_iff hp hitem hfilled).2 (Or.inr ⟨homitted, hstored⟩)
        cases hnone.symm.trans hr
  ttlGiven := fun ttl hgiven r hr => (h.ttl_after hp hitem hr).1 ttl hgiven
  ttlOmitted := fun homitted r hr => (h.ttl_after hp hitem hr).2 homitted
  created := fun stored hstored r hr => (h.dates_of_stored hp hstored hr).1
  kept := fun stored hstored r hr => (h.dates_of_stored hp hstored hr).2
  renewed := fun r hr => h.dates_of_written hp hr

end Plan.IsFollowed

theorem Plan.IsFollowed.batch_means {plan : Plan} {t : Watch} {ctx : ReviewContext} {batch : Batch}
    {zone : Zone} {done : List DoneStep} {log : List CallRecord}
    (h : plan.IsFollowed t ctx batch zone done log) (hfilled : zone.IsFilled)
    (hctx : ctx.domain = zone.domain.name) (ht : t.domain = zone.domain.name) :
    batch.Means log zone (zone.after done.reverse)
      (Commit.outcome ctx.domain plan batch.shape done) := by
  have hplanned (item : BatchItem) (hmem : .ok item ∈ batch.items) : ∃ p ∈ plan.items,
      batch.items[p.index]? = some (.ok item) ∧ Review.named? (.ok item) = some p.key := by
    obtain ⟨i, hitem⟩ := List.mem_iff_getElem?.1 hmem
    obtain ⟨p, hp, rfl, hpasses⟩ := Plan.exists_planned h.make hitem
    exact ⟨p, hp, hitem, BatchItem.named_of_key hpasses.hasKey⟩
  have hkeys := Plan.keys_eq h.make
  refine ⟨Zone.domain_after .., hkeys ▸ Plan.nodup_keys h.make, fun item hmem => ?_,
    fun item key hmem hnamed => ?_, fun key hkey => ?_, ?_, ?_, rfl⟩
  · obtain ⟨p, -, -, hkey⟩ := hplanned item hmem
    rw [hkey]
    rfl
  · obtain ⟨p, hp, hitem, hkey⟩ := hplanned item hmem
    obtain rfl := Option.some.inj (hkey.symm.trans hnamed)
    exact ht ▸ h.means hp hitem hfilled
  · refine Plan.get?_after_of_ne h.steps fun p hp heq => hkey ?_
    rw [← hkeys, ← heq]
    exact List.mem_map_of_mem hp
  · rw [Zone.domain_after, ← hctx]
    exact Commit.views_outcome h.make h.agrees h.steps h.isFor ctx.domain batch.shape
  · rw [← hkeys, List.filter_map, Commit.outcome]
    exact congrArg _ (List.filter_congr fun p hp => h.isDelete_eq hp)

def Fate.calls (fate : Fate) (settings : EngineSettings) (zones : Zones) (r : Request) :
    List CallRecord :=
  ((Request.run settings r).run.run fate.handle (zones, [])).2.2

namespace Request

open Engine

variable {settings : EngineSettings} {zones : Zones} {principal : Principal} {name : String}
  {zone : Zone} {key : Key} {job : BatchJob}

def application? : Request → Option (Principal × String × BatchJob)
  | .write principal name operation payload floor =>
      (Batch.ofJson payload).toOption.map fun batch =>
        (principal, name, ⟨operation, .given batch, floor⟩)
  | .derive principal name operation subname build floor =>
      some (principal, name, ⟨operation, .derived subname build, floor⟩)
  | _ => none

def found (zone : Zone) (key : Key) : Except Error View :=
  match zone.rrsets.get? key with
  | some rrset => .ok (rrset.view zone.domain.name)
  | none => .error (.notFound s!"RRset {key.write} does not exist in {zone.domain.name}")

theorem reply_get (hzone : zones.zone? (normalizeDomain name) = some zone)
    (hname : zone.domain.name = normalizeDomain name) (hkeyed : zone.IsKeyed)
    (howns : principal.owns zone.domain = true) (hkey : RecordType.refusal? key.type = none)
    {calm : Fate} (hcalm : calm.FailsAs fun _ _ => False) :
    calm.reply settings zones (.get principal name key) = (found zone key).map Reply.view := by
  let t := Watch.alone (fun _ _ => False) (normalizeDomain name)
  have hholds : t.Holds ⟨zones.zone? (normalizeDomain name), []⟩ := by
    refine ⟨fun z hz => ?_, by rintro _ ⟨⟩⟩
    obtain rfl := Option.some.inj (hzone.symm.trans hz)
    exact ⟨hname, hkeyed⟩
  have hshown : automaticError? key.type = none := by
    rw [automaticError?, hkey]
    exact ite_self none
  have hget : Undisturbed t (getFor principal name key).run
      ⟨zones.zone? (normalizeDomain name), []⟩ fun r _ => r = found zone key := by
    refine undisturbed_visibleDomain rfl hholds ?_ ?_
    · rintro e later - - (⟨_, ⟨⟩⟩ | ⟨-, hforeign⟩)
      exact absurd ((hforeign zone hzone).symm.trans howns) Bool.false_ne_true
    · intro z later hlater hz hsame _
      obtain rfl := Option.some.inj (hzone.symm.trans hz)
      have hread : Undisturbed t (call (.get t.domain key)).run later fun r _ =>
          r = .ok (zone.rrsets.get? key) := by
        refine Undisturbed.read rfl rfl hlater ?_ fun now final _ _ => ?_
        · rintro e final - - ⟨_, ⟨⟩⟩
        · rw [Past.answer, hsame, Outcome.call, Zones.call_get, Zones.zone?_only]
          rfl
      rw [hshown, hname]
      change Undisturbed t (call (.get t.domain key) >>= _).run later _
      refine hread.engine_bind (by rintro e _ ⟨⟩) ?_
      rintro stored _ hstored
      obtain rfl := Except.ok.inj hstored
      rw [found, hname]
      cases zone.rrsets.get? key with
      | none => exact rfl
      | some rrset => exact rfl
  have hrun : Undisturbed t (run settings (.get principal name key)).run
      ⟨zones.zone? (normalizeDomain name), []⟩ fun r _ => r = (found zone key).map Reply.view := by
    refine hget.engine_bind ?_ ?_
    · rintro e _ h
      rw [← h]
      rfl
    · rintro view _ h
      rw [← h]
      exact rfl
  exact (hrun.run hcalm (by rintro _ ⟨⟩)).1

theorem undisturbed_run_of_application {t : Watch} {past : Past} {r : Request}
    (happlies : r.application? = some (principal, name, job))
    {post : Except Error BatchOutcome → Past → Prop}
    (h : Undisturbed t (applyFor settings principal name job).run past post) :
    Undisturbed t (run settings r).run past fun result later =>
      ∀ o, result = .ok (.outcome o) → post (.ok o) later := by
  have hmap : Undisturbed t (applyFor settings principal name job >>= fun o =>
      pure (Reply.outcome o)).run past fun result later =>
        ∀ o, result = .ok (.outcome o) → post (.ok o) later := by
    refine h.engine_bind ?_ ?_
    · rintro e _ - _ ⟨⟩
    · rintro o _ hpost _ ⟨⟩
      exact hpost
  cases r with
  | write _ _ operation payload floor =>
      cases hread : Batch.ofJson payload with
      | error errors =>
          rw [application?, hread] at happlies
          cases happlies
      | ok batch =>
          rw [application?, hread] at happlies
          obtain ⟨rfl, rfl, rfl⟩ := happlies
          rw [run, hread]
          exact hmap
  | derive _ _ operation subname build floor =>
      obtain ⟨rfl, rfl, rfl⟩ := happlies
      exact hmap
  | createDomain | deleteDomain | domain | get | list | delete | checkIn => cases happlies

theorem undisturbed_applyFor (hzones : zones.IsOrderly) :
    Undisturbed (.alone (fun _ _ => False) (normalizeDomain name))
      (applyFor settings principal name job).run ⟨zones.zone? (normalizeDomain name), []⟩
      fun r later => ∀ o, r = .ok o → ∃ zone batch zone',
        zones.zone? (normalizeDomain name) = some zone ∧ principal.owns zone.domain = true
          ∧ job.source.Yields zone batch ∧ later.zone = some zone' ∧ zone'.IsKeyed
          ∧ zone'.IsFilled ∧ batch.Means later.log zone zone' o
          ∧ ∀ key ∈ batch.keys, RecordType.refusal? key.type = none := by
  refine undisturbed_visibleDomain rfl (holds_alone hzones.isProper _ _)
    (fun e later _ _ _ => by rintro _ ⟨⟩) fun zone later hlater hzone hsame howns => ?_
  have hname : zone.domain.name = normalizeDomain name := (hlater.keeps zone hsame).1
  refine (Attempt.undisturbed_calm job hname hlater hsame _ _).mono ?_
  rintro r final hended o rfl
  cases hended with
  | applied hplanned hsteps hfor hleft hdated =>
      cases hplanned with
      | made hyields hmake =>
          have hfollowed : Plan.IsFollowed _ _ _ _ zone _ final.log :=
            ⟨(hlater.keeps zone hsame).2, hmake, hsteps, hfor, hdated⟩
          have hfilled := hzones.isFilled _ zone hzone
          exact ⟨zone, _, _, hzone, howns, hyields, hleft, hfollowed.keyed_after,
            hfilled.after fun d hd => hfor d (List.mem_reverse.1 hd),
            hfollowed.batch_means hfilled rfl hname.symm, fun key => hfollowed.refusal?_of_mem⟩

end Request

/-- A batch that is accepted while no call fails has its meaning: each item that of its own, nothing
else is changed, and the outcome tells what a reader of the same keys finds afterwards. -/
theorem accepted_batch_means {settings : EngineSettings} {zones : Zones}
    (hzones : zones.IsOrderly) {calm : Fate} (hcalm : calm.FailsAs fun _ _ => False) {r : Request}
    {principal : Principal} {name : String} {job : BatchJob}
    (happlies : r.application? = some (principal, name, job)) {o : BatchOutcome}
    (haccepted : calm.reply settings zones r = .ok (.outcome o)) :
    ∃ zone batch zone', zones.zone? (normalizeDomain name) = some zone
      ∧ principal.owns zone.domain = true ∧ job.source.Yields zone batch
      ∧ (calm.leaves settings zones r).zone? (normalizeDomain name) = some zone'
      ∧ batch.Means (calm.calls settings zones r) zone zone' o
      ∧ (∀ later : Fate, later.FailsAs (fun _ _ => False) → ∀ key ∈ batch.keys,
        later.reply settings (calm.leaves settings zones r) (.get principal name key)
          = (Request.found zone' key).map Reply.view)
      ∧ (∀ other, other ≠ normalizeDomain name →
        (calm.leaves settings zones r).zone? other = zones.zone? other)
      ∧ (calm.leaves settings zones r).IsOrderly := by
  have hrun : Undisturbed (.alone (fun _ _ => False) (normalizeDomain name))
      (Request.run settings r).run ⟨zones.zone? (normalizeDomain name), []⟩ _ :=
    Request.undisturbed_run_of_application happlies (Request.undisturbed_applyFor hzones)
  obtain ⟨hmeans, hothers⟩ := hrun.run hcalm (by rintro _ ⟨⟩)
  obtain ⟨zone, batch, zone', hzone, howns, hyields, hleft, hkeyed, hfilled, hmeans, hmanaged⟩ :=
    hmeans o haccepted o rfl
  have hname : zone'.domain.name = normalizeDomain name := by
    rw [hmeans.domain, hzones.isProper.isNamed _ zone hzone]
  refine ⟨zone, batch, zone', hzone, howns, hyields, hleft, hmeans, fun later hlater key hkey => ?_,
    hothers, ?_⟩
  · exact Request.reply_get hleft hname hkeyed (hmeans.domain ▸ howns) (hmanaged key hkey) hlater
  · have hkept (other : String) (z : Zone)
        (hz : (calm.leaves settings zones r).zone? other = some z) :
        z.domain.name = other ∧ z.IsKeyed ∧ z.IsFilled := by
      by_cases hother : other = normalizeDomain name
      · subst hother
        obtain rfl := Option.some.inj (hleft.symm.trans hz)
        exact ⟨hname, hkeyed, hfilled⟩
      · have hz : zones.zone? other = some z := (hothers other hother).symm.trans hz
        exact ⟨hzones.isProper.isNamed other z hz, hzones.isProper.isKeyed other z hz,
          hzones.isFilled other z hz⟩
    exact ⟨⟨fun other z hz => (hkept other z hz).1, fun other z hz => (hkept other z hz).2.1⟩,
      fun other z hz => (hkept other z hz).2.2⟩

theorem Traffic.isOrderly_of_runInTurn {settings : EngineSettings} {mayFail : StoreCall → Bool}
    {events : List Event} {s : Traffic}
    (h : (start settings mayFail .empty []).runInTurn events = some s)
    (hfloor : ∀ r job floor, .arrive r ∈ events → r.job? settings = some job →
      job.minimumTtl = some floor → settings.checkIn.minimumTtl ≤ floor) :
    s.zones.IsOrderly := by
  have hkept := (IsUpkept.start settings mayFail).run hfloor h
  have hset (name : String) (zone : Zone) (hzone : s.zones.zone? name = some zone) (key : Key)
      (r : Rrset) (hr : zone.rrsets.get? key = some r) :=
    hkept.sound name zone hzone key r hr
  exact ⟨⟨hkept.named, fun name zone hzone key r hr => (hset name zone hzone key r hr).1⟩,
    fun name zone hzone key r hr => (hset name zone hzone key r hr).2.isNonempty⟩

namespace Example

def renewal : Batch := .ofItems [
  ⟨some "www", some "A", some 7200, none⟩,
  ⟨some "mail", some "A", some 3600, some ["192.0.2.2"]⟩,
  ⟨none, some "TXT", none, some []⟩]

def renew : Request :=
  .derive ⟨"alice"⟩ "example.com" .update "www" (fun _ => .ok renewal) none

theorem isOrderly_addressed : (stored addressed).IsOrderly := by
  refine ⟨isProper_addressed, fun name zone hzone => ?_⟩
  rw [stored, Zones.only, Zones.zone?_insert] at hzone
  split at hzone
  · obtain rfl := Option.some.inj hzone
    intro key r hr
    rw [addressed, Zone.get?_put] at hr
    split at hr
    · obtain rfl := Option.some.inj hr
      decide +kernel
    · cases hr
  · cases hzone

end Example

theorem renewed_address_is_kept : ∃ o zone' r,
    Example.calm.reply .default (Example.stored Example.addressed) Example.renew
        = .ok (.outcome o)
      ∧ (Example.calm.leaves .default (Example.stored Example.addressed) Example.renew).zone?
        "example.com" = some zone'
      ∧ zone'.rrsets.get? ⟨"www", "A"⟩ = some r ∧ r.ttl = 7200
      ∧ r.records = Example.address.records ∧ r.created = Example.address.created
      ∧ zone'.rrsets.get? ⟨"", "TXT"⟩ = none := by
  have haccepted : Example.isAccepted
      (Example.calm.reply .default (Example.stored Example.addressed) Example.renew) = true := by
    decide +kernel
  obtain ⟨o, ho⟩ := Example.exists_of_isAccepted haccepted
  obtain ⟨zone, batch, zone', hzone, -, hyields, hleft, hmeans, -⟩ := accepted_batch_means
    Example.isOrderly_addressed (Example.calm_failsAs _) (r := Example.renew) rfl ho
  obtain rfl : Example.renewal = batch := Except.ok.inj hyields
  have hname : normalizeDomain "example.com" = "example.com" := by decide +kernel
  rw [hname] at hzone hleft
  obtain rfl : Example.addressed = zone :=
    Option.some.inj ((Zones.zone?_only _ _).symm.trans hzone)
  have hstored : Example.addressed.rrsets.get? ⟨"www", "A"⟩ = some Example.address := by
    rw [Example.addressed, Zone.get?_put]
    exact if_pos rfl
  have hwww := hmeans.items _ ⟨"www", "A"⟩ (.head _) rfl
  have hapex := hmeans.items _ ⟨"", "TXT"⟩ (.tail _ (.tail _ (.head _))) rfl
  rw [hstored] at hwww
  cases hr : zone'.rrsets.get? ⟨"www", "A"⟩ with
  | none => rcases hwww.absent.1 hr with h | ⟨-, h⟩ <;> cases h
  | some r =>
      have httl : (r.ttl : Int) = 7200 := hwww.ttlGiven 7200 rfl r hr
      have hrecords := Option.some.inj (hwww.omitted rfl r hr)
      exact ⟨o, zone', r, ho, hleft, hr, by omega, hrecords.symm,
        hwww.created _ rfl r hr, hapex.absent.2 (Or.inl rfl)⟩

end ZoneKeeper
