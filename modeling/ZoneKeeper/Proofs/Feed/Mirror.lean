import ZoneKeeper.Proofs.Engine.Request
import Mathlib.Logic.Function.Basic

namespace ZoneKeeper

abbrev Content := Nat × SortedSet String

def Rrset.content (r : Rrset) : Content := (r.ttl, r.records)

def Zone.content (zone : Zone) (key : Key) : Option Content :=
  (zone.rrsets.get? key).map Rrset.content

abbrev Mirror := String → Key → Option Content

namespace KeyChange

def left? : KeyChange → Option Content
  | .upserted _ ttl records => some (ttl, records)
  | .deleted _ => none

def applyTo (shown : Key → Option Content) (c : KeyChange) : Key → Option Content :=
  Function.update shown c.key c.left?

theorem key_ofLeft {key : Key} {left : Option Rrset} (h : ∀ r ∈ left, r.key = key) :
    (ofLeft key left).key = key := by
  cases left with
  | none => rfl
  | some r => exact h r rfl

theorem left?_ofLeft (key : Key) (left : Option Rrset) :
    (ofLeft key left).left? = left.map Rrset.content := by
  cases left <;> rfl

end KeyChange

namespace Mirror

def empty : Mirror := fun _ _ => none

def apply (m : Mirror) (change : ZoneChange) : Mirror :=
  Function.update m change.domain (change.changes.foldl KeyChange.applyTo (m change.domain))

def ofFeed (feed : List ZoneChange) : Mirror := feed.foldl apply empty

def shown (feed : List ZoneChange) : Key → Option Content :=
  feed.foldl (fun shown change => change.changes.foldl KeyChange.applyTo shown) fun _ => none

theorem shown_append (feed : List ZoneChange) (change : ZoneChange) :
    shown (feed ++ [change]) = change.changes.foldl KeyChange.applyTo (shown feed) := by
  rw [shown, List.foldl_append]
  rfl

theorem ofFeed_eq_shown (feed : List ZoneChange) (domain : String) :
    ofFeed feed domain = shown (feed.filter (·.domain == domain)) := by
  have hfrom (m : Mirror) : feed.foldl apply m domain
      = (feed.filter (·.domain == domain)).foldl
          (fun shown change => change.changes.foldl KeyChange.applyTo shown) (m domain) := by
    induction feed generalizing m with
    | nil => rfl
    | cons change rest ih =>
        rw [List.foldl_cons, ih, List.filter_cons]
        split
        · next hsame =>
            obtain rfl := beq_iff_eq.1 hsame
            rw [List.foldl_cons, apply, Function.update_self]
        · next hother =>
            have hne : domain ≠ change.domain := fun heq => hother (beq_iff_eq.2 heq.symm)
            rw [apply, Function.update_of_ne hne]
  exact hfrom empty

end Mirror

namespace Zone

theorem content_put (zone : Zone) (key : Key) (left : Option Rrset) :
    (zone.put key left).content = Function.update zone.content key (left.map Rrset.content) := by
  funext k
  rw [content, get?_put, Function.update_apply]
  split <;> rfl

theorem foldl_change {zone : Zone} (hkeyed : zone.IsKeyed) {done : List DoneStep}
    (hdone : ∀ d ∈ done, d.IsFor zone) :
    (done.reverse.map DoneStep.change).foldl KeyChange.applyTo zone.content
      = (zone.after done).content := by
  induction done with
  | nil => rfl
  | cons d rest ih =>
      have hkey := (hdone d List.mem_cons_self).key_of_mem_left hkeyed
      rw [List.reverse_cons, List.map_append, List.foldl_append,
        ih fun e he => hdone e (List.mem_cons_of_mem _ he), after, content_put]
      simp only [List.map_cons, List.map_nil, List.foldl_cons, List.foldl_nil, KeyChange.applyTo,
        DoneStep.change, KeyChange.key_ofLeft hkey, KeyChange.left?_ofLeft]

theorem foldl_deleted {zone : Zone} (hkeyed : zone.IsKeyed) :
    (zone.rrsets.values.map fun r => .deleted r.key).foldl KeyChange.applyTo zone.content
      = fun _ => none := by
  have hfold (rs : List Rrset) (shown : Key → Option Content) (key : Key) :
      (rs.map fun r => .deleted r.key).foldl KeyChange.applyTo shown key
        = if ∃ r ∈ rs, r.key = key then none else shown key := by
    induction rs generalizing shown with
    | nil => simp
    | cons r rest ih =>
        rw [List.map_cons, List.foldl_cons, ih]
        by_cases hkey : r.key = key
        · simp [KeyChange.applyTo, KeyChange.key, KeyChange.left?, hkey, Function.update_apply]
        · simp [KeyChange.applyTo, KeyChange.key, KeyChange.left?, hkey, Ne.symm hkey]
  funext key
  rw [hfold]
  split
  · rfl
  · next hnot =>
      rw [content, Option.map_eq_none_iff, Option.eq_none_iff_forall_not_mem]
      intro r hr
      exact hnot ⟨r, SortedMap.mem_values_iff.2 ⟨key, hr⟩, hkeyed key r hr⟩

end Zone

structure Share.IsMirrored (share : Share) : Prop where
  isKeyed : ∀ zone, share.zone = some zone → zone.IsKeyed
  shown : Mirror.shown share.feed = fun key => share.zone.bind (·.content key)

theorem Plan.IsCarriedOut.isMirrored {plan : Plan} {domain : String} {before after : Share}
    (h : plan.IsCarriedOut domain before after) (hbefore : before.IsMirrored) :
    after.IsMirrored := by
  obtain ⟨zone, done, hzone, -, hdone, hafter, hnone, hsome⟩ := h
  have hkeyed := hbefore.isKeyed zone hzone
  have hshown := hbefore.shown
  simp only [hzone, Option.bind_some] at hshown
  have hreverse : ∀ d ∈ done.reverse, d.IsFor zone := fun d hd => hdone d (List.mem_reverse.1 hd)
  refine ⟨?_, ?_⟩
  · intro zone' hzone'
    obtain rfl := Option.some.inj (hafter.symm.trans hzone')
    exact hkeyed.after hreverse
  · have hfold := Zone.foldl_change hkeyed hreverse
    rw [List.reverse_reverse] at hfold
    simp only [hafter, Option.bind_some]
    by_cases hempty : done = []
    · rw [hnone hempty, hshown]
      rw [hempty] at hfold ⊢
      exact hfold
    · obtain ⟨time, hfeed⟩ := hsome hempty
      rw [hfeed, Mirror.shown_append, hshown]
      exact hfold

theorem Request.Leads.isMirrored {R : Regime} {settings : EngineSettings} {r : Request}
    {before after : Share} (h : r.Leads R settings before after) (hbefore : before.IsMirrored) :
    after.IsMirrored := by
  have hbatch (h : ∃ zone, R.sees r.domainName (some zone)
      ∧ r.IsApplied settings zone.domain before after) : after.IsMirrored := by
    obtain ⟨_, -, job, -, zone, plan, -, -, -, hdone⟩ := h
    exact hdone.isMirrored hbefore
  cases r with
  | createDomain principal name minimumTtl =>
      obtain ⟨hzone, hfeed, time, hafter⟩ := h
      refine ⟨?_, ?_⟩
      · intro zone hzone
        obtain rfl := Option.some.inj (hafter.symm.trans hzone)
        intro key r hr
        cases hr
      · rw [hfeed, hbefore.shown, hzone, hafter]
        rfl
  | deleteDomain principal name =>
      obtain ⟨zone, time, hzone, rfl⟩ := h
      have hshown := hbefore.shown
      simp only [hzone, Option.bind_some] at hshown
      refine ⟨by rintro _ ⟨⟩, ?_⟩
      rw [Mirror.shown_append, hshown]
      exact Zone.foldl_deleted (hbefore.isKeyed zone hzone)
  | _ => exact hbatch h

namespace Share

def content (share : Share) (key : Key) : Option Content := share.zone.bind (·.content key)

def Announces (domain : String) (before after : Share) : Prop :=
  ∃ changes : List KeyChange, (changes.map (·.key)).Nodup
    ∧ (∀ key, key ∈ changes.map (·.key) ↔ before.content key ≠ after.content key)
    ∧ (∀ c ∈ changes, c.left? = after.content c.key)
    ∧ (changes = [] → after.feed = before.feed)
    ∧ (changes ≠ [] → ∃ time, after.feed = before.feed ++ [⟨domain, changes, time⟩])

end Share

theorem DoneStep.IsFor.content_ne {d : DoneStep} {zone : Zone} {ctx : ReviewContext}
    {batch : Batch} {plan : Plan} (h : d.IsFor zone) (hkeyed : zone.IsKeyed)
    (hplan : Plan.make ctx batch (.ofRrsets (zone.listAt batch.touchedSubnames)) = .ok plan)
    (hd : d.item ∈ plan.steps) : zone.content d.item.key ≠ d.left.map Rrset.content := by
  obtain ⟨now, hleft⟩ := h.left
  have hstored := Zone.get?_snapshot hkeyed
    (Plan.mem_touchedSubnames hplan (Plan.mem_steps hd).1)
  rw [hleft, Zone.content]
  rcases Plan.step_changes hplan hd with ⟨ttl, records, haction, hne, hdiffers⟩ | ⟨haction, hsome⟩
  · rw [hstored] at hdiffers
    have hwritten : Zones.leftBy d.item.key d.item.ttl d.item.records now
        (zone.rrsets.get? d.item.key)
        = some (Zones.written d.item.key ttl records now (zone.rrsets.get? d.item.key)) := by
      simp only [Zones.leftBy, PlannedItem.records, PlannedItem.ttl, haction, hne]
      rfl
    rw [hwritten]
    cases hget : zone.rrsets.get? d.item.key with
    | none => simp
    | some r =>
        intro heq
        refine hdiffers r hget ?_
        simpa [Rrset.content, Zones.written] using heq
  · rw [hstored] at hsome
    obtain ⟨r, hget⟩ := Option.isSome_iff_exists.1 hsome
    have hgone : Zones.leftBy d.item.key d.item.ttl d.item.records now
        (zone.rrsets.get? d.item.key) = none := by
      simp only [Zones.leftBy, PlannedItem.records, haction]
      rfl
    rw [hgone, hget]
    simp

theorem Plan.IsCarriedOut.content {plan : Plan} {domain : String} {before after : Share}
    {zone : Zone} {ctx : ReviewContext} {batch : Batch} (h : plan.IsCarriedOut domain before after)
    (hzone : before.zone = some zone)
    (hplan : Plan.make ctx batch (.ofRrsets (zone.listAt batch.touchedSubnames)) = .ok plan) :
    ∃ done : List DoneStep, done.map (·.item) = plan.steps ∧ (∀ d ∈ done, d.IsFor zone)
      ∧ (∀ d ∈ done, after.content d.item.key = d.left.map Rrset.content)
      ∧ (∀ key, (∀ d ∈ done, d.item.key ≠ key) → after.content key = before.content key)
      ∧ (done = [] → after.feed = before.feed)
      ∧ (done ≠ [] →
          ∃ time, after.feed = before.feed ++ [⟨domain, done.map DoneStep.change, time⟩]) := by
  obtain ⟨zone', done, hzone', hsteps, hdone, hafter, hfeed⟩ := h
  obtain rfl := Option.some.inj (hzone.symm.trans hzone')
  have hnodup := Plan.nodup_done_keys hplan hsteps
  have hshown (key : Key) : after.content key = (zone.after done.reverse).content key := by
    rw [Share.content, hafter, Option.bind_some]
  refine ⟨done, hsteps, hdone, fun d hd => ?_, fun key hnot => ?_, hfeed⟩
  · rw [hshown]
    exact congrArg (Option.map Rrset.content)
      (Zone.get?_after_of_mem hnodup (List.mem_reverse.2 hd))
  · rw [hshown, Share.content, hzone]
    exact congrArg (Option.map Rrset.content)
      (Zone.get?_after_of_ne fun d hd => hnot d (List.mem_reverse.1 hd))

theorem BatchSource.IsCarriedOut.announces {source : BatchSource} {ctx : ReviewContext}
    {before after : Share} (h : source.IsCarriedOut ctx before after) :
    Share.Announces ctx.domain before after := by
  obtain ⟨zone, plan, hzone, hkeyed, ⟨batch, -, hplan⟩, hcarried⟩ := h
  obtain ⟨done, hsteps, hdone, hat, helsewhere, hnone, hsome⟩ := hcarried.content hzone hplan
  have hkeyOf : ∀ d ∈ done, d.change.key = d.item.key := fun d hd =>
    KeyChange.key_ofLeft ((hdone d hd).key_of_mem_left hkeyed)
  have hkeys : (done.map DoneStep.change).map (·.key) = plan.steps.map (·.key) := by
    rw [← hsteps, List.map_map, List.map_map]
    exact List.map_congr_left hkeyOf
  refine ⟨done.map DoneStep.change, ?_, ?_, ?_, ?_, ?_⟩
  · rw [hkeys]
    exact Plan.nodup_step_keys hplan
  · intro key
    rw [hkeys, ← hsteps, List.map_map, List.mem_map]
    constructor
    · rintro ⟨d, hd, rfl⟩ heq
      have hbefore : before.content d.item.key = zone.content d.item.key := by
        rw [Share.content, hzone, Option.bind_some]
      refine (hdone d hd).content_ne hkeyed hplan (hsteps ▸ List.mem_map_of_mem hd) ?_
      rw [← hbefore, ← hat d hd]
      exact heq
    · intro hne
      by_contra hnot
      refine hne (helsewhere key fun d hd heq => hnot ⟨d, hd, heq⟩).symm
  · intro c hc
    obtain ⟨d, hd, rfl⟩ := List.mem_map.1 hc
    rw [hkeyOf d hd, hat d hd, DoneStep.change, KeyChange.left?_ofLeft]
  · intro hempty
    exact hnone (List.map_eq_nil_iff.1 hempty)
  · intro hne
    exact hsome fun hempty => hne (by rw [hempty, List.map_nil])

end ZoneKeeper
