import ZoneKeeper.Proofs.Batch.Plan
import ZoneKeeper.Proofs.Traffic.Discipline

namespace ZoneKeeper

namespace Zone

def after (zone : Zone) : List DoneStep → Zone
  | [] => zone
  | d :: rest => (zone.after rest).put d.item.key d.left

theorem domain_after (zone : Zone) (done : List DoneStep) :
    (zone.after done).domain = zone.domain := by
  induction done with
  | nil => rfl
  | cons d rest ih => rw [after, domain_put, ih]

theorem get?_after_of_ne {zone : Zone} {done : List DoneStep} {key : Key}
    (h : ∀ d ∈ done, d.item.key ≠ key) :
    (zone.after done).rrsets.get? key = zone.rrsets.get? key := by
  induction done with
  | nil => rfl
  | cons d rest ih =>
      have hd := h d List.mem_cons_self
      rw [after, get?_put, if_neg (Ne.symm hd), ih fun e he => h e (List.mem_cons_of_mem _ he)]

theorem get?_after_of_mem {zone : Zone} {done : List DoneStep} {d : DoneStep}
    (hnodup : (done.map (·.item.key)).Nodup) (hd : d ∈ done) :
    (zone.after done).rrsets.get? d.item.key = d.left := by
  induction done with
  | nil => cases hd
  | cons e rest ih =>
      rw [List.map_cons, List.nodup_cons] at hnodup
      rw [after, get?_put]
      rcases List.mem_cons.1 hd with rfl | hd
      · rw [if_pos rfl]
      · have hne : d.item.key ≠ e.item.key := fun heq =>
          hnodup.1 (heq ▸ List.mem_map_of_mem hd)
        rw [if_neg hne, ih hnodup.2 hd]

theorem put_put_get? (zone : Zone) (key : Key) (left : Option Rrset) :
    (zone.put key left).put key (zone.rrsets.get? key) = zone := by
  apply ext_get?
  · rw [domain_put, domain_put]
  · intro k
    rw [get?_put, get?_put]
    split
    · next hk => rw [hk]
    · rfl

end Zone

theorem Plan.nodup_done_keys {ctx : ReviewContext} {batch : Batch} {snapshot : Snapshot}
    {plan : Plan} {done : List DoneStep} (hmake : make ctx batch snapshot = .ok plan)
    (hsteps : done.map (·.item) = plan.steps) : (done.reverse.map (·.item.key)).Nodup := by
  have hkeys := nodup_step_keys hmake
  rw [← hsteps, List.map_map] at hkeys
  rw [List.map_reverse]
  exact List.nodup_reverse.2 hkeys

structure DoneStep.IsFor (d : DoneStep) (zone : Zone) : Prop where
  previous : d.item.previous = zone.rrsets.get? d.item.key
  left : ∃ now, d.left
    = Zones.leftBy d.item.key d.item.ttl d.item.records now (zone.rrsets.get? d.item.key)

theorem DoneStep.IsFor.key_of_mem_left {d : DoneStep} {zone : Zone} (h : d.IsFor zone)
    (hkeyed : zone.IsKeyed) : ∀ r ∈ d.left, r.key = d.item.key := by
  obtain ⟨now, hleft⟩ := h.left
  rw [hleft]
  exact Zones.key_of_mem_leftBy (hkeyed d.item.key)

theorem Zone.IsKeyed.after {zone : Zone} (h : zone.IsKeyed) {done : List DoneStep}
    (hdone : ∀ d ∈ done, d.IsFor zone) : (zone.after done).IsKeyed := by
  induction done with
  | nil => exact h
  | cons d rest ih =>
      exact (ih fun e he => hdone e (List.mem_cons_of_mem _ he)).put
        ((hdone d List.mem_cons_self).key_of_mem_left h)

def Plan.IsCarriedOut (plan : Plan) (domain : String) (before after : Share) : Prop :=
  ∃ zone done, before.zone = some zone ∧ done.map (·.item) = plan.steps
    ∧ (∀ d ∈ done, d.IsFor zone) ∧ after.zone = some (zone.after done.reverse)
    ∧ (done = [] → after.feed = before.feed)
    ∧ (done ≠ [] →
        ∃ time, after.feed = before.feed ++ [⟨domain, done.map DoneStep.change, time⟩])

structure Regime.SuitsBatches (t : Regime) : Prop where
  allows : ∀ c : StoreCall, c.touchesDomains = false → t.allows c
  restores : ∀ c : StoreCall, c.isRestore = true → t.mayFail c = false

namespace Commit

variable {t : Terms} {v : Standing} {zone : Zone}

theorem safe_undo (ht : t.SuitsBatches) {done : List DoneStep} (hheld : v.holdsLock = true)
    (hcommits : ¬ v.IsExposed) (hzone : v.left.zone = some (zone.after done))
    (hkeyed : zone.IsKeyed) (hnodup : (done.map (·.item.key)).Nodup)
    (hprevious : ∀ d ∈ done, d.item.previous = zone.rrsets.get? d.item.key) :
    Safe t (undo t.domain done) v fun _ v' =>
      v.Continues v' ∧ v'.left = ⟨some zone, v.left.feed⟩ := by
  induction done generalizing v with
  | nil => exact ⟨v.continues_refl, by rw [← show v.left.zone = some zone from hzone]⟩
  | cons d rest ih =>
      rw [List.map_cons, List.nodup_cons] at hnodup
      have hd := hprevious d List.mem_cons_self
      have hback : (zone.after (d :: rest)).put d.item.key d.item.previous = zone.after rest := by
        have hne : ∀ e ∈ rest, e.item.key ≠ d.item.key := fun e he heq =>
          hnodup.1 (heq ▸ List.mem_map_of_mem he)
        rw [hd, ← Zone.get?_after_of_ne hne, Zone.after, Zone.put_put_get?]
      rw [undo, Safe.bind_iff]
      refine Safe.call_held rfl (ht.allows _ rfl) ?_ (fun h => absurd h hcommits) hheld ?_
      · intro r hr
        exact hkeyed _ r (hd ▸ hr)
      · intro _ o v' hfor hcontinues hleft
        cases o with
        | failed e =>
            rw [Outcome.isFor, ht.restores _ rfl] at hfor
            cases hfor
        | carriedOut now =>
            have hrestored := Zones.call_restore (Zones.zone?_only t.domain
              (some (zone.after (d :: rest)))) d.item.key d.item.previous now
            rw [hzone, Outcome.call, hrestored, Zones.zone?_insert_self, hback] at hleft
            have hundo := ih (v := v') (hcontinues.holdsLock.trans hheld)
              (mt hcontinues.isExposed_iff.1 hcommits) (by rw [hleft]) hnodup.2
              fun e he => hprevious e (List.mem_cons_of_mem _ he)
            refine hundo.mono ?_
            rintro _ v'' ⟨hlater, hleft'⟩
            exact ⟨hcontinues.trans hlater, by rw [hleft', hleft]⟩

theorem safe_carryOut (ht : t.SuitsBatches) {steps : List PlannedItem} (done : List DoneStep)
    (hheld : v.holdsLock = true) (hcommits : ¬ v.IsExposed)
    (hzone : v.left.zone = some (zone.after done)) (hkeyed : zone.IsKeyed)
    (hnodup : (steps.map (·.key) ++ done.map (·.item.key)).Nodup)
    (hdone : ∀ d ∈ done, d.item.previous = zone.rrsets.get? d.item.key)
    (hsteps : ∀ item ∈ steps, item.previous = zone.rrsets.get? item.key) :
    Safe t (carryOut t.domain steps done).run v fun r v' => v.Continues v' ∧ match r with
      | .ok all => (∃ new, all = done.reverse ++ new ∧ new.map (·.item) = steps
            ∧ ∀ d ∈ new, d.IsFor zone)
          ∧ v'.left = ⟨some (zone.after all.reverse), v.left.feed⟩
      | .error _ => v'.left = ⟨some zone, v.left.feed⟩ := by
  induction steps generalizing v done with
  | nil =>
      refine ⟨v.continues_refl, ⟨[], by simp⟩, ?_⟩
      rw [List.reverse_reverse, ← hzone]
  | cons item rest ih =>
      rw [List.map_cons, List.cons_append, List.nodup_cons] at hnodup
      obtain ⟨hnew, hnodup'⟩ := hnodup
      have hitem := hsteps item List.mem_cons_self
      have hstored : (zone.after done).rrsets.get? item.key = zone.rrsets.get? item.key :=
        Zone.get?_after_of_ne fun d hd heq =>
          hnew (List.mem_append_right _ (heq ▸ List.mem_map_of_mem hd))
      rw [show (carryOut t.domain (item :: rest) done).run
        = EngineProgram.call (.upsert t.domain item.key item.ttl item.records) >>= _ from rfl,
        Safe.bind_iff]
      refine Safe.call_held rfl (ht.allows _ rfl) trivial (fun h => absurd h hcommits) hheld ?_
      intro _ o v' _ hcontinues hleft
      have hheld' : v'.holdsLock = true := hcontinues.holdsLock.trans hheld
      have hcommits' : ¬ v'.IsExposed := mt hcontinues.isExposed_iff.1 hcommits
      cases o with
      | failed e =>
          rw [hzone, Outcome.call, Zones.zone?_only] at hleft
          change Safe t (undo t.domain done >>= _) v' _
          refine Safe.bind (safe_undo ht hheld' hcommits' (by rw [hleft]) hkeyed
            (List.nodup_append.1 hnodup').2.1 hdone) ?_
          rintro _ v'' ⟨hlater, hleft'⟩
          exact ⟨hcontinues.trans hlater, by rw [hleft', hleft]⟩
      | carriedOut now =>
          have hwritten := Zones.call_upsert (Zones.zone?_only t.domain
            (some (zone.after done))) item.key item.ttl item.records now
          rw [hstored] at hwritten
          rw [hzone, Outcome.call, hwritten, Zones.zone?_insert_self] at hleft
          rw [hzone, Outcome.call, hwritten]
          let d : DoneStep := ⟨item,
            Zones.leftBy item.key item.ttl item.records now (zone.rrsets.get? item.key)⟩
          refine (ih (d :: done) hheld' hcommits' (by rw [hleft]; rfl) ?_ ?_
            fun p hp => hsteps p (List.mem_cons_of_mem _ hp)).mono ?_
          · rw [List.map_cons, List.nodup_middle]
            exact List.nodup_cons.2 ⟨hnew, hnodup'⟩
          · intro d hd
            rcases List.mem_cons.1 hd with rfl | hd
            · exact hitem
            · exact hdone d hd
          · rintro (e | all) v'' ⟨hlater, hpost⟩
            · exact ⟨hcontinues.trans hlater, by rw [hpost, hleft]⟩
            · obtain ⟨⟨new, rfl, hnew, hfor⟩, hleft'⟩ := hpost
              refine ⟨hcontinues.trans hlater, ⟨d :: new, by simp, by rw [List.map_cons, hnew], ?_⟩,
                by rw [hleft', hleft]⟩
              intro d hd
              rcases List.mem_cons.1 hd with rfl | hd
              · exact ⟨hitem, now, rfl⟩
              · exact hfor d hd

theorem safe_announceChanges {changes : List KeyChange} (hheld : v.holdsLock = true) :
    Safe t (announceChanges t.domain changes) v fun _ v' => v.Continues v'
      ∧ (changes = [] → v'.left = v.left)
      ∧ (changes ≠ [] → ∃ time,
          v'.left = ⟨v.left.zone, v.left.feed ++ [⟨t.domain, changes, time⟩]⟩) := by
  cases changes with
  | nil => exact ⟨v.continues_refl, fun _ => rfl, fun h => absurd rfl h⟩
  | cons change rest =>
      refine ⟨Or.inl hheld, fun now => ⟨rfl, (v.continues_record _).holdsLock.trans hheld, ?_⟩⟩
      have hheld' : (v.record (.carriedOut now)).holdsLock = true :=
        (v.continues_record _).holdsLock.trans hheld
      refine ⟨(v.continues_record _).trans (Standing.continues_leave _ _),
        fun h => absurd h (List.cons_ne_nil _ _), fun _ => ⟨now, ?_⟩⟩
      rw [Standing.left_leave hheld', Standing.left_record]

theorem safe_run (ht : t.SuitsBatches) {plan : Plan} {shape : BatchShape}
    (hheld : v.holdsLock = true) (hidle : v.isCommitting = false) (huntimed : v.isTimed = false)
    (hzone : v.left.zone = some zone) (hkeyed : zone.IsKeyed)
    (hnodup : (plan.steps.map (·.key)).Nodup)
    (hprevious : ∀ item ∈ plan.steps, item.previous = zone.rrsets.get? item.key)
    (hsettles : ∀ v' : Standing, v'.found = v.found →
      v'.left = v.left ∨ plan.IsCarriedOut t.domain v.left v'.left → t.settles v') :
    Safe t (Commit.run t.domain plan shape).run v fun r v' => v.release.Continues v' ∧ match r with
      | .ok _ => plan.IsCarriedOut t.domain v.left v'.left
      | .error _ => v'.left = v.left := by
  let w : Standing := { v with isCommitting := true }
  have hcommits : ¬ w.IsExposed := by
    rintro (h | h)
    · cases h
    · exact absurd h (by simp [w, huntimed])
  change Safe t ((carryOut t.domain plan.steps []).run >>= _) w _
  refine Safe.bind (safe_carryOut (v := w) ht [] hheld hcommits hzone hkeyed
    (by simpa using hnodup) (by simp) hprevious) ?_
  rintro (e | all) v' ⟨hcontinues, hpost⟩
  · have hleft : v'.left = v.left := by
      rw [hpost, ← hzone]
    refine ⟨rfl, rfl, hsettles _ hcontinues.found (Or.inl hleft), ?_, hleft⟩
    exact ⟨rfl, hcontinues.hasEntered, hidle.symm, hcontinues.isTimed, hcontinues.hasTimedOut,
      hcontinues.found, hcontinues.attempts⟩
  · obtain ⟨⟨_, rfl, hsteps, hfor⟩, hleft⟩ := hpost
    have hheld' : v'.holdsLock = true := hcontinues.holdsLock.trans hheld
    change Safe t (announceChanges t.domain _ >>= _) v' _
    refine Safe.bind (safe_announceChanges hheld') ?_
    rintro _ v'' ⟨hlater, hnone, hsome⟩
    have hdone : plan.IsCarriedOut t.domain v.left v''.left := by
      refine ⟨zone, all, hzone, hsteps, hfor, ?_, ?_, ?_⟩
      · cases all with
        | nil => rw [hnone rfl, hleft]
        | cons d rest =>
            obtain ⟨time, h⟩ := hsome (by simp)
            rw [h, hleft]
      · rintro rfl
        rw [hnone rfl, hleft]
      · intro hne
        obtain ⟨time, h⟩ := hsome (by simpa using hne)
        exact ⟨time, by rw [h, hleft]⟩
    refine ⟨rfl, rfl, hsettles _ (hlater.found.trans hcontinues.found) (Or.inr hdone), ?_, hdone⟩
    exact ⟨rfl, hlater.hasEntered.trans hcontinues.hasEntered, hidle.symm,
      hlater.isTimed.trans hcontinues.isTimed, hlater.hasTimedOut.trans hcontinues.hasTimedOut,
      hlater.found.trans hcontinues.found, hlater.attempts.trans hcontinues.attempts⟩

end Commit

end ZoneKeeper
