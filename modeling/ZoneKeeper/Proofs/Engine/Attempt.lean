import ZoneKeeper.Engine.Attempt
import ZoneKeeper.Proofs.Engine.Commit

namespace ZoneKeeper

namespace Zone

def listAt (zone : Zone) (subnames : List String) : List Rrset :=
  subnames.flatMap fun subname => zone.rrsets.values.filter (Filter.ofSubname subname).accepts

theorem mem_listAt {zone : Zone} {subnames : List String} {r : Rrset} :
    r ∈ zone.listAt subnames ↔ (∃ key, zone.rrsets.get? key = some r) ∧ r.subname ∈ subnames := by
  simp only [listAt, List.mem_flatMap, List.mem_filter, SortedMap.mem_values_iff]
  constructor
  · rintro ⟨subname, hmem, hstored, haccepts⟩
    obtain rfl : subname = r.subname := by simpa [Filter.accepts, Filter.ofSubname] using haccepts
    exact ⟨hstored, hmem⟩
  · rintro ⟨hstored, hmem⟩
    exact ⟨r.subname, hmem, hstored, by simp [Filter.accepts, Filter.ofSubname]⟩

theorem get?_snapshot {zone : Zone} (h : zone.IsKeyed) {subnames : List String} {key : Key}
    (hkey : key.subname ∈ subnames) :
    (Snapshot.ofRrsets (zone.listAt subnames)).get? key = zone.rrsets.get? key := by
  rw [Snapshot.ofRrsets, SortedMap.get?_ofList (zone.rrsets.get? ·)]
  · split
    · rfl
    · next hnot =>
        cases hr : zone.rrsets.get? key with
        | none => rfl
        | some r =>
            refine absurd ?_ hnot
            obtain rfl := h key r hr
            simp only [List.map_map, List.mem_map, Function.comp]
            exact ⟨r, mem_listAt.2 ⟨⟨_, hr⟩, hkey⟩, rfl⟩
  · intro e he
    obtain ⟨r, hr, rfl⟩ := List.mem_map.1 he
    obtain ⟨⟨k, hk⟩, -⟩ := mem_listAt.1 hr
    change zone.rrsets.get? r.key = some r
    rw [h k r hk, hk]

end Zone

namespace BatchSource

def Yields (source : BatchSource) (zone : Zone) (batch : Batch) : Prop :=
  match source with
  | .given own => batch = own
  | .derived subname build =>
      build (zone.rrsets.values.filter (Filter.ofSubname subname).accepts) = .ok batch

def Plans (source : BatchSource) (ctx : ReviewContext) (zone : Zone) (plan : Plan) : Prop :=
  ∃ batch, source.Yields zone batch
    ∧ Plan.make ctx batch (.ofRrsets (zone.listAt batch.touchedSubnames)) = .ok plan

def IsCarriedOut (source : BatchSource) (ctx : ReviewContext) (before after : Share) : Prop :=
  ∃ zone plan, before.zone = some zone ∧ zone.IsKeyed ∧ source.Plans ctx zone plan
    ∧ plan.IsCarriedOut ctx.domain before after

end BatchSource

structure Standing.IsReady (v : Standing) : Prop where
  isFree : v.holdsLock = false
  isIdle : v.isCommitting = false
  isUntimed : v.isTimed = false
  isClean : v.IsClean

namespace Attempt

variable {t : Terms} {v : Standing} {zone : Zone} {ctx : ReviewContext} {source : BatchSource}

theorem safe_list (ht : t.SuitsBatches) (hheld : v.holdsLock = true) (hclean : v.IsClean)
    (hzone : v.left.zone = some zone) (filter : Filter) :
    Safe t (Engine.call (.list t.domain filter)).run v fun r v' => v.Keeps v'
      ∧ ∀ rrsets, r = .ok rrsets → rrsets = zone.rrsets.values.filter filter.accepts := by
  refine Safe.call_read rfl (ht.allows _ rfl) rfl hclean hheld ?_
  rintro - o v' - hkeeps
  refine ⟨hkeeps, ?_⟩
  rintro rrsets hr
  cases o with
  | failed e => cases hr
  | carriedOut now =>
      rw [Outcome.call, Zones.call_list, Zones.zone?_only, hzone] at hr
      exact (Except.ok.inj hr).symm

theorem safe_listAt (ht : t.SuitsBatches) (hheld : v.holdsLock = true) (hclean : v.IsClean)
    (hzone : v.left.zone = some zone) (subnames : List String) :
    Safe t (listAt t.domain subnames).run v fun r v' => v.Keeps v'
      ∧ ∀ rrsets, r = .ok rrsets → rrsets = zone.listAt subnames := by
  induction subnames generalizing v with
  | nil =>
      refine ⟨v.keeps_refl, ?_⟩
      rintro _ ⟨⟩
      rfl
  | cons subname rest ih =>
      refine Safe.engine_bind (safe_list ht hheld hclean hzone (.ofSubname subname)) ?_ ?_
      · rintro here v' ⟨hkeeps, hhere⟩
        refine Safe.engine_bind (ih (hkeeps.holdsLock.trans hheld) (hkeeps.isClean hclean)
          (by rw [hkeeps.left, hzone])) ?_ ?_
        · rintro others v'' ⟨hlater, hothers⟩
          refine ⟨hkeeps.trans hlater, ?_⟩
          rintro _ ⟨⟩
          rw [hhere _ rfl, hothers _ rfl]
          rfl
        · rintro e v'' ⟨hlater, -⟩
          exact ⟨hkeeps.trans hlater, by rintro _ ⟨⟩⟩
      · rintro e v' ⟨hkeeps, -⟩
        exact ⟨hkeeps, by rintro _ ⟨⟩⟩

theorem safe_batch (ht : t.SuitsBatches) (hheld : v.holdsLock = true) (hclean : v.IsClean)
    (hzone : v.left.zone = some zone) :
    Safe t (batch t.domain source).run v fun r v' => v.Keeps v'
      ∧ ∀ b, r = .ok b → source.Yields zone b := by
  cases source with
  | given own =>
      refine ⟨v.keeps_refl, ?_⟩
      rintro _ ⟨⟩
      exact rfl
  | derived subname build =>
      refine Safe.engine_bind (safe_list ht hheld hclean hzone (.ofSubname subname)) ?_ ?_
      · rintro stored v' ⟨hkeeps, hstored⟩
        obtain rfl := hstored _ rfl
        exact ⟨hkeeps, fun b hb => hb⟩
      · rintro e v' ⟨hkeeps, -⟩
        exact ⟨hkeeps, by rintro _ ⟨⟩⟩

theorem safe_plan (ht : t.SuitsBatches) (hctx : ctx.domain = t.domain) (hheld : v.holdsLock = true)
    (hclean : v.IsClean) :
    Safe t (plan ctx source).run v fun r v' => v.Keeps v'
      ∧ ∀ plan shape, r = .ok (plan, shape) → ∃ zone, v.left.zone = some zone
          ∧ t.sees t.domain (some zone) ∧ source.Plans ctx zone plan := by
  have hget : Safe t (Engine.call (.getDomain t.domain)).run v fun r v' => v.Keeps v'
      ∧ t.sees t.domain v.left.zone
      ∧ ∀ found, r = .ok found → found = v.left.zone.map (·.domain) := by
    refine Safe.call_read rfl (ht.allows _ rfl) rfl hclean hheld ?_
    rintro hsees o v' - hkeeps
    refine ⟨hkeeps, hsees, ?_⟩
    rintro found hr
    cases o with
    | failed e => cases hr
    | carriedOut now =>
        rw [Outcome.call, Zones.call_getDomain, Zones.zone?_only] at hr
        exact (Except.ok.inj hr).symm
  rw [plan, hctx]
  refine Safe.engine_bind hget ?_ ?_
  · rintro found v₁ ⟨hkeeps₁, hsees, hfound⟩
    obtain rfl := hfound _ rfl
    cases hzone : v.left.zone with
    | none => exact ⟨hkeeps₁, by rintro _ _ ⟨⟩⟩
    | some zone =>
        have hheld₁ := hkeeps₁.holdsLock.trans hheld
        have hclean₁ := hkeeps₁.isClean hclean
        have hzone₁ : v₁.left.zone = some zone := by rw [hkeeps₁.left, hzone]
        refine Safe.engine_bind (safe_batch ht hheld₁ hclean₁ hzone₁) ?_ ?_
        · rintro b v₂ ⟨hkeeps₂, hyields⟩
          refine Safe.engine_bind (safe_listAt ht (hkeeps₂.holdsLock.trans hheld₁)
            (hkeeps₂.isClean hclean₁) (by rw [hkeeps₂.left, hzone₁]) b.touchedSubnames) ?_ ?_
          · rintro stored v₃ ⟨hkeeps₃, hstored⟩
            obtain rfl := hstored _ rfl
            have hkeeps := (hkeeps₁.trans hkeeps₂).trans hkeeps₃
            split
            · next made hmade =>
                refine ⟨hkeeps, ?_⟩
                rintro _ _ ⟨⟩
                exact ⟨zone, rfl, hzone ▸ hsees, b, hyields b rfl, hmade⟩
            · exact ⟨hkeeps, by rintro _ _ ⟨⟩⟩
          · rintro e v₃ ⟨hkeeps₃, -⟩
            exact ⟨(hkeeps₁.trans hkeeps₂).trans hkeeps₃, by rintro _ _ ⟨⟩⟩
        · rintro e v₂ ⟨hkeeps₂, -⟩
          exact ⟨hkeeps₁.trans hkeeps₂, by rintro _ _ ⟨⟩⟩
  · rintro e v₁ ⟨hkeeps₁, -⟩
    exact ⟨hkeeps₁, by rintro _ _ ⟨⟩⟩

theorem safe_prepareWithin (ht : t.SuitsBatches) (hctx : ctx.domain = t.domain) (hv : v.IsReady)
    (milliseconds : Nat) :
    Safe t (prepareWithin milliseconds ctx source).run v fun r v' => match r with
      | .ok (plan, _) => v'.holdsLock = true ∧ v'.hasEntered = true ∧ v'.isCommitting = false
          ∧ v'.isTimed = false ∧ v'.left = v'.found
          ∧ ∃ zone, v'.found.zone = some zone ∧ t.sees t.domain (some zone)
            ∧ source.Plans ctx zone plan
      | .error e => v'.IsClean ∧ (e.isRetryable = true → v'.IsReady) := by
  refine Safe.bind_iff.2 ⟨hv.isFree, hv.isClean, ?_, ?_⟩
  · refine Safe.bind_iff.2 (Safe.bind_iff.2 ⟨hctx, hv.isFree, rfl, ?_⟩)
    intro share hsees
    refine Safe.bind (safe_plan ht hctx (v := v.begin.enter share) rfl fun _ => rfl) ?_
    rintro (e | ⟨plan, shape⟩) v' ⟨hkeeps, hplans⟩
    · have hclean : v'.IsClean := hkeeps.isClean fun _ => rfl
      exact ⟨hctx, hclean, fun _ => ⟨rfl, hkeeps.isCommitting.trans hv.isIdle, rfl, hclean⟩⟩
    · obtain ⟨zone, hzone, hsees, hplans⟩ := hplans plan shape rfl
      refine ⟨hkeeps.holdsLock, hkeeps.hasEntered, hkeeps.isCommitting.trans hv.isIdle, rfl,
        hkeeps.left.trans hkeeps.found.symm, zone, ?_, hsees, hplans⟩
      exact (congrArg Share.zone hkeeps.found).trans hzone
  · intro v' hclean
    exact ⟨hctx, fun h => absurd h Bool.false_ne_true, fun h => absurd h Bool.false_ne_true⟩

theorem safe_run (ht : t.SuitsBatches) {settings : EngineSettings} {domain : Domain}
    {job : BatchJob}
    (hname : domain.name = t.domain) (hv : v.IsReady)
    (hsettles : ∀ v' : Standing, v'.left = v'.found
      ∨ job.source.IsCarriedOut (context settings domain job) v'.found v'.left → t.settles v') :
    Safe t (run settings domain job).run v fun r v' => match r with
      | .ok _ => v'.hasEntered = true
          ∧ job.source.IsCarriedOut (context settings domain job) v'.found v'.left
      | .error e => v'.IsClean ∧ (e.isRetryable = true → v'.IsReady) := by
  refine Safe.engine_bind (safe_prepareWithin ht hname hv settings.requestTimeout) ?_ ?_
  · rintro ⟨plan, shape⟩ v' ⟨hheld, hentered, hidle, huntimed, hleft, zone, hzone, hsees, hplans⟩
    have hplans' := hplans
    obtain ⟨batch, -, hmade⟩ := hplans'
    have hkeyed := t.isKeyed hsees
    have hprevious : ∀ item ∈ plan.steps, item.previous = zone.rrsets.get? item.key := by
      intro item hitem
      have hmem := (Plan.mem_steps hitem).1
      rw [Plan.previous_eq hmade hmem,
        Zone.get?_snapshot hkeyed (Plan.mem_touchedSubnames hmade hmem)]
    have hdone {after : Share} (h : plan.IsCarriedOut t.domain v'.left after) :
        job.source.IsCarriedOut (context settings domain job) v'.found after :=
      ⟨zone, plan, hzone, hkeyed, hplans, by
        rw [← hleft, show (context settings domain job).domain = t.domain from hname]
        exact h⟩
    change Safe t (Commit.run domain.name plan shape).run v' _
    rw [hname]
    refine (Commit.safe_run ht hheld hidle huntimed (by rw [hleft, hzone]) hkeyed
      (Plan.nodup_step_keys hmade) hprevious ?_).mono ?_
    · intro w hfound hw
      apply hsettles w
      rw [hfound]
      exact hw.imp (fun h => h.trans hleft) hdone
    · rintro (e | outcome) w ⟨hcontinues, hw⟩
      · have hclean : w.IsClean := fun _ => by rw [hw, hleft, hcontinues.found]; rfl
        exact ⟨hclean, fun _ => ⟨hcontinues.holdsLock, hcontinues.isCommitting.trans hidle,
          hcontinues.isTimed.trans huntimed, hclean⟩⟩
      · refine ⟨hcontinues.hasEntered.trans hentered, ?_⟩
        rw [hcontinues.found]
        exact hdone hw
  · intro e v' h
    exact h

theorem safe_retrying {α : Type} {settings : EngineSettings} {p : Engine α}
    {P : α → Standing → Prop}
    (hp : ∀ v : Standing, v.IsReady → Safe t p.run v fun r v' => match r with
      | .ok a => P a v'
      | .error e => v'.IsClean ∧ (e.isRetryable = true → v'.IsReady))
    (retries attempt : Nat) (hv : v.IsReady) :
    Safe t (retrying settings p retries attempt).run v fun r v' => match r with
      | .ok a => P a v'
      | .error _ => v'.IsClean := by
  induction retries generalizing v attempt with
  | zero =>
      refine (hp v hv).mono ?_
      rintro (e | a) v' h
      · exact h.1
      · exact h
  | succ retries ih =>
      refine Safe.bind (hp v hv) ?_
      rintro (e | a) v' h
      · dsimp only
        split
        · next hretryable => exact ⟨h.1, ih (attempt + 1) (h.2 hretryable)⟩
        · exact h.1
      · exact h

end Attempt

end ZoneKeeper
