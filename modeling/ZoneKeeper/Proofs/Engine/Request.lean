import ZoneKeeper.Proofs.Engine.Attempt
import ZoneKeeper.Proofs.Zone.Name

namespace ZoneKeeper

namespace Request

def job? (settings : EngineSettings) : Request → Option BatchJob
  | .delete _ _ key => some ⟨.update, .given (.ofItem (.clearing key.subname key.type)), none⟩
  | .write _ _ operation payload minimumTtl =>
      match Batch.ofJson payload with
      | .ok batch => some ⟨operation, .given batch, minimumTtl⟩
      | .error _ => none
  | .derive _ _ operation subname build minimumTtl =>
      some ⟨operation, .derived subname build, minimumTtl⟩
  | .checkIn _ _ asked =>
      match familyUpdates asked with
      | .ok [] => none
      | .ok updates =>
          some ⟨.update, .derived "" fun apex => .ok (checkInBatch settings.checkIn updates apex),
            some settings.checkIn.minimumTtl⟩
      | .error _ => none
  | _ => none

def isBatch : Request → Bool
  | .delete .. => true
  | .write .. => true
  | .derive .. => true
  | .checkIn .. => true
  | _ => false

def accepts : Request → Except Error Reply → Bool
  | .createDomain .., .ok _ => true
  | .deleteDomain .., .ok _ => true
  | .delete .., .ok _ => true
  | .write .., .ok _ => true
  | .derive .., .ok _ => true
  | .checkIn .., .ok (.status .good) => true
  | _, _ => false

def IsApplied (settings : EngineSettings) (r : Request) (domain : Domain) (before after : Share) :
    Prop :=
  ∃ job, r.job? settings = some job
    ∧ job.source.IsCarriedOut (Attempt.context settings domain job) before after

def Leads (R : Regime) (settings : EngineSettings) (r : Request) (before after : Share) : Prop :=
  match r with
  | .createDomain principal _ minimumTtl => before.zone = none ∧ after.feed = before.feed
      ∧ ∃ time, after.zone = some ⟨⟨r.domainName, principal.id,
          minimumTtl.getD settings.minimumTtl, time, none⟩, SortedMap.empty⟩
  | .deleteDomain .. => ∃ zone time, before.zone = some zone
      ∧ after = ⟨none, before.feed ++
          [⟨r.domainName, zone.rrsets.values.map fun s => .deleted s.key, time⟩]⟩
  | _ => ∃ zone, R.sees r.domainName (some zone) ∧ r.IsApplied settings zone.domain before after

theorem Leads.isApplied {R : Regime} {settings : EngineSettings} {r : Request}
    {before after : Share} (h : r.Leads R settings before after) (hbatch : r.isBatch = true) :
    ∃ zone, R.sees r.domainName (some zone) ∧ r.IsApplied settings zone.domain before after := by
  cases r <;> first | exact h | exact absurd hbatch Bool.false_ne_true

def Ends (R : Regime) (settings : EngineSettings) (r : Request) (result : Except Error Reply)
    (v : Standing) : Prop :=
  if r.accepts result then v.hasEntered = true ∧ r.Leads R settings v.found v.left else v.IsClean

end Request

def Regime.law (R : Regime) (settings : EngineSettings) : Law :=
  { R with
    settles := fun r v => v.left = v.found ∨ r.Leads R settings v.found v.left
    ends := fun r => r.Ends R settings }

structure Standing.IsNew (v : Standing) : Prop where
  isFree : v.holdsLock = false
  isOut : v.hasEntered = false
  isIdle : v.isCommitting = false
  isUntimed : v.isTimed = false
  isFirst : v.attempts = 0

namespace Standing

variable {v v' : Standing}

theorem isNew_fresh : fresh.IsNew := ⟨rfl, rfl, rfl, rfl, rfl⟩

theorem IsNew.isClean (h : v.IsNew) : v.IsClean := fun hentered =>
  absurd (h.isOut.symm.trans hentered) Bool.false_ne_true

theorem IsNew.isReady (h : v.IsNew) : v.IsReady := ⟨h.isFree, h.isIdle, h.isUntimed, h.isClean⟩

theorem IsNew.keeps (h : v.IsNew) (hkeeps : v.Keeps v') : v'.IsNew :=
  ⟨hkeeps.holdsLock.trans h.isFree, hkeeps.hasEntered.trans h.isOut,
    hkeeps.isCommitting.trans h.isIdle, hkeeps.isTimed.trans h.isUntimed,
    hkeeps.attempts.trans h.isFirst⟩

end Standing

namespace Request

open Engine

variable {t : Terms} {v : Standing} {settings : EngineSettings} {principal : Principal}
  {name : String}

theorem safe_look {c : StoreCall} {P : c.Answer → Standing → Prop}
    (hdomain : c.domain? = some t.domain) (hallows : t.allows c) (hread : c.isRead = true)
    (hv : v.IsNew)
    (hpost : ∀ zone (o : Outcome) v', t.sees t.domain zone → v.Keeps v' →
      P (o.call c (.only t.domain zone)).1 v') :
    Safe t (EngineProgram.call c) v P := by
  refine ⟨hdomain, hallows, StoreCall.isKeyed_of_isRead hread, fun _ => hv.isClean,
    Or.inr ⟨hread, hv.isFirst⟩, ?_⟩
  intro zone o hsees _ _
  refine hpost zone o _ hsees ?_
  have hfree : (v.record o).holdsLock = false :=
    (v.continues_record o).holdsLock.trans hv.isFree
  rw [Standing.leave, if_neg (by rw [hfree]; exact Bool.false_ne_true)]
  exact v.keeps_record o

theorem safe_visibleDomain (ht : t.SuitsBatches) (hname : normalizeDomain name = t.domain)
    (hv : v.IsNew) :
    Safe t (visibleDomain principal name).run v fun r v' => v.Keeps v'
      ∧ ∀ found, r = .ok found →
          principal.owns found = true
            ∧ ∃ zone, t.sees t.domain (some zone) ∧ zone.domain = found := by
  have hget : Safe t (Engine.call (.getDomain t.domain)).run v fun r v' => v.Keeps v'
      ∧ ∀ found, r = .ok (some found) →
          ∃ zone, t.sees t.domain (some zone) ∧ zone.domain = found := by
    refine safe_look rfl (ht.allows _ rfl) rfl hv ?_
    intro zone o v' hsees hkeeps
    refine ⟨hkeeps, ?_⟩
    intro found hr
    cases o with
    | failed e => cases hr
    | carriedOut now =>
        rw [Outcome.call, Zones.call_getDomain, Zones.zone?_only] at hr
        obtain ⟨zone, rfl, hfound⟩ := Option.map_eq_some_iff.1 (Except.ok.inj hr)
        exact ⟨zone, hsees, hfound⟩
  rw [visibleDomain, hname]
  refine Safe.engine_bind hget ?_ ?_
  · rintro (_ | found) v' ⟨hkeeps, hfound⟩
    · exact ⟨hkeeps, by rintro _ ⟨⟩⟩
    · dsimp only
      split
      · next howns =>
          refine ⟨hkeeps, ?_⟩
          rintro _ ⟨⟩
          exact ⟨howns, hfound _ rfl⟩
      · exact ⟨hkeeps, by rintro _ ⟨⟩⟩
  · rintro e v' ⟨hkeeps, -⟩
    exact ⟨hkeeps, by rintro _ ⟨⟩⟩

theorem safe_applyFor (ht : t.SuitsBatches) (hname : normalizeDomain name = t.domain)
    (hv : v.IsNew) {job : BatchJob}
    (hsettles : ∀ (v' : Standing) zone, t.sees t.domain (some zone) → v'.left = v'.found
      ∨ job.source.IsCarriedOut (Attempt.context settings zone.domain job) v'.found v'.left →
      t.settles v') :
    Safe t (applyFor settings principal name job).run v fun r v' => match r with
      | .ok _ => v'.hasEntered = true ∧ ∃ zone, t.sees t.domain (some zone)
          ∧ job.source.IsCarriedOut (Attempt.context settings zone.domain job) v'.found v'.left
      | .error _ => v'.IsClean := by
  refine Safe.engine_bind (safe_visibleDomain ht hname hv) ?_ ?_
  · rintro found v' ⟨hkeeps, hfound⟩
    obtain ⟨-, zone, hsees, rfl⟩ := hfound _ rfl
    have hready := (hv.keeps hkeeps).isReady
    refine (Attempt.safe_retrying (P := fun _ w => w.hasEntered = true
      ∧ job.source.IsCarriedOut (Attempt.context settings zone.domain job) w.found w.left)
      (fun w hw => ?_) settings.maxRetries 0 hready).mono ?_
    · refine (Attempt.safe_run ht (t.isNamed hsees) hw fun w' hw' =>
        hsettles w' zone hsees hw').mono ?_
      rintro (e | outcome) w' h
      · exact h
      · exact h
    rintro (e | outcome) w hw
    · exact hw
    · exact ⟨hw.1, zone, hsees, hw.2⟩
  · rintro e v' ⟨hkeeps, -⟩
    exact (hv.keeps hkeeps).isClean

theorem safe_check {error? : Option Error} :
    Safe t (check error?).run v fun _ v' => v' = v := by
  cases error? with
  | none => exact rfl
  | some e => exact rfl

theorem safe_create (hallows : ∀ c, t.allows c) {domain : Domain} (hname : domain.name = t.domain)
    (hheld : v.holdsLock = true) (hclean : v.IsClean) :
    Safe t (Engine.call (.createDomain domain) >>= fun _ => pure domain).run v fun r v' =>
      v.Continues v' ∧ match r with
        | .ok _ => v.left.zone = none
            ∧ v'.left = ⟨some ⟨domain, SortedMap.empty⟩, v.left.feed⟩
        | .error _ => v'.left = v.left := by
  refine Safe.bind (Safe.call_held (c := .createDomain domain) (congrArg some hname) (hallows _)
    trivial (fun _ => hclean) hheld (P := fun r v' => v.Continues v' ∧ match r with
      | .ok _ => v.left.zone = none ∧ v'.left = ⟨some ⟨domain, SortedMap.empty⟩, v.left.feed⟩
      | .error _ => v'.left = v.left) ?_) ?_
  · intro _ o v' _ hcontinues hleft
    refine ⟨hcontinues, ?_⟩
    cases o with
    | failed e => rw [hleft, Outcome.call, Zones.zone?_only]
    | carriedOut now =>
        cases hzone : v.left.zone with
        | none =>
            have hnone : Zones.zone? (.only t.domain none) domain.name = none := by
              rw [hname, Zones.zone?_only]
            have hcall := Zones.call_createDomain_of_none hnone now
            rw [hzone, Outcome.call, hcall, ← hname, Zones.zone?_insert_self] at hleft
            rw [Outcome.call, hcall]
            exact ⟨rfl, hleft⟩
        | some zone =>
            have hsome : Zones.zone? (.only t.domain (some zone)) domain.name = some zone := by
              rw [hname, Zones.zone?_only]
            have hcall := Zones.call_createDomain_of_some hsome now
            rw [hzone, Outcome.call, hcall, Zones.zone?_only, ← hzone] at hleft
            rw [Outcome.call, hcall]
            exact hleft
  · rintro (e | a) v' h
    · exact h
    · exact h

theorem safe_createDomainFor (hallows : ∀ c, t.allows c) (hname : normalizeDomain name = t.domain)
    (hv : v.IsNew) {minimumTtl : Option Nat} {create : Engine Domain}
    (hcreate : createDomainFor settings principal name minimumTtl = create) :
    Safe t create.run v fun r v' => match r with
      | .ok _ => v'.hasEntered = true ∧ v'.found.zone = none ∧ v'.left.feed = v'.found.feed
          ∧ ∃ time, v'.left.zone = some ⟨⟨t.domain, principal.id,
              minimumTtl.getD settings.minimumTtl, time, none⟩, SortedMap.empty⟩
      | .error _ => v'.IsClean := by
  have hmake (now : Instant) : Domain.make t.domain principal.id
      (minimumTtl.getD settings.minimumTtl) now
        = ⟨t.domain, principal.id, minimumTtl.getD settings.minimumTtl, now, none⟩ := by
    rw [Domain.make, ← hname, normalizeDomain_normalizeDomain]
  rw [← hcreate, createDomainFor, hname]
  generalize nameError? t.domain = nameError?
  refine Safe.engine_bind safe_check ?_ ?_
  · rintro _ v₁ rfl
    refine Safe.engine_bind safe_check ?_ ?_
    · rintro _ v₂ rfl
      refine Safe.bind_iff.2 ⟨rfl, hv.isFree, hv.isOut, ?_⟩
      intro share _
      refine Safe.bind_iff.2 ⟨Or.inl rfl, fun now => ?_⟩
      have hkeeps := (v₂.enter share).keeps_record (.carriedOut now)
      refine (safe_create hallows (congrArg Domain.name (hmake now)) hkeeps.holdsLock
        (hkeeps.isClean fun _ => rfl)).mono ?_
      rintro (e | domain) v' ⟨hcontinues, hleft⟩
      · refine ⟨rfl, fun _ => ?_⟩
        change v'.left = v'.found
        rw [hleft, hkeeps.left, hcontinues.found, hkeeps.found]
        rfl
      · refine ⟨rfl, hcontinues.hasEntered.trans hkeeps.hasEntered, ?_, ?_, now, ?_⟩
        · change v'.found.zone = none
          rw [hcontinues.found, ← hleft.1, hkeeps.left, hkeeps.found]
          rfl
        · change v'.left.feed = v'.found.feed
          rw [hleft.2, hkeeps.left, hcontinues.found, hkeeps.found]
          rfl
        · change v'.left.zone = _
          rw [← hmake now, hleft.2]
    · rintro e v₂ rfl
      exact hv.isClean
  · rintro e v₁ rfl
    exact hv.isClean

theorem accepts_all (r : Rrset) : Filter.all.accepts r = true := rfl

theorem safe_delete (hallows : ∀ c, t.allows c) (hheld : v.holdsLock = true) (hclean : v.IsClean) :
    Safe t (call (.deleteDomain t.domain)).run v fun r v' => v.Continues v' ∧ match r with
      | .ok found => found = v.left.zone.isSome ∧ v'.left = ⟨none, v.left.feed⟩
      | .error _ => v'.left = v.left := by
  refine Safe.call_held (c := .deleteDomain t.domain) rfl (hallows _) trivial (fun _ => hclean)
    hheld ?_
  intro _ o v' _ hcontinues hleft
  refine ⟨hcontinues, ?_⟩
  cases o with
  | failed e =>
      rw [Outcome.call, Zones.zone?_only] at hleft
      exact hleft
  | carriedOut now =>
      rw [Outcome.call, Zones.call_deleteDomain, Zones.zone?_erase_self] at hleft
      rw [Outcome.call, Zones.call_deleteDomain, Zones.zone?_only]
      exact ⟨rfl, hleft⟩

theorem safe_remove (hallows : ∀ c, t.allows c) (hheld : v.holdsLock = true) (hclean : v.IsClean) :
    Safe t (do
        let rrsets : List Rrset ← call (.list t.domain .all)
        let found : Bool ← call (.deleteDomain t.domain)
        if found then
          let now ← EngineProgram.readClock
          EngineProgram.announce ⟨t.domain, rrsets.map fun r => .deleted r.key, now⟩
        else throw (.noDomain t.domain) : Engine Unit).run v fun r v' =>
      v.Continues v' ∧ match r with
        | .ok _ => ∃ zone time, v.left.zone = some zone
            ∧ v'.left = ⟨none, v.left.feed ++
                [⟨t.domain, zone.rrsets.values.map fun s => .deleted s.key, time⟩]⟩
        | .error _ => v'.left = v.left := by
  have hlist : Safe t (call (.list t.domain .all)).run v fun r v' => v.Keeps v'
      ∧ ∀ rrsets zone, r = .ok rrsets → v.left.zone = some zone → rrsets = zone.rrsets.values := by
    refine Safe.call_read rfl (hallows _) rfl hclean hheld ?_
    rintro - o v' - hkeeps
    refine ⟨hkeeps, ?_⟩
    intro rrsets zone hr hzone
    cases o with
    | failed e => cases hr
    | carriedOut now =>
        rw [Outcome.call, Zones.call_list, Zones.zone?_only, hzone] at hr
        rw [← Except.ok.inj hr]
        exact List.filter_eq_self.2 fun r _ => accepts_all r
  refine Safe.engine_bind hlist ?_ ?_
  · rintro rrsets v₁ ⟨hkeeps, hrrsets⟩
    have hheld₁ := hkeeps.holdsLock.trans hheld
    refine Safe.engine_bind (safe_delete hallows hheld₁ (hkeeps.isClean hclean)) ?_ ?_
    · rintro found v₂ ⟨hcontinues, rfl, hleft⟩
      rw [hkeeps.left] at hleft ⊢
      cases hzone : v.left.zone with
      | none =>
          refine ⟨hkeeps.toContinues.trans hcontinues, ?_⟩
          change v₂.left = v.left
          rw [hleft, ← hzone]
      | some zone =>
          obtain rfl := hrrsets rrsets zone rfl hzone
          have hheld₂ := hcontinues.holdsLock.trans hheld₁
          refine Safe.bind_iff.2 ⟨Or.inl hheld₂, fun now => ?_⟩
          have hlater := v₂.keeps_record (.carriedOut now)
          have hheld₃ := hlater.holdsLock.trans hheld₂
          refine Safe.bind_iff.2 ⟨rfl, hheld₃, ?_⟩
          refine ⟨(hkeeps.toContinues.trans hcontinues).trans
            (hlater.toContinues.trans (Standing.continues_leave _ _)), zone, now, rfl, ?_⟩
          rw [Standing.left_leave hheld₃, hlater.left, hleft]
    · rintro e v₂ ⟨hcontinues, hleft⟩
      exact ⟨hkeeps.toContinues.trans hcontinues, hleft.trans hkeeps.left⟩
  · rintro e v₁ ⟨hkeeps, -⟩
    exact ⟨hkeeps.toContinues, hkeeps.left⟩

theorem safe_deleteDomainFor (hallows : ∀ c, t.allows c) (ht : t.SuitsBatches)
    (hname : normalizeDomain name = t.domain) (hv : v.IsNew) :
    Safe t (deleteDomainFor principal name).run v fun r v' => match r with
      | .ok _ => v'.hasEntered = true ∧ ∃ zone time, v'.found.zone = some zone
          ∧ v'.left = ⟨none, v'.found.feed ++
              [⟨t.domain, zone.rrsets.values.map fun s => .deleted s.key, time⟩]⟩
      | .error _ => v'.IsClean := by
  refine Safe.engine_bind (safe_visibleDomain ht hname hv) ?_ ?_
  · rintro domain v₁ ⟨hkeeps, hdomain⟩
    obtain ⟨-, zone, hsees, rfl⟩ := hdomain _ rfl
    rw [t.isNamed hsees]
    have hv₁ := hv.keeps hkeeps
    refine Safe.bind_iff.2 ⟨rfl, hv₁.isFree, hv₁.isOut, ?_⟩
    intro share _
    refine Safe.bind (safe_remove hallows (v := v₁.enter share) rfl fun _ => rfl) ?_
    rintro (e | _) v' ⟨hcontinues, hleft⟩
    · refine ⟨rfl, fun _ => ?_⟩
      change v'.left = v'.found
      rw [hleft, hcontinues.found]
      rfl
    · obtain ⟨zone, time, hzone, hleft⟩ := hleft
      refine ⟨rfl, hcontinues.hasEntered, zone, time, ?_, ?_⟩
      · change v'.found.zone = some zone
        rw [hcontinues.found]
        exact hzone
      · change v'.left = _
        rw [hleft]
        change _ = (⟨none, v'.found.feed ++ _⟩ : Share)
        rw [hcontinues.found]
        rfl
  · rintro e v₁ ⟨hkeeps, -⟩
    exact (hv.keeps hkeeps).isClean

theorem safe_lookAt (ht : t.SuitsBatches) (hname : normalizeDomain name = t.domain) (hv : v.IsNew)
    {α : Type} {next : Domain → Engine α}
    (hnext : ∀ found (w : Standing), found.name = t.domain → w.IsNew →
      Safe t (next found).run w fun _ w' => w'.IsClean) :
    Safe t (visibleDomain principal name >>= next).run v fun _ v' => v'.IsClean := by
  refine Safe.engine_bind (safe_visibleDomain ht hname hv) ?_ ?_
  · rintro found v₁ ⟨hkeeps, hfound⟩
    obtain ⟨-, zone, hsees, rfl⟩ := hfound _ rfl
    exact hnext _ v₁ (t.isNamed hsees) (hv.keeps hkeeps)
  · rintro e v₁ ⟨hkeeps, -⟩
    exact (hv.keeps hkeeps).isClean

theorem safe_getFor (hallows : ∀ c, t.allows c) (ht : t.SuitsBatches)
    (hname : normalizeDomain name = t.domain) (hv : v.IsNew) {key : Key} :
    Safe t (getFor principal name key).run v fun _ v' => v'.IsClean := by
  refine safe_lookAt ht hname hv ?_
  intro found w hfound hw
  refine Safe.engine_bind safe_check ?_ ?_
  · rintro _ _ rfl
    refine Safe.engine_bind (safe_look (congrArg some hfound) (hallows _) rfl hw
      (P := fun _ w => w.IsClean) fun _ _ w' _ hkeeps => (hw.keeps hkeeps).isClean) ?_ ?_
    · rintro (_ | rrset) w' hclean
      · exact hclean
      · exact hclean
    · intro e w' hclean
      exact hclean
  · rintro e _ rfl
    exact hw.isClean

theorem safe_listFor (hallows : ∀ c, t.allows c) (ht : t.SuitsBatches)
    (hname : normalizeDomain name = t.domain) (hv : v.IsNew) {filter : Filter} :
    Safe t (listFor principal name filter).run v fun _ v' => v'.IsClean := by
  refine safe_lookAt ht hname hv ?_
  intro found w hfound hw
  refine Safe.engine_bind safe_check ?_ ?_
  · rintro _ _ rfl
    refine Safe.engine_bind (safe_look (congrArg some hfound) (hallows _) rfl hw
      (P := fun _ w => w.IsClean) fun _ _ w' _ hkeeps => (hw.keeps hkeeps).isClean) ?_ ?_
    · intro rrsets w' hclean
      exact hclean
    · intro e w' hclean
      exact hclean
  · rintro e _ rfl
    exact hw.isClean

theorem safe_deleteFor (ht : t.SuitsBatches) (hname : normalizeDomain name = t.domain)
    (hv : v.IsNew) {key : Key}
    (hsettles : ∀ job, job? settings (.delete principal name key) = some job →
      ∀ (v' : Standing) zone, t.sees t.domain (some zone) → v'.left = v'.found
        ∨ job.source.IsCarriedOut (Attempt.context settings zone.domain job) v'.found v'.left →
      t.settles v') :
    Safe t (deleteFor settings principal name key).run v fun r v' => match r with
      | .ok _ => v'.hasEntered = true ∧ ∃ zone, t.sees t.domain (some zone)
          ∧ IsApplied settings (.delete principal name key) zone.domain v'.found v'.left
      | .error _ => v'.IsClean := by
  refine Safe.engine_bind safe_check ?_ ?_
  · rintro _ _ rfl
    refine Safe.engine_bind (safe_applyFor ht hname hv (hsettles _ rfl)) ?_ ?_
    · rintro outcome w ⟨hentered, zone, hsees, hdone⟩
      exact ⟨hentered, zone, hsees, _, rfl, hdone⟩
    · intro e w hw
      exact hw
  · rintro e _ rfl
    exact hv.isClean

theorem safe_mergeCheckIn (ht : t.SuitsBatches) (hname : normalizeDomain name = t.domain)
    (hv : v.IsNew) {asked : CheckIn}
    (hsettles : ∀ job, job? settings (.checkIn principal name asked) = some job →
      ∀ (v' : Standing) zone, t.sees t.domain (some zone) → v'.left = v'.found
        ∨ job.source.IsCarriedOut (Attempt.context settings zone.domain job) v'.found v'.left →
      t.settles v') :
    Safe t (mergeCheckIn settings principal name asked).run v fun r v' => match r with
      | .ok .good => v'.hasEntered = true ∧ ∃ zone, t.sees t.domain (some zone)
          ∧ IsApplied settings (.checkIn principal name asked) zone.domain v'.found v'.left
      | _ => v'.IsClean := by
  refine Safe.engine_bind (safe_visibleDomain ht hname hv) ?_ ?_
  · rintro found v₁ ⟨hkeeps, -⟩
    have hv₁ := hv.keeps hkeeps
    cases hupdates : familyUpdates asked with
    | error flaw => exact hv₁.isClean
    | ok updates =>
        cases updates with
        | nil => exact hv₁.isClean
        | cons update rest =>
            have hjob : job? settings (.checkIn (some principal) name asked) = some ⟨.update,
                .derived "" fun apex => .ok (checkInBatch settings.checkIn (update :: rest) apex),
                some settings.checkIn.minimumTtl⟩ := by
              simp only [job?, hupdates]
            refine Safe.engine_bind (safe_applyFor ht hname hv₁ (hsettles _ hjob)) ?_ ?_
            · rintro outcome w ⟨hentered, zone, hsees, hdone⟩
              exact ⟨hentered, zone, hsees, _, hjob, hdone⟩
            · intro e w hw
              exact hw
  · rintro e v₁ ⟨hkeeps, -⟩
    exact (hv.keeps hkeeps).isClean

theorem safe_checkInFor (ht : t.SuitsBatches) (hname : normalizeDomain name = t.domain)
    (hv : v.IsNew) {principal : Option Principal} {asked : CheckIn}
    (hsettles : ∀ job, job? settings (.checkIn principal name asked) = some job →
      ∀ (v' : Standing) zone, t.sees t.domain (some zone) → v'.left = v'.found
        ∨ job.source.IsCarriedOut (Attempt.context settings zone.domain job) v'.found v'.left →
      t.settles v') :
    Safe t (checkInFor settings principal name asked) v fun status v' =>
      if status = .good then v'.hasEntered = true ∧ ∃ zone, t.sees t.domain (some zone)
          ∧ IsApplied settings (.checkIn principal name asked) zone.domain v'.found v'.left
      else v'.IsClean := by
  cases principal with
  | none => exact hv.isClean
  | some principal =>
      refine Safe.bind (safe_mergeCheckIn ht hname hv hsettles) ?_
      rintro (e | status) v' h
      · have hbad : CheckInStatus.ofError e ≠ .good := by
          cases e <;> simp [CheckInStatus.ofError]
        change ite _ _ _
        rw [if_neg hbad]
        exact h
      · cases status <;> exact h

theorem keeps_law (R : Regime) (hR : R.SuitsBatches) (settings : EngineSettings) (r : Request)
    (hallows : r.isBatch = false → ∀ c, R.allows c) : (R.law settings).IsKeptBy settings r := by
  have hnew := Standing.isNew_fresh
  have ht : ((R.law settings).terms r).SuitsBatches := hR
  rw [Law.IsKeptBy]
  cases r with
  | createDomain principal name minimumTtl =>
      rw [Request.run]
      generalize hcreate : createDomainFor settings principal name minimumTtl = create
      refine Safe.engine_bind (safe_createDomainFor (hallows rfl) rfl hnew hcreate) ?_ ?_
      · intro domain v h
        exact h
      · intro e v h
        exact h
  | deleteDomain principal name =>
      refine Safe.engine_bind (safe_deleteDomainFor (hallows rfl) ht rfl hnew) ?_ ?_
      · intro _ v h
        exact h
      · intro e v h
        exact h
  | domain principal name =>
      refine Safe.engine_bind (safe_visibleDomain ht rfl hnew) ?_ ?_
      · rintro found v ⟨hkeeps, -⟩
        exact (hnew.keeps hkeeps).isClean
      · rintro e v ⟨hkeeps, -⟩
        exact (hnew.keeps hkeeps).isClean
  | get principal name key =>
      refine Safe.engine_bind (safe_getFor (hallows rfl) ht rfl hnew) ?_ ?_
      · intro view v h
        exact h
      · intro e v h
        exact h
  | list principal name filter =>
      refine Safe.engine_bind (safe_listFor (hallows rfl) ht rfl hnew) ?_ ?_
      · intro views v h
        exact h
      · intro e v h
        exact h
  | delete principal name key =>
      refine Safe.engine_bind (safe_deleteFor ht rfl hnew ?_) ?_ ?_
      · intro job hjob v' zone hsees h
        exact h.imp_right fun h => ⟨zone, hsees, job, hjob, h⟩
      · intro found v h
        exact h
      · intro e v h
        exact h
  | write principal name operation payload minimumTtl =>
      rw [Request.run]
      cases hbatch : Batch.ofJson payload with
      | error errors => exact hnew.isClean
      | ok batch =>
          have hjob : job? settings (.write principal name operation payload minimumTtl)
              = some ⟨operation, .given batch, minimumTtl⟩ := by
            simp only [job?, hbatch]
          refine Safe.engine_bind (safe_applyFor ht rfl hnew ?_) ?_ ?_
          · intro v' zone hsees h
            exact h.imp_right fun h => ⟨zone, hsees, _, hjob, h⟩
          · rintro outcome v ⟨hentered, zone, hsees, h⟩
            exact ⟨hentered, zone, hsees, _, hjob, h⟩
          · intro e v h
            exact h
  | derive principal name operation subname build minimumTtl =>
      refine Safe.engine_bind (safe_applyFor ht rfl hnew ?_) ?_ ?_
      · intro v' zone hsees h
        exact h.imp_right fun h => ⟨zone, hsees, _, rfl, h⟩
      · rintro outcome v ⟨hentered, zone, hsees, h⟩
        exact ⟨hentered, zone, hsees, _, rfl, h⟩
      · intro e v h
        exact h
  | checkIn principal name asked =>
      refine Safe.bind (P := fun status v => Ends R settings (.checkIn principal name asked)
        (status.map Reply.status) v) (Safe.bind (safe_checkInFor ht rfl hnew ?_) ?_) ?_
      · intro job hjob v' zone hsees h
        exact h.imp_right fun h => ⟨zone, hsees, job, hjob, h⟩
      · intro status v h
        cases status <;> exact h
      · rintro (e | status) v h
        · exact h
        · exact h

theorem keeps_law_of_isBatch (R : Regime) (hR : R.SuitsBatches) (settings : EngineSettings)
    {r : Request} (hbatch : r.isBatch = true) : (R.law settings).IsKeptBy settings r :=
  keeps_law R hR settings r fun hnot => absurd (hnot.symm.trans hbatch) Bool.false_ne_true

end Request

end ZoneKeeper
