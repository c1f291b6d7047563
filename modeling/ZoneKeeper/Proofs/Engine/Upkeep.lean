import ZoneKeeper.Proofs.Batch.Bounds
import ZoneKeeper.Proofs.Engine.Guard
import ZoneKeeper.Proofs.Engine.Request

namespace ZoneKeeper

abbrev Charter := Domain → Key → Nat → SortedSet String → Prop

def EngineSettings.charter (settings : EngineSettings) : Charter :=
  fun domain key ttl records => domain.Admits settings key ttl records

def Charter.AllowsSet (charter : Charter) (domain : Domain) (r : Rrset) : Prop :=
  charter domain r.key r.ttl r.records

def Zone.IsSound (charter : Charter) (zone : Zone) : Prop :=
  ∀ key r, zone.rrsets.get? key = some r → r.key = key ∧ charter.AllowsSet zone.domain r

def IsUpheld (charter : Charter) (may : Domain → Prop) (zone? : Option Zone) : Prop :=
  ∀ zone, zone? = some zone → may zone.domain ∧ zone.IsSound charter

def Upholds {α : Type} (I : Option Zone → Prop) (domain : String) :
    EngineProgram α → (α → Prop) → Prop
  | .done a, post => post a
  | .act (.call c) next, post => c.domain? = some domain ∧ ∀ (o : Outcome) zone?, I zone? →
      I ((o.call c (.only domain zone?)).2.zone? domain)
        ∧ Upholds I domain (next (o.call c (.only domain zone?)).1) post
  | .act _ next, post => ∀ answer, Upholds I domain (next answer) post

abbrev Gives {α : Type} (P : α → Prop) (r : Except Error α) : Prop := ∀ a, r = .ok a → P a

namespace Upholds

variable {α β : Type} {I : Option Zone → Prop} {domain : String}

theorem bind {p : EngineProgram α} {f : α → EngineProgram β} {P : α → Prop} {post : β → Prop}
    (h : Upholds I domain p P) (hf : ∀ a, P a → Upholds I domain (f a) post) :
    Upholds I domain (p >>= f) post := by
  change Upholds I domain (p.bind f) post
  induction p with
  | done a => exact hf a h
  | act a next ih =>
      cases a with
      | call c =>
          refine ⟨h.1, fun o zone? hzone => ?_⟩
          obtain ⟨hkept, hnext⟩ := h.2 o zone? hzone
          exact ⟨hkept, ih _ hnext⟩
      | _ => exact fun answer => ih answer (h answer)

theorem engine_bind {p : Engine α} {f : α → Engine β} {P : α → Prop} {Q : β → Prop}
    (h : Upholds I domain p.run (Gives P))
    (hf : ∀ a, P a → Upholds I domain (f a).run (Gives Q)) :
    Upholds I domain (p >>= f).run (Gives Q) := by
  rw [ExceptT.run_bind]
  refine h.bind ?_
  rintro (e | a) ha
  · rintro _ ⟨⟩
  · exact hf a (ha a rfl)

theorem map {p : Engine α} (h : Upholds I domain p.run fun _ => True) (f : α → β) :
    Upholds I domain (p >>= fun a => pure (f a)).run fun _ => True := by
  rw [ExceptT.run_bind]
  refine h.bind ?_
  rintro (e | a) - <;> trivial

theorem lift {p : EngineProgram α} (h : Upholds I domain p fun _ => True) :
    Upholds I domain (liftM p : Engine α).run fun _ => True :=
  h.bind (f := fun a => Program.done (Except.ok a : Except Error α)) fun _ _ => trivial

theorem perform {a : Act} (ha : ∀ c, a ≠ .call c) :
    Upholds I domain (.act a .done) fun _ => True := by
  cases a with
  | call c => exact absurd rfl (ha c)
  | _ => exact fun _ => trivial

theorem locked {name : String} {p : Engine α} {P : Except Error α → Prop}
    (h : Upholds I domain p.run P) : Upholds I domain (Engine.locked name p).run P := by
  refine (perform (a := .lock name) (by rintro _ ⟨⟩)).bind fun _ _ => h.bind fun r hr => ?_
  exact (perform (a := .unlock name) (by rintro _ ⟨⟩)).bind fun _ _ => hr

theorem read {c : StoreCall} {P : c.Answer → Prop} (hdomain : c.domain? = some domain)
    (hread : c.isRead = true)
    (hpost : ∀ (o : Outcome) zone?, I zone? → P (o.call c (.only domain zone?)).1) :
    Upholds I domain (EngineProgram.call c) P := by
  refine ⟨hdomain, fun o zone? hzone => ⟨?_, hpost o zone? hzone⟩⟩
  cases o with
  | failed e =>
      rw [Outcome.call, Zones.zone?_only]
      exact hzone
  | carriedOut now =>
      rw [Outcome.call, Zones.call_of_isRead hread, Zones.zone?_only]
      exact hzone

end Upholds

namespace Zone

variable {charter : Charter} {zone : Zone}

theorem isSound_empty (domain : Domain) : IsSound charter ⟨domain, SortedMap.empty⟩ := by
  rintro key r ⟨⟩

theorem IsSound.put (h : zone.IsSound charter) {key : Key} {left : Option Rrset}
    (hleft : ∀ r ∈ left, r.key = key ∧ charter.AllowsSet zone.domain r) :
    (zone.put key left).IsSound charter := by
  intro k r hr
  rw [get?_put] at hr
  rw [domain_put]
  split at hr
  · next hk =>
      subst hk
      exact hleft r hr
  · exact h k r hr

end Zone

structure PlannedItem.IsAllowed (charter : Charter) (domain : Domain) (item : PlannedItem) :
    Prop where
  written : item.records.isEmpty = false → charter domain item.key item.ttl item.records
  previous : ∀ r ∈ item.previous, r.key = item.key ∧ charter.AllowsSet domain r

theorem PlannedItem.IsAllowed.left {charter : Charter} {domain : Domain} {item : PlannedItem}
    (h : item.IsAllowed charter domain) {stored : Option Rrset}
    (hstored : ∀ r ∈ stored, r.key = item.key) (now : Instant) :
    ∀ r ∈ Zones.leftBy item.key item.ttl item.records now stored,
      r.key = item.key ∧ charter.AllowsSet domain r := by
  intro r hr
  have hkey := Zones.key_of_mem_leftBy hstored r hr
  refine ⟨hkey, ?_⟩
  unfold Zones.leftBy at hr
  split at hr
  · cases hr
  · next hne =>
      have hallowed := h.written (by simpa using hne)
      rw [← hkey] at hallowed
      obtain rfl := Option.some.inj hr
      cases stored <;> exact hallowed

theorem Snapshot.mem_of_get? {rrsets : List Rrset} {key : Key} {r : Rrset}
    (h : (ofRrsets rrsets).get? key = some r) : r ∈ rrsets ∧ r.key = key := by
  suffices hfold : ∀ (l : List Rrset) (m : SortedMap Key Rrset),
      SortedMap.get? ((l.map fun s => (s.key, s)).foldl (fun m e => m.insert e.1 e.2) m) key
        = some r → (r ∈ l ∧ r.key = key) ∨ m.get? key = some r by
    rcases hfold rrsets _ h with hmem | hnone
    · exact hmem
    · cases hnone
  -- the set that was put in last is the one that is found
  intro l
  induction l with
  | nil => exact fun m hm => Or.inr hm
  | cons s rest ih =>
      intro m hm
      rcases ih _ hm with ⟨hmem, hkey⟩ | hfirst
      · exact Or.inl ⟨List.mem_cons_of_mem _ hmem, hkey⟩
      · rw [SortedMap.get?_insert] at hfirst
        split at hfirst
        · next hkey =>
            obtain rfl := Option.some.inj hfirst
            exact Or.inl ⟨List.mem_cons_self, hkey.symm⟩
        · exact Or.inr hfirst

namespace Commit

variable {charter : Charter} {may : Domain → Prop} {domain : Domain}

theorem upholds_put {c : StoreCall} {P : c.Answer → Prop}
    (hmay : ∀ d, may d → charter d = charter domain)
    (hname : c.domain? = some domain.name) (hneeds : c.needsZone = true)
    (hput : ∀ zone now, zone.IsSound charter → ∃ key left,
      ((Zones.only domain.name (some zone)).call now c).2.zone? domain.name
          = some (zone.put key left)
        ∧ ∀ r ∈ left, r.key = key ∧ charter.AllowsSet domain r)
    (hpost : ∀ answer, P answer) :
    Upholds (IsUpheld charter may) domain.name (EngineProgram.call c) P := by
  refine ⟨hname, fun o zone? hzone => ⟨?_, hpost _⟩⟩
  cases o with
  | failed e =>
      rw [Outcome.call, Zones.zone?_only]
      exact hzone
  | carriedOut now =>
      cases zone? with
      | none =>
          rw [Outcome.call, Zones.call_of_none (Zones.zone?_only _ none) hname hneeds,
            Zones.zone?_only]
          exact hzone
      | some zone =>
          obtain ⟨hcan, hsound⟩ := hzone zone rfl
          obtain ⟨key, left, hleft, hallowed⟩ := hput zone now hsound
          rw [Outcome.call, hleft]
          rintro _ ⟨⟩
          rw [Zone.domain_put]
          refine ⟨hcan, hsound.put fun r hr => ?_⟩
          rw [Charter.AllowsSet, hmay _ hcan]
          exact hallowed r hr

theorem upholds_restore (hmay : ∀ d, may d → charter d = charter domain) {item : PlannedItem}
    (hitem : item.IsAllowed charter domain) :
    Upholds (IsUpheld charter may) domain.name
      (EngineProgram.call (.restore domain.name item.key item.previous)) fun _ => True := by
  refine upholds_put hmay rfl rfl (fun zone now _ => ?_) fun _ => trivial
  refine ⟨item.key, item.previous, ?_, hitem.previous⟩
  rw [Zones.call_restore (Zones.zone?_only ..), Zones.zone?_insert_self]

theorem upholds_upsert (hmay : ∀ d, may d → charter d = charter domain) {item : PlannedItem}
    (hitem : item.IsAllowed charter domain) :
    Upholds (IsUpheld charter may) domain.name
      (EngineProgram.call (.upsert domain.name item.key item.ttl item.records))
      fun _ => True := by
  refine upholds_put hmay rfl rfl (fun zone now hsound => ?_) fun _ => trivial
  refine ⟨item.key, Zones.leftBy item.key item.ttl item.records now (zone.rrsets.get? item.key),
    ?_, hitem.left (fun r hr => (hsound _ r hr).1) now⟩
  rw [Zones.call_upsert (Zones.zone?_only ..), Zones.zone?_insert_self]

theorem upholds_undo (hmay : ∀ d, may d → charter d = charter domain) {done : List DoneStep}
    (hdone : ∀ d ∈ done, d.item.IsAllowed charter domain) :
    Upholds (IsUpheld charter may) domain.name (undo domain.name done) fun _ => True := by
  induction done with
  | nil => trivial
  | cons d rest ih =>
      exact (upholds_restore hmay (hdone d List.mem_cons_self)).bind fun _ _ =>
        ih fun e he => hdone e (List.mem_cons_of_mem _ he)

theorem upholds_carryOut (hmay : ∀ d, may d → charter d = charter domain) {steps : List PlannedItem}
    (done : List DoneStep) (hsteps : ∀ item ∈ steps, item.IsAllowed charter domain)
    (hdone : ∀ d ∈ done, d.item.IsAllowed charter domain) :
    Upholds (IsUpheld charter may) domain.name (carryOut domain.name steps done).run
      fun _ => True := by
  induction steps generalizing done with
  | nil => trivial
  | cons item rest ih =>
      have hitem := hsteps item List.mem_cons_self
      refine (upholds_upsert hmay hitem).bind ?_
      rintro (e | left) -
      · exact (upholds_undo hmay hdone).bind fun _ _ => trivial
      · refine ih _ (fun p hp => hsteps p (List.mem_cons_of_mem _ hp)) fun d hd => ?_
        rcases List.mem_cons.1 hd with rfl | hd
        · exact hitem
        · exact hdone d hd

theorem upholds_run (hmay : ∀ d, may d → charter d = charter domain) {plan : Plan}
    {shape : BatchShape}
    (hplan : ∀ item ∈ plan.items, item.IsAllowed charter domain) :
    Upholds (IsUpheld charter may) domain.name (run domain.name plan shape).run
      fun _ => True := by
  refine fun _ => (upholds_carryOut hmay [] (fun item hitem =>
    hplan item (Plan.mem_steps hitem).1) (by rintro _ ⟨⟩)).bind ?_
  rintro (e | done) -
  · exact fun _ _ => trivial
  · have hannounces : Upholds (IsUpheld charter may) domain.name
        (announceChanges domain.name (done.map DoneStep.change)) fun _ => True := by
      cases done with
      | nil => trivial
      | cons d rest => exact fun _ _ => trivial
    exact hannounces.bind fun _ _ _ _ => trivial

end Commit

def BatchJob.Honours (job : BatchJob) (settings : EngineSettings) (charter : Charter)
    (domain : Domain) : Prop :=
  ∀ batch snapshot plan, Plan.make (Attempt.context settings domain job) batch snapshot = .ok plan →
    (∀ key r, snapshot.get? key = some r → r.key = key ∧ charter.AllowsSet domain r) →
    ∀ p ∈ plan.items, ∀ ttl records, p.action = .write ttl records →
      charter domain p.key ttl records

theorem BatchJob.honours_of_floor {job : BatchJob} {settings : EngineSettings}
    (h : ∀ floor ∈ job.minimumTtl, settings.checkIn.minimumTtl ≤ floor) (domain : Domain) :
    job.Honours settings settings.charter domain := by
  intro batch snapshot plan hmake hstored p hp ttl records hwrite
  have hminimum : min domain.minimumTtl settings.checkIn.minimumTtl
      ≤ (Attempt.context settings domain job).minimumTtl := by
    cases hfloor : job.minimumTtl with
    | none =>
        rw [Attempt.context, hfloor]
        exact Nat.min_le_left _ _
    | some floor =>
        rw [Attempt.context, hfloor]
        exact Nat.le_trans (Nat.min_le_right _ _) (h floor hfloor)
  exact Plan.admits_of_write hmake rfl rfl hminimum hstored hp hwrite

namespace Attempt

open Engine

variable {settings : EngineSettings} {charter : Charter} {may : Domain → Prop} {domain : Domain}

theorem upholds_list (hmay : ∀ d, may d → charter d = charter domain) (filter : Filter) :
    Upholds (IsUpheld charter may) domain.name (call (.list domain.name filter)).run
      (Gives fun rrsets : List Rrset => ∀ r ∈ rrsets, charter.AllowsSet domain r) := by
  refine Upholds.read rfl rfl fun o zone? hzone rrsets hrrsets r hr => ?_
  cases o with
  | failed e => cases hrrsets
  | carriedOut now =>
      rw [Outcome.call, Zones.call_list, Zones.zone?_only] at hrrsets
      obtain rfl := Except.ok.inj hrrsets
      cases zone? with
      | none => cases hr
      | some zone =>
          obtain ⟨hcan, hsound⟩ := hzone zone rfl
          obtain ⟨key, hkey⟩ := SortedMap.mem_values_iff.1 (List.mem_filter.1 hr).1
          rw [Charter.AllowsSet, ← hmay _ hcan]
          exact (hsound key r hkey).2

theorem upholds_listAt (hmay : ∀ d, may d → charter d = charter domain) (subnames : List String) :
    Upholds (IsUpheld charter may) domain.name (listAt domain.name subnames).run
      (Gives fun rrsets => ∀ r ∈ rrsets, charter.AllowsSet domain r) := by
  induction subnames with
  | nil =>
      rintro _ ⟨⟩ r hr
      cases hr
  | cons subname rest ih =>
      refine (upholds_list hmay _).engine_bind fun here hhere => ?_
      refine ih.engine_bind fun others hothers => ?_
      rintro _ ⟨⟩ r hr
      rcases List.mem_append.1 hr with hr | hr
      · exact hhere r hr
      · exact hothers r hr

theorem upholds_batch (hmay : ∀ d, may d → charter d = charter domain) (source : BatchSource) :
    Upholds (IsUpheld charter may) domain.name (batch domain.name source).run
      (Gives fun _ => True) := by
  cases source with
  | given own => exact fun _ _ => trivial
  | derived subname build =>
      exact (upholds_list hmay _).engine_bind fun _ _ _ _ => trivial

theorem upholds_plan (hmay : ∀ d, may d → charter d = charter domain) {job : BatchJob}
    (hjob : job.Honours settings charter domain) :
    Upholds (IsUpheld charter may) domain.name
      (plan (context settings domain job) job.source).run
      (Gives fun made => ∀ item ∈ made.1.items, item.IsAllowed charter domain) := by
  refine Upholds.engine_bind (P := fun _ => True)
    (Upholds.read (c := .getDomain domain.name) rfl rfl fun _ _ _ _ _ => trivial) ?_
  rintro (_ | found) -
  · rintro _ ⟨⟩
  · refine (upholds_batch hmay _).engine_bind fun batch _ =>
      (upholds_listAt hmay _).engine_bind fun stored hstored => ?_
    have hsnapshot (key : Key) (r : Rrset) (hr : (Snapshot.ofRrsets stored).get? key = some r) :
        r.key = key ∧ charter.AllowsSet domain r := by
      obtain ⟨hmem, hkey⟩ := Snapshot.mem_of_get? hr
      exact ⟨hkey, hstored r hmem⟩
    split
    · next made hmade =>
        rintro _ ⟨⟩ item hitem
        refine ⟨fun hne => ?_, fun r hr => ?_⟩
        · have hwrite : item.action = .write item.ttl item.records := by
            unfold PlannedItem.ttl PlannedItem.records at *
            split at hne
            · simp_all
            · cases hne
          exact hjob _ _ _ hmade hsnapshot item hitem _ _ hwrite
        · rw [Plan.previous_eq hmade hitem] at hr
          exact hsnapshot _ r hr
    · rintro _ ⟨⟩

theorem upholds_run (hmay : ∀ d, may d → charter d = charter domain) {job : BatchJob}
    (hjob : job.Honours settings charter domain) :
    Upholds (IsUpheld charter may) domain.name (run settings domain job).run fun _ => True := by
  rw [run, ExceptT.run_bind]
  refine Upholds.bind (P := Gives fun made : Plan × BatchShape => ∀ item ∈ made.1.items,
    item.IsAllowed charter domain) ?_ ?_
  · refine (Upholds.perform (a := .startTimer settings.requestTimeout) (by rintro _ ⟨⟩)).bind ?_
    rintro (_ | _) -
    · refine Upholds.bind (P := Gives fun made : Plan × BatchShape => ∀ item ∈ made.1.items,
        item.IsAllowed charter domain) ?_ fun result hresult =>
          (Upholds.perform (a := .stopTimer) (by rintro _ ⟨⟩)).bind fun _ _ => hresult
      refine (Upholds.perform (a := .lock domain.name) (by rintro _ ⟨⟩)).bind fun _ _ =>
        (upholds_plan hmay hjob).bind ?_
      rintro (e | made) hmade
      · exact fun _ => by rintro _ ⟨⟩
      · exact hmade
    · exact fun _ => by rintro _ ⟨⟩
  · rintro (e | made) hmade
    · trivial
    · exact Commit.upholds_run hmay (hmade made rfl)

theorem upholds_retrying {α : Type} {I : Option Zone → Prop} {name : String} {p : Engine α}
    (h : Upholds I name p.run fun _ => True) (retries attempt : Nat) :
    Upholds I name (retrying settings p retries attempt).run fun _ => True := by
  induction retries generalizing attempt with
  | zero => exact h
  | succ retries ih =>
      refine h.bind ?_
      rintro (e | a) -
      · dsimp only
        split
        · exact fun _ => ih (attempt + 1)
        · trivial
      · trivial

end Attempt

namespace Request

open Engine

variable {settings : EngineSettings} {charter : Charter} {may : Domain → Prop}
  {principal : Principal} {name : String}

theorem upholds_visibleDomain {α : Type} {next : Domain → Engine α} {post : Except Error α → Prop}
    (herror : ∀ e, post (.error e))
    (hnext : ∀ found, may found → Upholds (IsUpheld charter may) (normalizeDomain name)
      (next found).run post) :
    Upholds (IsUpheld charter may) (normalizeDomain name)
      (visibleDomain principal name >>= next).run post := by
  rw [run_visibleDomain]
  refine Upholds.bind (p := EngineProgram.call (.getDomain (normalizeDomain name)))
    (P := Gives fun found? => ∀ found, found? = some found → may found)
    (Upholds.read rfl rfl ?_) ?_
  · rintro o zone? hzone _ hr found rfl
    cases o with
    | failed e => cases hr
    | carriedOut now =>
        rw [Outcome.call, Zones.call_getDomain, Zones.zone?_only] at hr
        obtain ⟨zone, rfl, rfl⟩ := Option.map_eq_some_iff.1 (Except.ok.inj hr)
        exact (hzone zone rfl).1
  · rintro (e | _ | found) hfound
    · exact herror e
    · exact herror _
    · dsimp only
      split
      · exact hnext found (hfound _ rfl _ rfl)
      · exact herror _

theorem upholds_check {error? : Option Error} {I : Option Zone → Prop} {domain : String}
    {α : Type} {p : Engine α} {post : Except Error α → Prop} (herror : ∀ e, post (.error e))
    (hp : Upholds I domain p.run post) :
    Upholds I domain (check error? >>= fun _ => p).run post := by
  cases error? with
  | none => exact hp
  | some e => exact herror e

theorem upholds_applyFor (hname : ∀ d, may d → d.name = normalizeDomain name)
    (hone : ∀ d d', may d → may d' → charter d' = charter d) {job : BatchJob}
    (hjob : ∀ d, job.Honours settings charter d) :
    Upholds (IsUpheld charter may) (normalizeDomain name)
      (applyFor settings principal name job).run fun _ => True := by
  refine upholds_visibleDomain (fun _ => trivial) fun found hfound => ?_
  rw [← hname found hfound]
  exact Attempt.upholds_retrying (Attempt.upholds_run (fun d hd => hone found d hfound hd)
    (hjob found)) _ _

theorem upholds_create {domain : Domain} (hname : domain.name = normalizeDomain name)
    (hmay : may domain) : Upholds (IsUpheld charter may) (normalizeDomain name)
      (EngineProgram.call (.createDomain domain)) fun _ => True := by
  rw [← hname]
  refine ⟨rfl, fun o zone? hzone => ⟨?_, trivial⟩⟩
  cases o with
  | failed e =>
      rw [Outcome.call, Zones.zone?_only]
      exact hzone
  | carriedOut now =>
      rw [Outcome.call, Zones.call_createDomain]
      split
      · rw [Zones.zone?_only]
        exact hzone
      · rw [Zones.zone?_insert_self]
        rintro _ ⟨⟩
        exact ⟨hmay, Zone.isSound_empty _⟩

theorem upholds_delete (domain : String) :
    Upholds (IsUpheld charter may) domain (EngineProgram.call (.deleteDomain domain))
      fun _ => True := by
  refine ⟨rfl, fun o zone? hzone => ⟨?_, trivial⟩⟩
  cases o with
  | failed e =>
      rw [Outcome.call, Zones.zone?_only]
      exact hzone
  | carriedOut now =>
      rw [Outcome.call, Zones.call_deleteDomain, Zones.zone?_erase_self]
      rintro _ ⟨⟩

theorem upholds_createDomainFor {minimumTtl : Option Nat}
    (hmay : ∀ d, d.name = normalizeDomain name → may d) {create : Engine Domain}
    (hcreate : createDomainFor settings principal name minimumTtl = create) :
    Upholds (IsUpheld charter may) (normalizeDomain name) create.run fun _ => True := by
  rw [← hcreate, createDomainFor]
  generalize nameError? (normalizeDomain name) = nameError?
  generalize floorError? settings _ = floorError?
  refine upholds_check (fun _ => trivial) (upholds_check (fun _ => trivial) (Upholds.locked ?_))
  refine (Upholds.perform (a := .readClock) (by rintro _ ⟨⟩)).bind fun now _ => ?_
  let domain := Domain.make (normalizeDomain name) principal.id
    (minimumTtl.getD settings.minimumTtl) now
  have hmake : domain.name = normalizeDomain name := normalizeDomain_normalizeDomain name
  refine Upholds.bind (p := EngineProgram.call (.createDomain domain))
    (upholds_create hmake (hmay _ hmake)) ?_
  rintro (e | _) - <;> trivial

theorem upholds_deleteDomainFor (hname : ∀ d, may d → d.name = normalizeDomain name) :
    Upholds (IsUpheld charter may) (normalizeDomain name)
      (deleteDomainFor principal name).run fun _ => True := by
  refine upholds_visibleDomain (fun _ => trivial) fun found hfound => ?_
  rw [hname found hfound]
  refine Upholds.locked ?_
  rw [ExceptT.run_bind]
  refine (Upholds.read (c := .list (normalizeDomain name) .all) (P := fun _ => True) rfl rfl
    fun _ _ _ => trivial).bind ?_
  rintro (e | rrsets) -
  · trivial
  · refine (upholds_delete (normalizeDomain name)).bind ?_
    rintro (e | _ | _) -
    · trivial
    · trivial
    · exact fun _ _ => trivial

theorem upholds_run {r : Request} (hname : ∀ d, may d → d.name = r.domainName)
    (hone : r.isBatch = true → ∀ d d', may d → may d' → charter d' = charter d)
    (hall : r.isBatch = false → ∀ d, d.name = r.domainName → may d)
    (hjob : ∀ job, r.job? settings = some job → ∀ d, job.Honours settings charter d) :
    Upholds (IsUpheld charter may) r.domainName (run settings r).run fun _ => True := by
  have happly {principal : Principal} {name : String} {job : BatchJob}
      (hbatch : r.isBatch = true) (hdomain : r.domainName = normalizeDomain name)
      (hasked : r.job? settings = some job) :
      Upholds (IsUpheld charter may) r.domainName
        (applyFor settings principal name job).run fun _ => True := by
    rw [hdomain]
    exact upholds_applyFor (hdomain ▸ hname) (hone hbatch) (hjob job hasked)
  cases r with
  | createDomain principal name minimumTtl =>
      rw [run]
      generalize hcreate : createDomainFor settings principal name minimumTtl = create
      exact (upholds_createDomainFor (hall rfl) hcreate).map _
  | deleteDomain principal name => exact (upholds_deleteDomainFor hname).map _
  | domain principal name =>
      exact upholds_visibleDomain (fun _ => trivial) fun found _ => trivial
  | get principal name key =>
      refine Upholds.map (upholds_visibleDomain (fun _ => trivial) fun found hfound => ?_) _
      refine upholds_check (fun _ => trivial) ?_
      refine Upholds.bind (p := EngineProgram.call (.get found.name key)) (P := fun _ => True)
        (Upholds.read (congrArg some (hname found hfound)) rfl fun _ _ _ => trivial) ?_
      rintro (e | _ | rrset) - <;> trivial
  | list principal name filter =>
      refine Upholds.map (upholds_visibleDomain (fun _ => trivial) fun found hfound => ?_) _
      refine upholds_check (fun _ => trivial) ?_
      refine Upholds.bind (p := EngineProgram.call (.list found.name filter)) (P := fun _ => True)
        (Upholds.read (congrArg some (hname found hfound)) rfl fun _ _ _ => trivial) ?_
      rintro (e | rrsets) - <;> trivial
  | delete principal name key =>
      exact Upholds.map (upholds_check (fun _ => trivial) ((happly rfl rfl rfl).map _)) _
  | write principal name operation payload minimumTtl =>
      rw [run]
      split
      · trivial
      · next batch hbatch =>
          refine (happly rfl rfl ?_).map _
          simp only [job?, hbatch]
  | derive principal name operation subname build minimumTtl => exact (happly rfl rfl rfl).map _
  | checkIn principal name asked =>
      cases principal with
      | none => trivial
      | some principal =>
          have hmerge : Upholds (IsUpheld charter may) (normalizeDomain name)
              (mergeCheckIn settings principal name asked).run fun _ => True := by
            refine upholds_visibleDomain (fun _ => trivial) fun found hfound => ?_
            split
            · trivial
            · trivial
            · next updates hnone hupdates =>
                refine (happly rfl rfl ?_).map _
                simp only [job?, hupdates]
          have hcheckIn : Upholds (IsUpheld charter may) (normalizeDomain name)
              (checkInFor settings (some principal) name asked) fun _ => True :=
            hmerge.bind (by rintro (e | status) - <;> trivial)
          exact hcheckIn.lift.map _

end Request

end ZoneKeeper
