import ZoneKeeper.Proofs.Engine.Application
import ZoneKeeper.Proofs.Engine.Faults

namespace ZoneKeeper

structure Course where
  zones : Zones
  calls : List CallRecord
  /-- The fault that each attempt has hit, if any, the latest attempt first. -/
  attempts : List (Option Error)
  /-- After how many attempts it has waited, and for how many milliseconds. -/
  pauses : List (Nat × Nat)
  announced : List ZoneChange

namespace Course

def ofZones (zones : Zones) : Course := ⟨zones, [], [], [], []⟩

def note (e : Error) : List (Option Error) → List (Option Error)
  | none :: earlier => some e :: earlier
  | attempts => attempts

def afterCall (s : Course) (c : StoreCall) (o : Outcome) : Course where
  zones := (o.call c s.zones).2
  calls := s.calls ++ [⟨0, c, o⟩]
  attempts := match o with
    | .carriedOut _ => s.attempts
    | .failed e => note e s.attempts
  pauses := s.pauses
  announced := s.announced

end Course

namespace Fate

def follow (fate : Fate) : (a : Act) → Course → a.Answer × Course
  | .call c, s =>
      let o := fate.outcome s.calls c
      ((o.call c s.zones).1, s.afterCall c o)
  | .readClock, s => (fate.clock s.calls, s)
  | .startTimer _, s => (false, { s with attempts := none :: s.attempts })
  | .wait milliseconds, s =>
      ((), { s with pauses := s.pauses ++ [(s.attempts.length, milliseconds)] })
  | .announce change, s => ((), { s with announced := s.announced ++ [change] })
  | .push _, s => (true, s)
  | .lock _, s => ((), s)
  | .unlock _, s => ((), s)
  | .stopTimer, s => ((), s)
  | .beginCommit, s => ((), s)
  | .endCommit, s => ((), s)

def apply (fate : Fate) (settings : EngineSettings) (zones : Zones) (principal : Principal)
    (name : String) (job : BatchJob) : Except Error BatchOutcome × Course :=
  (Request.applyFor settings principal name job).run.run fate.follow (.ofZones zones)

end Fate

def Passes (c : StoreCall) (e : Error) : Prop := c.isRestore = false ∧ e.isRetryable = true

theorem Fate.FailsAs.passes {fate : Fate} (h : fate.FailsAs fun _ _ => False) :
    fate.FailsAs Passes := fun log c e he => (h log c e he).elim

def Fate.Leads {α : Type} (fate : Fate) (p : EngineProgram α) (s : Course)
    (post : α → Course → Prop) : Prop :=
  post (p.run fate.follow s).1 (p.run fate.follow s).2

namespace Fate.Leads

variable {α β : Type} {fate : Fate} {s : Course}

theorem bind {p : EngineProgram α} {f : α → EngineProgram β} {P : α → Course → Prop}
    {post : β → Course → Prop} (h : fate.Leads p s P)
    (hf : ∀ a later, P a later → fate.Leads (f a) later post) :
    fate.Leads (p >>= f) s post := by
  rw [Fate.Leads, Program.run_bind]
  exact hf _ _ h

theorem engine_bind {p : Engine α} {f : α → Engine β} {P : Except Error α → Course → Prop}
    {post : Except Error β → Course → Prop} (h : fate.Leads p.run s P)
    (herror : ∀ e later, P (.error e) later → post (.error e) later)
    (hf : ∀ a later, P (.ok a) later → fate.Leads (f a).run later post) :
    fate.Leads (p >>= f).run s post := by
  rw [ExceptT.run_bind]
  refine h.bind ?_
  rintro (e | a) later hlater
  · exact herror e later hlater
  · exact hf a later hlater

theorem mono {p : EngineProgram α} {P Q : α → Course → Prop} (h : fate.Leads p s P)
    (himp : ∀ a later, P a later → Q a later) : fate.Leads p s Q := himp _ _ h

theorem call {c : StoreCall} {next : c.Answer → EngineProgram α} {post : α → Course → Prop}
    (h : ∀ o, fate.outcome s.calls c = o →
      fate.Leads (next (o.call c s.zones).1) (s.afterCall c o) post) :
    fate.Leads (.act (.call c) next) s post := h _ rfl

theorem bind_call {c : StoreCall} {f : c.Answer → EngineProgram α} {post : α → Course → Prop}
    (h : ∀ o, fate.outcome s.calls c = o →
      fate.Leads (f (o.call c s.zones).1) (s.afterCall c o) post) :
    fate.Leads (EngineProgram.call c >>= f) s post := h _ rfl

end Fate.Leads

inductive Course.Gets {α : Type} (right : Except Error α) (s : Course) :
    Except Error α → Course → Prop where
  | right {calls : List CallRecord} : Gets right s right { s with calls := calls }
  | fault {e : Error} {calls : List CallRecord} (hretryable : e.isRetryable = true) :
      Gets right s (.error e) { s with calls := calls, attempts := note e s.attempts }

def BatchSource.batchOn (source : BatchSource) (zone : Zone) : Except Error Batch :=
  match source with
  | .given batch => .ok batch
  | .derived subname build => build (zone.rrsets.values.filter (Filter.ofSubname subname).accepts)

def BatchSource.fault? (source : BatchSource) (zone : Zone) : Option Error :=
  match source.batchOn zone with
  | .ok _ => none
  | .error e => if e.isRetryable then some e else none

namespace Attempt

open Course

variable {fate : Fate} {s : Course} {zone : Zone} {ctx : ReviewContext} {source : BatchSource}

def planned (ctx : ReviewContext) (source : BatchSource) (zone : Zone) :
    Except Error (Plan × BatchShape) := do
  let batch ← source.batchOn zone
  match Plan.make ctx batch (.ofRrsets (zone.listAt batch.touchedSubnames)) with
  | .ok plan => .ok (plan, batch.shape)
  | .error errors => .error (.rejected errors)

theorem gets_bind {α β : Type} {p : Engine α} {f : α → Engine β} {r : Except Error α}
    {g : α → Except Error β} (hp : fate.Leads p.run s (Gets r s))
    (hf : ∀ a calls, r = .ok a →
      fate.Leads (f a).run { s with calls := calls } (Gets (g a) { s with calls := calls })) :
    fate.Leads (p >>= f).run s (Gets (r >>= g) s) := by
  rw [ExceptT.run_bind]
  refine hp.bind ?_
  rintro _ _ (_ | hretryable)
  · cases r with
    | error e => exact .right
    | ok a =>
        refine (hf a _ rfl).mono ?_
        rintro _ _ (_ | hretryable)
        · exact .right
        · exact .fault hretryable
  · exact .fault hretryable

theorem gets_read (hfate : fate.FailsAs Passes) {c : StoreCall} (hread : c.isRead = true)
    {right : c.Answer} (hright : ∀ now, (s.zones.call now c).1 = right) :
    fate.Leads (Engine.call c).run s (Gets right s) := by
  refine .call fun o ho => ?_
  cases o with
  | failed e => exact .fault (hfate _ _ _ ho).2
  | carriedOut now =>
      have hafter : s.afterCall c (.carriedOut now)
          = { s with calls := s.calls ++ [⟨0, c, .carriedOut now⟩] } := by
        rw [Course.afterCall, Outcome.call, Zones.call_of_isRead hread]
      rw [hafter, Outcome.call, hright]
      exact .right

theorem gets_list (hfate : fate.FailsAs Passes) (hzone : s.zones.zone? ctx.domain = some zone)
    (filter : Filter) :
    fate.Leads (Engine.call (.list ctx.domain filter)).run s
      (Gets (.ok (zone.rrsets.values.filter filter.accepts)) s) :=
  gets_read hfate rfl fun now => by rw [Zones.call_list, hzone]

theorem gets_listAt (hfate : fate.FailsAs Passes) (hzone : s.zones.zone? ctx.domain = some zone)
    (subnames : List String) :
    fate.Leads (listAt ctx.domain subnames).run s (Gets (.ok (zone.listAt subnames)) s) := by
  induction subnames generalizing s with
  | nil => exact .right
  | cons subname rest ih =>
      refine gets_bind (gets_list hfate hzone (.ofSubname subname))
        (g := fun here => .ok (here ++ zone.listAt rest)) fun here calls _ => ?_
      exact gets_bind (ih (s := { s with calls := calls }) hzone)
        (g := fun others => .ok (here ++ others)) fun others calls _ => .right

theorem gets_batch (hfate : fate.FailsAs Passes) (hzone : s.zones.zone? ctx.domain = some zone) :
    fate.Leads (batch ctx.domain source).run s (Gets (source.batchOn zone) s) := by
  cases source with
  | given batch => exact .right
  | derived subname build =>
      exact gets_bind (gets_list hfate hzone (.ofSubname subname)) fun stored calls _ => .right

theorem gets_plan (hfate : fate.FailsAs Passes) (hzone : s.zones.zone? ctx.domain = some zone) :
    fate.Leads (plan ctx source).run s (Gets (planned ctx source zone) s) := by
  refine gets_bind (r := .ok (some zone.domain))
    (gets_read hfate rfl fun now => by rw [Zones.call_getDomain, hzone]; rfl)
    (g := fun _ => planned ctx source zone) ?_
  rintro _ calls ⟨⟩
  refine gets_bind (gets_batch (s := { s with calls := calls }) hfate hzone) fun batch calls _ => ?_
  refine gets_bind (gets_listAt (s := { s with calls := calls }) hfate hzone _)
    (g := fun stored => match Plan.make ctx batch (.ofRrsets stored) with
      | .ok plan => .ok (plan, batch.shape)
      | .error errors => .error (.rejected errors)) ?_
  rintro _ calls ⟨⟩
  cases Plan.make ctx batch (.ofRrsets (zone.listAt batch.touchedSubnames)) with
  | ok plan => exact .right
  | error errors => exact .right

theorem gets_prepareWithin (hfate : fate.FailsAs Passes)
    (hzone : s.zones.zone? ctx.domain = some zone) (milliseconds : Nat) :
    fate.Leads (prepareWithin milliseconds ctx source).run s
      (Gets (planned ctx source zone) { s with attempts := none :: s.attempts }) := by
  let begun : Course := { s with attempts := none :: s.attempts }
  have hplan : fate.Leads (plan ctx source).run begun (Gets (planned ctx source zone) begun) :=
    gets_plan hfate hzone
  refine Fate.Leads.bind (p := (prepare ctx source).run) (s := begun)
    (P := Gets (planned ctx source zone) begun) ?_ fun _ _ hlater => hlater
  refine hplan.bind ?_
  rintro (e | made) later hlater
  · exact hlater
  · exact hlater

end Attempt

namespace Zones

variable {zones : Zones} {name : String}

theorem insert_insert (zones : Zones) (name : String) (zone zone' : Zone) :
    SortedMap.insert (SortedMap.insert zones name zone) name zone'
      = SortedMap.insert zones name zone' := by
  refine ext_zone? fun other => ?_
  rw [zone?_insert, zone?_insert, zone?_insert]
  split <;> rfl

theorem insert_of_zone? {zone : Zone} (h : zones.zone? name = some zone) :
    SortedMap.insert zones name zone = zones := by
  refine ext_zone? fun other => ?_
  rw [zone?_insert]
  split
  · next hother => rw [hother, h]
  · rfl

end Zones

def DoneStep.IsOn (d : DoneStep) (zone : Zone) : Prop := ∃ now, d.left
  = Zones.leftBy d.item.key d.item.ttl d.item.records now (zone.rrsets.get? d.item.key)

namespace Commit

open Course

variable {fate : Fate} {s : Course} {zone : Zone} {domain : String}

def announcement (domain : String) (done : List DoneStep) (time : Instant) : List ZoneChange :=
  if (done.map DoneStep.change).isEmpty then [] else [⟨domain, done.map DoneStep.change, time⟩]

theorem call_upsert_after {zones : Zones} {item : PlannedItem} {done : List DoneStep}
    (hnew : item.key ∉ done.map (·.item.key))
    (hzone : zones.zone? domain = some (zone.after done)) (now : Instant) :
    ∃ d : DoneStep, d.item = item ∧ d.IsOn zone
      ∧ zones.call now (.upsert domain item.key item.ttl item.records)
        = (.ok d.left, zones.insert domain (zone.after (d :: done))) := by
  have hstored : (zone.after done).rrsets.get? item.key = zone.rrsets.get? item.key :=
    Zone.get?_after_of_ne fun d hd heq => hnew (heq ▸ List.mem_map_of_mem hd)
  have hupsert := Zones.call_upsert hzone item.key item.ttl item.records now
  rw [hstored] at hupsert
  exact ⟨⟨item, _⟩, rfl, ⟨now, rfl⟩, hupsert⟩

theorem leads_undo (hfate : fate.FailsAs Passes) {done : List DoneStep}
    (hnodup : (done.map (·.item.key)).Nodup)
    (hprevious : ∀ d ∈ done, d.item.previous = zone.rrsets.get? d.item.key)
    (hzone : s.zones.zone? domain = some (zone.after done)) :
    fate.Leads (undo domain done) s fun _ later =>
      ∃ calls, later = { s with zones := s.zones.insert domain zone, calls := calls } := by
  induction done generalizing s with
  | nil =>
      have hsame : s.zones.zone? domain = some zone := hzone
      exact ⟨s.calls, by rw [Zones.insert_of_zone? hsame]; rfl⟩
  | cons d rest ih =>
      rw [List.map_cons, List.nodup_cons] at hnodup
      have hback : (zone.after (d :: rest)).put d.item.key d.item.previous = zone.after rest := by
        have hne : ∀ e ∈ rest, e.item.key ≠ d.item.key := fun e he heq =>
          hnodup.1 (heq ▸ List.mem_map_of_mem he)
        rw [hprevious d List.mem_cons_self, ← Zone.get?_after_of_ne hne, Zone.after,
          Zone.put_put_get?]
      refine .bind_call fun o ho => ?_
      cases o with
      | failed e => exact absurd (hfate _ _ _ ho).1 Bool.noConfusion
      | carriedOut now =>
          rw [Course.afterCall, Outcome.call, Zones.call_restore hzone, hback]
          refine (ih hnodup.2 (fun e he => hprevious e (List.mem_cons_of_mem d he))
            (Zones.zone?_insert_self ..)).mono ?_
          rintro _ _ ⟨calls, rfl⟩
          exact ⟨calls, by rw [Zones.insert_insert]⟩

theorem leads_carryOut {mayFail : Prop} (hfate : fate.FailsAs fun c e => mayFail ∧ Passes c e)
    {steps : List PlannedItem} (done : List DoneStep)
    (hnodup : (steps.map (·.key) ++ done.map (·.item.key)).Nodup)
    (hprevious : mayFail →
      ∀ item ∈ steps ++ done.map (·.item), item.previous = zone.rrsets.get? item.key)
    (hon : ∀ d ∈ done, d.IsOn zone) (hzone : s.zones.zone? domain = some (zone.after done)) :
    fate.Leads (carryOut domain steps done).run s fun r later => match r with
      | .ok all => all.map (·.item) = done.reverse.map (·.item) ++ steps
          ∧ (∀ d ∈ all, d.IsOn zone)
          ∧ ∃ calls, later
            = { s with zones := s.zones.insert domain (zone.after all.reverse), calls := calls }
      | .error e => mayFail ∧ e.isRetryable = true ∧ ∃ calls, later
          = { s with
              zones := s.zones.insert domain zone, calls := calls,
              attempts := note e s.attempts } := by
  induction steps generalizing s done with
  | nil =>
      refine ⟨(List.append_nil _).symm, fun d hd => hon d (List.mem_reverse.1 hd), s.calls, ?_⟩
      rw [List.reverse_reverse, Zones.insert_of_zone? hzone]
      rfl
  | cons item rest ih =>
      rw [List.map_cons, List.cons_append, List.nodup_cons] at hnodup
      obtain ⟨hnew, hnodup'⟩ := hnodup
      refine .bind_call fun o ho => ?_
      cases o with
      | failed e =>
          obtain ⟨hmay, -, hretryable⟩ := hfate _ _ _ ho
          have hpasses : fate.FailsAs Passes := fun log c e he => (hfate log c e he).2
          have hback : ∀ d ∈ done, d.item.previous = zone.rrsets.get? d.item.key := fun d hd =>
            hprevious hmay d.item (List.mem_append_right _ (List.mem_map_of_mem hd))
          refine Fate.Leads.bind
            (leads_undo hpasses (List.nodup_append.1 hnodup').2.1 hback hzone) ?_
          rintro _ _ ⟨calls, rfl⟩
          exact ⟨hmay, hretryable, calls, rfl⟩
      | carriedOut now =>
          have hunused : item.key ∉ done.map (·.item.key) :=
            fun hmem => hnew (List.mem_append_right _ hmem)
          obtain ⟨d, rfl, hd, hupsert⟩ := call_upsert_after hunused hzone now
          rw [afterCall, Outcome.call, hupsert]
          refine (ih (d :: done) ?_ (fun hmay p hp => hprevious hmay p ?_)
            (List.forall_mem_cons.2 ⟨hd, hon⟩) (Zones.zone?_insert_self ..)).mono ?_
          · rw [List.map_cons, List.nodup_middle]
            exact List.nodup_cons.2 ⟨hnew, hnodup'⟩
          · rw [List.map_cons] at hp
            exact List.perm_middle.mem_iff.1 hp
          · rintro (e | all) _ hpost
            · obtain ⟨hmay, hretryable, calls, rfl⟩ := hpost
              exact ⟨hmay, hretryable, calls, by rw [Zones.insert_insert]⟩
            · obtain ⟨hsteps, hall, calls, rfl⟩ := hpost
              refine ⟨by rw [hsteps]; simp, hall, calls, by rw [Zones.insert_insert]⟩

theorem leads_announceChanges (domain : String) (done : List DoneStep) :
    fate.Leads (announceChanges domain (done.map DoneStep.change)) s fun _ later => ∃ time,
      later = { s with announced := s.announced ++ announcement domain done time } := by
  cases done with
  | nil => exact ⟨⟨0, 0⟩, by simp [announcement]; rfl⟩
  | cons d rest => exact ⟨fate.clock s.calls, rfl⟩

theorem leads_run {mayFail : Prop} (hfate : fate.FailsAs fun c e => mayFail ∧ Passes c e)
    {plan : Plan} (shape : BatchShape) (hnodup : (plan.steps.map (·.key)).Nodup)
    (hprevious : mayFail → ∀ item ∈ plan.steps, item.previous = zone.rrsets.get? item.key)
    (hzone : s.zones.zone? domain = some zone) :
    fate.Leads (run domain plan shape).run s fun r later => match r with
      | .ok o => ∃ done time calls, done.map (·.item) = plan.steps ∧ (∀ d ∈ done, d.IsOn zone)
          ∧ o = outcome domain plan shape done
          ∧ later = { s with
              zones := s.zones.insert domain (zone.after done.reverse), calls := calls,
              announced := s.announced ++ announcement domain done time }
      | .error e => mayFail ∧ e.isRetryable = true ∧ ∃ calls, later
          = { s with calls := calls, attempts := note e s.attempts } := by
  refine Fate.Leads.bind (p := EngineProgram.beginCommit) (P := fun _ later => s = later) rfl ?_
  rintro _ _ rfl
  refine (leads_carryOut hfate [] (by simpa using hnodup) (by simpa using hprevious)
    (by rintro _ ⟨⟩) hzone).bind ?_
  rintro (e | done) _ hpost
  · obtain ⟨hmay, hretryable, calls, rfl⟩ := hpost
    rw [Zones.insert_of_zone? hzone]
    exact ⟨hmay, hretryable, calls, rfl⟩
  · obtain ⟨hsteps, hon, calls, rfl⟩ := hpost
    refine (leads_announceChanges domain done).bind ?_
    rintro _ _ ⟨time, rfl⟩
    exact ⟨done, time, calls, hsteps, hon, rfl, rfl⟩

end Commit

end ZoneKeeper
