import ZoneKeeper.Proofs.Engine.Commit

namespace ZoneKeeper

structure CallRecord where
  who : Nat
  call : StoreCall
  outcome : Outcome

structure Past where
  zone : Option Zone
  log : List CallRecord

structure Watch where
  who : Nat
  domain : String
  may : List CallRecord → Prop
  keeps : Option Zone → Prop
  isFault : Error → Prop
  mayExpire : Prop
  isNamed : ∀ {zone : Zone}, keeps (some zone) → zone.domain.name = domain
  isKeyed : ∀ {zone : Zone}, keeps (some zone) → zone.IsKeyed
  may_of_append : ∀ {log more : List CallRecord}, may (log ++ more) → may log
  isFault_of_may : ∀ {log : List CallRecord} {c : StoreCall} {e : Error},
    may (log ++ [⟨who, c, .failed e⟩]) → isFault e

structure Watch.Holds (t : Watch) (past : Past) : Prop where
  keeps : t.keeps past.zone
  may : t.may past.log

def Watch.Answers {α : Type} (t : Watch) (right : α) : Except Error α → Prop
  | .ok a => a = right
  | .error e => t.isFault e

namespace Past

def answer (t : Watch) (past : Past) (c : StoreCall) (o : Outcome) : c.Answer :=
  (o.call c (.only t.domain past.zone)).1

def after (t : Watch) (past : Past) (c : StoreCall) (o : Outcome) : Past :=
  ⟨(o.call c (.only t.domain past.zone)).2.zone? t.domain, past.log ++ [⟨t.who, c, o⟩]⟩

variable {t : Watch} {past : Past} {zone : Zone}

theorem after_failed (t : Watch) (past : Past) (c : StoreCall) (e : Error) :
    (past.after t c (.failed e)).zone = past.zone := Zones.zone?_only ..

theorem after_read {c : StoreCall} (hc : c.isRead = true) (o : Outcome) :
    (past.after t c o).zone = past.zone := by
  cases o with
  | failed e => exact after_failed t past c e
  | carriedOut now =>
      rw [after, Outcome.call, Zones.call_of_isRead hc]
      exact Zones.zone?_only ..

theorem upsert (h : past.zone = some zone) (key : Key) (ttl : Nat) (records : SortedSet String)
    (now : Instant) :
    past.answer t (.upsert t.domain key ttl records) (.carriedOut now)
        = .ok (Zones.leftBy key ttl records now (zone.rrsets.get? key))
      ∧ (past.after t (.upsert t.domain key ttl records) (.carriedOut now)).zone
        = some (zone.put key (Zones.leftBy key ttl records now (zone.rrsets.get? key))) := by
  rw [answer, after, h, Outcome.call, Zones.call_upsert (Zones.zone?_only ..)]
  exact ⟨rfl, Zones.zone?_insert_self ..⟩

theorem restore (h : past.zone = some zone) (key : Key) (previous : Option Rrset) (now : Instant) :
    (past.after t (.restore t.domain key previous) (.carriedOut now)).zone
      = some (zone.put key previous) := by
  rw [after, h, Outcome.call, Zones.call_restore (Zones.zone?_only ..)]
  exact Zones.zone?_insert_self ..

end Past

/-- The calls of a program are about the domain that is watched and keep its zone as wanted. When
its time is up, the program may go on from any later point. -/
def Undisturbed {α : Type} (t : Watch) :
    EngineProgram α → Past → (α → Past → Prop) → Prop
  | .done a, past, post => post a past
  | .act (.call c) next, past, post => c.domain? = some t.domain
      ∧ ∀ o, t.may (past.after t c o).log → t.keeps (past.after t c o).zone
        ∧ Undisturbed t (next (past.answer t c o)) (past.after t c o) post
  | .act (.startTimer _) next, past, post => Undisturbed t (next false) past post
      ∧ (t.mayExpire → ∀ later, t.Holds later → Undisturbed t (next true) later post)
  | .act _ next, past, post => ∀ answer, Undisturbed t (next answer) past post

namespace Undisturbed

variable {α β : Type} {t : Watch} {past : Past}

theorem bind {p : EngineProgram α} {f : α → EngineProgram β} {P : α → Past → Prop}
    {post : β → Past → Prop} (h : Undisturbed t p past P)
    (hf : ∀ a later, P a later → Undisturbed t (f a) later post) :
    Undisturbed t (p >>= f) past post := by
  change Undisturbed t (p.bind f) past post
  induction p generalizing past with
  | done a => exact hf a past h
  | act a next ih =>
      cases a with
      | call c =>
          refine ⟨h.1, fun o hmay => ?_⟩
          obtain ⟨hkept, hnext⟩ := h.2 o hmay
          exact ⟨hkept, ih _ hnext⟩
      | startTimer => exact ⟨ih _ h.1, fun hmay later hlater => ih _ (h.2 hmay later hlater)⟩
      | _ => exact fun answer => ih answer (h answer)

theorem mono {p : EngineProgram α} {P Q : α → Past → Prop} (h : Undisturbed t p past P)
    (himp : ∀ a later, P a later → Q a later) : Undisturbed t p past Q := by
  have hbind : Undisturbed t (p >>= pure) past Q := h.bind himp
  rwa [bind_pure] at hbind

theorem engine_bind {p : Engine α} {f : α → Engine β} {P : Except Error α → Past → Prop}
    {post : Except Error β → Past → Prop} (h : Undisturbed t p.run past P)
    (herror : ∀ e later, P (.error e) later → post (.error e) later)
    (hf : ∀ a later, P (.ok a) later → Undisturbed t (f a).run later post) :
    Undisturbed t (p >>= f).run past post := by
  rw [ExceptT.run_bind]
  refine h.bind ?_
  rintro (e | a) later hlater
  · exact herror e later hlater
  · exact hf a later hlater

theorem lift {p : EngineProgram α} {post : Except Error α → Past → Prop}
    (h : Undisturbed t p past fun a later => post (.ok a) later) :
    Undisturbed t (liftM p : Engine α).run past post :=
  h.bind (f := fun a => Program.done (Except.ok a : Except Error α)) fun _ _ hlater => hlater

theorem locked {name : String} {p : Engine α} {post : Except Error α → Past → Prop}
    (h : Undisturbed t p.run past post) : Undisturbed t (Engine.locked name p).run past post := by
  intro _
  refine h.bind fun r later hr => ?_
  exact fun _ => hr

theorem read {c : StoreCall} {post : c.Answer → Past → Prop} (hdomain : c.domain? = some t.domain)
    (hread : c.isRead = true) (hholds : t.Holds past)
    (hfailed : ∀ e later, t.Holds later → later.zone = past.zone → t.isFault e →
      post (.error e) later)
    (hanswered : ∀ now later, t.Holds later → later.zone = past.zone →
      post (past.answer t c (.carriedOut now)) later) :
    Undisturbed t (EngineProgram.call c) past post := by
  refine ⟨hdomain, fun o hmay => ?_⟩
  have hzone : (past.after t c o).zone = past.zone := Past.after_read hread o
  have hkept : t.keeps (past.after t c o).zone := hzone.symm ▸ hholds.keeps
  refine ⟨hkept, ?_⟩
  cases o with
  | failed e => exact hfailed e _ ⟨hkept, hmay⟩ hzone (t.isFault_of_may hmay)
  | carriedOut now => exact hanswered now _ ⟨hkept, hmay⟩ hzone

theorem getDomain (hholds : t.Holds past) :
    Undisturbed t (EngineProgram.call (.getDomain t.domain)) past fun r later => t.Holds later
      ∧ later.zone = past.zone ∧ t.Answers (past.zone.map (·.domain)) r := by
  refine read rfl rfl hholds (fun e later hlater hsame hfault => ⟨hlater, hsame, hfault⟩)
    fun now later hlater hsame => ⟨hlater, hsame, ?_⟩
  rw [Past.answer, Outcome.call, Zones.call_getDomain, Zones.zone?_only]
  rfl

end Undisturbed

structure Tried where
  step : DoneStep
  outcome : Outcome

namespace Tried

def record (t : Watch) (x : Tried) : CallRecord :=
  ⟨t.who, .restore t.domain x.step.item.key x.step.item.previous, x.outcome⟩

def isStuck (x : Tried) : Bool :=
  match x.outcome with
  | .carriedOut _ => false
  | .failed _ => true

def stuck (tried : List Tried) : List DoneStep := (tried.filter isStuck).map (·.step)

theorem stuck_sublist (tried : List Tried) : (stuck tried).Sublist (tried.map (·.step)) :=
  List.filter_sublist.map _

@[simp] theorem stuck_append_carriedOut (tried : List Tried) (d : DoneStep) (now : Instant) :
    stuck (tried ++ [⟨d, .carriedOut now⟩]) = stuck tried := by
  rw [stuck, List.filter_append, List.map_append]
  exact List.append_nil _

@[simp] theorem stuck_append_failed (tried : List Tried) (d : DoneStep) (e : Error) :
    stuck (tried ++ [⟨d, .failed e⟩]) = stuck tried ++ [d] := by
  rw [stuck, List.filter_append, List.map_append]
  rfl

end Tried

structure Plan.Reaches (plan : Plan) (zone : Zone) (done : List DoneStep) : Prop where
  steps : done.reverse.map (·.item) <+: plan.steps
  isFor : ∀ d ∈ done, d.IsFor zone

theorem Plan.Reaches.mem_items {plan : Plan} {zone : Zone} {done : List DoneStep}
    (h : plan.Reaches zone done) {d : DoneStep} (hd : d ∈ done) : d.item ∈ plan.items :=
  (mem_steps (h.steps.subset (List.mem_map_of_mem (List.mem_reverse.2 hd)))).1

theorem Plan.Reaches.nodup {plan : Plan} {zone : Zone} {done : List DoneStep}
    (h : plan.Reaches zone done) (hnodup : (plan.steps.map (·.key)).Nodup) :
    (done.map (·.item.key)).Nodup := by
  have hkeys := (h.steps.sublist.map (·.key)).nodup hnodup
  rwa [List.map_map, List.map_reverse, List.nodup_reverse] at hkeys

theorem Plan.key_ne_of_done {plan : Plan} (hnodup : (plan.steps.map (·.key)).Nodup)
    {done : List DoneStep} {item : PlannedItem} {rest : List PlannedItem}
    (hsteps : plan.steps = done.reverse.map (·.item) ++ item :: rest) :
    ∀ d ∈ done, d.item.key ≠ item.key := by
  rw [hsteps, List.map_append] at hnodup
  intro d hd
  refine (List.nodup_append.1 hnodup).2.2 _ ?_ _ List.mem_cons_self
  exact List.mem_map_of_mem (List.mem_map_of_mem (List.mem_reverse.2 hd))

def Watch.Tolerates (t : Watch) (plan : Plan) (zone : Zone) : Prop :=
  ∀ (log : List CallRecord) (tried : List Tried) (rest : List DoneStep),
    plan.Reaches zone (tried.map (·.step) ++ rest) → t.may (log ++ tried.map (Tried.record t)) →
      t.keeps (some (zone.after (Tried.stuck tried ++ rest)))

def Plan.IsUndone (plan : Plan) (t : Watch) (zone : Zone) (past : Past) : Prop :=
  ∃ (log : List CallRecord) (tried : List Tried), plan.Reaches zone (tried.map (·.step))
    ∧ past = ⟨some (zone.after (Tried.stuck tried)), log ++ tried.map (Tried.record t)⟩

namespace Zone

theorem put_comm (zone : Zone) {a b : Key} (hne : a ≠ b) (left left' : Option Rrset) :
    (zone.put a left).put b left' = (zone.put b left').put a left := by
  apply ext_get?
  · simp
  · intro k
    simp only [get?_put]
    split
    · next hb => rw [if_neg (hb.symm ▸ Ne.symm hne)]
    · rfl

theorem after_append_put {zone : Zone} {front rest : List DoneStep} {d : DoneStep}
    (hnodup : ((front ++ d :: rest).map (·.item.key)).Nodup) :
    (zone.after (front ++ d :: rest)).put d.item.key (zone.rrsets.get? d.item.key)
      = zone.after (front ++ rest) := by
  induction front with
  | nil =>
      have hne : ∀ e ∈ rest, e.item.key ≠ d.item.key := fun e he heq =>
        (List.nodup_cons.1 hnodup).1 (List.mem_map.2 ⟨e, he, heq⟩)
      rw [List.nil_append, ← get?_after_of_ne hne, after, put_put_get?, List.nil_append]
  | cons e front ih =>
      obtain ⟨hnew, hrest⟩ := List.nodup_cons.1 hnodup
      have hne : e.item.key ≠ d.item.key := fun heq =>
        hnew (List.mem_map.2 ⟨d, List.mem_append_right _ List.mem_cons_self, heq.symm⟩)
      rw [List.cons_append, after, put_comm _ hne, ih hrest]
      rfl

end Zone

def DoneStep.IsDated (d : DoneStep) (t : Watch) (zone : Zone) (log : List CallRecord) : Prop :=
  ∃ now, ⟨t.who, .upsert t.domain d.item.key d.item.ttl d.item.records, .carriedOut now⟩ ∈ log
    ∧ d.left = Zones.leftBy d.item.key d.item.ttl d.item.records now
        (zone.rrsets.get? d.item.key)

theorem DoneStep.IsDated.mono {d : DoneStep} {t : Watch} {zone : Zone} {log log' : List CallRecord}
    (h : d.IsDated t zone log) (hsub : log ⊆ log') : d.IsDated t zone log' := by
  obtain ⟨now, hmem, hleft⟩ := h
  exact ⟨now, hsub hmem, hleft⟩

namespace Commit

variable {t : Watch} {past : Past} {zone : Zone} {plan : Plan}

theorem undisturbed_undo (ht : t.Tolerates plan zone) (hnodup : (plan.steps.map (·.key)).Nodup)
    (log : List CallRecord) (tried : List Tried) {rest : List DoneStep}
    (hreaches : plan.Reaches zone (tried.map (·.step) ++ rest)) (hmay : t.may past.log)
    (hpast : past = ⟨some (zone.after (Tried.stuck tried ++ rest)),
      log ++ tried.map (Tried.record t)⟩) :
    Undisturbed t (undo t.domain rest) past fun _ later =>
      t.Holds later ∧ plan.IsUndone t zone later := by
  induction rest generalizing past tried with
  | nil =>
      rw [List.append_nil] at hpast hreaches
      refine ⟨⟨?_, hmay⟩, log, tried, hreaches, hpast⟩
      have hkept := ht log tried [] (by simpa using hreaches) (by rwa [hpast] at hmay)
      rw [hpast]
      simpa using hkept
  | cons d rest ih =>
      -- a step that is undone leaves the zone, one that cannot be stays below those to come
      refine ⟨rfl, fun o hmay' => ?_⟩
      let next := tried ++ [⟨d, o⟩]
      have hsteps : next.map (·.step) ++ rest = tried.map (·.step) ++ d :: rest := by
        simp [next]
      have hstuckNodup : ((Tried.stuck tried ++ d :: rest).map (·.item.key)).Nodup :=
        (((Tried.stuck_sublist tried).append_right _).map _).nodup (hreaches.nodup hnodup)
      have hprevious : d.item.previous = zone.rrsets.get? d.item.key :=
        (hreaches.isFor d (by simp)).previous
      have hnext : past.after t (.restore t.domain d.item.key d.item.previous) o
          = ⟨some (zone.after (Tried.stuck next ++ rest)), log ++ next.map (Tried.record t)⟩ := by
        have hlog : (past.after t (.restore t.domain d.item.key d.item.previous) o).log
            = log ++ next.map (Tried.record t) := by
          rw [Past.after, hpast]
          simp [next, Tried.record]
        have hzone : (past.after t (.restore t.domain d.item.key d.item.previous) o).zone
            = some (zone.after (Tried.stuck next ++ rest)) := by
          cases o with
          | failed e =>
              rw [Past.after_failed, hpast]
              simp [next]
          | carriedOut now =>
              rw [Past.restore (congrArg Past.zone hpast), hprevious,
                Zone.after_append_put hstuckNodup]
              simp [next]
        rw [← hlog, ← hzone]
      have hreaches' : plan.Reaches zone (next.map (·.step) ++ rest) := by rwa [hsteps]
      refine ⟨?_, ih next hreaches' hmay' hnext⟩
      rw [hnext] at hmay' ⊢
      exact ht log next rest hreaches' hmay'

theorem undisturbed_undo_all (ht : t.Tolerates plan zone)
    (hnodup : (plan.steps.map (·.key)).Nodup) {done : List DoneStep}
    (hreaches : plan.Reaches zone done) (hmay : t.may past.log)
    (hzone : past.zone = some (zone.after done)) :
    Undisturbed t (undo t.domain done) past fun _ later =>
      t.Holds later ∧ plan.IsUndone t zone later := by
  refine undisturbed_undo ht hnodup past.log [] hreaches hmay ?_
  rw [List.map_nil, List.append_nil, Tried.stuck, List.filter_nil, List.map_nil, List.nil_append,
    ← hzone]

theorem undisturbed_carryOut (ht : t.Tolerates plan zone)
    (hnodup : (plan.steps.map (·.key)).Nodup)
    (hprevious : ∀ item ∈ plan.steps, item.previous = zone.rrsets.get? item.key)
    {steps : List PlannedItem} (done : List DoneStep)
    (hsteps : plan.steps = done.reverse.map (·.item) ++ steps) (hfor : ∀ d ∈ done, d.IsFor zone)
    (hdated : ∀ d ∈ done, d.IsDated t zone past.log)
    (hzone : past.zone = some (zone.after done)) (hholds : t.Holds past) :
    Undisturbed t (carryOut t.domain steps done).run past fun r later =>
      t.Holds later ∧ match r with
      | .ok all => all.map (·.item) = plan.steps ∧ (∀ d ∈ all, d.IsFor zone)
          ∧ (∀ d ∈ all, d.IsDated t zone later.log) ∧ later.zone = some (zone.after all.reverse)
      | .error e => t.isFault e ∧ plan.IsUndone t zone later := by
  induction steps generalizing past done with
  | nil =>
      refine ⟨hholds, ?_, fun d hd => hfor d (List.mem_reverse.1 hd),
        fun d hd => hdated d (List.mem_reverse.1 hd), ?_⟩
      · rw [hsteps, List.append_nil]
      · rw [List.reverse_reverse, hzone]
  | cons item rest ih =>
      have hreaches : plan.Reaches zone done := ⟨hsteps ▸ List.prefix_append _ _, hfor⟩
      refine ⟨rfl, fun o hmay => ?_⟩
      cases o with
      | failed e =>
          have hsame := Past.after_failed t past
            (.upsert t.domain item.key item.ttl item.records) e
          refine ⟨hsame.symm ▸ hholds.keeps, ?_⟩
          refine (undisturbed_undo_all ht hnodup hreaches hmay (hsame.trans hzone)).bind ?_
          rintro _ later ⟨hlater, hundone⟩
          exact ⟨hlater, t.isFault_of_may hmay, hundone⟩
      | carriedOut now =>
          let d : DoneStep := ⟨item,
            Zones.leftBy item.key item.ttl item.records now (zone.rrsets.get? item.key)⟩
          have hitem : item ∈ plan.steps := by simp [hsteps]
          have hstored : (zone.after done).rrsets.get? item.key = zone.rrsets.get? item.key :=
            Zone.get?_after_of_ne (Plan.key_ne_of_done hnodup hsteps)
          obtain ⟨hanswer, hleft⟩ := Past.upsert (t := t) hzone item.key item.ttl item.records now
          rw [hstored] at hanswer hleft
          have hfor' : ∀ e ∈ d :: done, e.IsFor zone := by
            intro e he
            rcases List.mem_cons.1 he with rfl | he
            · exact ⟨hprevious item hitem, now, rfl⟩
            · exact hfor e he
          have hdated' : ∀ e ∈ d :: done, e.IsDated t zone (past.after t
              (.upsert t.domain item.key item.ttl item.records) (.carriedOut now)).log := by
            intro e he
            rcases List.mem_cons.1 he with rfl | he
            · exact ⟨now, List.mem_append_right _ List.mem_cons_self, rfl⟩
            · exact (hdated e he).mono (List.subset_append_left _ _)
          have hsteps' : plan.steps = (d :: done).reverse.map (·.item) ++ rest := by
            rw [hsteps]
            simp [d]
          have hkept : t.keeps (past.after t (.upsert t.domain item.key item.ttl item.records)
              (.carriedOut now)).zone := by
            rw [hleft]
            exact ht _ [] (d :: done) ⟨hsteps' ▸ List.prefix_append _ _, hfor'⟩
              (by simpa using hmay)
          refine ⟨hkept, ?_⟩
          rw [hanswer]
          exact ih _ hsteps' hfor' hdated' hleft ⟨hkept, hmay⟩

theorem undisturbed_run (ht : t.Tolerates plan zone) (hnodup : (plan.steps.map (·.key)).Nodup)
    (hprevious : ∀ item ∈ plan.steps, item.previous = zone.rrsets.get? item.key)
    (hzone : past.zone = some zone) (hholds : t.Holds past) (shape : BatchShape) :
    Undisturbed t (run t.domain plan shape).run past fun r later => t.Holds later ∧ match r with
      | .ok o => ∃ done, done.map (·.item) = plan.steps ∧ (∀ d ∈ done, d.IsFor zone)
          ∧ (∀ d ∈ done, d.IsDated t zone later.log)
          ∧ later.zone = some (zone.after done.reverse) ∧ o = outcome t.domain plan shape done
      | .error e => t.isFault e ∧ plan.IsUndone t zone later := by
  refine fun _ => (undisturbed_carryOut ht hnodup hprevious [] rfl (by rintro _ ⟨⟩)
    (by rintro _ ⟨⟩) hzone hholds).bind ?_
  rintro (e | done) later ⟨hlater, hpost⟩
  · exact fun _ _ => ⟨hlater, hpost⟩
  · have hannounces : Undisturbed t (announceChanges t.domain (done.map DoneStep.change)) later
        fun _ final => final = later := by
      cases done with
      | nil => exact rfl
      | cons d rest => exact fun _ _ => rfl
    refine hannounces.bind ?_
    rintro _ _ rfl
    obtain ⟨hsteps, hfor, hdated, hleft⟩ := hpost
    exact fun _ _ => ⟨hlater, done, hsteps, hfor, hdated, hleft, rfl⟩

end Commit

end ZoneKeeper
