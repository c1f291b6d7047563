import ZoneKeeper.Proofs.Engine.Exclusion
import ZoneKeeper.Proofs.Traffic.Undisturbed

namespace ZoneKeeper

/-- In one undoing, a set could not be removed, and one whose type excludes its own was put back. -/
def HalfUndone (log : List CallRecord) (domain subname : String) : Prop :=
  ∃ (before between after : List CallRecord) (who : Nat) (type other : String) (e : Error)
      (r : Rrset) (now : Instant),
    log = before ++ ⟨who, .restore domain ⟨subname, type⟩ none, .failed e⟩ :: between
        ++ ⟨who, .restore domain ⟨subname, other⟩ (some r), .carriedOut now⟩ :: after
      ∧ (∀ x ∈ between, x.who = who ∧ x.call.isRestore = true)
      ∧ Review.excludes type other = true

theorem HalfUndone.append {log : List CallRecord} {domain subname : String}
    (h : HalfUndone log domain subname) (more : List CallRecord) :
    HalfUndone (log ++ more) domain subname := by
  obtain ⟨before, between, after, who, type, other, e, r, now, rfl, hrest⟩ := h
  exact ⟨before, between, after ++ more, who, type, other, e, r, now, by simp, hrest⟩

theorem Plan.Reaches.removals {plan : Plan} {zone : Zone} {done : List DoneStep}
    (h : plan.Reaches zone done) : (∀ d ∈ done, d.item.action.isDelete = true)
      ∨ ∃ writes removals, done = writes ++ removals
          ∧ (∀ d ∈ writes, d.item.action.isDelete = false)
          ∧ (∀ d ∈ removals, d.item.action.isDelete = true)
          ∧ ∀ item ∈ plan.items, item.action.isDelete = true → ∃ d ∈ removals, d.item = item := by
  rcases List.prefix_or_prefix_of_prefix h.steps (List.prefix_append _ _) with hfew | hall
  · left
    intro d hd
    exact (List.mem_filter.1 (hfew.subset (List.mem_map_of_mem (List.mem_reverse.2 hd)))).2
  · right
    obtain ⟨written, hwritten⟩ := hall
    obtain ⟨first, last, hsplit, hfirst, hlast⟩ := List.map_eq_append_iff.1 hwritten.symm
    have hdone : done = last.reverse ++ first.reverse := by
      rw [← List.reverse_append, ← hsplit, List.reverse_reverse]
    have hsteps := h.steps
    rw [← hwritten, Plan.steps, List.prefix_append_right_inj] at hsteps
    refine ⟨_, _, hdone, fun d hd => ?_, fun d hd => ?_, fun item hitem hdelete => ?_⟩
    · have hmem := hsteps.subset (hlast ▸ List.mem_map_of_mem (List.mem_reverse.1 hd))
      have hwrite := (List.mem_filter.1 hmem).2
      cases haction : d.item.action <;> simp [haction, Action.isWrite, Action.isDelete] at hwrite ⊢
    · have hmem := hfirst ▸ List.mem_map_of_mem (List.mem_reverse.1 hd)
      exact (List.mem_filter.1 hmem).2
    · have hmem : item ∈ first.map (·.item) := hfirst ▸ List.mem_filter.2 ⟨hitem, hdelete⟩
      obtain ⟨d, hd, rfl⟩ := List.mem_map.1 hmem
      exact ⟨d, List.mem_reverse.2 hd, rfl⟩

theorem halfUndone_of_tried {t : Watch} {log : List CallRecord} {subname type other : String}
    {early late : List Tried} {stuck : Tried} {put : Tried} (hstuck : stuck ∈ early)
    (hput : put ∈ late) (hfailed : stuck.isStuck = true) (hdone : put.isStuck = false)
    (hkey : stuck.step.item.key = ⟨subname, type⟩) (hkey' : put.step.item.key = ⟨subname, other⟩)
    (hnone : stuck.step.item.previous = none) (hsome : put.step.item.previous.isSome = true)
    (hexcludes : Review.excludes type other = true) :
    HalfUndone (log ++ (early ++ late).map (Tried.record t)) t.domain subname := by
  obtain ⟨first, second, rfl⟩ := List.append_of_mem hstuck
  obtain ⟨third, fourth, rfl⟩ := List.append_of_mem hput
  obtain ⟨r, hr⟩ := Option.isSome_iff_exists.1 hsome
  obtain ⟨step, outcome⟩ := stuck
  obtain ⟨step', outcome'⟩ := put
  cases outcome with
  | carriedOut => cases hfailed
  | failed e =>
      cases outcome' with
      | failed => cases hdone
      | carriedOut now =>
          refine ⟨log ++ first.map (Tried.record t), (second ++ third).map (Tried.record t),
            fourth.map (Tried.record t), t.who, type, other, e, r, now, ?_, ?_, hexcludes⟩
          · dsimp only at hkey hkey' hnone hr
            simp [Tried.record, hkey, hkey', hnone, hr]
          · intro x hx
            obtain ⟨y, -, rfl⟩ := List.mem_map.1 hx
            exact ⟨rfl, rfl⟩

section Undoing

variable {ctx : ReviewContext} {batch : Batch} {snapshot : Snapshot} {plan : Plan} {zone : Zone}
  {t : Watch} {subname : String}

theorem exists_tried_of_removal {tried : List Tried} {rest : List DoneStep}
    (hreaches : plan.Reaches zone (tried.map (·.step) ++ rest)) {d : DoneStep}
    (hd : d ∈ tried.map (·.step) ++ rest) (hwrite : d.item.action.isDelete = false)
    {item : PlannedItem} (hitem : item ∈ plan.items) (hdelete : item.action.isDelete = true)
    (hback : ∀ e ∈ rest, e.item ≠ item) :
    ∃ early late, tried = early ++ late ∧ (∃ put ∈ late, put.step.item = item)
      ∧ (∀ x ∈ late, x.step.item.action.isDelete = true)
      ∧ ∀ e ∈ rest, e.item.action.isDelete = true := by
  rcases hreaches.removals with honly | ⟨writes, removals, hsplit, -, hremovals, hremoved⟩
  · exact absurd (hwrite.symm.trans (honly d hd)) Bool.false_ne_true
  obtain ⟨gone, hgone, rfl⟩ := hremoved item hitem hdelete
  have hnot : gone ∉ rest := fun hmem => hback gone hmem rfl
  rcases List.append_eq_append_iff.1 hsplit with ⟨more, -, hrest⟩ | ⟨undone, htried, rfl⟩
  · -- no removal has been tried yet
    exact absurd (hrest ▸ List.mem_append_right _ hgone) hnot
  · obtain ⟨early, late, rfl, -, rfl⟩ := List.map_eq_append_iff.1 htried
    refine ⟨early, late, rfl, ?_, fun x hx => ?_, fun e he => ?_⟩
    · obtain ⟨put, hput, rfl⟩ := List.mem_map.1 ((List.mem_append.1 hgone).resolve_right hnot)
      exact ⟨put, hput, rfl⟩
    · exact hremovals _ (List.mem_append_left _ (List.mem_map_of_mem hx))
    · exact hremovals e (List.mem_append_right _ he)

theorem halfUndone_of_clash {log : List CallRecord} {tried : List Tried} {rest : List DoneStep}
    (hreaches : plan.Reaches zone (tried.map (·.step) ++ rest)) {removed written : String}
    {item : PlannedItem} (hitem : item ∈ plan.items) (hkey : item.key = ⟨subname, removed⟩)
    (hdelete : item.action.isDelete = true) (hstored : zone.HasSet ⟨subname, removed⟩)
    (hback : ∀ d ∈ Tried.stuck tried ++ rest, d.item.key ≠ ⟨subname, removed⟩) {d : DoneStep}
    (hd : d ∈ Tried.stuck tried ++ rest) (hkey' : d.item.key = ⟨subname, written⟩)
    (hleft : d.left.isSome = true) (hfree : ¬ zone.HasSet ⟨subname, written⟩)
    (hexcludes : Review.excludes written removed = true) :
    HalfUndone (log ++ tried.map (Tried.record t)) t.domain subname := by
  have hdone := ((Tried.stuck_sublist tried).append_right rest).subset hd
  have hwrite := (hreaches.isFor d hdone).isDelete_of_isSome hleft
  have hmine {e : DoneStep} (h : e.item.action.isDelete = true) : e ≠ d := by
    rintro rfl
    exact absurd (hwrite.symm.trans h) Bool.false_ne_true
  obtain ⟨early, late, rfl, ⟨put, hput, rfl⟩, hlate, hrest⟩ :=
    exists_tried_of_removal hreaches hdone hwrite hitem hdelete fun e he hsame =>
      hback e (List.mem_append_right _ he) (hsame ▸ hkey)
  -- the removal is not there any more, so the set must have been put back
  have hputDone : put.isStuck = false := by
    by_contra hstuck
    refine hback put.step (List.mem_append_left _ (List.mem_map_of_mem ?_)) hkey
    exact List.mem_filter.2 ⟨List.mem_append_right _ hput, by simpa using hstuck⟩
  have hstuck := (List.mem_append.1 hd).resolve_right fun hmem => hmine (hrest d hmem) rfl
  obtain ⟨stuck, hfiltered, rfl⟩ := List.mem_map.1 hstuck
  obtain ⟨hmem, hfailed⟩ := List.mem_filter.1 hfiltered
  have hfirst := (List.mem_append.1 hmem).resolve_right fun hmem => hmine (hlate stuck hmem) rfl
  have hprevious (x : Tried) (hx : x ∈ early ++ late) :
      x.step.item.previous = zone.rrsets.get? x.step.item.key :=
    (hreaches.isFor _ (List.mem_append_left _ (List.mem_map_of_mem hx))).previous
  refine halfUndone_of_tried hfirst hput hfailed hputDone hkey' hkey ?_ ?_ hexcludes
  · rw [hprevious stuck hmem, hkey']
    simpa [Zone.HasSet] using hfree
  · rw [hprevious put (List.mem_append_right _ hput), hkey]
    exact hstored

theorem exclusive_after_undoing (hmake : Plan.make ctx batch snapshot = .ok plan)
    (hagrees : Review.Agrees batch snapshot zone) (hzone : zone.IsExclusiveAt subname)
    {log : List CallRecord} {tried : List Tried} {rest : List DoneStep}
    (hreaches : plan.Reaches zone (tried.map (·.step) ++ rest))
    (hnot : ¬ HalfUndone (log ++ tried.map (Tried.record t)) t.domain subname) :
    (zone.after (Tried.stuck tried ++ rest)).IsExclusiveAt subname := by
  have hstays := exclusive_iff.1 (Review.exclusive_stays (Plan.staged_pass hmake) hagrees
    (Plan.items_of_make hmake).2 hzone)
  have hwritten : ∀ d ∈ Tried.stuck tried ++ rest, d.left.isSome = true →
      Review.Stays (Review.staged ctx snapshot batch.items) zone.HasSet d.item.key := by
    intro d hd hleft
    have hdone := ((Tried.stuck_sublist tried).append_right rest).subset hd
    exact Plan.stays_of_left hmake (hreaches.mem_items hdone) (hreaches.isFor d hdone) hleft
  have hclash {removed written : String}
      (hgone : ¬ Review.Stays (Review.staged ctx snapshot batch.items) zone.HasSet
        ⟨subname, removed⟩)
      (hback : (zone.after (Tried.stuck tried ++ rest)).HasSet ⟨subname, removed⟩)
      (hfree : ¬ zone.HasSet ⟨subname, written⟩)
      (hnew : (zone.after (Tried.stuck tried ++ rest)).HasSet ⟨subname, written⟩) :
      Review.excludes written removed = false := by
    by_contra hexcludes
    rcases Zone.hasSet_after hback with ⟨d, hd, hkey, hleft⟩ | ⟨hstored, hnone⟩
    · exact hgone (hkey ▸ hwritten d hd hleft)
    · rcases Zone.hasSet_after hnew with ⟨d, hd, hkey, hleft⟩ | ⟨hstored', -⟩
      · obtain ⟨item, hitem, hkey', hdelete⟩ :=
          Plan.removed_of_not_stays hmake hagrees hstored hgone
        exact hnot (halfUndone_of_clash hreaches hitem hkey' hdelete hstored hnone hd hkey hleft
          hfree (by simpa using hexcludes))
      · exact hfree hstored'
  have hbefore {type : String}
      (hgone : ¬ Review.Stays (Review.staged ctx snapshot batch.items) zone.HasSet ⟨subname, type⟩)
      (hback : (zone.after (Tried.stuck tried ++ rest)).HasSet ⟨subname, type⟩) :
      zone.HasSet ⟨subname, type⟩ := by
    rcases Zone.hasSet_after hback with ⟨d, hd, hkey, hleft⟩ | ⟨hstored, -⟩
    · exact absurd (hkey ▸ hwritten d hd hleft) hgone
    · exact hstored
  rw [Zone.IsExclusiveAt, exclusive_iff] at hzone ⊢
  intro a b ha hb
  -- both were there before, both stay with the batch applied, or one of each kind is met
  by_cases hstored : zone.HasSet ⟨subname, a⟩ ∧ zone.HasSet ⟨subname, b⟩
  · exact hzone a b hstored.1 hstored.2
  · by_cases hboth : Review.Stays (Review.staged ctx snapshot batch.items) zone.HasSet ⟨subname, a⟩
        ∧ Review.Stays (Review.staged ctx snapshot batch.items) zone.HasSet ⟨subname, b⟩
    · exact hstays a b hboth.1 hboth.2
    · rcases not_and_or.1 hboth with hgone | hgone
      · rw [Review.excludes_comm]
        exact hclash hgone ha (fun h => hstored ⟨hbefore hgone ha, h⟩) hb
      · exact hclash hgone hb (fun h => hstored ⟨h, hbefore hgone hb⟩) ha

end Undoing

def exclusivityWatch (name subname : String) (who : Nat) (domain : String) : Watch where
  who := who
  domain := domain
  may := fun log => domain = name → ¬ HalfUndone log name subname
  keeps := fun zone? => ∀ zone, zone? = some zone → zone.domain.name = domain ∧ zone.IsKeyed
    ∧ (domain = name → zone.IsExclusiveAt subname)
  isFault := fun _ => True
  mayExpire := True
  isNamed := fun h => (h _ rfl).1
  isKeyed := fun h => (h _ rfl).2.1
  may_of_append := fun h hname hundone => h hname (hundone.append _)
  isFault_of_may := fun _ => trivial

namespace Traffic

theorem isFamily_exclusivityWatch (name subname : String) :
    IsFamily (exclusivityWatch name subname) where
  who := fun _ _ => rfl
  domain := fun _ _ => rfl
  holds := fun _ _ _ _ h => ⟨h.keeps, h.may⟩
  none := by rintro _ _ zone ⟨⟩
  empty := by
    rintro _ _ domain hname _ ⟨⟩
    exact ⟨hname, by rintro key r ⟨⟩, fun _ => by rintro ⟨⟩⟩
  suits := by
    rintro who domain ctx batch plan zone hkeeps hmake log tried rest hreaches hmay _ ⟨⟩
    obtain ⟨hname, hkeyed, hexclusive⟩ := hkeeps zone rfl
    have hfor : ∀ d ∈ Tried.stuck tried ++ rest, d.IsFor zone := fun d hd =>
      hreaches.isFor d (((Tried.stuck_sublist tried).append_right rest).subset hd)
    refine ⟨by rw [Zone.domain_after, hname], hkeyed.after hfor, ?_⟩
    rintro rfl
    exact exclusive_after_undoing hmake (Review.agrees_of_isKeyed hkeyed batch) (hexclusive rfl)
      hreaches (hmay rfl)

theorem exclusive_unless_half_undone {settings : EngineSettings} {mayFail : StoreCall → Bool}
    {events : List Event} {s : Traffic}
    (h : (start settings mayFail .empty []).runInTurn events = some s) {name subname : String}
    (hundone : ¬ HalfUndone ((start settings mayFail .empty []).log events) name subname)
    {zone : Zone} (hzone : s.zones.zone? name = some zone) : zone.IsExclusiveAt subname := by
  have hkept := keeps_of_runInTurn (isFamily_exclusivityWatch name subname) (fun _ _ => trivial) h
    (fun _ _ _ => hundone) 0 name
  exact (hkept zone hzone).2.2 rfl

end Traffic

def CallRecord.putsBack (x : CallRecord) : Bool :=
  match x.call, x.outcome with
  | .restore _ _ (some _), .carriedOut _ => true
  | _, _ => false

theorem HalfUndone.any_putsBack {log : List CallRecord} {domain subname : String}
    (h : HalfUndone log domain subname) : log.any CallRecord.putsBack = true := by
  obtain ⟨before, between, after, who, type, other, e, r, now, rfl, -⟩ := h
  simp [CallRecord.putsBack]

namespace Traffic

namespace Example

def impatient : EngineSettings := { EngineSettings.default with maxRetries := 0 }

def swapWww : Request := .write ⟨"alice"⟩ "example.com" .replace (.array [
  .object [("subname", .string "www"), ("type", .string "A"), ("records", .array [])],
  .object [("subname", .string "www"), ("type", .string "CNAME"), ("ttl", .int 3600),
    ("records", .array [.string "mail.example.com."])],
  .object [("subname", .string "mail"), ("type", .string "A"), ("ttl", .int 3600),
    ("records", .array [.string "192.0.2.2"])]]) none

def full : Move := .call (.failed (.storage "full"))

def paired : List Event :=
  .arrive (create "alice") :: events 0 creating
    ++ .arrive createWww :: events 1 [answer, goOn, .refer, .join, goOn, answer, answer, goOn,
      goOn, answer, goOn, goOn, goOn, goOn]
    ++ .arrive swapWww :: events 2 [answer, goOn, .refer, .join, goOn, answer, answer, answer,
      goOn, goOn, answer, answer, full, full, answer, goOn, goOn]

end Example

theorem alias_is_paired : ∃ s zone,
    (start Example.impatient (fun _ => true) .empty []).runInTurn Example.paired = some s
      ∧ s.workers.all Worker.isOver = true ∧ s.zones.zone? "example.com" = some zone
      ∧ ¬ zone.IsExclusiveAt "www" := by
  have hends : ((start Example.impatient (fun _ => true) .empty []).runInTurn
      Example.paired).any (fun s => s.workers.all Worker.isOver
        && (s.zones.zone? "example.com").any fun zone =>
          (zone.rrsets.get? ⟨"www", "CNAME"⟩).isSome && (zone.rrsets.get? ⟨"www", "A"⟩).isSome)
      = true := by
    decide +kernel
  obtain ⟨s, hs, hended⟩ := (Option.any_eq_true _ _).1 hends
  obtain ⟨hover, hstored⟩ := (Bool.and_eq_true _ _).mp hended
  obtain ⟨zone, hzone, hboth⟩ := (Option.any_eq_true _ _).1 hstored
  obtain ⟨hcname, haddress⟩ := (Bool.and_eq_true _ _).mp hboth
  exact ⟨s, zone, hs, hover, hzone, fun h => absurd (h hcname "A" haddress) (by decide)⟩

theorem stranded_set_is_alone : ∃ s zone,
    (start .default (fun _ => true) .empty []).runInTurn Example.stranded = some s
      ∧ s.zones.zone? "example.com" = some zone ∧ zone.HasSet ⟨"mail", "A"⟩
      ∧ zone.IsExclusiveAt "mail" := by
  have hends : ((start .default (fun _ => true) .empty []).runInTurn Example.stranded).any
      (fun s => (s.zones.zone? "example.com").any
        fun zone => (zone.rrsets.get? ⟨"mail", "A"⟩).isSome) = true := by
    decide +kernel
  have hlog : ((start .default (fun _ => true) .empty []).log Example.stranded).any
      CallRecord.putsBack = false := by
    decide +kernel
  obtain ⟨s, hs, hstored⟩ := (Option.any_eq_true _ _).1 hends
  obtain ⟨zone, hzone, hset⟩ := (Option.any_eq_true _ _).1 hstored
  refine ⟨s, zone, hs, hzone, hset, exclusive_unless_half_undone hs (fun hundone => ?_) hzone⟩
  exact absurd (hlog.symm.trans hundone.any_putsBack) Bool.false_ne_true

end Traffic

end ZoneKeeper
