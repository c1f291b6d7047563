import ZoneKeeper.Proofs.Traffic.Pace

namespace ZoneKeeper

inductive Lists (domain : String) (filter : Filter) : EngineProgram (Except Error Reply) → Prop
  | failed (e : Error) : Lists domain filter (.done (.error e))
  | looks {next : Except Error (Option Domain) → EngineProgram (Except Error Reply)}
      (hnext : ∀ answer, (∀ found, answer = .ok (some found) → found.name = domain) →
        Lists domain filter (next answer)) :
      Lists domain filter (.act (.call (.getDomain domain)) next)
  | reads {next : Except Error (List Rrset) → EngineProgram (Except Error Reply)}
      (hfailed : ∀ e, next (.error e) = .done (.error e))
      (hshown : ∀ rrsets,
        next (.ok rrsets) = .done (.ok (.views (rrsets.map (Rrset.view domain))))) :
      Lists domain filter (.act (.call (.list domain filter)) next)

theorem Request.lists_run (settings : EngineSettings) (principal : Principal) (name : String)
    (filter : Filter) : Lists (normalizeDomain name) filter
      (run settings (.list principal name filter)).run := by
  rw [run, listFor, bind_assoc, run_visibleDomain]
  refine .looks ?_
  rintro (e | _ | found) hnamed
  · exact .failed e
  · exact .failed _
  · dsimp only
    split
    · rw [← hnamed found rfl]
      cases filter.type.bind automaticError? with
      | some e => exact .failed e
      | none => exact .reads (fun _ => rfl) fun _ => rfl
    · exact .failed _

namespace Traffic

section Listings

variable {first s : Traffic} {who : Nat} {domain : String} {filter : Filter} {views : List View}

structure ShowsMoment (first : Traffic) (events : List Event) (who : Nat) (domain : String)
    (filter : Filter) (views : List View) (before : List Event) (mid : Traffic)
    (after : List Event) : Prop where
  events : events = before ++ after
  run : first.run before = some mid
  reads : ∃ o rest, after = .move who (.call o) :: rest
    ∧ mid.workers[who]?.bind Worker.nextCall? = some (.list domain filter)
  views : views = (mid.zones.list domain filter).map (Rrset.view domain)

theorem ShowsMoment.append {events before after : List Event} {mid : Traffic}
    (h : ShowsMoment first events who domain filter views before mid after) (e : Event) :
    ShowsMoment first (events ++ [e]) who domain filter views before mid (after ++ [e]) := by
  obtain ⟨rfl, hrun, ⟨o, rest, rfl, hreads⟩, hviews⟩ := h
  exact ⟨by simp, hrun, ⟨o, rest ++ [e], rfl, hreads⟩, hviews⟩

structure IsListing (first : Traffic) (events : List Event) (who : Nat) (domain : String)
    (filter : Filter) (w : Worker) : Prop where
  fallback : w.fallback = none
  program : Lists domain filter w.program ∨ ∃ views before mid after,
    w.program = .done (.ok (.views views))
      ∧ ShowsMoment first events who domain filter views before mid after

variable {s' : Traffic} {w : Worker} {events : List Event}

theorem IsListing.append {w' : Worker} (h : IsListing first events who domain filter w)
    (hfallback : w'.fallback = w.fallback) (hprogram : w'.program = w.program) (e : Event) :
    IsListing first (events ++ [e]) who domain filter w' := by
  refine ⟨hfallback.trans h.fallback, hprogram ▸ h.program.imp id ?_⟩
  rintro ⟨views, before, mid, after, hdone, hshows⟩
  exact ⟨views, before, mid, after ++ [e], hdone, hshows.append e⟩

theorem IsListing.done_or_calls (h : IsListing first events who domain filter w) :
    (∃ result, w.program = .done result) ∨ ∃ c next, w.program = .act (.call c) next := by
  obtain ⟨-, hlists | ⟨views, -, -, -, hdone, -⟩⟩ := h
  · generalize w.program = p at hlists
    cases hlists with
    | failed e => exact Or.inl ⟨_, rfl⟩
    | looks => exact Or.inr ⟨_, _, rfl⟩
    | reads => exact Or.inr ⟨_, _, rfl⟩
  · exact Or.inl ⟨_, hdone⟩

theorem IsListing.answered (h : IsListing first events who domain filter w)
    (hrun : first.run events = some s) (hnamed : s.zones.IsNamed)
    (hw : s.workers[who]? = some w) {c : StoreCall}
    {next : c.Answer → EngineProgram (Except Error Reply)} {o : Outcome}
    (hprogram : w.program = .act (.call c) next) {w' : Worker}
    (hfallback : w'.fallback = w.fallback)
    (hnext : w'.program = next (o.call c s.zones).1) :
    IsListing first (events ++ [.move who (.call o)]) who domain filter w' := by
  have hcall : s.workers[who]?.bind Worker.nextCall? = some c := by
    rw [hw, Option.bind_some, Worker.nextCall?, hprogram]
  refine ⟨hfallback.trans h.fallback, ?_⟩
  rcases h.program with hlists | ⟨views, -, -, -, hdone, -⟩
  · rw [hprogram] at hlists
    rw [hnext]
    cases hlists with
    | looks hall =>
        refine Or.inl (hall _ fun found hfound => ?_)
        cases o with
        | failed e => cases hfound
        | carriedOut now =>
            obtain ⟨zone, hzone, rfl⟩ := Option.map_eq_some_iff.1 (Except.ok.inj hfound)
            exact hnamed domain zone hzone
    | reads hfailed hshown =>
        cases o with
        | failed e => exact Or.inl (hfailed e ▸ .failed e)
        | carriedOut now =>
            exact Or.inr ⟨_, events, s, _, hshown _, rfl, hrun, ⟨_, [], rfl, hcall⟩, rfl⟩
  · cases hdone.symm.trans hprogram

theorem IsListing.moved (h : IsListing first events who domain filter w)
    (hrun : first.run events = some s) (hnamed : s.zones.IsNamed)
    (hw : s.workers[who]? = some w) {m : Move} (hmove : s.move? who w m = some s') :
    ∃ w', s'.workers = s.workers.set who w'
      ∧ IsListing first (events ++ [.move who m]) who domain filter w' := by
  have hends := h.done_or_calls
  cases m with
  | call o =>
      rcases hends with ⟨result, hprogram⟩ | ⟨c, next, hprogram⟩
      · simp [move?, hprogram] at hmove
      · simp only [move?, hprogram] at hmove
        split at hmove
        · obtain rfl := Option.some.inj hmove
          exact ⟨_, rfl, h.answered hrun hnamed hw hprogram rfl rfl⟩
        · cases hmove
  | desert =>
      simp only [move?, desert?] at hmove
      split at hmove
      · obtain rfl := Option.some.inj hmove
        exact ⟨_, rfl, h.append (by rfl) (by rfl) _⟩
      · split at hmove
        · obtain rfl := Option.some.inj hmove
          exact ⟨_, rfl, h.append (by rfl) (by rfl) _⟩
        · cases hmove
  | timeUp => simp [move?, timeUp?, h.fallback] at hmove
  | proceed | refer | join =>
      rcases hends with ⟨result, hprogram⟩ | ⟨c, next, hprogram⟩ <;>
        simp [move?, proceed?, refer?, join?, hprogram] at hmove

theorem isListing_of_run {settings : EngineSettings} {mayFail : StoreCall → Bool} {zones : Zones}
    (hnamed : zones.IsNamed) (h : (start settings mayFail zones []).run events = some s)
    {principal : Principal} {name : String} (hw : s.workers[who]? = some w)
    (hrequest : w.request = .list principal name filter) :
    IsListing (start settings mayFail zones []) events who (normalizeDomain name) filter w := by
  -- on the events: that a moment is shown stays true when the run goes on
  refine run_history (P := fun done mid => mid.settings = settings ∧ ∀ (i : Nat) (u : Worker),
    mid.workers[i]? = some u → u.request = .list principal name filter →
      IsListing (start settings mayFail zones []) done i (normalizeDomain name) filter u) h
    ⟨rfl, by rintro _ _ ⟨⟩⟩ ?_ |>.2 who w hw hrequest
  rintro done e mid next - hrun ⟨hsettings, hlistings⟩ hstep
  refine ⟨(settings_of_step hstep).trans hsettings, fun i u' hu' hlist => ?_⟩
  cases e with
  | arrive r =>
      obtain rfl := Option.some.inj hstep
      rcases arrive_cases hu' with hold | ⟨-, rfl⟩
      · exact (hlistings i u' hold hlist).append (by rfl) (by rfl) _
      · refine ⟨rfl, Or.inl ?_⟩
        obtain rfl : r = .list principal name filter := hlist
        exact Request.lists_run mid.settings principal name filter
  | move j m =>
      obtain ⟨v, hv, -, hmove⟩ := step?_move_iff.1 hstep
      obtain ⟨v', hworkers, hkept, -⟩ := exists_worker_of_moved (moved_of_move? hmove) hv
      rcases set_cases hworkers hu' with ⟨rfl, rfl⟩ | ⟨-, hu⟩
      · obtain ⟨w', hworkers', hlisting⟩ := (hlistings i v hv (hkept.symm.trans hlist)).moved hrun
          (Minds.of_run hrun hnamed).named hv hmove
        rcases set_cases hworkers' hu' with ⟨-, rfl⟩ | ⟨hne, -⟩
        · exact hlisting
        · exact absurd rfl hne
      · exact (hlistings i u' hu hlist).append (by rfl) (by rfl) _

/-- A listing shows what is stored at the moment of its call. It lies between two writes of no
batch of the domain if they all have one item at most; or if none of them is committing then, and
none is tried again. -/
theorem listing_is_of_a_moment {settings : EngineSettings} {mayFail : StoreCall → Bool}
    {zones : Zones} (hzones : zones.IsProper)
    (h : (start settings mayFail zones []).run events = some s) (hw : s.workers[who]? = some w)
    {principal : Principal} {name : String} (hrequest : w.request = .list principal name filter)
    (hresult : w.result? = some (.ok (.views views))) :
    ∃ before mid after,
      ShowsMoment (start settings mayFail zones []) events who (normalizeDomain name) filter views
          before mid after
        ∧ ((∀ r, .arrive r ∈ events → r.domainName = normalizeDomain name → r.IsSingle settings)
            ∨ (((∀ c, mayFail c = false) ∨ settings.maxRetries = 0)
              ∧ ∀ u ∈ mid.workers, u.domain = normalizeDomain name →
                  u.standing.isCommitting = false)
          → ¬ mid.IsAmidst (normalizeDomain name) ((start settings mayFail zones []).log before)
              (mid.log after)) := by
  have hprogram : w.program = .done (.ok (.views views)) := by
    rw [Worker.result?] at hresult
    split at hresult
    · next result hdone =>
        split at hresult
        · cases hresult
        · rw [hdone, Option.some.inj hresult]
    · cases hresult
  rcases (isListing_of_run hzones.isNamed h hw hrequest).program with
    hlists | ⟨shown, before, mid, after, hdone, hshows⟩
  · rw [hprogram] at hlists
    cases hlists
  · obtain rfl := Reply.views.inj (Except.ok.inj (Program.done.inj (hdone.symm.trans hprogram)))
    have hafter : mid.run after = some s := by
      rw [hshows.events, run_append, hshows.run] at h
      exact h
    refine ⟨before, mid, after, hshows, ?_⟩
    rintro (hsingle | ⟨hcalm, hidle⟩)
    · -- whatever fails, batches of one item write once
      refine not_isAmidst (t := .once) (fun _ _ _ _ => trivial) (fun r hr hdomain => ?_) hshows.run
        hafter False.elim
      refine Request.paced_once (hsingle r ?_ hdomain)
      rw [hshows.events]
      exact List.mem_append_left _ hr
    · -- with nothing tried again, batches write between the two ends of one commit
      refine not_isAmidst (t := .inCommit (0 < settings.maxRetries))
        (fun zones c o hfor hagain => ?_) (fun r _ _ => Request.paced_inCommit settings r)
        hshows.run hafter fun _ => hidle
      rcases hcalm with hcalm | hnever
      · cases o with
        | carriedOut now => exact Zones.isSettled_call ..
        | failed e => exact absurd (hfor.symm.trans (hcalm c)) (by decide)
      · omega

end Listings

namespace Example

def listing : Request := .list ⟨"alice"⟩ "example.com" ⟨none, none⟩

def overlapping (batch : Request) (first rest : List Move) : List Event :=
  .arrive (create "alice") :: events 0 creating ++ [.arrive batch, .arrive listing]
    ++ events 1 first ++ events 2 [answer, answer] ++ events 1 rest

def besideOne : List Event :=
  overlapping createWww [answer, goOn, .refer, .join, goOn, answer, answer, goOn, goOn, answer]
    [goOn, goOn, goOn, goOn]

def besideTwo : List Event :=
  overlapping createBoth
    [answer, goOn, .refer, .join, goOn, answer, answer, answer, goOn, goOn, answer]
    [answer, goOn, goOn, goOn, goOn]

def reliable : Traffic := Traffic.start .default (fun _ => false) .empty []

def views? : Except Error Reply → Option (List View)
  | .ok (.views views) => some views
  | _ => none

theorem eq_of_views? {result : Except Error Reply} {views : List View}
    (h : views? result = some views) : result = .ok (.views views) := by
  unfold views? at h
  split at h
  · rw [Option.some.inj h]
  · cases h

theorem exists_views {events : List Event} {p : List View → Bool}
    (h : (reliable.run events).any (fun s => s.workers[2]?.any
      fun w => (w.result?.bind views?).any p) = true) :
    ∃ s w views, reliable.run events = some s ∧ s.workers[2]? = some w
      ∧ w.result? = some (.ok (.views views)) ∧ p views = true := by
  obtain ⟨s, hs, hlists⟩ := (Option.any_eq_true _ _).1 h
  obtain ⟨w, hw, hshows⟩ := (Option.any_eq_true _ _).1 hlists
  obtain ⟨views, hviews, hp⟩ := (Option.any_eq_true _ _).1 hshows
  obtain ⟨result, hresult, hsame⟩ := Option.bind_eq_some_iff.1 hviews
  exact ⟨s, w, views, hs, hw, eq_of_views? hsame ▸ hresult, hp⟩

end Example

theorem listing_beside_one : ∃ s w views before mid after,
    Example.reliable.run Example.besideOne = some s ∧ s.workers[2]? = some w
    ∧ w.request = Example.listing ∧ w.result? = some (.ok (.views views))
    ∧ ShowsMoment Example.reliable Example.besideOne 2 (normalizeDomain "example.com") ⟨none, none⟩
      views before mid after
    ∧ ¬ mid.IsAmidst (normalizeDomain "example.com") (Example.reliable.log before)
      (mid.log after) := by
  have hends : (Example.reliable.run Example.besideOne).any (fun s => s.workers[2]?.any
      fun w => (w.result?.bind Example.views?).any fun _ => true) = true := by
    decide +kernel
  obtain ⟨s, w, views, hs, hw, hresult, -⟩ := Example.exists_views hends
  have hrequest : w.request = Example.listing := (Option.some.inj (request_of_run hs hw)).symm
  obtain ⟨before, mid, after, hmoment, hbetween⟩ :=
    listing_is_of_a_moment Zones.isProper_empty hs hw hrequest hresult
  refine ⟨s, w, views, before, mid, after, hs, hw, hrequest, hresult, hmoment, ?_⟩
  refine hbetween (Or.inl fun r harrives _ => ?_)
  have hrequest : r = Example.create "alice" ∨ r = Example.createWww ∨ r = Example.listing := by
    simpa [Example.besideOne, Example.overlapping, Example.events] using harrives
  rcases hrequest with rfl | rfl | rfl
  · exact Request.isSingle_of_job? rfl
  · exact Request.isSingle_write_object .default ⟨"alice"⟩ "example.com" .create _ none
  · exact Request.isSingle_of_job? rfl

theorem half_a_batch_is_listed : ∃ s w views,
    Example.reliable.run Example.besideTwo = some s ∧ s.workers[2]? = some w
    ∧ w.request = Example.listing ∧ w.result? = some (.ok (.views views))
    ∧ ∀ before mid after, Example.besideTwo = before ++ after →
        Example.reliable.run before = some mid →
        ¬ mid.IsAmidst "example.com" (Example.reliable.log before) (mid.log after) →
        views ≠ (mid.zones.list "example.com" ⟨none, none⟩).map (Rrset.view "example.com") := by
  have hends : (Example.reliable.run Example.besideTwo).any (fun s => s.workers[2]?.any
      fun w => (w.result?.bind Example.views?).any fun views => views.length == 1) = true := by
    decide +kernel
  -- one set is listed only when the batch has written one and is to write the other
  have hmoments : ((List.range (Example.besideTwo.length + 1)).all fun n =>
      (Example.reliable.run (Example.besideTwo.take n)).all fun mid =>
        (mid.zones.list "example.com" ⟨none, none⟩).length != 1
          || mid.isAmidstOf "example.com" (Example.reliable.log (Example.besideTwo.take n))
            (mid.log (Example.besideTwo.drop n)) 1) = true := by
    decide +kernel
  obtain ⟨s, w, views, hs, hw, hresult, hone⟩ := Example.exists_views hends
  have hrequest : w.request = Example.listing := (Option.some.inj (request_of_run hs hw)).symm
  refine ⟨s, w, views, hs, hw, hrequest, hresult, ?_⟩
  intro before mid after hevents hmid hout heq
  have hlt : before.length ∈ List.range (Example.besideTwo.length + 1) := by
    rw [hevents, List.length_append, List.mem_range]
    omega
  have hmoment := List.all_eq_true.1 hmoments before.length hlt
  rw [hevents, List.take_left, List.drop_left, hmid] at hmoment
  rcases (Bool.or_eq_true _ _).mp hmoment with hother | hamidst
  · rw [heq, List.length_map] at hone
    simp [beq_iff_eq.1 hone] at hother
  · exact hout (isAmidst_of_isAmidstOf hamidst)

end Traffic

end ZoneKeeper
