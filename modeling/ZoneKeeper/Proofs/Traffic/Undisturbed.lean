import ZoneKeeper.Proofs.Engine.Endings
import ZoneKeeper.Proofs.Traffic.Ownership
import ZoneKeeper.Proofs.Traffic.Sequence

namespace ZoneKeeper

structure Worker.IsWatched (t : Watch) (post : Except Error Reply → Past → Prop) (w : Worker)
    (past : Past) : Prop where
  holds : t.Holds past
  program : Undisturbed t w.program past post
  fallback : ∀ p, w.fallback = some p → t.mayExpire →
    ∀ later, t.Holds later → Undisturbed t p later post

namespace Traffic

variable {s s' : Traffic} {who : Nat} {w : Worker} {t : Watch} {before : List CallRecord}
  {post : Except Error Reply → Past → Prop} {settings : EngineSettings}

def noted (s : Traffic) : Event → List CallRecord
  | .move who (.call o) => ((s.workers[who]?.bind Worker.nextCall?).map (⟨who, ·, o⟩)).toList
  | _ => []

def log (s : Traffic) : List Event → List CallRecord
  | [] => []
  | e :: rest => s.noted e ++ match s.step? e with
    | some s' => s'.log rest
    | none => []

theorem log_cons {e : Event} (h : s.step? e = some s') (rest : List Event) :
    s.log (e :: rest) = s.noted e ++ s'.log rest := by
  rw [log, h]

def past (s : Traffic) (domain : String) (calls : List CallRecord) : Past :=
  ⟨s.zones.zone? domain, calls⟩

theorem watched_of_call (hw : s.workers[t.who]? = some w)
    (h : w.IsWatched t post (s.past t.domain before)) {o : Outcome}
    (hmove : s.move? t.who w (.call o) = some s')
    (hmay : t.may (before ++ s.noted (.move t.who (.call o)))) :
    ∃ w', s'.workers = s.workers.set t.who w' ∧ w'.request = w.request
      ∧ w'.IsWatched t post (s'.past t.domain (before ++ s.noted (.move t.who (.call o))))
      ∧ ∀ name, name ≠ t.domain → s'.zones.zone? name = s.zones.zone? name := by
  simp only [move?] at hmove
  split at hmove
  · next c next hprogram =>
      split at hmove
      · obtain rfl := Option.some.inj hmove
        have hnoted : s.noted (.move t.who (.call o)) = [⟨t.who, c, o⟩] := by
          have hnext : w.nextCall? = some c := by rw [Worker.nextCall?, hprogram]
          rw [noted, hw, Option.bind_some, hnext]
          rfl
        obtain ⟨hholds, hundisturbed, hfallback⟩ := h
        rw [hprogram] at hundisturbed
        obtain ⟨hdomain, hnext⟩ := hundisturbed
        rw [hnoted] at hmay ⊢
        obtain ⟨hkeeps, hrest⟩ := hnext o hmay
        obtain ⟨hanswer, hafter⟩ := o.call_only hdomain s.zones
        have hpast : (s.afterCall t.who w c next o).past t.domain (before ++ [⟨t.who, c, o⟩])
            = (s.past t.domain before).after t c o := by
          rw [past, Past.after]
          exact congrArg (Past.mk · _) hafter
        refine ⟨_, rfl, rfl, ⟨?_, ?_, hfallback⟩, fun name hne => ?_⟩
        · rw [hpast]
          exact ⟨hkeeps, hmay⟩
        · rw [hpast]
          exact hanswer ▸ hrest
        · refine o.zone?_call_of_ne ?_ s.zones
          rw [hdomain]
          exact fun heq => hne (Option.some.inj heq).symm
      · cases hmove
  · cases hmove

theorem watched_of_proceed {past : Past} (h : w.IsWatched t post past) {now : Instant}
    (hmove : s.proceed? who w now = some s') :
    ∃ w', s'.workers = s.workers.set who w' ∧ w'.request = w.request ∧ w'.IsWatched t post past
      ∧ s'.zones = s.zones := by
  obtain ⟨hholds, hundisturbed, hfallback⟩ := h
  unfold proceed? at hmove
  split at hmove <;> try cases hmove
  · next hprogram =>
      rw [hprogram] at hundisturbed
      exact ⟨_, rfl, rfl, ⟨hholds, hundisturbed _, hfallback⟩, rfl⟩
  · next hprogram =>
      rw [hprogram] at hundisturbed
      split at hmove
      · obtain rfl := Option.some.inj hmove
        exact ⟨_, rfl, rfl, ⟨hholds, hundisturbed _, hfallback⟩, rfl⟩
      · cases hmove
  · next domain next hprogram =>
      rw [hprogram] at hundisturbed
      obtain ⟨locks, hback, -⟩ := s.giveBack_eq who domain
      rw [hback]
      exact ⟨_, rfl, rfl, ⟨hholds, hundisturbed _, hfallback⟩, rfl⟩
  · next hprogram =>
      rw [hprogram] at hundisturbed
      exact ⟨_, rfl, rfl, ⟨hholds, hundisturbed _, hfallback⟩, rfl⟩
  · next hprogram =>
      rw [hprogram] at hundisturbed
      obtain ⟨hbefore, hlate⟩ := hundisturbed
      refine ⟨_, rfl, rfl, ⟨hholds, hbefore, ?_⟩, rfl⟩
      rintro _ ⟨⟩
      exact hlate
  · next hprogram =>
      rw [hprogram] at hundisturbed
      exact ⟨_, rfl, rfl, ⟨hholds, hundisturbed _, by rintro _ ⟨⟩⟩, rfl⟩
  · next hprogram =>
      rw [hprogram] at hundisturbed
      exact ⟨_, rfl, rfl, ⟨hholds, hundisturbed _, hfallback⟩, rfl⟩
  · next hprogram =>
      rw [hprogram] at hundisturbed
      exact ⟨_, rfl, rfl, ⟨hholds, hundisturbed _, hfallback⟩, rfl⟩
  · next hprogram =>
      rw [hprogram] at hundisturbed
      exact ⟨_, rfl, rfl, ⟨hholds, hundisturbed _, hfallback⟩, rfl⟩

theorem watched_of_move (hw : s.workers[t.who]? = some w)
    (h : w.IsWatched t post (s.past t.domain before)) {m : Move}
    (hexpires : m = .timeUp → t.mayExpire) (hmove : s.move? t.who w m = some s')
    (hmay : t.may (before ++ s.noted (.move t.who m))) :
    ∃ w', s'.workers = s.workers.set t.who w' ∧ w'.request = w.request
      ∧ w'.IsWatched t post (s'.past t.domain (before ++ s.noted (.move t.who m)))
      ∧ ∀ name, name ≠ t.domain → s'.zones.zone? name = s.zones.zone? name := by
  have hsame : s.workers.set t.who w = s.workers := by
    obtain ⟨hlt, rfl⟩ := List.getElem?_eq_some_iff.1 hw
    exact List.set_getElem_self hlt
  have hquiet (hnoted : s.noted (.move t.who m) = [])
      (hquiet : ∃ w', s'.workers = s.workers.set t.who w' ∧ w'.request = w.request
        ∧ w'.IsWatched t post (s.past t.domain before) ∧ s'.zones = s.zones) :
      ∃ w', s'.workers = s.workers.set t.who w' ∧ w'.request = w.request
        ∧ w'.IsWatched t post (s'.past t.domain (before ++ s.noted (.move t.who m)))
        ∧ ∀ name, name ≠ t.domain → s'.zones.zone? name = s.zones.zone? name := by
    obtain ⟨w', hworkers, hrequest, hwatched, hzones⟩ := hquiet
    rw [hnoted, List.append_nil, past, hzones]
    exact ⟨w', hworkers, hrequest, hwatched, fun _ _ => rfl⟩
  cases m with
  | call o => exact watched_of_call hw h hmove hmay
  | proceed now => exact hquiet rfl (watched_of_proceed h hmove)
  | refer =>
      simp only [move?, refer?] at hmove
      split at hmove
      · split at hmove
        · cases hmove
        · obtain rfl := Option.some.inj hmove
          exact hquiet rfl ⟨w, hsame.symm, rfl, h, rfl⟩
      · cases hmove
  | join =>
      simp only [move?, join?] at hmove
      split at hmove
      · split at hmove
        · split at hmove
          · cases hmove
          · obtain rfl := Option.some.inj hmove
            exact hquiet rfl ⟨w, hsame.symm, rfl, h, rfl⟩
        · cases hmove
      · cases hmove
  | timeUp =>
      simp only [move?, timeUp?] at hmove
      split at hmove
      · next rest hfallback =>
          split at hmove
          · obtain rfl := Option.some.inj hmove
            exact hquiet rfl ⟨_, rfl, rfl, ⟨h.holds,
              h.fallback rest hfallback (hexpires rfl) _ h.holds, by rintro _ ⟨⟩⟩, rfl⟩
          · cases hmove
      · cases hmove
  | desert =>
      simp only [move?, desert?] at hmove
      split at hmove
      · obtain rfl := Option.some.inj hmove
        exact hquiet rfl ⟨_, rfl, rfl, ⟨h.holds, h.program, h.fallback⟩, rfl⟩
      · split at hmove
        · obtain rfl := Option.some.inj hmove
          exact hquiet rfl ⟨_, rfl, rfl, ⟨h.holds, h.program, h.fallback⟩, rfl⟩
        · cases hmove

structure IsFamily (T : Nat → String → Watch) : Prop where
  who : ∀ i d, (T i d).who = i
  domain : ∀ i d, (T i d).domain = d
  holds : ∀ i j d past, (T i d).Holds past → (T j d).Holds past
  suits : ∀ i d, (T i d).SuitsBatches
  none : ∀ i d, (T i d).keeps .none
  empty : ∀ i d (domain : Domain), domain.name = d → (T i d).keeps (some ⟨domain, SortedMap.empty⟩)

structure IsKept (T : Nat → String → Watch) (s : Traffic) (calls : List CallRecord) : Prop where
  holds : ∀ i d, (T i d).Holds (s.past d calls)
  watched : ∀ (i : Nat) (u : Worker), s.workers[i]? = some u → u.isOver = false →
    u.IsWatched (T i u.domain) (fun _ _ => True) (s.past u.domain calls)
  alone : ∀ (i j : Nat) (u v : Worker), s.workers[i]? = some u → s.workers[j]? = some v →
    u.isOver = false → v.isOver = false → i = j

namespace IsKept

variable {T : Nat → String → Watch} {calls : List CallRecord}

theorem arrive (hT : IsFamily T) (h : s.IsKept T calls)
    (hquiet : s.workers.all Worker.isOver = true) (r : Request) :
    (s.arrive r).IsKept T calls := by
  refine ⟨h.holds, fun i u hu hbusy => ?_, fun i j u v hu hv hbusy hbusy' => ?_⟩
  · obtain ⟨-, rfl⟩ := arrived_of_busy hquiet hu hbusy
    refine ⟨h.holds i _, ?_, by rintro _ ⟨⟩⟩
    exact (Request.stays_run (hT.suits ..) (hT.none ..)
      (fun domain hd => hT.empty _ _ domain (hd.trans (hT.domain ..)))
      (hT.domain i r.domainName).symm (h.holds ..)).mono fun _ _ _ => trivial
  · rw [(arrived_of_busy hquiet hu hbusy).1, (arrived_of_busy hquiet hv hbusy').1]

theorem moved (hT : IsFamily T) (h : s.IsKept T calls) (hw : s.workers[who]? = some w)
    (hgone : w.isGone = false) {m : Move} (hexpires : ∀ i d, (T i d).mayExpire)
    (hmove : s.move? who w m = some s')
    (hmay : ∀ i d, (T i d).may (calls ++ s.noted (.move who m))) :
    s'.IsKept T (calls ++ s.noted (.move who m)) := by
  cases hover : w.isOver with
  | true =>
      have hnoted : s.noted (.move who m) = [] := by
        obtain ⟨result, hdone⟩ := program_of_isOver hgone hover
        cases m with
        | call o => rw [noted, hw, Option.bind_some, Worker.nextCall?, hdone]; rfl
        | _ => rfl
      obtain rfl := over_of_moved (moved_of_move? hmove) hgone hover
      rw [hnoted, List.append_nil]
      refine ⟨h.holds, fun i u hu hbusy => ?_, fun i j u v hu hv hbusy hbusy' => ?_⟩
      · exact h.watched i u (unmoved_of_busy hover hu hbusy) hbusy
      · exact h.alone i j u v (unmoved_of_busy hover hu hbusy) (unmoved_of_busy hover hv hbusy')
          hbusy hbusy'
  | false =>
      let t := T who w.domain
      have hwho : t.who = who := hT.who who w.domain
      have hdomain : t.domain = w.domain := hT.domain who w.domain
      have hwatched : w.IsWatched t (fun _ _ => True) (s.past t.domain calls) := by
        rw [hdomain]
        exact h.watched who w hw hover
      obtain ⟨w', hworkers, hrequest, hafter, helse⟩ := watched_of_move (hwho.symm ▸ hw) hwatched
        (fun _ => hexpires who w.domain) (hwho.symm ▸ hmove) (hwho.symm ▸ hmay who w.domain)
      rw [hwho] at hworkers hafter
      rw [hdomain] at hafter helse
      -- whoever is on its way after the move is the one that has moved
      have halone : ∀ (i : Nat) (u : Worker), s.workers[i]? = some u → u.isOver = false → i = who :=
        fun i u hu hbusy => h.alone i who u w hu hw hbusy hover
      refine ⟨fun i d => ?_, fun i u hu hnot => ?_, fun i j u v hu hv hnot hnot' => ?_⟩
      · by_cases hd : d = w.domain
        · subst hd
          exact hT.holds _ _ _ _ hafter.holds
        · refine ⟨?_, hmay i d⟩
          rw [past, helse d hd]
          exact (h.holds i d).keeps
      · obtain ⟨rfl, rfl⟩ := moved_of_busy hworkers halone hu hnot
        have hsame : u.domain = w.domain := congrArg Request.domainName hrequest
        rw [hsame]
        exact hafter
      · rw [(moved_of_busy hworkers halone hu hnot).1, (moved_of_busy hworkers halone hv hnot').1]

theorem run (hT : IsFamily T) (hexpires : ∀ i d, (T i d).mayExpire) {events : List Event}
    (h : s.IsKept T calls) (hrun : s.runInTurn events = some s')
    (hmay : ∀ i d, (T i d).may (calls ++ s.log events)) :
    s'.IsKept T (calls ++ s.log events) := by
  induction events generalizing s calls with
  | nil =>
      obtain rfl := Option.some.inj hrun
      rw [log, List.append_nil]
      exact h
  | cons e rest ih =>
      cases e with
      | arrive request =>
          rw [runInTurn] at hrun
          split at hrun
          · next hquiet =>
              have harrive : s.step? (.arrive request) = some (s.arrive request) := rfl
              rw [log_cons harrive] at hmay ⊢
              exact ih (h.arrive hT hquiet request) hrun hmay
          · cases hrun
      | move who m =>
          obtain ⟨next, hnext, hrun⟩ := Option.bind_eq_some_iff.1 hrun
          rw [log_cons hnext, ← List.append_assoc] at hmay ⊢
          refine ih ?_ hrun hmay
          obtain ⟨w, hw, hmove⟩ := Option.bind_eq_some_iff.1 hnext
          split at hmove
          · cases hmove
          · next hgone =>
              exact h.moved hT hw (by simpa using hgone) hexpires hmove
                fun i d => (T i d).may_of_append (hmay i d)

end IsKept

theorem keeps_of_runInTurn {T : Nat → String → Watch} (hT : IsFamily T)
    (hexpires : ∀ i d, (T i d).mayExpire) {mayFail : StoreCall → Bool} {events : List Event}
    (h : (start settings mayFail .empty []).runInTurn events = some s)
    (hmay : ∀ i d, (T i d).may ((start settings mayFail .empty []).log events)) (i : Nat)
    (domain : String) : (T i domain).keeps (s.zones.zone? domain) := by
  have hstart : (start settings mayFail .empty []).IsKept T [] := by
    refine ⟨fun i d => ⟨hT.none i d, ?_⟩, by rintro i u ⟨⟩, by rintro i j u v ⟨⟩⟩
    exact (T i d).may_of_append (hmay i d)
  exact ((hstart.run hT hexpires h hmay).holds i domain).keeps

end Traffic

end ZoneKeeper
