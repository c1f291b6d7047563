import Mathlib.Data.List.Induction
import ZoneKeeper.Proofs.Engine.Pace
import ZoneKeeper.Proofs.Traffic.Undisturbed

namespace ZoneKeeper

theorem Zones.isSettled_call (zones : Zones) (now : Instant) (c : StoreCall) :
    (Act.call c).isSettled (zones.call now c).1 = true := by
  cases c with
  | createDomain domain =>
      rw [call_createDomain]
      split <;> rfl
  | markPublished name time =>
      cases hzone : zones.zone? name with
      | none => rw [call_of_none hzone rfl rfl]; rfl
      | some zone => rw [call_markPublished hzone]; rfl
  | upsert name key ttl records =>
      cases hzone : zones.zone? name with
      | none => rw [call_of_none hzone rfl rfl]; rfl
      | some zone => rw [call_upsert hzone]; rfl
  | restore name key previous =>
      cases hzone : zones.zone? name with
      | none => rw [call_of_none hzone rfl rfl]; rfl
      | some zone => rw [call_restore hzone]; rfl
  | _ => rfl

def Event.request? : Event → Option Request
  | .arrive r => some r
  | .move .. => none

def CallRecord.writes (x : CallRecord) : Bool :=
  match x.outcome with
  | .carriedOut _ => x.call.isWrite
  | .failed _ => false

structure Worker.IsPaced (t : Pace) (w : Worker) (now : Stage) : Prop where
  program : Paced t w.program now fun _ _ => True
  fallback : ∀ p, w.fallback = some p → ∀ later, Paced t p later fun _ _ => True
  writing : now = .writing → t.spans ∧ w.standing.isCommitting = true

namespace Traffic

variable {s s' : Traffic} {who : Nat} {w w' : Worker} {t : Pace} {now now' : Stage}

structure Proceeds (t : Pace) (w : Worker) (now : Stage) (calls : List CallRecord) (w' : Worker)
    (now' : Stage) : Prop where
  request : w'.request = w.request
  paced : w'.IsPaced t now'
  written : now = .written → now' = .written ∧ ∀ x ∈ calls, x.writes = false
  unwritten : now' = .unwritten → now = .unwritten ∧ ∀ x ∈ calls, x.writes = false

theorem Proceeds.mono {calls fewer : List CallRecord} (h : Proceeds t w now calls w' now')
    (hsub : ∀ x ∈ fewer, x ∈ calls) : Proceeds t w now fewer w' now' :=
  ⟨h.request, h.paced,
    fun hnow => ⟨(h.written hnow).1, fun x hx => (h.written hnow).2 x (hsub x hx)⟩,
    fun hnow => ⟨(h.unwritten hnow).1, fun x hx => (h.unwritten hnow).2 x (hsub x hx)⟩⟩

theorem proceeds_of_call (h : w.IsPaced t now) {c : StoreCall}
    {next : c.Answer → EngineProgram (Except Error Reply)} {o : Outcome}
    (hprogram : w.program = .act (.call c) next)
    (hanswer : t.mayAnswer c (o.call c s.zones).1) : ∃ w',
    (s.afterCall who w c next o).workers = s.workers.set who w'
      ∧ Proceeds t w now [⟨who, c, o⟩] w' (t.next now (.call c) (o.call c s.zones).1) := by
  obtain ⟨hpaced, hfallback, hwriting⟩ := h
  rw [hprogram] at hpaced
  obtain ⟨hmay, hnext⟩ := hpaced
  have hcarriedOut (hwrites : CallRecord.writes ⟨who, c, o⟩ = true) :
      c.isWrite = true ∧ (Act.call c).isSettled (o.call c s.zones).1 = true := by
    cases o with
    | carriedOut time => exact ⟨hwrites, Zones.isSettled_call ..⟩
    | failed e => cases hwrites
  refine ⟨_, rfl, rfl, ⟨hnext _ hanswer, hfallback, fun hnow => ?_⟩, ?_, fun hnow => ?_⟩
  · rcases t.of_next_writing now _ _ hnow with ⟨-, ⟨⟩⟩ | ⟨hsame, -⟩
    obtain ⟨hspans, hcommits⟩ := hwriting hsame
    refine ⟨hspans, Eq.trans (Standing.Continues.isCommitting ?_) hcommits⟩
    exact (w.standing.continues_record o).trans (Standing.continues_leave ..)
  · rintro rfl
    refine ⟨t.next_written _ _, fun x hx => ?_⟩
    obtain rfl := List.mem_singleton.1 hx
    by_contra hwrites
    exact t.not_mayWrite_written (hmay (hcarriedOut (by simpa using hwrites)).1)
  · obtain ⟨rfl, hunsettled⟩ := t.of_next_unwritten now _ _ hnow
    refine ⟨rfl, fun x hx => ?_⟩
    obtain rfl := List.mem_singleton.1 hx
    by_contra hwrites
    obtain ⟨hwrite, hsettled⟩ := hcarriedOut (by simpa using hwrites)
    exact absurd (hsettled.symm.trans (hunsettled hwrite (hmay hwrite))) (by decide)

theorem proceeds_of_kept (h : w.IsPaced t now) (hrequest : w'.request = w.request)
    (hprogram : Paced t w'.program now fun _ _ => True)
    (hfallback : ∀ p, w'.fallback = some p → ∀ later, Paced t p later fun _ _ => True)
    (hcommits : w'.standing.isCommitting = w.standing.isCommitting) :
    Proceeds t w now [] w' now := by
  refine ⟨hrequest, ⟨hprogram, hfallback, fun hnow => ?_⟩, fun hnow => ⟨hnow, by rintro _ ⟨⟩⟩,
    fun hnow => ⟨hnow, by rintro _ ⟨⟩⟩⟩
  rw [hcommits]
  exact h.writing hnow

theorem proceeds_of_next (h : w.IsPaced t now) {a : Act} (answer : a.Answer)
    (hrequest : w'.request = w.request) (hfallback : w'.fallback = w.fallback)
    (hprogram : Paced t w'.program (t.next now a answer) fun _ _ => True)
    (hwriting : t.next now a answer = .writing →
      t.spans ∧ w'.standing.isCommitting = true) :
    Proceeds t w now [] w' (t.next now a answer) :=
  ⟨hrequest, ⟨hprogram, hfallback ▸ h.fallback, hwriting⟩,
    fun hnow => ⟨by rw [hnow, t.next_written], by rintro _ ⟨⟩⟩,
    fun hnow => ⟨(t.of_next_unwritten _ _ _ hnow).1, by rintro _ ⟨⟩⟩⟩

theorem proceeds_of_moved (h : w.IsPaced t now) (hw : s.workers[who]? = some w)
    (hanswers : ∀ (c : StoreCall) (o : Outcome), o.isFor s.mayFail c = true →
      t.mayAnswer c (o.call c s.zones).1) (hmoved : Moved s who w s') :
    ∃ w' now', s'.workers = s.workers.set who w' ∧ Proceeds t w now [] w' now' := by
  have hsame : s.workers.set who w = s.workers := by
    obtain ⟨hlt, rfl⟩ := List.getElem?_eq_some_iff.1 hw
    exact List.set_getElem_self hlt
  have hprogram := h.program
  have hquiet {a : Act} {answer : a.Answer} {p : EngineProgram (Except Error Reply)}
      (ha : a.isQuiet = true) (hp : Paced t p (t.next now a answer) fun _ _ => True) :
      Paced t p now fun _ _ => True := t.next_of_isQuiet now a answer ha ▸ hp
  cases hmoved with
  | @call c next o hact hfor =>
      obtain ⟨w', hworkers, hproceeds⟩ := proceeds_of_call h hact (hanswers c o hfor)
      exact ⟨w', _, hworkers, hproceeds.mono (by rintro _ ⟨⟩)⟩
  | readClock hact =>
      rw [hact] at hprogram
      exact ⟨_, now, rfl, proceeds_of_kept h rfl (hquiet rfl (hprogram _)) h.fallback
        (w.standing.continues_record _).isCommitting⟩
  | lock hact =>
      rw [hact] at hprogram
      exact ⟨_, now, rfl, proceeds_of_kept h rfl (hquiet rfl (hprogram ())) h.fallback rfl⟩
  | @unlock domain next hact =>
      obtain ⟨locks, hback, -⟩ := s.giveBack_eq who domain
      rw [hact] at hprogram
      rw [hback]
      exact ⟨_, now, rfl, proceeds_of_kept h rfl (hquiet rfl (hprogram ())) h.fallback rfl⟩
  | wait hact =>
      rw [hact] at hprogram
      exact ⟨_, now, rfl, proceeds_of_kept h rfl (hquiet rfl (hprogram ())) h.fallback rfl⟩
  | startTimer hact =>
      rw [hact] at hprogram
      refine ⟨_, now, rfl, proceeds_of_kept h rfl hprogram.1 ?_ rfl⟩
      rintro _ ⟨⟩
      exact hprogram.2
  | stopTimer hact =>
      rw [hact] at hprogram
      exact ⟨_, now, rfl, proceeds_of_kept h rfl (hquiet rfl (hprogram ())) (by rintro _ ⟨⟩) rfl⟩
  | beginCommit hact =>
      rw [hact] at hprogram
      refine ⟨_, _, rfl, proceeds_of_next (a := .beginCommit) h () rfl rfl (hprogram ())
        fun hnow => ?_⟩
      rcases t.of_next_writing now _ _ hnow with ⟨hspans, -⟩ | ⟨hwriting, -⟩
      · exact ⟨hspans, rfl⟩
      · exact ⟨(h.writing hwriting).1, rfl⟩
  | endCommit hact =>
      rw [hact] at hprogram
      refine ⟨_, _, rfl, proceeds_of_next (a := .endCommit) h () rfl rfl (hprogram ())
        fun hnow => ?_⟩
      rcases t.of_next_writing now _ _ hnow with ⟨-, ⟨⟩⟩ | ⟨hwriting, hgoes⟩
      exact absurd rfl (hgoes (h.writing hwriting).1)
  | announce hact =>
      rw [hact] at hprogram
      exact ⟨_, now, rfl, proceeds_of_kept h rfl (hquiet rfl (hprogram ())) h.fallback
        (Standing.continues_leave ..).isCommitting⟩
  | refer | join => exact ⟨w, now, hsame.symm, proceeds_of_kept h rfl h.program h.fallback rfl⟩
  | timeUp hfallback =>
      exact ⟨_, now, rfl, proceeds_of_kept h rfl (h.fallback _ hfallback now) (by rintro _ ⟨⟩) rfl⟩
  | desertCommit | giveUp =>
      exact ⟨_, now, rfl, proceeds_of_kept h rfl h.program h.fallback rfl⟩

theorem proceeds_of_move (h : w.IsPaced t now) (hw : s.workers[who]? = some w)
    (hanswers : ∀ (c : StoreCall) (o : Outcome), o.isFor s.mayFail c = true →
      t.mayAnswer c (o.call c s.zones).1) {m : Move} (hmove : s.move? who w m = some s') :
    ∃ w' now', s'.workers = s.workers.set who w'
      ∧ Proceeds t w now (s.noted (.move who m)) w' now' := by
  cases m with
  | call o =>
      simp only [move?] at hmove
      split at hmove
      · next c next hact =>
          split at hmove
          · next hfor =>
              obtain rfl := Option.some.inj hmove
              have hnoted : s.noted (.move who (.call o)) = [⟨who, c, o⟩] := by
                rw [noted, hw, Option.bind_some, Worker.nextCall?, hact]
                rfl
              rw [hnoted]
              obtain ⟨w', hworkers, hproceeds⟩ := proceeds_of_call h hact (hanswers c o hfor)
              exact ⟨w', _, hworkers, hproceeds⟩
          · cases hmove
      · cases hmove
  | _ => exact proceeds_of_moved h hw hanswers (moved_of_move? hmove)

theorem run_append (s : Traffic) (before after : List Event) :
    s.run (before ++ after) = (s.run before).bind fun mid => mid.run after := by
  induction before generalizing s with
  | nil => rfl
  | cons e rest ih =>
      simp only [List.cons_append, run, Option.bind_eq_bind, Option.bind_assoc, ih]

theorem log_append {before : List Event} {mid : Traffic} (h : s.run before = some mid)
    (after : List Event) : s.log (before ++ after) = s.log before ++ mid.log after := by
  induction before generalizing s with
  | nil =>
      obtain rfl := Option.some.inj h
      rfl
  | cons e rest ih =>
      obtain ⟨next, hnext, hrest⟩ := Option.bind_eq_some_iff.1 h
      rw [List.cons_append, log_cons hnext, log_cons hnext, ih hrest, List.append_assoc]

theorem run_history {P : List Event → Traffic → Prop} {events : List Event}
    (h : s.run events = some s') (hstart : P [] s)
    (hstep : ∀ before e mid next, before ++ [e] <+: events → s.run before = some mid →
      P before mid → mid.step? e = some next → P (before ++ [e]) next) : P events s' := by
  induction events using List.reverseRecOn generalizing s' with
  | nil => exact Option.some.inj h ▸ hstart
  | append_singleton before e ih =>
      rw [run_append] at h
      obtain ⟨mid, hmid, hlast⟩ := Option.bind_eq_some_iff.1 h
      obtain ⟨next, hnext, hdone⟩ := Option.bind_eq_some_iff.1 hlast
      obtain rfl := Option.some.inj hdone
      refine hstep before e mid next (List.prefix_refl _) hmid (ih hmid ?_) hnext
      exact fun b f m n hinit => hstep b f m n (hinit.trans (List.prefix_append _ _))

theorem step?_move_iff {m : Move} : s.step? (.move who m) = some s' ↔
    ∃ w, s.workers[who]? = some w ∧ w.isGone = false ∧ s.move? who w m = some s' := by
  constructor
  · intro h
    obtain ⟨w, hw, hmove⟩ := Option.bind_eq_some_iff.1 h
    split at hmove
    · cases hmove
    · next hgone => exact ⟨w, hw, by simpa using hgone, hmove⟩
  · rintro ⟨w, hw, hgone, hmove⟩
    refine Option.bind_eq_some_iff.2 ⟨w, hw, ?_⟩
    rw [hgone]
    exact hmove

theorem who_of_noted {m : Move} {x : CallRecord} (hx : x ∈ s.noted (.move who m)) :
    x.who = who := by
  cases m with
  | call o =>
      rw [noted, Option.mem_toList, Option.map_eq_some_iff] at hx
      obtain ⟨c, -, rfl⟩ := hx
      rfl
  | _ => cases hx

theorem proceeds_of_step (h : w.IsPaced t now) (hw : s.workers[who]? = some w)
    (hanswers : ∀ (c : StoreCall) (o : Outcome), o.isFor s.mayFail c = true →
      t.mayAnswer c (o.call c s.zones).1) {e : Event} (hstep : s.step? e = some s') :
    ∃ w' now', s'.workers[who]? = some w'
      ∧ Proceeds t w now ((s.noted e).filter (·.who == who)) w' now' := by
  have hsame : Proceeds t w now [] w now := proceeds_of_kept h rfl h.program h.fallback rfl
  cases e with
  | arrive r =>
      obtain rfl := Option.some.inj hstep
      have hlt := (List.getElem?_eq_some_iff.1 hw).1
      exact ⟨w, now, by rw [arrive, List.getElem?_append_left hlt, hw], hsame⟩
  | move i m =>
      obtain ⟨v, hv, -, hmove⟩ := step?_move_iff.1 hstep
      by_cases hi : i = who
      · subst hi
        obtain rfl := Option.some.inj (hw.symm.trans hv)
        obtain ⟨w', now', hworkers, hproceeds⟩ := proceeds_of_move h hw hanswers hmove
        refine ⟨w', now', ?_, hproceeds.mono fun x hx => (List.mem_filter.1 hx).1⟩
        rw [hworkers, List.getElem?_set_self (List.getElem?_eq_some_iff.1 hw).1]
      · obtain ⟨v', hworkers, -⟩ := exists_worker_of_moved (moved_of_move? hmove) hv
        refine ⟨w, now, by rw [hworkers, List.getElem?_set_ne hi, hw], hsame.mono fun x hx => ?_⟩
        obtain ⟨hx, hwho⟩ := List.mem_filter.1 hx
        exact absurd ((who_of_noted hx).symm.trans (beq_iff_eq.1 hwho)) hi

theorem workers_of_step {e : Event} (h : s.step? e = some s') :
    s.workers.length ≤ s'.workers.length ∧ (∀ x ∈ s.noted e, x.who < s.workers.length)
      ∧ ∀ (i : Nat) (u' : Worker), s'.workers[i]? = some u' →
        (∃ u, s.workers[i]? = some u ∧ u'.request = u.request)
        ∨ ∃ r, e = .arrive r ∧ i = s.workers.length
          ∧ u' = ⟨r, (Request.run s.settings r).run, none, .fresh, false, false,
            s.creations.length⟩ := by
  cases e with
  | arrive r =>
      obtain rfl := Option.some.inj h
      refine ⟨by simp [arrive], by rintro _ ⟨⟩, fun i u' hu' => ?_⟩
      rcases arrive_cases hu' with hold | ⟨hi, hnew⟩
      · exact Or.inl ⟨u', hold, rfl⟩
      · exact Or.inr ⟨r, rfl, hi, hnew⟩
  | move who m =>
      obtain ⟨w, hw, -, hmove⟩ := step?_move_iff.1 h
      obtain ⟨w', hworkers, hrequest, -⟩ := exists_worker_of_moved (moved_of_move? hmove) hw
      refine ⟨by simp [hworkers], fun x hx => ?_, fun i u' hu' => Or.inl ?_⟩
      · rw [who_of_noted hx]
        exact (List.getElem?_eq_some_iff.1 hw).1
      · rcases set_cases hworkers hu' with ⟨rfl, rfl⟩ | ⟨-, hu⟩
        · exact ⟨w, hw, hrequest⟩
        · exact ⟨u', hu, rfl⟩

theorem requests_of_step {e : Event} (h : s.step? e = some s') :
    s'.workers.map (·.request) = s.workers.map (·.request) ++ e.request?.toList := by
  cases e with
  | arrive r =>
      obtain rfl := Option.some.inj h
      simp [arrive, Event.request?]
  | move who m =>
      obtain ⟨w, hw, -, hmove⟩ := step?_move_iff.1 h
      obtain ⟨w', hworkers, hrequest, -⟩ := exists_worker_of_moved (moved_of_move? hmove) hw
      obtain ⟨hlt, rfl⟩ := List.getElem?_eq_some_iff.1 hw
      have hlt' : who < (s.workers.map (·.request)).length := by rwa [List.length_map]
      have hsame := List.set_getElem_self hlt'
      rw [List.getElem_map] at hsame
      rw [hworkers, List.map_set, hrequest, hsame]
      simp [Event.request?]

theorem requests_of_run {events : List Event} (h : s.run events = some s') :
    s'.workers.map (·.request) = s.workers.map (·.request) ++ events.filterMap Event.request? := by
  induction events generalizing s with
  | nil => simpa using congrArg (·.workers.map (·.request)) (Option.some.inj h).symm
  | cons e rest ih =>
      obtain ⟨next, hnext, hrest⟩ := Option.bind_eq_some_iff.1 h
      rw [ih hrest, requests_of_step hnext, List.append_assoc]
      cases e <;> rfl

theorem request_of_run {settings : EngineSettings} {mayFail : StoreCall → Bool} {zones : Zones}
    {events : List Event} (h : (start settings mayFail zones []).run events = some s)
    (hw : s.workers[who]? = some w) : (events.filterMap Event.request?)[who]? = some w.request := by
  have hrequests : s.workers.map (·.request) = events.filterMap Event.request? := requests_of_run h
  rw [← hrequests, List.getElem?_map, hw]
  rfl

theorem settings_of_step {e : Event} (h : s.step? e = some s') : s'.settings = s.settings := by
  rcases step?_cases h with ⟨r, -, rfl⟩ | ⟨i, m, v, -, -, -, hmoved⟩
  · rfl
  · exact settings_of_moved hmoved

theorem mayFail_of_step {e : Event} (h : s.step? e = some s') : s'.mayFail = s.mayFail := by
  rcases step?_cases h with ⟨r, -, rfl⟩ | ⟨i, m, v, -, -, -, hmoved⟩
  · rfl
  · cases hmoved with
    | @unlock domain =>
        obtain ⟨locks, hback, -⟩ := s.giveBack_eq i domain
        rw [hback]
        rfl
    | _ => rfl

section Answers

variable {mayFail : StoreCall → Bool}
  (hanswers : ∀ (zones : Zones) (c : StoreCall) (o : Outcome), o.isFor mayFail c = true →
    t.mayAnswer c (o.call c zones).1)

include hanswers

theorem not_writes_of_written {events : List Event} (h : s.run events = some s')
    (hmayFail : s.mayFail = mayFail) (hw : s.workers[who]? = some w)
    (hpaced : w.IsPaced t .written) : ∀ x ∈ s.log events, x.who = who → x.writes = false := by
  induction events generalizing s w with
  | nil => rintro _ ⟨⟩
  | cons e rest ih =>
      obtain ⟨next, hnext, hrest⟩ := Option.bind_eq_some_iff.1 h
      obtain ⟨w', now', hw', hproceeds⟩ :=
        proceeds_of_step hpaced hw (hmayFail ▸ hanswers s.zones) hnext
      obtain ⟨rfl, hquiet⟩ := hproceeds.written rfl
      rw [log_cons hnext]
      intro x hx hwho
      rcases List.mem_append.1 hx with hx | hx
      · exact hquiet x (List.mem_filter.2 ⟨hx, beq_iff_eq.2 hwho⟩)
      · exact ih hrest ((mayFail_of_step hnext).trans hmayFail) hw' hproceeds.paced x hx hwho

end Answers

structure IsPacing (t : Pace) (G : Request → Prop) (s : Traffic) (calls : List CallRecord) :
    Prop where
  known : ∀ x ∈ calls, x.who < s.workers.length
  paced : ∀ (i : Nat) (u : Worker), s.workers[i]? = some u → G u.request →
    ∃ now, u.IsPaced t now ∧ (now = .unwritten → ∀ x ∈ calls, x.who = i → x.writes = false)

namespace IsPacing

variable {G : Request → Prop} {calls : List CallRecord}

theorem step (h : s.IsPacing t G calls)
    (hanswers : ∀ (c : StoreCall) (o : Outcome), o.isFor s.mayFail c = true →
      t.mayAnswer c (o.call c s.zones).1) {e : Event}
    (hgood : ∀ r, e = .arrive r → G r →
      Paced t (Request.run s.settings r).run .unwritten fun _ _ => True)
    (hstep : s.step? e = some s') : s'.IsPacing t G (calls ++ s.noted e) := by
  obtain ⟨hle, hnoted, hworkers⟩ := workers_of_step hstep
  have hknown : ∀ x ∈ calls ++ s.noted e, x.who < s.workers.length := by
    intro x hx
    rcases List.mem_append.1 hx with hx | hx
    · exact h.known x hx
    · exact hnoted x hx
  refine ⟨fun x hx => Nat.lt_of_lt_of_le (hknown x hx) hle, fun i u' hu' hkind => ?_⟩
  rcases hworkers i u' hu' with ⟨u, hu, hrequest⟩ | ⟨r, rfl, rfl, rfl⟩
  · obtain ⟨now, hpaced, hnone⟩ := h.paced i u hu (hrequest ▸ hkind)
    obtain ⟨_, now', hw', hproceeds⟩ := proceeds_of_step hpaced hu hanswers hstep
    obtain rfl := Option.some.inj (hw'.symm.trans hu')
    refine ⟨now', hproceeds.paced, fun hnow x hx hwho => ?_⟩
    obtain ⟨hbefore, hquiet⟩ := hproceeds.unwritten hnow
    rcases List.mem_append.1 hx with hx | hx
    · exact hnone hbefore x hx hwho
    · exact hquiet x (List.mem_filter.2 ⟨hx, beq_iff_eq.2 hwho⟩)
  · refine ⟨.unwritten, ⟨hgood r rfl hkind, by rintro _ ⟨⟩, by rintro ⟨⟩⟩, fun _ x hx hwho => ?_⟩
    exact absurd (hwho ▸ hknown x hx) (Nat.lt_irrefl _)

end IsPacing

def IsAmidst (s : Traffic) (domain : String) (before after : List CallRecord) : Prop :=
  ∃ who w, s.workers[who]? = some w ∧ w.domain = domain
    ∧ (∃ x ∈ before, x.who = who ∧ x.writes = true) ∧ ∃ y ∈ after, y.who = who ∧ y.writes = true

def isAmidstOf (s : Traffic) (domain : String) (before after : List CallRecord) (who : Nat) :
    Bool :=
  s.workers[who]?.any (·.domain == domain)
    && before.any (fun x => x.who == who && x.writes)
    && after.any fun x => x.who == who && x.writes

theorem isAmidst_of_isAmidstOf {domain : String} {before after : List CallRecord}
    (h : s.isAmidstOf domain before after who = true) : s.IsAmidst domain before after := by
  simp only [isAmidstOf, Bool.and_eq_true, Option.any_eq_true, List.any_eq_true, beq_iff_eq] at h
  obtain ⟨⟨⟨w, hw, hdomain⟩, x, hx, hwrote⟩, y, hy, hwrites⟩ := h
  exact ⟨who, w, hw, hdomain, ⟨x, hx, hwrote⟩, y, hy, hwrites⟩

section Moments

variable {settings : EngineSettings} {mayFail : StoreCall → Bool} {zones : Zones}
  {before after : List Event} {mid : Traffic} {G : Request → Prop}

theorem isPacing_of_run
    (hanswers : ∀ (zones : Zones) (c : StoreCall) (o : Outcome), o.isFor mayFail c = true →
      t.mayAnswer c (o.call c zones).1)
    (hgood : ∀ r, .arrive r ∈ before → G r →
      Paced t (Request.run settings r).run .unwritten fun _ _ => True)
    (h : (start settings mayFail zones []).run before = some mid) :
    mid.settings = settings ∧ mid.mayFail = mayFail
      ∧ mid.IsPacing t G ((start settings mayFail zones []).log before) := by
  refine run_history (P := fun events s => s.settings = settings ∧ s.mayFail = mayFail
    ∧ s.IsPacing t G ((start settings mayFail zones []).log events)) h
    ⟨rfl, rfl, by rintro _ ⟨⟩, by rintro _ _ ⟨⟩⟩ ?_
  rintro events e s next hinit hrun ⟨hsettings, hmayFail, hpacing⟩ hstep
  refine ⟨(settings_of_step hstep).trans hsettings, (mayFail_of_step hstep).trans hmayFail, ?_⟩
  rw [log_append hrun, log_cons hstep, log, List.append_nil]
  refine hpacing.step (hmayFail ▸ hanswers s.zones) (fun r he hr => ?_) hstep
  rw [hsettings]
  exact hgood r (hinit.subset (by simp [he])) hr

theorem not_isAmidst {domain : String}
    (hanswers : ∀ (zones : Zones) (c : StoreCall) (o : Outcome), o.isFor mayFail c = true →
      t.mayAnswer c (o.call c zones).1)
    (hgood : ∀ r, .arrive r ∈ before → r.domainName = domain →
      Paced t (Request.run settings r).run .unwritten fun _ _ => True)
    (h : (start settings mayFail zones []).run before = some mid)
    (hafter : mid.run after = some s)
    (hmoment : t.spans → ∀ u ∈ mid.workers, u.domain = domain → u.standing.isCommitting = false) :
    ¬ mid.IsAmidst domain ((start settings mayFail zones []).log before) (mid.log after) := by
  obtain ⟨-, hmayFail, hpacing⟩ :=
    isPacing_of_run (G := fun r => r.domainName = domain) hanswers hgood h
  -- unwritten, it has not written before; written, it does not write again
  rintro ⟨who, w, hw, hdomain, ⟨x, hx, hwho, hwrites⟩, y, hy, hwho', hwrites'⟩
  obtain ⟨now, hpaced, hnone⟩ := hpacing.paced who w hw hdomain
  cases now with
  | unwritten => exact absurd (hwrites.symm.trans (hnone rfl x hx hwho)) (by decide)
  | writing =>
      obtain ⟨hspans, hcommits⟩ := hpaced.writing rfl
      exact absurd (hcommits.symm.trans (hmoment hspans w (List.mem_of_getElem? hw) hdomain))
        (by decide)
  | written =>
      have hquiet := not_writes_of_written hanswers hafter hmayFail hw hpaced y hy hwho'
      exact absurd (hwrites'.symm.trans hquiet) (by decide)

end Moments

end Traffic

end ZoneKeeper
