import ZoneKeeper.Proofs.Engine.Retries
import ZoneKeeper.Proofs.Traffic.Accord

namespace ZoneKeeper

/-- Carries out a program with nobody else about, its calls and its readings of the clock being
answered as given. -/
def replay {α : Type} : EngineProgram α → List Outcome → Scene → Option (α × Scene)
  | .done a, [], scene => some (a, scene)
  | .act (.call c) next, o :: script, scene =>
      replay (next (o.call c scene.zones).1) script (scene.afterCall c o)
  | .act .readClock next, .carriedOut now :: script, scene => replay (next now) script scene
  | .act (.lock _) next, script, scene => replay (next ()) script scene
  | .act (.unlock _) next, script, scene => replay (next ()) script scene
  | .act (.startTimer _) next, script, scene => replay (next false) script scene
  | .act .stopTimer next, script, scene => replay (next ()) script scene
  | .act .beginCommit next, script, scene => replay (next ()) script scene
  | .act .endCommit next, script, scene => replay (next ()) script scene
  | .act (.announce change) next, script, scene =>
      replay (next ()) script (scene.afterAnnouncing change)
  | _, _, _ => none

namespace Standing

def after (v : Standing) (domain : String) (shares : Shares) : Shares :=
  if v.hasEntered then Function.update shares domain v.left else shares

end Standing

section Replaying

variable {α : Type} (t : Terms) (whole : EngineProgram α)

def Resumes (again : EngineProgram α) (v : Standing) : Prop :=
  ∀ scene : Scene, t.sees t.domain (scene.share t.domain).zone → ∃ scene' : Scene,
    scene'.share = scene.share
      ∧ ∀ script, replay whole (v.lookups ++ script) scene = replay again script scene'

def Reaches (q : EngineProgram α) (v : Standing) : Prop :=
  ∀ scene : Scene, t.sees t.domain (scene.share t.domain).zone →
    (v.hasEntered = true → scene.share t.domain = v.found) → ∃ scene' : Scene,
      scene'.share = v.after t.domain scene.share
        ∧ ∀ script, replay whole (v.lookups ++ (v.outcomes ++ script)) scene
          = replay q script scene'

def Replayed (a : α) (v : Standing) : Prop :=
  (v.hasEntered = true → t.sees t.domain v.found.zone)
    ∧ ∀ scene : Scene, t.sees t.domain (scene.share t.domain).zone →
      (v.hasEntered = true → scene.share t.domain = v.found) → ∃ scene' : Scene,
        scene'.share = v.after t.domain scene.share
          ∧ replay whole (v.lookups ++ v.outcomes) scene = some (a, scene')

def Terms.replaying : Terms :=
  { t with settles := fun v => t.settles v ∧ ∃ a, Replayed t whole a v }

def Fits (v : Standing) : Phase α → EngineProgram α → Prop
  | .looking, q => v.attempts = 0 ∧ v.holdsLock = false ∧ v.hasEntered = false
      ∧ v.hasTimedOut = false ∧ v.outcomes = [] ∧ Resumes t whole q v
  | .trying again, q => 0 < v.attempts ∧ v.hasTimedOut = false
      ∧ (v.holdsLock = true → v.hasEntered = true)
      ∧ (v.hasEntered = true → t.sees t.domain v.found.zone)
      ∧ Resumes t whole again v ∧ Reaches t whole q v
  | .pausing again, q => q = again ∧ 0 < v.attempts ∧ Resumes t whole again v

def EndsAgain (a : α) (v : Standing) : Prop :=
  if v.hasTimedOut then v.hasEntered = false else Replayed t whole a v

end Replaying

namespace Standing

variable {v : Standing}

theorem record_of_pos (h : 0 < v.attempts) (o : Outcome) :
    v.record o = { v with outcomes := v.outcomes ++ [o] } := by
  rw [record, if_neg (Nat.ne_of_gt h)]

theorem record_of_zero (h : v.attempts = 0) (o : Outcome) :
    v.record o = { v with lookups := v.lookups ++ [o] } := by
  rw [record, if_pos h]

end Standing

section Steps

variable {α : Type} {t : Terms} {whole q again : EngineProgram α} {v : Standing}

theorem Resumes.of_lookups {v' : Standing} (h : Resumes t whole again v)
    (hsame : v'.lookups = v.lookups) : Resumes t whole again v' := by
  rw [Resumes, hsame]
  exact h

theorem Reaches.call {c : StoreCall} {nextq : c.Answer → EngineProgram α}
    (h : Reaches t whole (.act (.call c) nextq) v) (hc : c.domain? = some t.domain)
    (hattempts : 0 < v.attempts) (hin : v.holdsLock = true) (hentered : v.hasEntered = true)
    (o : Outcome) : Reaches t whole (nextq (o.call c (.only t.domain v.left.zone)).1)
      ((v.record o).leave
        ⟨(o.call c (.only t.domain v.left.zone)).2.zone? t.domain, v.left.feed⟩) := by
  rw [Standing.record_of_pos hattempts, Standing.leave, if_pos hin]
  intro scene hsees hfound
  obtain ⟨scene', hshare, hreplay⟩ := h scene hsees hfound
  rw [Standing.after, if_pos hentered] at hshare
  have hown : scene'.share t.domain = v.left := by rw [hshare, Function.update_self]
  refine ⟨scene'.afterCall c o, ?_, fun script => ?_⟩
  · rw [Scene.share_afterCall hc, hown, hshare, Function.update_idem, Standing.after,
      if_pos hentered]
  · have hanswer : (o.call c scene'.zones).1 = (o.call c (.only t.domain v.left.zone)).1 := by
      rw [(o.call_only hc scene'.zones).1, ← hown]
      rfl
    change replay whole (v.lookups ++ (v.outcomes ++ [o] ++ script)) scene = _
    rw [← hanswer, List.append_assoc, List.singleton_append]
    exact hreplay (o :: script)

theorem Reaches.readClock {nextq : Instant → EngineProgram α}
    (h : Reaches t whole (.act .readClock nextq) v) (hattempts : 0 < v.attempts) (now : Instant) :
    Reaches t whole (nextq now) (v.record (.carriedOut now)) := by
  rw [Standing.record_of_pos hattempts]
  intro scene hsees hfound
  obtain ⟨scene', hshare, hreplay⟩ := h scene hsees hfound
  refine ⟨scene', hshare, fun script => ?_⟩
  change replay whole (v.lookups ++ (v.outcomes ++ [.carriedOut now] ++ script)) scene = _
  rw [List.append_assoc, List.singleton_append]
  exact hreplay (.carriedOut now :: script)

theorem Reaches.lock {domain : String} {nextq : Unit → EngineProgram α}
    (h : Reaches t whole (.act (.lock domain) nextq) v) (hout : v.hasEntered = false)
    (share : Share) : Reaches t whole (nextq ()) (v.enter share) := by
  intro scene hsees hfound
  obtain ⟨scene', hshare, hreplay⟩ := h scene hsees
    fun hin => absurd (hout.symm.trans hin) Bool.false_ne_true
  refine ⟨scene', ?_, hreplay⟩
  have hsame : scene.share t.domain = share := hfound rfl
  rw [hshare, Standing.after, Standing.after, hout]
  change scene.share = Function.update scene.share t.domain share
  rw [← hsame, Function.update_eq_self]

theorem Reaches.announce {change : ZoneChange} {nextq : Unit → EngineProgram α}
    (h : Reaches t whole (.act (.announce change) nextq) v) (hdomain : change.domain = t.domain)
    (hin : v.holdsLock = true) (hentered : v.hasEntered = true) : Reaches t whole (nextq ())
      (v.leave ⟨v.left.zone, v.left.feed ++ [change]⟩) := by
  rw [Standing.leave, if_pos hin]
  intro scene hsees hfound
  obtain ⟨scene', hshare, hreplay⟩ := h scene hsees hfound
  rw [Standing.after, if_pos hentered] at hshare
  have hown : scene'.share t.domain = v.left := by rw [hshare, Function.update_self]
  refine ⟨scene'.afterAnnouncing change, ?_, hreplay⟩
  rw [Scene.share_afterAnnouncing, hdomain, hown, hshare, Function.update_idem, Standing.after,
    if_pos hentered]

theorem Resumes.startTimer {milliseconds : Nat} {nextq : Bool → EngineProgram α}
    (h : Resumes t whole (.act (.startTimer milliseconds) nextq) v) :
    Reaches t whole (nextq false) v.begin := by
  intro scene hsees _
  obtain ⟨scene', hshare, hreplay⟩ := h scene hsees
  exact ⟨scene', hshare, hreplay⟩

theorem Resumes.look {name : String} {nextq : (StoreCall.getDomain name).Answer → EngineProgram α}
    (h : Resumes t whole (.act (.call (.getDomain name)) nextq) v) (hname : name = t.domain)
    (hdomains : ∀ zone zone', t.sees t.domain zone → t.sees t.domain zone' →
      zone.map (·.domain) = zone'.map (·.domain))
    (hattempts : v.attempts = 0) {zone : Option Zone} (hzone : t.sees t.domain zone)
    (o : Outcome) : Resumes t whole (nextq (o.call (.getDomain name) (.only t.domain zone)).1)
      (v.record o) := by
  rw [Standing.record_of_zero hattempts]
  intro scene hsees
  obtain ⟨scene', hshare, hreplay⟩ := h scene hsees
  have hsame : (o.call (.getDomain name) scene'.zones).1
      = (o.call (.getDomain name) (.only t.domain zone)).1 := by
    subst hname
    cases o with
    | failed e => rfl
    | carriedOut now =>
        simp only [Outcome.call]
        rw [Zones.call_getDomain, Zones.call_getDomain, Zones.zone?_only]
        refine congrArg Except.ok (hdomains _ _ ?_ hzone)
        have hseen := hsees
        rw [← hshare] at hseen
        exact hseen
  have hscene : (scene'.afterCall (.getDomain name) o).share = scene'.share := by
    cases o <;> rfl
  refine ⟨scene'.afterCall (.getDomain name) o, hscene.trans hshare, fun script => ?_⟩
  change replay whole (v.lookups ++ [o] ++ script) scene = _
  rw [← hsame, List.append_assoc, List.singleton_append]
  exact hreplay (o :: script)

end Steps

section Fits

variable {α : Type} {t : Terms} {whole again : EngineProgram α} {v : Standing}

theorem Fits.look {name : String} {nextq : (StoreCall.getDomain name).Answer → EngineProgram α}
    (h : Fits t whole v .looking (.act (.call (.getDomain name)) nextq)) (hname : name = t.domain)
    (hdomains : ∀ zone zone', t.sees t.domain zone → t.sees t.domain zone' →
      zone.map (·.domain) = zone'.map (·.domain))
    {zone : Option Zone} (hzone : t.sees t.domain zone) (o : Outcome) (share : Share) :
    Fits t whole ((v.record o).leave share) .looking
      (nextq (o.call (.getDomain name) (.only t.domain zone)).1) := by
  obtain ⟨hattempts, hfree, hout, hlate, hnone, hresumes⟩ := h
  have hrecord := v.keeps_record o
  have hsame : (v.record o).leave share = v.record o := by
    rw [Standing.leave, if_neg (by rw [hrecord.holdsLock, hfree]; exact Bool.false_ne_true)]
  rw [hsame]
  refine ⟨hrecord.attempts.trans hattempts, hrecord.holdsLock.trans hfree,
    hrecord.hasEntered.trans hout, hrecord.hasTimedOut.trans hlate, ?_,
    hresumes.look hname hdomains hattempts hzone o⟩
  rw [Standing.record_of_zero hattempts]
  exact hnone

theorem Fits.startTimer {milliseconds : Nat} {nextq : Bool → EngineProgram α}
    (h : Resumes t whole (.act (.startTimer milliseconds) nextq) v) (hfree : v.holdsLock = false) :
    Fits t whole v.begin (.trying (.act (.startTimer milliseconds) nextq)) (nextq false) :=
  ⟨Nat.succ_pos _, rfl, fun hin => absurd (hfree.symm.trans hin) Bool.false_ne_true,
    fun hentered => absurd hentered Bool.false_ne_true, h, h.startTimer⟩

theorem Fits.step {q next : EngineProgram α} {v' : Standing} (h : Fits t whole v (.trying again) q)
    (hkeeps : v.hasEntered = v'.hasEntered ∧ v.found = v'.found ∧ v.left = v'.left
      ∧ v.hasTimedOut = v'.hasTimedOut ∧ v.attempts = v'.attempts ∧ v.lookups = v'.lookups
      ∧ v.outcomes = v'.outcomes)
    (hheld : v'.holdsLock = true → v.holdsLock = true)
    (hstep : ∀ script scene, replay q script scene = replay next script scene) :
    Fits t whole v' (.trying again) next := by
  obtain ⟨hattempts, hlate, hinside, hfound, hresumes, hreach⟩ := h
  obtain ⟨h₁, h₂, h₃, h₄, h₅, h₆, h₇⟩ := hkeeps
  refine ⟨h₅ ▸ hattempts, h₄ ▸ hlate, fun hin => h₁ ▸ hinside (hheld hin), ?_, ?_, ?_⟩
  · rw [← h₁, ← h₂]
    exact hfound
  · exact hresumes.of_lookups h₆.symm
  · intro scene hsees hscene
    rw [← h₁, ← h₂] at hscene
    obtain ⟨scene', hshare, hreplay⟩ := hreach scene hsees hscene
    refine ⟨scene', ?_, fun script => ?_⟩
    · rw [hshare, Standing.after, Standing.after, h₁, h₃]
    · rw [← h₆, ← h₇, hreplay, hstep]

theorem Fits.call {c : StoreCall} {nextq : c.Answer → EngineProgram α}
    (h : Fits t whole v (.trying again) (.act (.call c) nextq)) (hc : c.domain? = some t.domain)
    (hin : v.holdsLock = true) (o : Outcome) : Fits t whole ((v.record o).leave
      ⟨(o.call c (.only t.domain v.left.zone)).2.zone? t.domain, v.left.feed⟩) (.trying again)
      (nextq (o.call c (.only t.domain v.left.zone)).1) := by
  obtain ⟨hattempts, hlate, hinside, hfound, hresumes, hreach⟩ := h
  have hcontinues := (v.continues_record o).trans (Standing.continues_leave _
    ⟨(o.call c (.only t.domain v.left.zone)).2.zone? t.domain, v.left.feed⟩)
  refine ⟨hcontinues.attempts ▸ hattempts, hcontinues.hasTimedOut.trans hlate,
    fun _ => hcontinues.hasEntered.trans (hinside hin), fun _ => ?_, ?_,
    hreach.call hc hattempts hin (hinside hin) o⟩
  · rw [hcontinues.found]
    exact hfound (hinside hin)
  · refine hresumes.of_lookups ?_
    rw [Standing.record_of_pos hattempts, Standing.leave, if_pos hin]

theorem Fits.readClock {nextq : Instant → EngineProgram α}
    (h : Fits t whole v (.trying again) (.act .readClock nextq)) (now : Instant) :
    Fits t whole (v.record (.carriedOut now)) (.trying again) (nextq now) := by
  obtain ⟨hattempts, hlate, hinside, hfound, hresumes, hreach⟩ := h
  have hkeeps := v.keeps_record (.carriedOut now)
  refine ⟨hkeeps.attempts ▸ hattempts, hkeeps.hasTimedOut.trans hlate, ?_, ?_, ?_,
    hreach.readClock hattempts now⟩
  · rw [hkeeps.holdsLock, hkeeps.hasEntered]
    exact hinside
  · rw [hkeeps.hasEntered, hkeeps.found]
    exact hfound
  · refine hresumes.of_lookups ?_
    rw [Standing.record_of_pos hattempts]

theorem Fits.lock {domain : String} {nextq : Unit → EngineProgram α}
    (h : Fits t whole v (.trying again) (.act (.lock domain) nextq)) (hout : v.hasEntered = false)
    {share : Share} (hsees : t.sees t.domain share.zone) :
    Fits t whole (v.enter share) (.trying again) (nextq ()) := by
  obtain ⟨hattempts, hlate, -, -, hresumes, hreach⟩ := h
  exact ⟨hattempts, hlate, fun _ => rfl, fun _ => hsees, hresumes, hreach.lock hout share⟩

theorem Fits.announce {change : ZoneChange} {nextq : Unit → EngineProgram α}
    (h : Fits t whole v (.trying again) (.act (.announce change) nextq))
    (hdomain : change.domain = t.domain) (hin : v.holdsLock = true) :
    Fits t whole (v.leave ⟨v.left.zone, v.left.feed ++ [change]⟩) (.trying again) (nextq ()) := by
  obtain ⟨hattempts, hlate, hinside, hfound, hresumes, hreach⟩ := h
  have hlater := hreach.announce hdomain hin (hinside hin)
  rw [Standing.leave, if_pos hin] at hlater ⊢
  exact ⟨hattempts, hlate, hinside, hfound, hresumes, hlater⟩

theorem Fits.replayed {a : α} (h : Fits t whole v (.trying again) (.done a)) :
    Replayed t whole a v := by
  obtain ⟨-, -, -, hfound, -, hreach⟩ := h
  refine ⟨hfound, fun scene hsees hscene => ?_⟩
  obtain ⟨scene', hshare, hreplay⟩ := hreach scene hsees hscene
  have hall := hreplay []
  rw [List.append_nil] at hall
  exact ⟨scene', hshare, hall⟩

theorem Fits.endsAgain {a : α} {phase : Phase α} {q : EngineProgram α}
    (h : Fits t whole v phase q) (hr : Repeats (.done a) phase q) : EndsAgain t whole a v := by
  cases phase with
  | looking =>
      obtain ⟨-, -, hout, hlate, hnone, hresumes⟩ := h
      obtain rfl : q = .done a := hr
      rw [EndsAgain, hlate]
      refine ⟨fun hin => absurd (hout.symm.trans hin) Bool.false_ne_true, ?_⟩
      intro scene hsees _
      obtain ⟨scene', hshare, hreplay⟩ := hresumes scene hsees
      refine ⟨scene', ?_, ?_⟩
      · rw [hshare, Standing.after, hout]
        rfl
      · rw [hnone]
        exact hreplay []
  | trying again =>
      obtain rfl : q = .done a := hr
      rw [EndsAgain, h.2.1]
      exact h.replayed
  | pausing again => exact hr.elim

end Fits

section Replaying

variable {α : Type} {t : Terms} {whole : EngineProgram α}

theorem Safe.replaying
    (hdomains : ∀ zone zone', t.sees t.domain zone → t.sees t.domain zone' →
      zone.map (·.domain) = zone'.map (·.domain))
    {p : EngineProgram α} {v : Standing} {post : α → Standing → Prop} {phase : Phase α}
    {q : EngineProgram α} (hp : Safe t p v post) (hr : Repeats p phase q)
    (hv : Fits t whole v phase q) :
    Safe (t.replaying whole) p v fun a v' => post a v' ∧ EndsAgain t whole a v' := by
  induction p generalizing v phase q with
  | done a => exact ⟨hp, hv.endsAgain hr⟩
  | act a next ih =>
      -- A new attempt begins from either of the phases that are not within one.
      have htimer {milliseconds : Nat} {next : Bool → EngineProgram α}
          {nextq : Bool → EngineProgram α}
          (ih : ∀ (b : Bool) {v : Standing} {phase : Phase α} {q : EngineProgram α},
            Safe t (next b) v post → Repeats (next b) phase q → Fits t whole v phase q →
              Safe (t.replaying whole) (next b) v fun a v' => post a v' ∧ EndsAgain t whole a v')
          (hp : Safe t (.act (.startTimer milliseconds) next) v post)
          (hlate : ∃ domain b, next true = .act (.unlock domain) fun _ => .done b)
          (hnext : Repeats (next false) (.trying (.act (.startTimer milliseconds) nextq))
            (nextq false))
          (hresumes : Resumes t whole (.act (.startTimer milliseconds) nextq) v) :
          Safe (t.replaying whole) (.act (.startTimer milliseconds) next) v
            fun a v' => post a v' ∧ EndsAgain t whole a v' := by
        obtain ⟨domain, b, hlate⟩ := hlate
        obtain ⟨hfree, hclean, hsafe, hrest⟩ := hp
        refine ⟨hfree, hclean, ih false hsafe hnext (.startTimer hresumes hfree), fun v' hv' => ?_⟩
        have hend := hrest v' hv'
        rw [hlate] at hend ⊢
        exact ⟨hend.1, hend.2, rfl⟩
      cases phase with
      | looking =>
          cases a with
          | call c =>
              obtain ⟨⟨name, rfl⟩, nextq, rfl, hnext⟩ := hr
              obtain ⟨hdomain, hallows, hkeyed, hclean, hheld, hsafe⟩ := hp
              exact ⟨hdomain, hallows, hkeyed, hclean, hheld, fun zone o hsees hleft hfor =>
                ih _ (hsafe zone o hsees hleft hfor) (hnext _)
                  (hv.look (Option.some.inj hdomain) hdomains hsees o _)⟩
          | startTimer milliseconds =>
              obtain ⟨nextq, rfl, hlate, hnext⟩ := hr
              exact htimer ih hp hlate hnext hv.2.2.2.2.2
          | _ => exact hr.elim
      | pausing again =>
          cases a with
          | startTimer milliseconds =>
              obtain ⟨nextq, rfl, hlate, hnext⟩ := hr
              obtain ⟨rfl, -, hresumes⟩ := hv
              exact htimer ih hp hlate hnext hresumes
          | _ => exact hr.elim
      | trying again =>
          cases a with
          | call c =>
              obtain ⟨nextq, rfl, hnext⟩ := hr
              obtain ⟨hdomain, hallows, hkeyed, hclean, hheld, hsafe⟩ := hp
              refine ⟨hdomain, hallows, hkeyed, hclean, hheld, fun zone o hsees hleft hfor => ?_⟩
              have hin : v.holdsLock = true := by
                rcases hheld with hin | ⟨-, hfirst⟩
                · exact hin
                · exact absurd hfirst (Nat.ne_of_gt hv.1)
              obtain rfl := hleft hin
              exact ih _ (hsafe _ o hsees hleft hfor) (hnext _) (hv.call hdomain hin o)
          | readClock =>
              obtain ⟨nextq, rfl, hnext⟩ := hr
              exact ⟨hp.1, fun now => ih now (hp.2 now) (hnext now) (hv.readClock now)⟩
          | lock domain =>
              obtain ⟨nextq, rfl, hnext⟩ := hr
              obtain ⟨hdomain, hfree, hout, hsafe⟩ := hp
              exact ⟨hdomain, hfree, hout, fun share hsees =>
                ih () (hsafe share hsees) (hnext ()) (hv.lock hout hsees)⟩
          | unlock domain =>
              obtain ⟨nextq, rfl, hnext⟩ := hr
              exact ⟨hp.1, ih () hp.2 (hnext ()) (hv.step ⟨rfl, rfl, rfl, rfl, rfl, rfl, rfl⟩
                (fun hin => absurd hin Bool.false_ne_true) fun _ _ => rfl)⟩
          | wait milliseconds =>
              obtain ⟨-, hnext⟩ := hr
              obtain ⟨hattempts, -, -, -, hresumes, -⟩ := hv
              exact ⟨hp.1, ih () hp.2 hnext ⟨rfl, hattempts, hresumes⟩⟩
          | startTimer milliseconds => exact hr.elim
          | stopTimer =>
              obtain ⟨nextq, rfl, hnext⟩ := hr
              exact ih () hp (hnext ())
                (hv.step ⟨rfl, rfl, rfl, rfl, rfl, rfl, rfl⟩ id fun _ _ => rfl)
          | beginCommit =>
              obtain ⟨nextq, rfl, hnext⟩ := hr
              exact ih () hp (hnext ())
                (hv.step ⟨rfl, rfl, rfl, rfl, rfl, rfl, rfl⟩ id fun _ _ => rfl)
          | endCommit =>
              obtain ⟨nextq, rfl, ⟨b, hb⟩, hnext⟩ := hr
              have hlater : Fits t whole { v with isCommitting := false } (.trying again)
                  (nextq ()) := hv.step ⟨rfl, rfl, rfl, rfl, rfl, rfl, rfl⟩ id fun _ _ => rfl
              refine ⟨hp.1, ⟨hp.2.1, b, ?_⟩, ih () hp.2.2 hnext hlater⟩
              rw [hb] at hlater
              exact hlater.replayed
          | announce change =>
              obtain ⟨nextq, rfl, hnext⟩ := hr
              obtain ⟨hdomain, hin, hsafe⟩ := hp
              exact ⟨hdomain, hin, ih () hsafe (hnext ()) (hv.announce hdomain hin)⟩
          | push change => exact hp.elim

end Replaying

end ZoneKeeper
