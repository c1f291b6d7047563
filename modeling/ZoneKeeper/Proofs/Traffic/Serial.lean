import ZoneKeeper.Proofs.Engine.Creation
import ZoneKeeper.Proofs.Traffic.Announcement
import ZoneKeeper.Proofs.Traffic.Replay

namespace ZoneKeeper

def Regime.serialLaw (R : Regime) (settings : EngineSettings) : Law :=
  { R with
    settles := fun r v => (R.law settings).settles r v
      ∧ ∃ result, Replayed ((R.law settings).terms r) (Request.run settings.once r).run result v
    ends := fun r result v => (R.law settings).ends r result v
      ∧ EndsAgain ((R.law settings).terms r) (Request.run settings.once r).run result v }

theorem Request.keeps_serialLaw {R : Regime} (hR : R.SuitsBatches)
    (hdomains : ∀ domain zone zone', R.sees domain zone → R.sees domain zone' →
      zone.map (·.domain) = zone'.map (·.domain))
    (settings : EngineSettings) {r : Request} (hbatch : r.isBatch = true) :
    (R.serialLaw settings).IsKeptBy settings r := by
  have hlaw := keeps_law_of_isBatch R hR settings hbatch
  have hfresh : Fits ((R.law settings).terms r) (run settings.once r).run .fresh .looking
      (run settings.once r).run :=
    ⟨rfl, rfl, rfl, rfl, rfl, fun scene _ => ⟨scene, rfl, fun _ => rfl⟩⟩
  exact hlaw.replaying (hdomains r.domainName) (repeats_run settings hbatch) hfresh

def serially (settings : EngineSettings) :
    List Worker → Scene → Option (List (Except Error Reply) × Scene)
  | [], scene => some ([], scene)
  | w :: rest, scene => do
      let (result, scene) ← replay (Request.run settings.once w.request).run
        (w.standing.lookups ++ w.standing.outcomes) scene
      let (results, scene) ← serially settings rest scene
      return (result :: results, scene)

def EndSerially (settings : EngineSettings) (ws : List Worker) (scene : Scene) (last : Shares) :
    Prop :=
  ∃ results scene', serially settings ws scene = some (results, scene') ∧ scene'.share = last
    ∧ List.Forall₂ (fun w result => ∀ r, w.result? = some r → r = result) ws results

def Worker.EndsAlone (R : Regime) (settings : EngineSettings) (w : Worker) : Prop :=
  ∃ result, Replayed ((R.law settings).terms w.request) (Request.run settings.once w.request).run
    result w.standing ∧ ∀ r, w.result? = some r → r = result

section Serially

variable {R : Regime} {settings : EngineSettings} {ws : List Worker} {scene : Scene}
  {last : Shares}

theorem EndSerially.cons {w : Worker} (hends : w.EndsAlone R settings)
    (hsees : R.sees w.domain (scene.share w.domain).zone)
    (hfound : w.standing.hasEntered = true → scene.share w.domain = w.standing.found)
    (hrest : ∀ scene' : Scene, scene'.share = w.standing.after w.domain scene.share →
      EndSerially settings ws scene' last) : EndSerially settings (w :: ws) scene last := by
  obtain ⟨result, ⟨-, hreplayed⟩, hresult⟩ := hends
  obtain ⟨mid, hmid, hreplay⟩ := hreplayed scene hsees hfound
  obtain ⟨results, scene', hserially, hlast, hresults⟩ := hrest mid hmid
  refine ⟨result :: results, scene', ?_, hlast, .cons hresult hresults⟩
  rw [serially, hreplay]
  simp [hserially]

theorem endSerially_of_linked
    (hws : ∀ w ∈ ws, w.standing.hasEntered = true ∧ w.EndsAlone R settings)
    (h : Linked scene.share (ws.map Worker.link) last) : EndSerially settings ws scene last := by
  induction ws generalizing scene with
  | nil => exact ⟨[], scene, rfl, h.symm, .nil⟩
  | cons w rest ih =>
      obtain ⟨hentered, hends⟩ := hws w List.mem_cons_self
      obtain ⟨hfound, hlinked⟩ := h
      have hsees : R.sees w.domain (scene.share w.domain).zone := by
        obtain ⟨result, ⟨hsees, -⟩, -⟩ := hends
        rw [show scene.share w.domain = w.standing.found from hfound]
        exact hsees hentered
      refine .cons hends hsees (fun _ => hfound) fun scene' hscene' => ih ?_ ?_
      · exact fun u hu => hws u (List.mem_cons_of_mem _ hu)
      · rw [hscene', Standing.after, if_pos hentered]
        exact hlinked

theorem endSerially_of_idle {idle : List Worker}
    (hidle : ∀ w ∈ idle, w.standing.hasEntered = false ∧ w.EndsAlone R settings)
    (hsees : ∀ domain, R.sees domain (scene.share domain).zone)
    (hws : ∀ scene' : Scene, scene'.share = scene.share → EndSerially settings ws scene' last) :
    EndSerially settings (idle ++ ws) scene last := by
  induction idle generalizing scene with
  | nil => exact hws scene rfl
  | cons w rest ih =>
      obtain ⟨hout, hends⟩ := hidle w List.mem_cons_self
      refine .cons hends (hsees _) (fun hin => ?_) fun scene' hscene' => ?_
      · exact absurd (hout.symm.trans hin) Bool.false_ne_true
      · have hsame : scene'.share = scene.share := by
          rw [hscene', Standing.after, hout]
          rfl
        refine ih (fun u hu => hidle u (List.mem_cons_of_mem _ hu)) ?_ ?_
        · rw [hsame]
          exact hsees
        · rw [hsame]
          exact hws

end Serially

namespace Worker

structure Creates (settings : EngineSettings) (w : Worker) (key : Key) : Prop where
  isAccepted : ∃ result, w.result? = some result ∧ w.request.accepts result = true
  names : ∃ job, w.request.job? settings = some job ∧ job.operation = .create
    ∧ job.source.Names w.domain w.standing.found key

def Removes (w : Worker) (key : Key) : Prop :=
  w.standing.found.content key ≠ none ∧ w.standing.left.content key = none

end Worker

namespace Traffic

def bystanders (s : Traffic) : List Nat :=
  (List.range s.workers.length).filter fun who => s.workers[who]?.any fun w =>
    w.result?.isSome && !w.standing.hasEntered && !w.standing.hasTimedOut

def turns (s : Traffic) : List Nat := s.bystanders ++ s.order

def RemovedBetween (settings : EngineSettings) (s : Traffic) : Prop :=
  ∀ (before mid behind : List Nat) (i j : Nat) (u w : Worker) (key : Key),
    s.order = before ++ i :: (mid ++ j :: behind) → s.workers[i]? = some u →
    s.workers[j]? = some w → w.domain = u.domain → u.Creates settings key →
    w.Creates settings key → ∃ k ∈ mid, ∃ x, s.workers[k]? = some x ∧ x.domain = u.domain
      ∧ x.Removes key

structure IsSerial (settings : EngineSettings) (scene : Scene) (s : Traffic) : Prop where
  nodup : s.turns.Nodup
  mem_turns : ∀ (who : Nat) (w : Worker), s.workers[who]? = some w → w.result?.isSome = true →
    (who ∈ s.turns ↔ w.standing.hasTimedOut = false)
  timedOut : ∀ w ∈ s.workers, ∀ result, w.result? = some result →
    w.standing.hasTimedOut = true → w.request.accepts result = false
  ends : EndSerially settings (s.turns.filterMap (s.workers[·]?)) scene s.share
  linked : Linked scene.share s.links s.share
  applied : ∀ w ∈ s.workers, ∀ result, w.result? = some result →
    if w.request.accepts result then w.standing.hasEntered = true
      ∧ ∃ zone, w.standing.found.zone = some zone ∧ zone.domain.name = w.domain
        ∧ w.request.IsApplied settings zone.domain w.standing.found w.standing.left
    else w.standing.IsClean
  removed : s.RemovedBetween settings
  winner : ∀ (domain : String) (key : Key), (∀ w ∈ s.workers, w.domain = domain →
      ∀ job, w.request.job? settings = some job → job.operation = .create) →
    ∀ (i j : Nat) (u w : Worker), s.workers[i]? = some u → s.workers[j]? = some w →
      u.domain = domain → w.domain = domain → u.Creates settings key → w.Creates settings key →
      i = j

section Serial

variable {R : Regime} {settings : EngineSettings} {first : Shares} {s : Traffic}

theorem hasEntered_of_timedOut {w : Worker} (hsafe : w.IsSafe (R.serialLaw settings))
    {result : Except Error Reply} (hresult : w.result? = some result)
    (htime : w.standing.hasTimedOut = true) : w.standing.hasEntered = false := by
  have hends := (hsafe.ends hresult).2
  rw [EndsAgain, if_pos htime] at hends
  exact hends

theorem endsAlone_of_isOver {w : Worker} (hsafe : w.IsSafe (R.serialLaw settings))
    (hover : w.isOver = true) (h : w.standing.hasEntered = true
      ∨ (w.result?.isSome = true ∧ w.standing.hasTimedOut = false)) : w.EndsAlone R settings := by
  cases hresult : w.result? with
  | none =>
      have hgone : w.isGone = true := by simpa [Worker.isOver, hresult] using hover
      have hentered : w.standing.hasEntered = true := by simpa [hresult] using h
      obtain ⟨-, result, hreplayed⟩ := hsafe.gone hgone hentered
      exact ⟨result, hreplayed, by rw [hresult]; rintro _ ⟨⟩⟩
  | some result =>
      have htime : w.standing.hasTimedOut = false := by
        rcases h with hentered | ⟨-, htime⟩
        · refine Bool.eq_false_iff.2 fun htime => Bool.false_ne_true ?_
          exact (hasEntered_of_timedOut hsafe hresult htime).symm.trans hentered
        · exact htime
      have hends := (hsafe.ends hresult).2
      rw [EndsAgain, htime] at hends
      refine ⟨result, hends, fun r hr => ?_⟩
      exact Option.some.inj (hr.symm.trans hresult)

theorem mem_bystanders {who : Nat} {w : Worker} (hw : s.workers[who]? = some w) :
    who ∈ s.bystanders ↔ w.result?.isSome = true ∧ w.standing.hasEntered = false
      ∧ w.standing.hasTimedOut = false := by
  have hlt := (List.getElem?_eq_some_iff.1 hw).1
  simp only [bystanders, List.mem_filter, List.mem_range, hlt, true_and, hw, Option.any_some,
    Bool.and_eq_true, Bool.not_eq_true', and_assoc]

theorem nodup_turns {L : Law} (h : Accord L settings first s) : s.turns.Nodup := by
  refine List.nodup_append.2 ⟨List.nodup_range.filter _, h.nodup, ?_⟩
  rintro who hbystander other hother rfl
  obtain ⟨w, hw⟩ : ∃ w, s.workers[who]? = some w :=
    ⟨_, List.getElem?_eq_getElem (h.present who hother)⟩
  have hentered := (h.entered who w hw).1 hother
  exact Bool.false_ne_true (((mem_bystanders hw).1 hbystander).2.1.symm.trans hentered)

theorem mem_turns_iff (h : Accord (R.serialLaw settings) settings first s) {who : Nat} {w : Worker}
    (hw : s.workers[who]? = some w) (hresult : w.result?.isSome = true) :
    who ∈ s.turns ↔ w.standing.hasTimedOut = false := by
  rw [turns, List.mem_append, mem_bystanders hw, h.entered who w hw]
  obtain ⟨result, hsome⟩ := Option.isSome_iff_exists.1 hresult
  cases htime : w.standing.hasTimedOut with
  | false => cases hentered : w.standing.hasEntered <;> simp [hresult]
  | true => simp [hasEntered_of_timedOut (h.safe who w hw) hsome htime]

theorem endSerially_turns (h : Accord (R.serialLaw settings) settings first s) {scene : Scene}
    (hscene : scene.share = first) (hsees : ∀ domain, R.sees domain (scene.share domain).zone)
    (hover : ∀ w ∈ s.workers, w.isOver = true) :
    EndSerially settings (s.turns.filterMap (s.workers[·]?)) scene s.share := by
  have hends {who : Nat} {w : Worker} (hw : s.workers[who]? = some w) :=
    endsAlone_of_isOver (h.safe who w hw) (hover w (List.mem_of_getElem? hw))
  rw [turns, List.filterMap_append]
  refine endSerially_of_idle (R := R) ?_ hsees fun scene' hscene' => ?_
  · intro w hmem
    obtain ⟨who, hwho, hw⟩ := List.mem_filterMap.1 hmem
    obtain ⟨hresult, hout, htime⟩ := (mem_bystanders hw).1 hwho
    exact ⟨hout, hends hw (Or.inr ⟨hresult, htime⟩)⟩
  · refine endSerially_of_linked (R := R) ?_ ?_
    · intro w hmem
      obtain ⟨who, hwho, hw⟩ := List.mem_filterMap.1 hmem
      have hentered := (h.entered who w hw).1 hwho
      exact ⟨hentered, hends hw (Or.inl hentered)⟩
    · rw [hscene', hscene, List.map_filterMap]
      exact h.linked

theorem applied_of_result (h : Accord (R.serialLaw settings) settings first s)
    (hdomains : ∀ domain zone zone', R.sees domain zone → R.sees domain zone' →
      zone.map (·.domain) = zone'.map (·.domain))
    {w : Worker} (hmem : w ∈ s.workers) (hbatch : w.request.isBatch = true)
    {result : Except Error Reply} (hresult : w.result? = some result) :
    if w.request.accepts result then w.standing.hasEntered = true
      ∧ ∃ zone, w.standing.found.zone = some zone ∧ zone.domain.name = w.domain
        ∧ w.request.IsApplied settings zone.domain w.standing.found w.standing.left
    else w.standing.IsClean := by
  obtain ⟨who, hw⟩ := List.mem_iff_getElem?.1 hmem
  have hsafe := h.safe who w hw
  have hends : w.request.Ends R settings result w.standing := (hsafe.ends hresult).1
  unfold Request.Ends at hends
  split at hends
  · next haccepted =>
      rw [if_pos haccepted]
      obtain ⟨hentered, hleads⟩ := hends
      obtain ⟨seen, hseen, happlied⟩ := hleads.isApplied hbatch
      have hfound := happlied
      obtain ⟨_, -, zone, _, hzone, -⟩ := hfound
      obtain ⟨_, ⟨hsees, -⟩, -⟩ := endsAlone_of_isOver hsafe
        (by simp [Worker.isOver, hresult]) (Or.inl hentered)
      have hdomain : seen.domain = zone.domain := by
        have hsame := hdomains _ _ _ hseen (hsees hentered)
        rw [hzone] at hsame
        exact Option.some.inj hsame
      exact ⟨hentered, zone, hzone, hdomain ▸ R.isNamed hseen, hdomain ▸ happlied⟩
  · next hrefused =>
      rw [if_neg hrefused]
      exact hends

theorem content_of_creates {w : Worker} {key : Key} {zone : Zone}
    (hname : zone.domain.name = w.domain)
    (happlied : w.request.IsApplied settings zone.domain w.standing.found w.standing.left)
    (h : w.Creates settings key) :
    w.standing.found.content key = none ∧ w.standing.left.content key ≠ none := by
  obtain ⟨job, hjob, hdone⟩ := happlied
  obtain ⟨_, named, hnamed, hcreate, hnames⟩ := h
  obtain rfl := Option.some.inj (hjob.symm.trans hnamed)
  refine hdone.creates hcreate ?_
  rw [show (Attempt.context settings zone.domain job).domain = w.domain from hname]
  exact hnames

theorem removedBetween_of_linked {last : Shares} (hlinked : Linked first s.links last)
    (hcreates : ∀ w ∈ s.workers, ∀ key, w.Creates settings key →
      w.standing.found.content key = none ∧ w.standing.left.content key ≠ none) :
    s.RemovedBetween settings := by
  intro before mid behind i j u w key horder hu hw hdomain hu' hw'
  by_contra hnot
  have hlink {k : Nat} {x : Worker} (hx : s.workers[k]? = some x) : s.link? k = some x.link := by
    rw [link?, hx, Option.map_some]
  have hleft := (hcreates u (List.mem_of_getElem? hu) key hu').2
  have hfound := (hcreates w (List.mem_of_getElem? hw) key hw').1
  rw [links, horder, List.filterMap_append, List.filterMap_cons, hlink hu, List.filterMap_append,
    List.filterMap_cons, hlink hw] at hlinked
  -- What is there after the first of the two stays there, unless somebody between them removes it.
  refine hlinked.between (P := fun share => share.content key ≠ none) hdomain hleft ?_ hfound
  intro m hm hsame hkept hgone
  obtain ⟨k, hk, hm⟩ := List.mem_filterMap.1 hm
  obtain ⟨x, hx, rfl⟩ := Option.map_eq_some_iff.1 hm
  exact hnot ⟨k, hk, x, hx, hsame, hkept, hgone⟩

theorem exists_split {order : List Nat} {i j : Nat} (hi : i ∈ order) (hj : j ∈ order)
    (hne : i ≠ j) : ∃ before mid behind, order = before ++ i :: (mid ++ j :: behind)
      ∨ order = before ++ j :: (mid ++ i :: behind) := by
  obtain ⟨before, behind, rfl⟩ := List.append_of_mem hi
  rcases List.mem_append.1 hj with hj | hj
  · obtain ⟨before, mid, rfl⟩ := List.append_of_mem hj
    exact ⟨before, mid, behind, Or.inr (by simp)⟩
  · obtain ⟨mid, behind, rfl⟩ := List.append_of_mem ((List.mem_cons.1 hj).resolve_left hne.symm)
    exact ⟨before, mid, behind, Or.inl rfl⟩

theorem RemovedBetween.eq_of_creates (h : s.RemovedBetween settings) {domain : String} {key : Key}
    (hkept : ∀ k ∈ s.order, ∀ x, s.workers[k]? = some x → x.domain = domain → ¬ x.Removes key)
    {i j : Nat} {u w : Worker} (hi : i ∈ s.order) (hj : j ∈ s.order)
    (hu : s.workers[i]? = some u) (hw : s.workers[j]? = some w) (hdomain : u.domain = domain)
    (hdomain' : w.domain = domain) (hu' : u.Creates settings key) (hw' : w.Creates settings key) :
    i = j := by
  by_contra hne
  obtain ⟨before, mid, behind, horder | horder⟩ := exists_split hi hj hne
  · obtain ⟨k, hk, x, hx, hsame, hremoves⟩ := h before mid behind i j u w key horder hu hw
      (hdomain'.trans hdomain.symm) hu' hw'
    exact hkept k (by simp [horder, hk]) x hx (hsame.trans hdomain) hremoves
  · obtain ⟨k, hk, x, hx, hsame, hremoves⟩ := h before mid behind j i w u key horder hw hu
      (hdomain.trans hdomain'.symm) hw' hu'
    exact hkept k (by simp [horder, hk]) x hx (hsame.trans hdomain') hremoves

theorem not_removes_of_create (h : Accord (R.law settings) settings first s)
    {who : Nat} {w : Worker} (hw : s.workers[who]? = some w) (hover : w.isOver = true)
    (hentered : w.standing.hasEntered = true) (hbatch : w.request.isBatch = true)
    (hcreate : ∀ job, w.request.job? settings = some job → job.operation = .create) (key : Key) :
    ¬ w.Removes key := by
  rintro ⟨hfound, hleft⟩
  rcases h.left_of_isOver hw hover hentered with hsame | hleads
  · exact hfound (hsame ▸ hleft)
  · obtain ⟨zone, -, job, hjob, hdone⟩ := hleads.isApplied hbatch
    exact hdone.keeps (hcreate job hjob) hfound hleft

end Serial

/-- Batches that are applied at the same time end as if their last attempts had been made one at a
time. -/
theorem batches_are_serial {settings : EngineSettings} {mayFail : StoreCall → Bool}
    {zones : Zones} {feed : List ZoneChange} {events : List Event} {s : Traffic}
    (hzones : zones.IsProper) (hrestores : ∀ c : StoreCall, c.isRestore = true → mayFail c = false)
    (hbatches : ∀ r, .arrive r ∈ events → r.isBatch = true)
    (h : (start settings mayFail zones feed).run events = some s)
    (hover : ∀ w ∈ s.workers, w.isOver = true) : IsSerial settings ⟨zones, feed⟩ s := by
  let R := Regime.settled mayFail zones
  have hR : R.SuitsBatches := Regime.settled_suitsBatches hrestores
  have hsees : ∀ domain, R.sees domain (zones.zone? domain) := Regime.settled_sees hzones
  have hdomains (domain : String) (zone zone' : Option Zone) (hzone : R.sees domain zone)
      (hzone' : R.sees domain zone') : zone.map (·.domain) = zone'.map (·.domain) :=
    hzone.2.trans hzone'.2.symm
  have haccord : Accord (R.law settings) settings (start settings mayFail zones feed).share s :=
    accord_of_run (L := R.law settings) h hsees fun r hr =>
      Request.keeps_law_of_isBatch R hR settings (hbatches r hr)
  have hlaw : ∀ r, .arrive r ∈ events → (R.serialLaw settings).IsKeptBy settings r :=
    fun r hr => Request.keeps_serialLaw hR hdomains settings (hbatches r hr)
  have hserial : Accord (R.serialLaw settings) settings
      (start settings mayFail zones feed).share s :=
    accord_of_run (L := R.serialLaw settings) h hsees hlaw
  have hbatch : ∀ w ∈ s.workers, w.request.isBatch = true := fun w hw =>
    hbatches _ (request_mem_of_run (L := R.serialLaw settings) h hsees hlaw w hw)
  have happlied := fun (w : Worker) (hw : w ∈ s.workers) (result : Except Error Reply)
      (hresult : w.result? = some result) =>
    applied_of_result hserial hdomains hw (hbatch w hw) hresult
  have hcreates (w : Worker) (hw : w ∈ s.workers) (key : Key) (h : w.Creates settings key) :
      w.standing.hasEntered = true
        ∧ w.standing.found.content key = none ∧ w.standing.left.content key ≠ none := by
    obtain ⟨result, hresult, haccepted⟩ := h.isAccepted
    have hdone := happlied w hw result hresult
    rw [if_pos haccepted] at hdone
    obtain ⟨hentered, zone, -, hname, hdone⟩ := hdone
    exact ⟨hentered, content_of_creates hname hdone h⟩
  have htimedOut (w : Worker) (hw : w ∈ s.workers) (result : Except Error Reply)
      (hresult : w.result? = some result) (htime : w.standing.hasTimedOut = true) :
      w.request.accepts result = false := by
    obtain ⟨who, hw'⟩ := List.mem_iff_getElem?.1 hw
    refine Bool.eq_false_iff.2 fun haccepted => Bool.false_ne_true ?_
    have hdone := happlied w hw result hresult
    rw [if_pos haccepted] at hdone
    exact (hasEntered_of_timedOut (hserial.safe who w hw') hresult htime).symm.trans hdone.1
  have hremoved : s.RemovedBetween settings :=
    removedBetween_of_linked haccord.linked fun w hw key h => (hcreates w hw key h).2
  refine ⟨nodup_turns hserial, fun who w hw => mem_turns_iff hserial hw, htimedOut,
    endSerially_turns hserial rfl hsees hover, haccord.linked, happlied, hremoved, ?_⟩
  intro domain key hall i j u w hu hw hdomain hdomain' hu' hw'
  have horder {i : Nat} {u : Worker} (hu : s.workers[i]? = some u) (hu' : u.Creates settings key) :
      i ∈ s.order :=
    (haccord.entered i u hu).2 (hcreates u (List.mem_of_getElem? hu) key hu').1
  refine hremoved.eq_of_creates (fun k hk x hx hsame => ?_) (horder hu hu') (horder hw hw') hu hw
    hdomain hdomain' hu' hw'
  have hmem := List.mem_of_getElem? hx
  exact not_removes_of_create haccord hx (hover x hmem) ((haccord.entered k x hx).1 hk)
    (hbatch x hmem) (hall x hmem hsame) key

namespace Example

def race : Request := .write ⟨"ann"⟩ "a.de" .create (item "www") none

def racing : List Event :=
  [.arrive race, .arrive race]
    ++ events 0 [answer, goOn, .refer, .join, goOn] ++ events 1 [answer, goOn, .refer, .join]
    ++ events 0 [.call (.failed (.storage "busy")), goOn, goOn, goOn]
    ++ events 1 [goOn, answer, answer, goOn, goOn, answer, goOn, goOn, goOn, goOn]
    ++ events 0 [goOn, .refer, .join, goOn, answer, answer, goOn, goOn]

end Example

theorem racing_is_serial : ∃ s, Example.start.run Example.racing = some s ∧ s.turns = [1, 0]
    ∧ s.workers.map (fun w => w.result?.map w.request.accepts) = [some false, some true]
    ∧ IsSerial .default ⟨Example.zones, []⟩ s := by
  have hends : (Example.start.run Example.racing).any (fun s => s.turns == [1, 0]
      && s.workers.map (fun w => w.result?.map w.request.accepts) == [some false, some true]
      && s.workers.all Worker.isOver) = true := by
    decide +kernel
  obtain ⟨s, hs, h⟩ := (Option.any_eq_true _ _).1 hends
  simp only [Bool.and_eq_true, beq_iff_eq, List.all_eq_true] at h
  refine ⟨s, hs, h.1.1, h.1.2, ?_⟩
  refine batches_are_serial Example.isProper_zones Example.mayFail_of_isRestore ?_ hs h.2
  intro r hr
  obtain rfl : r = Example.race := by simpa [Example.racing, Example.events] using hr
  rfl

end Traffic

end ZoneKeeper
