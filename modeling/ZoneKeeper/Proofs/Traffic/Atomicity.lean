import ZoneKeeper.Proofs.Traffic.Regimes

namespace ZoneKeeper

def Worker.isPausing (w : Worker) : Bool :=
  match w.program with
  | .act (.wait _) _ => true
  | _ => false

theorem Worker.IsSafe.isClean_of_pausing {L : Law} {w : Worker} (h : w.IsSafe L)
    (hgone : w.isGone = false) (hpauses : w.isPausing = true) : w.standing.IsClean := by
  have hsafe := h.program hgone
  unfold isPausing at hpauses
  split at hpauses
  · next hprogram =>
      rw [hprogram] at hsafe
      exact hsafe.1
  · cases hpauses

namespace Traffic

def alone (start : Traffic) (r : Request) (moves : List Move) : Option Traffic :=
  start.run (.arrive r :: moves.map (.move 0))

structure Applies (settings : EngineSettings) (r : Request) (s s' : Traffic) : Prop where
  isApplied : ∃ zone, s.zones.zone? r.domainName = some zone
    ∧ r.IsApplied settings zone.domain (s.share r.domainName) (s'.share r.domainName)
  others : ∀ domain, domain ≠ r.domainName → s'.share domain = s.share domain
  feed : s.feed <+: s'.feed

def IsAsBefore (s s' : Traffic) : Prop := s'.zones = s.zones ∧ s'.feed = s.feed

section Alone

variable {settings : EngineSettings} {mayFail : StoreCall → Bool} {zones : Zones}
  {feed : List ZoneChange} {r : Request} {moves : List Move} {s : Traffic} {L : Law}

theorem accord_of_alone (hsees : ∀ domain, L.sees domain (zones.zone? domain))
    (hlaw : L.IsKeptBy settings r)
    (h : (start settings L.mayFail zones feed).alone r moves = some s) :
    Accord L settings (start settings L.mayFail zones feed).share s
      ∧ ∃ w, s.workers = [w] ∧ w.request = r := by
  let first := start settings L.mayFail zones feed
  have harrived : Accord L settings first.share (first.arrive r) := (accord_start hsees).arrive hlaw
  refine run_induction (P := fun s => Accord L settings first.share s
    ∧ ∃ w, s.workers = [w] ∧ w.request = r)
    (show (first.arrive r).run (moves.map (.move 0)) = some s from h) ⟨harrived, _, rfl, rfl⟩ ?_ ?_
  · intro s request hmem _
    obtain ⟨m, -, hm⟩ := List.mem_map.1 hmem
    cases hm
  · rintro s s' who m w hmem ⟨hs, v, hworkers, hrequest⟩ hw hgone hmoved
    obtain ⟨_, -, hm⟩ := List.mem_map.1 hmem
    obtain ⟨rfl, -⟩ := Event.move.inj hm
    obtain ⟨w', hturn⟩ := hs.turn_of_moved hw hgone hmoved
    rw [hworkers] at hw
    obtain rfl := Option.some.inj hw
    refine ⟨hs.turn (by rw [hworkers]; rfl) hturn, w', ?_, hturn.request.trans hrequest⟩
    rw [hturn.workers, hworkers]
    rfl

theorem share_of_alone {w : Worker} {first : Shares} (h : Accord L settings first s)
    (hworkers : s.workers = [w]) :
    (w.standing.hasEntered = false ∧ s.share = first)
      ∨ (w.standing.hasEntered = true ∧ first w.domain = w.standing.found
        ∧ s.share = Function.update first w.domain w.standing.left) := by
  have hw : s.workers[0]? = some w := by rw [hworkers]; rfl
  have hlink : s.link? 0 = some w.link := by rw [link?, hw, Option.map_some]
  have hpresent : ∀ who ∈ s.order, who = 0 := by
    intro who hwho
    have hlt := h.present who hwho
    rw [hworkers] at hlt
    exact Nat.lt_one_iff.1 hlt
  have hentered := h.entered 0 w hw
  have hlinked := h.linked
  rw [links] at hlinked
  have hnodup := h.nodup
  cases horder : s.order with
  | nil =>
      rw [horder] at hentered hlinked
      exact Or.inl ⟨by simpa using hentered, hlinked⟩
  | cons who rest =>
      rw [horder] at hpresent hnodup hentered hlinked
      obtain rfl := hpresent who List.mem_cons_self
      have hrest : rest = [] := by
        refine List.eq_nil_iff_forall_not_mem.2 fun other hother => ?_
        obtain rfl := hpresent other (List.mem_cons_of_mem _ hother)
        exact (List.nodup_cons.1 hnodup).1 hother
      rw [hrest, List.filterMap_cons, hlink] at hlinked
      exact Or.inr ⟨hentered.1 List.mem_cons_self, hlinked.1, hlinked.2⟩

theorem share_of_isClean {w : Worker} {first : Shares} (h : Accord L settings first s)
    (hworkers : s.workers = [w]) (hclean : w.standing.IsClean) : s.share = first := by
  rcases share_of_alone h hworkers with ⟨-, hshare⟩ | ⟨hentered, hfound, hshare⟩
  · exact hshare
  · rw [hshare, hclean hentered, ← hfound, Function.update_eq_self]

end Alone

/-- A batch that is not accepted leaves everything as it was, also between two attempts. One whose
caller goes away does so too, or it is applied and announced at once. -/
theorem batch_is_atomic {settings : EngineSettings} {mayFail : StoreCall → Bool} {zones : Zones}
    {feed : List ZoneChange} {r : Request} {moves : List Move} {s : Traffic}
    (hzones : zones.IsProper) (hrestores : ∀ c : StoreCall, c.isRestore = true → mayFail c = false)
    (hbatch : r.isBatch = true)
    (h : (start settings mayFail zones feed).alone r moves = some s) :
    ∃ w, s.workers = [w]
      ∧ (∀ result, w.result? = some result →
        if r.accepts result then Applies settings r (start settings mayFail zones feed) s
        else IsAsBefore (start settings mayFail zones feed) s)
      ∧ (w.isGone = false → w.isPausing = true → IsAsBefore (start settings mayFail zones feed) s)
      ∧ (w.isGone = true → IsAsBefore (start settings mayFail zones feed) s
        ∨ Applies settings r (start settings mayFail zones feed) s) := by
  let R := Regime.settled mayFail zones
  have hlaw : (R.law settings).IsKeptBy settings r :=
    Request.keeps_law_of_isBatch R (Regime.settled_suitsBatches hrestores) settings hbatch
  obtain ⟨haccord, w, hworkers, rfl⟩ :=
    accord_of_alone (L := R.law settings) (Regime.settled_sees hzones) hlaw h
  have hsafe := haccord.safe 0 w (by rw [hworkers]; rfl)
  have hfeed := feed_prefix_of_run h
  have hsame (hclean : w.standing.IsClean) : IsAsBefore (start settings mayFail zones feed) s :=
    eq_of_share hfeed (share_of_isClean haccord hworkers hclean)
  have happlied (hentered : w.standing.hasEntered = true)
      (hleads : w.request.Leads R settings w.standing.found w.standing.left) :
      Applies settings w.request (start settings mayFail zones feed) s := by
    rcases share_of_alone haccord hworkers with ⟨hout, -⟩ | ⟨-, hfound, hshare⟩
    · exact absurd (hout.symm.trans hentered) Bool.false_ne_true
    · obtain ⟨seen, hsees, hdone⟩ := hleads.isApplied hbatch
      have hdone' := hdone
      obtain ⟨_, -, zone, _, hzone, -⟩ := hdone'
      rw [← hfound] at hzone hdone
      have hdomain : seen.domain = zone.domain := by
        refine Option.some.inj (hsees.2.trans ?_)
        rw [Zones.domain?_eq]
        exact congrArg (Option.map (·.domain)) hzone
      refine ⟨⟨zone, hzone, ?_⟩, fun domain hother => ?_, hfeed⟩
      · rw [← hdomain, hshare]
        exact (Function.update_self w.domain ..).symm ▸ hdone
      · rw [hshare]
        exact Function.update_of_ne (show domain ≠ w.domain from hother) ..
  refine ⟨w, hworkers, ?_, ?_, ?_⟩
  · intro result hresult
    have hends : w.request.Ends R settings result w.standing := hsafe.ends hresult
    unfold Request.Ends at hends
    split at hends
    · next haccepted =>
        rw [if_pos haccepted]
        exact happlied hends.1 hends.2
    · next hrefused =>
        rw [if_neg hrefused]
        exact hsame hends
  · intro hgone hpauses
    refine hsame (hsafe.isClean_of_pausing hgone hpauses)
  · intro hgone
    by_cases hentered : w.standing.hasEntered = true
    · rcases hsafe.gone hgone hentered with hclean | hleads
      · exact Or.inl (hsame fun _ => hclean)
      · exact Or.inr (happlied hentered hleads)
    · exact Or.inl (hsame fun h => absurd h hentered)

namespace Example

def failure : List Move :=
  [answer, goOn, .refer, .join, goOn, answer, answer, answer, goOn, goOn, answer,
    .call (.failed (.other "full")), answer, goOn, goOn]

end Example

theorem failed_write_is_undone : ∃ s w, Example.start.alone Example.write Example.failure = some s
    ∧ s.workers = [w] ∧ w.result?.any (fun result => !Example.write.accepts result) = true
    ∧ IsAsBefore Example.start s := by
  have hends : (Example.start.alone Example.write Example.failure).any (fun s => s.workers.any
      fun w => w.result?.any fun result => !Example.write.accepts result) = true := by
    decide +kernel
  obtain ⟨s, hs, hworkers⟩ := (Option.any_eq_true _ _).1 hends
  obtain ⟨w, hw, hatomic, -⟩ :=
    batch_is_atomic Example.isProper_zones Example.mayFail_of_isRestore rfl hs
  rw [hw] at hworkers
  have hrefused : w.result?.any (fun result => !Example.write.accepts result) = true := by
    simpa using hworkers
  obtain ⟨result, hresult, hnot⟩ := (Option.any_eq_true _ _).1 hrefused
  have hsame := hatomic result hresult
  rw [if_neg (by simpa using hnot)] at hsame
  exact ⟨s, w, hs, hw, hrefused, hsame⟩

end Traffic

end ZoneKeeper
