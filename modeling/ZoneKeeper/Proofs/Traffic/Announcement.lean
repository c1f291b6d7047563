import ZoneKeeper.Proofs.Feed.Mirror
import ZoneKeeper.Proofs.Traffic.Regimes

namespace ZoneKeeper

namespace Traffic

variable {settings : EngineSettings} {first : Shares} {s : Traffic} {R : Regime}

theorem Accord.left_of_isOver (h : Accord (R.law settings) settings first s) {who : Nat}
    {w : Worker} (hw : s.workers[who]? = some w) (hover : w.isOver = true)
    (hentered : w.standing.hasEntered = true) :
    w.standing.left = w.standing.found
      ∨ w.request.Leads R settings w.standing.found w.standing.left := by
  have hsafe := h.safe who w hw
  rcases Bool.or_eq_true_iff.1 hover with hgone | hresult
  · exact hsafe.gone hgone hentered
  · obtain ⟨result, hresult⟩ := Option.isSome_iff_exists.1 hresult
    have hends : w.request.Ends R settings result w.standing := hsafe.ends hresult
    unfold Request.Ends at hends
    split at hends
    · exact Or.inr hends.2
    · exact Or.inl (hends hentered)

theorem Accord.exists_of_mem_links {L : Law} (h : Accord L settings first s) {l : Link}
    (hl : l ∈ s.links) : ∃ (who : Nat) (w : Worker), s.workers[who]? = some w
      ∧ w.standing.hasEntered = true ∧ w.link = l := by
  obtain ⟨who, hwho, hlink⟩ := List.mem_filterMap.1 hl
  obtain ⟨w, hw, hlink⟩ := Option.map_eq_some_iff.1 hlink
  exact ⟨who, w, hw, (h.entered who w hw).1 hwho, hlink⟩

/-- Once all requests are over, a mirror of the feed shows what is stored. Each accepted batch
announces the difference between the share of its domain that it found and the one that it left. -/
theorem feed_replays_to_store {mayFail : StoreCall → Bool} {events : List Event}
    (hrestores : ∀ c : StoreCall, c.isRestore = true → mayFail c = false)
    (h : (start settings mayFail Zones.empty []).run events = some s) :
    ((∀ w ∈ s.workers, w.isOver = true) → ∀ domain key,
        Mirror.ofFeed s.feed domain key = (s.zones.get? domain key).map Rrset.content)
      ∧ ∀ w ∈ s.workers, w.request.isBatch = true → ∀ result, w.result? = some result →
        w.request.accepts result = true →
          Share.Announces w.domain w.standing.found w.standing.left := by
  let R := Regime.free mayFail
  have haccord : Accord (R.law settings) settings (start settings mayFail Zones.empty []).share s :=
    accord_of_run (L := R.law settings) h (Regime.free_sees Zones.isProper_empty) fun r _ =>
      Request.keeps_law R (Regime.free_suitsBatches hrestores) settings r fun _ _ => trivial
  constructor
  · intro hover domain key
    have hmirrored : (s.share domain).IsMirrored := by
      refine haccord.linked.induction (P := fun _ share => share.IsMirrored)
        (fun _ => ⟨by rintro _ ⟨⟩, rfl⟩) ?_ domain
      intro l hl hfound
      obtain ⟨who, w, hw, hentered, rfl⟩ := haccord.exists_of_mem_links hl
      rcases haccord.left_of_isOver hw (hover w (List.mem_of_getElem? hw)) hentered with
        hleft | hleads
      · rw [show w.link.left = w.link.found from hleft]
        exact hfound
      · exact hleads.isMirrored hfound
    rw [Mirror.ofFeed_eq_shown]
    refine (congrFun hmirrored.shown key).trans ?_
    change (s.zones.zone? domain).bind (·.content key) = _
    rw [show s.zones.get? domain key = (s.zones.zone? domain).bind (·.rrsets.get? key) from rfl]
    cases s.zones.zone? domain <;> rfl
  · intro w hmem hbatch result hresult haccepted
    obtain ⟨who, hw⟩ := List.mem_iff_getElem?.1 hmem
    have hends : w.request.Ends R settings result w.standing :=
      (haccord.safe who w hw).ends hresult
    rw [Request.Ends, if_pos haccepted] at hends
    obtain ⟨zone, hsees, job, -, hdone⟩ := hends.2.isApplied hbatch
    have hname : zone.domain.name = w.domain := R.isNamed hsees
    exact hname ▸ hdone.announces

namespace Example

def created : List Event :=
  .arrive (create "alice") :: events 0 creating
    ++ .arrive createWww :: events 1 ([answer, goOn, .refer, .join, goOn, answer, answer]
      ++ [goOn, goOn, answer, goOn, goOn, goOn, goOn])
    ++ .arrive createWww :: events 2 [answer, goOn, .refer, .join, goOn, answer, answer, goOn, goOn]

end Example

theorem feed_replays_to_created : ∃ s,
    (start .default Example.mayFail Zones.empty []).run Example.created = some s
      ∧ s.feed.length = 1
      ∧ ∀ domain key, Mirror.ofFeed s.feed domain key
        = (s.zones.get? domain key).map Rrset.content := by
  have hends : ((start .default Example.mayFail Zones.empty []).run Example.created).any (fun s =>
      s.feed.length == 1 && s.workers.all Worker.isOver) = true := by
    decide +kernel
  obtain ⟨s, hs, h⟩ := (Option.any_eq_true _ _).1 hends
  simp only [Bool.and_eq_true, beq_iff_eq, List.all_eq_true] at h
  exact ⟨s, hs, h.1, (feed_replays_to_store Example.mayFail_of_isRestore hs).1 h.2⟩

end Traffic

end ZoneKeeper
