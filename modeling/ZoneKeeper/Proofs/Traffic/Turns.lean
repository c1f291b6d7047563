import ZoneKeeper.Proofs.Traffic.Accord

namespace ZoneKeeper

theorem Standing.leave_congr {v : Standing} {share share' : Share}
    (h : v.holdsLock = true → share = share') : v.leave share = v.leave share' := by
  unfold leave
  split
  · next hheld => rw [h hheld]
  · rfl

theorem Standing.holdsLock_leave (v : Standing) (share : Share) :
    (v.leave share).holdsLock = v.holdsLock :=
  (v.continues_leave share).holdsLock

namespace Worker

variable {L : Law} {w : Worker}

theorem IsSafe.advance (h : w.IsSafe L) (hgone : w.isGone = false)
    {rest : EngineProgram (Except Error Reply)} {v : Standing}
    (hrest : Safe (L.terms w.request) rest v (L.ends w.request))
    (htimed : v.isTimed = w.standing.isTimed) (hinside : v.holdsLock = true → v.hasEntered = true) :
    ({ w with program := rest, standing := v } : Worker).IsSafe L where
  program := fun _ => hrest
  fallback := fun other hother => ⟨htimed.trans (h.fallback other hother).1,
    (h.fallback other hother).2⟩
  gone := fun h => absurd (hgone.symm.trans h) Bool.false_ne_true
  inside := hinside

theorem IsSafe.ends (h : w.IsSafe L) {result : Except Error Reply}
    (hresult : w.result? = some result) : L.ends w.request result w.standing := by
  unfold result? at hresult
  split at hresult
  · next hprogram =>
      split at hresult
      · cases hresult
      · next hgone =>
          obtain rfl := Option.some.inj hresult
          have hsafe := h.program (by simpa using hgone)
          rw [hprogram] at hsafe
          exact hsafe
  · cases hresult

theorem IsSafe.isClean_of_waiting (h : w.IsSafe L) (hgone : w.isGone = false)
    (hwaits : w.isWaiting = true) (hexposed : w.standing.IsExposed) : w.standing.IsClean := by
  have hsafe := h.program hgone
  unfold isWaiting at hwaits
  split at hwaits
  · next hprogram =>
      rw [hprogram] at hsafe
      exact hsafe.2.2.2.1 hexposed
  · next hprogram =>
      rw [hprogram] at hsafe
      exact fun hentered => absurd (hsafe.2.2.1.symm.trans hentered) Bool.false_ne_true
  · next hprogram =>
      rw [hprogram] at hsafe
      exact hsafe.1
  · cases hwaits

end Worker

namespace Traffic

variable {L : Law} {settings : EngineSettings} {first : Shares} {s s' : Traffic} {who : Nat}
  {w w' : Worker}

theorem giveBack_eq (s : Traffic) (who : Nat) (domain : String) : ∃ locks,
    s.giveBack who domain = { s with locks := locks } ∧ (s.locks.IsSound → locks.IsSound)
      ∧ ∀ other name, other ≠ who → s.locks.isHolder other name = true →
        locks.isHolder other name = true := by
  unfold giveBack
  split
  · next ref href =>
      refine ⟨_, rfl, fun hs => hs.release ref, fun other name hother h => ?_⟩
      exact Locks.isHolder_release h fun heq => hother ((Locks.mem_of_ref? href).2.1 ▸ heq).symm
  · exact ⟨s.locks, rfl, id, fun _ _ _ h => h⟩

namespace Accord

theorem turn_of_keep (h : Accord L settings first s) (locks : Locks) (order : List Nat)
    (hsound : locks.IsSound)
    (hothers : ∀ other name, other ≠ who → s.locks.isHolder other name = true →
      locks.isHolder other name = true)
    (hrequest : w'.request = w.request) (hsafe : w'.IsSafe L)
    (hholds : w'.standing.holdsLock = true → locks.isHolder who w.domain = true
      ∧ w'.standing.left = s.share w.domain)
    (hreorders : Reorders s ({ s with locks := locks, order := order }.keep who w') who w w') :
    Turn L s ({ s with locks := locks, order := order }.keep who w') who w w' where
  settings := rfl
  mayFail := rfl
  workers := rfl
  request := hrequest
  safe := hsafe
  isSound := hsound
  others := hothers
  holds := hholds
  shares := fun _ _ => rfl
  sees := h.sees
  reorders := hreorders

theorem turn_of_keeps (h : Accord L settings first s) (hw : s.workers[who]? = some w)
    (hrequest : w'.request = w.request) (hsafe : w'.IsSafe L)
    (hheld : w'.standing.holdsLock = w.standing.holdsLock)
    (hentered : w'.standing.hasEntered = w.standing.hasEntered)
    (hfound : w'.standing.found = w.standing.found)
    (hleft : w'.standing.left = w.standing.left) : Turn L s (s.keep who w') who w w' := by
  have hholds : w.standing.holdsLock = true → w'.standing.left = s.share w.domain :=
    fun hin => hleft.trans (h.holds who w hw hin).2
  refine h.turn_of_keep s.locks s.order h.isSound (fun _ _ _ h => h)
    hrequest hsafe (fun hin => ⟨(h.holds who w hw (hheld ▸ hin)).1, hholds (hheld ▸ hin)⟩) ?_
  refine .stays rfl hentered hfound (fun hin => hheld ▸ hin) ?_
  split
  · next hin => exact hholds hin
  · exact hleft

theorem turn_of_call (h : Accord L settings first s) (hw : s.workers[who]? = some w)
    (hgone : w.isGone = false) {c : StoreCall}
    {next : c.Answer → EngineProgram (Except Error Reply)} {o : Outcome}
    (hprogram : w.program = .act (.call c) next) (hfor : o.isFor s.mayFail c = true) :
    ∃ w', Turn L s (s.afterCall who w c next o) who w w' := by
  have hall := h.safe who w hw
  have hsafe := hall.program hgone
  rw [hprogram] at hsafe
  obtain ⟨hdomain, hallows, hkeyed, -, hheld, hnext⟩ := hsafe
  replace hdomain : c.domain? = some w.domain := hdomain
  obtain ⟨hanswer, hzone⟩ := o.call_only hdomain s.zones
  have hleft (hin : w.standing.holdsLock = true) : w.standing.left = s.share w.domain :=
    (h.holds who w hw hin).2
  let v := (w.standing.record o).leave
    ⟨(o.call c s.zones).2.zone? w.domain, (s.share w.domain).feed⟩
  have hcontinues : w.standing.Continues v :=
    (w.standing.continues_record o).trans (Standing.continues_leave _ _)
  have hrest : Safe (L.terms w.request) (next (o.call c s.zones).1) v (L.ends w.request) := by
    have hstep := hnext (s.zones.zone? w.domain) o (h.sees w.domain)
      (fun hin => by rw [hleft hin]; rfl) (h.mayFail ▸ hfor)
    have hsame : v = (w.standing.record o).leave
        ⟨(o.call c (.only w.domain (s.zones.zone? w.domain))).2.zone? w.domain,
          w.standing.left.feed⟩ := by
      refine Standing.leave_congr fun hin => ?_
      rw [(w.standing.continues_record o).holdsLock] at hin
      rw [hzone, hleft hin]
    rw [hsame, hanswer]
    exact hstep
  have hshares (domain : String) (hother : domain ≠ w.domain) :
      (s.afterCall who w c next o).share domain = s.share domain := by
    change (s.scene.afterCall c o).share domain = s.share domain
    rw [Scene.share_afterCall hdomain, Function.update_of_ne hother]
    rfl
  have hown : (s.afterCall who w c next o).share w.domain
      = ⟨(o.call c s.zones).2.zone? w.domain, (s.share w.domain).feed⟩ := rfl
  have hread (hout : w.standing.holdsLock = false) : (o.call c s.zones).2 = s.zones := by
    have hisRead : c.isRead = true := by
      rcases hheld with hin | ⟨hisRead, -⟩
      · exact absurd (hout.symm.trans hin) Bool.false_ne_true
      · exact hisRead
    cases o with
    | carriedOut now => exact Zones.call_of_isRead hisRead
    | failed e => rfl
  refine ⟨{ w with program := next (o.call c s.zones).1, standing := v }, rfl, rfl, rfl, rfl,
    hall.advance hgone hrest hcontinues.isTimed ?_, h.isSound, fun _ _ _ h => h, ?_, ?_, ?_, ?_⟩
  · intro hin
    rw [hcontinues.hasEntered]
    exact hall.inside (hcontinues.holdsLock ▸ hin)
  · intro hin
    refine ⟨(h.holds who w hw (hcontinues.holdsLock ▸ hin)).1, ?_⟩
    rw [hown]
    exact Standing.left_leave ((w.standing.record o).holdsLock_leave _ ▸ hin) _
  · rintro domain (hother | hout)
    · exact hshares domain hother
    · by_cases hother : domain = w.domain
      · rw [hother, hown, hread hout]
        rfl
      · exact hshares domain hother
  · change ∀ domain, L.sees domain ((o.call c s.zones).2.zone? domain)
    cases o with
    | carriedOut now => exact L.isKept now hallows hkeyed h.sees
    | failed e => exact h.sees
  · refine .stays rfl hcontinues.hasEntered hcontinues.found
      (fun hin => hcontinues.holdsLock ▸ hin) ?_
    split
    · next hin =>
        exact Standing.left_leave ((w.standing.continues_record o).holdsLock.trans hin) _
    · next hin =>
        change v.left = w.standing.left
        have hrecord : ¬ (w.standing.record o).holdsLock = true := by
          rw [(w.standing.continues_record o).holdsLock]
          exact hin
        simp only [v, Standing.leave, if_neg hrecord, Standing.left_record]

theorem turn_of_announce (h : Accord L settings first s) (hw : s.workers[who]? = some w)
    (hgone : w.isGone = false) {change : ZoneChange}
    {next : Unit → EngineProgram (Except Error Reply)}
    (hprogram : w.program = .act (.announce change) next) :
    ∃ w', Turn L s (s.afterAnnouncing who w change (next ())) who w w' := by
  have hall := h.safe who w hw
  have hsafe := hall.program hgone
  rw [hprogram] at hsafe
  obtain ⟨hdomain, hin, hnext⟩ := hsafe
  replace hdomain : change.domain = w.domain := hdomain
  obtain ⟨hholder, hleft⟩ := h.holds who w hw hin
  let share : Share := ⟨s.zones.zone? w.domain, (s.share w.domain).feed ++ [change]⟩
  have hshare : (s.afterAnnouncing who w change (next ())).share
      = Function.update s.share w.domain share := by
    rw [← hdomain]
    exact hdomain ▸ s.scene.share_afterAnnouncing change
  have hown : (s.afterAnnouncing who w change (next ())).share w.domain = share := by
    rw [hshare, Function.update_self]
  have hstanding : Traffic.share { s with feed := s.feed ++ [change] } w.domain = share := hown
  have hcontinues := w.standing.continues_leave share
  refine ⟨{ w with program := next (), standing := w.standing.leave share }, rfl, rfl, ?_, rfl,
    hall.advance hgone ?_ hcontinues.isTimed fun _ => ?_, h.isSound, fun _ _ _ h => h,
    fun _ => ⟨hholder, ?_⟩, ?_, h.sees, ?_⟩
  · rw [afterAnnouncing, hstanding]
    rfl
  · rw [hleft] at hnext
    exact hnext
  · exact hcontinues.hasEntered.trans (hall.inside hin)
  · exact (Standing.left_leave hin share).trans hown.symm
  · rintro domain (hother | hout)
    · rw [hshare, Function.update_of_ne hother]
    · exact absurd (hout.symm.trans hin) Bool.false_ne_true
  · refine .stays rfl hcontinues.hasEntered hcontinues.found (fun _ => hin) ?_
    rw [if_pos hin, hown]
    exact Standing.left_leave hin share

theorem turn_of_withdraw (h : Accord L settings first s)
    {locks : Locks} (hsound : locks.IsSound)
    (hothers : ∀ other name, other ≠ who → s.locks.isHolder other name = true →
      locks.isHolder other name = true)
    (hrequest : w'.request = w.request) (hsafe : w'.IsSafe L) (hclean : w.standing.IsClean)
    (hentered : w'.standing.hasEntered = false) (hfree : w'.standing.holdsLock = false) :
    Turn L s ({ s with locks := locks, order := s.order.filter (· != who) }.keep who w')
      who w w' :=
  h.turn_of_keep _ _ hsound hothers hrequest hsafe
    (fun hin => absurd (hfree.symm.trans hin) Bool.false_ne_true)
    (.withdraws rfl hclean rfl hentered hfree)

theorem turn_of_moved (h : Accord L settings first s) (hw : s.workers[who]? = some w)
    (hgone : w.isGone = false) (hmoved : Moved s who w s') : ∃ w', Turn L s s' who w w' := by
  have hall := h.safe who w hw
  have hsafe := hall.program hgone
  have hsame : s.workers.set who w = s.workers := by
    obtain ⟨hlt, rfl⟩ := List.getElem?_eq_some_iff.1 hw
    exact List.set_getElem_self hlt
  cases hmoved with
  | call hprogram hfor => exact h.turn_of_call hw hgone hprogram hfor
  | @readClock next now hprogram =>
      rw [hprogram] at hsafe
      have hkeeps := w.standing.keeps_record (.carriedOut now)
      refine ⟨_, h.turn_of_keeps hw rfl (hall.advance hgone (hsafe.2 now) hkeeps.isTimed ?_)
        hkeeps.holdsLock hkeeps.hasEntered hkeeps.found hkeeps.left⟩
      intro hin
      rw [hkeeps.hasEntered]
      exact hall.inside (hkeeps.holdsLock ▸ hin)
  | @lock domain next hprogram hlock =>
      rw [hprogram] at hsafe
      obtain ⟨rfl, hfree, hout, hnext⟩ := hsafe
      exact ⟨_, h.turn_of_keep _ _ h.isSound (fun _ _ _ h => h) rfl
        (hall.advance hgone (hnext (s.share w.domain) (h.sees w.domain)) rfl fun _ => rfl)
        (fun _ => ⟨hlock, rfl⟩) (.enters rfl hout rfl hfree rfl rfl rfl rfl)⟩
  | @unlock domain next hprogram =>
      rw [hprogram] at hsafe
      obtain ⟨locks, hback, hsound, hothers⟩ := s.giveBack_eq who domain
      rw [hback]
      refine ⟨_, h.turn_of_keep locks s.order (hsound h.isSound) hothers rfl
        (hall.advance hgone hsafe.2 rfl fun hin => absurd hin Bool.false_ne_true)
        (fun hin => absurd hin Bool.false_ne_true)
        (.stays rfl rfl rfl (fun hin => absurd hin Bool.false_ne_true) ?_)⟩
      split
      · next hin => exact (h.holds who w hw hin).2
      · rfl
  | wait hprogram =>
      rw [hprogram] at hsafe
      exact ⟨_, h.turn_of_keeps hw rfl (hall.advance hgone hsafe.2 rfl hall.inside) rfl rfl rfl rfl⟩
  | @startTimer milliseconds next hprogram =>
      rw [hprogram] at hsafe
      obtain ⟨hfree, hclean, hnext, hrest⟩ := hsafe
      refine ⟨{ w with
          fallback := some (next true)
          program := next false
          standing := w.standing.begin },
        h.turn_of_withdraw h.isSound (fun _ _ _ h => h) rfl ⟨fun _ => hnext, ?_, ?_, ?_⟩ hclean
          rfl hfree⟩
      · rintro _ ⟨⟩
        exact ⟨rfl, hrest⟩
      · exact fun hlater => absurd (hgone.symm.trans hlater) Bool.false_ne_true
      · exact fun hin => absurd (hfree.symm.trans hin) Bool.false_ne_true
  | @stopTimer next hprogram =>
      rw [hprogram] at hsafe
      refine ⟨{ w with
          fallback := none
          program := next ()
          standing := { w.standing with isTimed := false } },
        h.turn_of_keeps hw rfl ⟨fun _ => hsafe, ?_, ?_, hall.inside⟩ rfl rfl rfl rfl⟩
      · rintro _ ⟨⟩
      · exact fun hlater => absurd (hgone.symm.trans hlater) Bool.false_ne_true
  | beginCommit hprogram =>
      rw [hprogram] at hsafe
      exact ⟨_, h.turn_of_keeps hw rfl (hall.advance hgone hsafe rfl hall.inside) rfl rfl rfl rfl⟩
  | @endCommit next hprogram =>
      rw [hprogram] at hsafe
      obtain ⟨hfree, hsettles, hnext⟩ := hsafe
      refine ⟨{ w with
          isGone := w.isDeserted
          program := next ()
          standing := { w.standing with isCommitting := false } },
        h.turn_of_keeps hw rfl ⟨fun _ => hnext, hall.fallback, fun _ _ => hsettles, hall.inside⟩
          rfl rfl rfl rfl⟩
  | announce hprogram => exact h.turn_of_announce hw hgone hprogram
  | @refer domain next hprogram hnew =>
      refine ⟨w, ?_⟩
      have hturn := h.turn_of_keep _ s.order (h.isSound.refer who domain)
        (fun _ _ _ h => Locks.isHolder_refer h who domain) rfl hall
        (fun hin => ⟨Locks.isHolder_refer (h.holds who w hw hin).1 who domain,
          (h.holds who w hw hin).2⟩)
        (.stays rfl rfl rfl id (by
          split
          · next hin => exact (h.holds who w hw hin).2
          · rfl))
      simpa only [keep, hsame] using hturn
  | @join domain next ref hprogram href hnew =>
      refine ⟨w, ?_⟩
      have hturn := h.turn_of_keep _ s.order (h.isSound.join ref)
        (fun _ _ _ h => Locks.isHolder_join h ref) rfl hall
        (fun hin => ⟨Locks.isHolder_join (h.holds who w hw hin).1 ref, (h.holds who w hw hin).2⟩)
        (.stays rfl rfl rfl id (by
          split
          · next hin => exact (h.holds who w hw hin).2
          · rfl))
      simpa only [keep, hsame] using hturn
  | @timeUp rest hfallback hwaits =>
      obtain ⟨htimed, hrest⟩ := hall.fallback rest hfallback
      have hclean := hall.isClean_of_waiting hgone hwaits (Or.inr htimed)
      refine ⟨{ w with
          fallback := none
          program := rest
          standing := w.standing.expire },
        h.turn_of_withdraw h.isSound (fun _ _ _ h => h) rfl
          ⟨fun _ => hrest w.standing hclean, ?_, ?_, ?_⟩ hclean rfl rfl⟩
      · rintro _ ⟨⟩
      · exact fun hlater => absurd (hgone.symm.trans hlater) Bool.false_ne_true
      · exact fun hin => absurd hin Bool.false_ne_true
  | desertCommit hcommits =>
      exact ⟨{ w with isDeserted := true }, h.turn_of_keeps hw rfl
        ⟨hall.program, hall.fallback, hall.gone, hall.inside⟩ rfl rfl rfl rfl⟩
  | giveUp hidle hwaits =>
      have hclean := hall.isClean_of_waiting hgone hwaits (Or.inl hidle)
      refine ⟨{ w with
          isGone := true
          standing := { w.standing with holdsLock := false, hasEntered := false } },
        h.turn_of_withdraw (Locks.isSound_foldl_release h.isSound _) ?_ rfl
          ⟨?_, hall.fallback, ?_, ?_⟩ hclean rfl rfl⟩
      · intro other name hother hholder
        refine Locks.isHolder_foldl_release hholder fun ref href heq => hother ?_
        have hwho : ref.who = who := by simpa using (List.mem_filter.1 href).2
        exact heq.symm.trans hwho
      · exact fun hlater => absurd hlater.symm Bool.false_ne_true
      · exact fun _ hentered => absurd hentered Bool.false_ne_true
      · exact fun hin => absurd hin Bool.false_ne_true

theorem moved (h : Accord L settings first s) (hw : s.workers[who]? = some w)
    (hgone : w.isGone = false) (hmoved : Moved s who w s') : Accord L settings first s' := by
  obtain ⟨w', hturn⟩ := h.turn_of_moved hw hgone hmoved
  exact h.turn hw hturn

theorem arrive (h : Accord L settings first s) {r : Request} (hr : L.IsKeptBy settings r) :
    Accord L settings first (s.arrive r) := by
  have hold (i : Nat) (hi : i ∈ s.order) : (s.arrive r).workers[i]? = s.workers[i]? :=
    List.getElem?_append_left (h.present i hi)
  refine ⟨h.agreed, h.mayFail, h.isSound, h.sees, ?_, ?_, h.nodup, ?_, ?_, ?_, ?_⟩
  · intro i u hi
    rcases arrive_cases hi with hi | ⟨-, rfl⟩
    · exact h.safe i u hi
    · refine ⟨fun _ => ?_, ?_, ?_, ?_⟩
      · rw [h.agreed]
        exact hr
      · rintro _ ⟨⟩
      · exact fun hgone => absurd hgone Bool.false_ne_true
      · exact fun hin => absurd hin Bool.false_ne_true
  · intro i u hi hin
    rcases arrive_cases hi with hi | ⟨-, rfl⟩
    · exact h.holds i u hi hin
    · exact absurd hin Bool.false_ne_true
  · intro i u hi
    rcases arrive_cases hi with hi | ⟨rfl, rfl⟩
    · exact h.entered i u hi
    · exact ⟨fun hmem => absurd (h.present _ hmem) (Nat.lt_irrefl _),
        fun hentered => absurd hentered Bool.false_ne_true⟩
  · intro i hi
    rw [Traffic.arrive, List.length_append]
    exact Nat.lt_add_right _ (h.present i hi)
  · refine h.last.imp_of_mem fun hi hj hij u w hu hw => hij u w ?_ ?_
    · exact hold _ hi ▸ hu
    · exact hold _ hj ▸ hw
  · have hlinks : (s.arrive r).links = s.links :=
      List.filterMap_congr fun i hi => by rw [link?, link?, hold i hi]
    rw [hlinks]
    exact h.linked

end Accord

theorem accord_start {zones : Zones} {feed : List ZoneChange}
    (hsees : ∀ domain, L.sees domain (zones.zone? domain)) :
    Accord L settings (start settings L.mayFail zones feed).share
      (start settings L.mayFail zones feed) := by
  refine ⟨rfl, rfl, Locks.isSound_empty, hsees, ?_, ?_, List.nodup_nil, ?_, ?_, List.Pairwise.nil,
    rfl⟩
  · intro who w hw
    cases hw
  · intro who w hw
    cases hw
  · intro who w hw
    cases hw
  · intro who hmem
    cases hmem

theorem accord_of_run {zones : Zones} {feed : List ZoneChange} {events : List Event}
    (h : (start settings L.mayFail zones feed).run events = some s)
    (hsees : ∀ domain, L.sees domain (zones.zone? domain))
    (hlaw : ∀ r, .arrive r ∈ events → L.IsKeptBy settings r) :
    Accord L settings (start settings L.mayFail zones feed).share s :=
  run_induction h (accord_start hsees) (fun _ r hr hs => hs.arrive (hlaw r hr))
    fun _ _ _ _ _ _ hs hw hgone hmoved => hs.moved hw hgone hmoved

theorem request_mem_of_run {zones : Zones} {feed : List ZoneChange} {events : List Event}
    (h : (start settings L.mayFail zones feed).run events = some s)
    (hsees : ∀ domain, L.sees domain (zones.zone? domain))
    (hlaw : ∀ r, .arrive r ∈ events → L.IsKeptBy settings r) :
    ∀ w ∈ s.workers, .arrive w.request ∈ events := by
  refine (run_induction (P := fun mid =>
      Accord L settings (start settings L.mayFail zones feed).share mid
        ∧ ∀ w ∈ mid.workers, Event.arrive w.request ∈ events)
    h ⟨accord_start hsees, by rintro _ ⟨⟩⟩ ?_ ?_).2
  · rintro mid r hr ⟨haccord, hmem⟩
    refine ⟨haccord.arrive (hlaw r hr), fun w hw => ?_⟩
    rcases List.mem_append.1 hw with hw | hw
    · exact hmem w hw
    · obtain rfl := List.mem_singleton.1 hw
      exact hr
  · rintro mid mid' who m w - ⟨haccord, hmem⟩ hw hgone hmoved
    obtain ⟨w', hturn⟩ := haccord.turn_of_moved hw hgone hmoved
    refine ⟨haccord.turn hw hturn, fun u hu => ?_⟩
    rw [hturn.workers] at hu
    rcases List.mem_or_eq_of_mem_set hu with hu | rfl
    · exact hmem u hu
    · rw [hturn.request]
      exact hmem w (List.mem_of_getElem? hw)

end Traffic

end ZoneKeeper
