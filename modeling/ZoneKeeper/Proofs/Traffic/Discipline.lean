import ZoneKeeper.Proofs.Traffic.Basic

namespace ZoneKeeper

namespace Standing

def IsClean (v : Standing) : Prop := v.hasEntered = true → v.left = v.found

def IsExposed (v : Standing) : Prop := v.isCommitting = false ∨ v.isTimed = true

structure Continues (v v' : Standing) : Prop where
  holdsLock : v'.holdsLock = v.holdsLock
  hasEntered : v'.hasEntered = v.hasEntered
  isCommitting : v'.isCommitting = v.isCommitting
  isTimed : v'.isTimed = v.isTimed
  hasTimedOut : v'.hasTimedOut = v.hasTimedOut
  found : v'.found = v.found
  attempts : v'.attempts = v.attempts

theorem continues_refl (v : Standing) : v.Continues v := ⟨rfl, rfl, rfl, rfl, rfl, rfl, rfl⟩

theorem Continues.trans {v v' v'' : Standing} (h : v.Continues v') (h' : v'.Continues v'') :
    v.Continues v'' where
  holdsLock := h'.holdsLock.trans h.holdsLock
  hasEntered := h'.hasEntered.trans h.hasEntered
  isCommitting := h'.isCommitting.trans h.isCommitting
  isTimed := h'.isTimed.trans h.isTimed
  hasTimedOut := h'.hasTimedOut.trans h.hasTimedOut
  found := h'.found.trans h.found
  attempts := h'.attempts.trans h.attempts

theorem Continues.isExposed_iff {v v' : Standing} (h : v.Continues v') :
    v'.IsExposed ↔ v.IsExposed := by
  rw [IsExposed, IsExposed, h.isCommitting, h.isTimed]

theorem record_eq (v : Standing) (o : Outcome) :
    ∃ lookups outcomes, v.record o = { v with lookups := lookups, outcomes := outcomes } := by
  unfold record
  split
  · exact ⟨_, _, rfl⟩
  · exact ⟨_, _, rfl⟩

theorem continues_record (v : Standing) (o : Outcome) : v.Continues (v.record o) := by
  obtain ⟨lookups, outcomes, h⟩ := v.record_eq o
  rw [h]
  exact ⟨rfl, rfl, rfl, rfl, rfl, rfl, rfl⟩

theorem continues_leave (v : Standing) (share : Share) : v.Continues (v.leave share) := by
  unfold leave
  split
  · exact ⟨rfl, rfl, rfl, rfl, rfl, rfl, rfl⟩
  · exact v.continues_refl

theorem left_record (v : Standing) (o : Outcome) : (v.record o).left = v.left := by
  obtain ⟨_, _, h⟩ := v.record_eq o
  rw [h]

theorem left_leave {v : Standing} (h : v.holdsLock = true) (share : Share) :
    (v.leave share).left = share := by
  rw [leave, if_pos h]

structure Keeps (v v' : Standing) : Prop extends v.Continues v' where
  left : v'.left = v.left

theorem keeps_refl (v : Standing) : v.Keeps v := ⟨v.continues_refl, rfl⟩

theorem Keeps.trans {v v' v'' : Standing} (h : v.Keeps v') (h' : v'.Keeps v'') : v.Keeps v'' :=
  ⟨h.toContinues.trans h'.toContinues, h'.left.trans h.left⟩

theorem Keeps.isClean {v v' : Standing} (h : v.Keeps v') (hclean : v.IsClean) : v'.IsClean := by
  intro hentered
  rw [h.left, h.found]
  exact hclean (h.hasEntered ▸ hentered)

theorem keeps_record (v : Standing) (o : Outcome) : v.Keeps (v.record o) :=
  ⟨v.continues_record o, v.left_record o⟩

end Standing

structure Regime where
  mayFail : StoreCall → Bool
  allows : StoreCall → Prop
  sees : String → Option Zone → Prop
  isNamed : ∀ {domain zone}, sees domain (some zone) → zone.domain.name = domain
  isKeyed : ∀ {domain zone}, sees domain (some zone) → zone.IsKeyed
  isKept : ∀ {zones : Zones} {c : StoreCall} (now : Instant), allows c → c.IsKeyed →
    (∀ domain, sees domain (zones.zone? domain)) →
    ∀ domain, sees domain ((zones.call now c).2.zone? domain)

structure Terms extends Regime where
  domain : String
  settles : Standing → Prop

def Safe {α : Type} (t : Terms) : EngineProgram α → Standing → (α → Standing → Prop) → Prop
  | .done a, v, post => post a v
  | .act (.call c) next, v, post =>
      c.domain? = some t.domain ∧ t.allows c ∧ c.IsKeyed ∧ (v.IsExposed → v.IsClean)
        ∧ (v.holdsLock = true ∨ (c.isRead = true ∧ v.attempts = 0))
        ∧ ∀ zone o, t.sees t.domain zone → (v.holdsLock = true → zone = v.left.zone) →
          o.isFor t.mayFail c = true →
          Safe t (next (o.call c (.only t.domain zone)).1)
            ((v.record o).leave ⟨(o.call c (.only t.domain zone)).2.zone? t.domain, v.left.feed⟩)
            post
  | .act .readClock next, v, post =>
      (v.holdsLock = true ∨ v.attempts = 0)
        ∧ ∀ now, Safe t (next now) (v.record (.carriedOut now)) post
  | .act (.lock domain) next, v, post =>
      domain = t.domain ∧ v.holdsLock = false ∧ v.hasEntered = false
        ∧ ∀ share, t.sees t.domain share.zone → Safe t (next ()) (v.enter share) post
  | .act (.unlock domain) next, v, post => domain = t.domain ∧ Safe t (next ()) v.release post
  | .act (.wait _) next, v, post => v.IsClean ∧ Safe t (next ()) v post
  | .act (.startTimer _) next, v, post =>
      v.holdsLock = false ∧ v.IsClean ∧ Safe t (next false) v.begin post
        ∧ ∀ v' : Standing, v'.IsClean → Safe t (next true) v'.expire post
  | .act .stopTimer next, v, post => Safe t (next ()) { v with isTimed := false } post
  | .act .beginCommit next, v, post => Safe t (next ()) { v with isCommitting := true } post
  | .act .endCommit next, v, post =>
      v.holdsLock = false ∧ t.settles { v with isCommitting := false }
        ∧ Safe t (next ()) { v with isCommitting := false } post
  | .act (.announce change) next, v, post =>
      change.domain = t.domain ∧ v.holdsLock = true
        ∧ Safe t (next ()) (v.leave ⟨v.left.zone, v.left.feed ++ [change]⟩) post
  | .act (.push _) _, _, _ => False

namespace Safe

variable {α β : Type} {t : Terms}

theorem bind_iff {p : EngineProgram α} {f : α → EngineProgram β} {v : Standing}
    {post : β → Standing → Prop} :
    Safe t (p >>= f) v post ↔ Safe t p v fun a v => Safe t (f a) v post := by
  change Safe t (p.bind f) v post ↔ _
  induction p generalizing v with
  | done a => rfl
  | act a next ih =>
      cases a with
      | call c =>
          refine and_congr_right' (and_congr_right' (and_congr_right' (and_congr_right'
            (and_congr_right' ?_))))
          exact forall_congr' fun zone => forall_congr' fun o => imp_congr_right fun _ =>
            imp_congr_right fun _ => imp_congr_right fun _ => ih _
      | readClock => exact and_congr_right' (forall_congr' fun now => ih now)
      | lock domain =>
          exact and_congr_right' (and_congr_right' (and_congr_right'
            (forall_congr' fun share => imp_congr_right fun _ => ih ())))
      | unlock domain => exact and_congr_right' (ih ())
      | wait milliseconds => exact and_congr_right' (ih ())
      | startTimer milliseconds =>
          exact and_congr_right' (and_congr_right' (and_congr (ih false)
            (forall_congr' fun v' => imp_congr_right fun _ => ih true)))
      | stopTimer => exact ih ()
      | beginCommit => exact ih ()
      | endCommit => exact and_congr_right' (and_congr_right' (ih ()))
      | announce change => exact and_congr_right' (and_congr_right' (ih ()))
      | push change => exact Iff.rfl

theorem mono {p : EngineProgram α} {v : Standing} {post post' : α → Standing → Prop}
    (h : Safe t p v post) (himp : ∀ a v, post a v → post' a v) : Safe t p v post' := by
  induction p generalizing v with
  | done a => exact himp a v h
  | act a next ih =>
      cases a with
      | call c =>
          obtain ⟨hdomain, hallows, hkeyed, hclean, hheld, hnext⟩ := h
          exact ⟨hdomain, hallows, hkeyed, hclean, hheld,
            fun zone o hsees hleft hfor => ih _ (hnext zone o hsees hleft hfor)⟩
      | readClock => exact ⟨h.1, fun now => ih _ (h.2 now)⟩
      | lock domain =>
          obtain ⟨hdomain, hfree, hout, hnext⟩ := h
          exact ⟨hdomain, hfree, hout, fun share hsees => ih _ (hnext share hsees)⟩
      | unlock domain => exact ⟨h.1, ih _ h.2⟩
      | wait milliseconds => exact ⟨h.1, ih _ h.2⟩
      | startTimer milliseconds =>
          obtain ⟨hfree, hclean, hnext, hrest⟩ := h
          exact ⟨hfree, hclean, ih _ hnext, fun v' hv' => ih _ (hrest v' hv')⟩
      | stopTimer => exact ih _ h
      | beginCommit => exact ih _ h
      | endCommit => exact ⟨h.1, h.2.1, ih _ h.2.2⟩
      | announce change => exact ⟨h.1, h.2.1, ih _ h.2.2⟩
      | push change => exact h

theorem bind {p : EngineProgram α} {f : α → EngineProgram β} {v : Standing}
    {P : α → Standing → Prop} {post : β → Standing → Prop} (h : Safe t p v P)
    (hnext : ∀ a v, P a v → Safe t (f a) v post) : Safe t (p >>= f) v post :=
  bind_iff.2 (h.mono hnext)

theorem engine_bind {p : Engine α} {f : α → Engine β} {v : Standing}
    {P : Except Error α → Standing → Prop} {post : Except Error β → Standing → Prop}
    (h : Safe t p.run v P) (hok : ∀ a v, P (.ok a) v → Safe t (f a).run v post)
    (herror : ∀ e v, P (.error e) v → post (.error e) v) : Safe t (p >>= f).run v post := by
  rw [ExceptT.run_bind]
  refine h.bind ?_
  rintro (e | a) v hv
  · exact herror e v hv
  · exact hok a v hv

theorem call_held {c : StoreCall} {v : Standing} {P : c.Answer → Standing → Prop}
    (hdomain : c.domain? = some t.domain) (hallows : t.allows c) (hkeyed : c.IsKeyed)
    (hclean : v.IsExposed → v.IsClean) (hheld : v.holdsLock = true)
    (hpost : t.sees t.domain v.left.zone → ∀ (o : Outcome) v', o.isFor t.mayFail c = true →
      v.Continues v' →
      v'.left = ⟨(o.call c (.only t.domain v.left.zone)).2.zone? t.domain, v.left.feed⟩ →
      P (o.call c (.only t.domain v.left.zone)).1 v') :
    Safe t (EngineProgram.call c) v P := by
  refine ⟨hdomain, hallows, hkeyed, hclean, Or.inl hheld, ?_⟩
  intro zone o hsees hzone hfor
  obtain rfl := hzone hheld
  refine hpost hsees o _ hfor ((v.continues_record o).trans (Standing.continues_leave _ _)) ?_
  exact Standing.left_leave ((v.continues_record o).holdsLock.trans hheld) _

theorem call_read {c : StoreCall} {v : Standing} {P : c.Answer → Standing → Prop}
    (hdomain : c.domain? = some t.domain) (hallows : t.allows c) (hread : c.isRead = true)
    (hclean : v.IsClean) (hheld : v.holdsLock = true)
    (hpost : t.sees t.domain v.left.zone → ∀ (o : Outcome) v', o.isFor t.mayFail c = true →
      v.Keeps v' → P (o.call c (.only t.domain v.left.zone)).1 v') :
    Safe t (EngineProgram.call c) v P := by
  refine call_held hdomain hallows (StoreCall.isKeyed_of_isRead hread) (fun _ => hclean) hheld ?_
  intro hsees o v' hfor hcontinues hleft
  refine hpost hsees o v' hfor ⟨hcontinues, ?_⟩
  rw [hleft]
  cases o with
  | carriedOut now =>
      simp only [Outcome.call]
      rw [Zones.call_of_isRead hread, Zones.zone?_only]
  | failed e => simp only [Outcome.call, Zones.zone?_only]

end Safe

structure Law extends Regime where
  settles : Request → Standing → Prop
  ends : Request → Except Error Reply → Standing → Prop

namespace Law

def terms (L : Law) (r : Request) : Terms :=
  { L.toRegime with
    domain := r.domainName
    settles := L.settles r }

def IsKeptBy (L : Law) (settings : EngineSettings) (r : Request) : Prop :=
  Safe (L.terms r) (Request.run settings r).run .fresh (L.ends r)

end Law

end ZoneKeeper
