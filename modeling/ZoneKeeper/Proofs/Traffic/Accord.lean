import Mathlib.Data.List.Nodup
import ZoneKeeper.Proofs.Engine.Locks
import ZoneKeeper.Proofs.Traffic.Chain
import ZoneKeeper.Proofs.Traffic.Discipline
import ZoneKeeper.Proofs.Traffic.Scene

namespace ZoneKeeper

namespace Worker

structure IsSafe (L : Law) (w : Worker) : Prop where
  program : w.isGone = false →
    Safe (L.terms w.request) w.program w.standing (L.ends w.request)
  fallback : ∀ rest, w.fallback = some rest → w.standing.isTimed = true
    ∧ ∀ v : Standing, v.IsClean → Safe (L.terms w.request) rest v.expire (L.ends w.request)
  gone : w.isGone = true → w.standing.hasEntered = true → L.settles w.request w.standing
  inside : w.standing.holdsLock = true → w.standing.hasEntered = true

def link (w : Worker) : Link := ⟨w.domain, w.standing.found, w.standing.left⟩

end Worker

namespace Traffic

def link? (s : Traffic) (who : Nat) : Option Link := s.workers[who]?.map Worker.link

def links (s : Traffic) : List Link := s.order.filterMap s.link?

structure Accord (L : Law) (settings : EngineSettings) (first : Shares) (s : Traffic) : Prop where
  agreed : s.settings = settings
  mayFail : s.mayFail = L.mayFail
  isSound : s.locks.IsSound
  sees : ∀ domain, L.sees domain (s.zones.zone? domain)
  safe : ∀ (who : Nat) (w : Worker), s.workers[who]? = some w → w.IsSafe L
  holds : ∀ (who : Nat) (w : Worker), s.workers[who]? = some w → w.standing.holdsLock = true →
    s.locks.isHolder who w.domain = true ∧ w.standing.left = s.share w.domain
  nodup : s.order.Nodup
  entered : ∀ (who : Nat) (w : Worker), s.workers[who]? = some w →
    (who ∈ s.order ↔ w.standing.hasEntered = true)
  present : ∀ who ∈ s.order, who < s.workers.length
  last : s.order.Pairwise fun i j => ∀ u w : Worker, s.workers[i]? = some u →
    s.workers[j]? = some w → u.standing.holdsLock = true → w.domain ≠ u.domain
  linked : Linked first s.links s.share

inductive Reorders (s s' : Traffic) (who : Nat) (w w' : Worker) : Prop where
  | stays (horder : s'.order = s.order)
      (hentered : w'.standing.hasEntered = w.standing.hasEntered)
      (hfound : w'.standing.found = w.standing.found)
      (hheld : w'.standing.holdsLock = true → w.standing.holdsLock = true)
      (hleft : w'.standing.left
        = if w.standing.holdsLock then s'.share w.domain else w.standing.left)
  | enters (horder : s'.order = s.order ++ [who]) (hout : w.standing.hasEntered = false)
      (hshare : s'.share = s.share) (hfree : w.standing.holdsLock = false)
      (hentered : w'.standing.hasEntered = true) (hheld : w'.standing.holdsLock = true)
      (hfound : w'.standing.found = s.share w.domain)
      (hleft : w'.standing.left = s.share w.domain)
  | withdraws (horder : s'.order = s.order.filter (· != who)) (hclean : w.standing.IsClean)
      (hshare : s'.share = s.share) (hentered : w'.standing.hasEntered = false)
      (hfree : w'.standing.holdsLock = false)

structure Turn (L : Law) (s s' : Traffic) (who : Nat) (w w' : Worker) : Prop where
  settings : s'.settings = s.settings
  mayFail : s'.mayFail = s.mayFail
  workers : s'.workers = s.workers.set who w'
  request : w'.request = w.request
  safe : w'.IsSafe L
  isSound : s'.locks.IsSound
  others : ∀ other name, other ≠ who → s.locks.isHolder other name = true →
    s'.locks.isHolder other name = true
  holds : w'.standing.holdsLock = true →
    s'.locks.isHolder who w.domain = true ∧ w'.standing.left = s'.share w.domain
  shares : ∀ domain, domain ≠ w.domain ∨ w.standing.holdsLock = false →
    s'.share domain = s.share domain
  sees : ∀ domain, L.sees domain (s'.zones.zone? domain)
  reorders : Reorders s s' who w w'

variable {L : Law} {settings : EngineSettings} {first : Shares} {s s' : Traffic} {who : Nat}
  {w w' : Worker}

theorem split_of_mem {order : List Nat} (hnodup : order.Nodup) (hmem : who ∈ order) :
    ∃ before behind, order = before ++ who :: behind ∧ who ∉ before ∧ who ∉ behind := by
  obtain ⟨before, behind, rfl⟩ := List.append_of_mem hmem
  obtain ⟨hnot, -⟩ := List.nodup_cons.1 (List.nodup_middle.1 hnodup)
  rw [List.mem_append, not_or] at hnot
  exact ⟨before, behind, rfl, hnot.1, hnot.2⟩

theorem filter_bne {order : List Nat} (hnot : who ∉ order) : order.filter (· != who) = order := by
  refine List.filter_eq_self.2 fun i hi => ?_
  rw [bne_iff_ne]
  exact fun heq => hnot (heq ▸ hi)

namespace Turn

theorem domain (h : Turn L s s' who w w') : w'.domain = w.domain :=
  congrArg Request.domainName h.request

theorem getElem?_self (h : Turn L s s' who w w') (hw : s.workers[who]? = some w) :
    s'.workers[who]? = some w' := by
  rw [h.workers, List.getElem?_set_self (List.getElem?_eq_some_iff.1 hw).1]

theorem getElem?_of_ne (h : Turn L s s' who w w') {i : Nat} (hi : i ≠ who) :
    s'.workers[i]? = s.workers[i]? := by
  rw [h.workers, List.getElem?_set_ne (Ne.symm hi)]

theorem link?_of_ne (h : Turn L s s' who w w') {i : Nat} (hi : i ≠ who) :
    s'.link? i = s.link? i := by
  rw [link?, link?, h.getElem?_of_ne hi]

theorem filterMap_link? (h : Turn L s s' who w w') {order : List Nat} (hnot : who ∉ order) :
    order.filterMap s'.link? = order.filterMap s.link? :=
  List.filterMap_congr fun _ hi => h.link?_of_ne fun heq => hnot (heq ▸ hi)

end Turn

namespace Accord

theorem holder_unique (h : Accord L settings first s) {i : Nat} {u : Worker}
    (hi : s.workers[i]? = some u) (hu : u.standing.holdsLock = true)
    (hholds : s.locks.isHolder who u.domain = true) : i = who :=
  h.isSound.holder_unique (h.holds i u hi hu).1 hholds

theorem notMem_order (h : Accord L settings first s) (hw : s.workers[who]? = some w)
    (hout : w.standing.hasEntered = false) : who ∉ s.order := by
  rw [h.entered who w hw, hout]
  exact Bool.false_ne_true

theorem holds_of_turn (h : Accord L settings first s) (hw : s.workers[who]? = some w)
    (hturn : Turn L s s' who w w') (i : Nat) (u : Worker) (hi : s'.workers[i]? = some u)
    (hu : u.standing.holdsLock = true) :
    s'.locks.isHolder i u.domain = true ∧ u.standing.left = s'.share u.domain := by
  by_cases hwho : i = who
  · subst hwho
    obtain rfl := Option.some.inj ((hturn.getElem?_self hw).symm.trans hi)
    rw [hturn.domain]
    exact hturn.holds hu
  · rw [hturn.getElem?_of_ne hwho] at hi
    obtain ⟨hholder, hleft⟩ := h.holds i u hi hu
    refine ⟨hturn.others i _ hwho hholder, ?_⟩
    rw [hleft, hturn.shares]
    by_cases hdomain : u.domain = w.domain
    · refine Or.inr (Bool.eq_false_iff.2 fun hheld => hwho ?_)
      exact h.holder_unique hi hu (hdomain ▸ (h.holds who w hw hheld).1)
    · exact Or.inl hdomain

theorem entered_of_turn (h : Accord L settings first s) (hw : s.workers[who]? = some w)
    (hturn : Turn L s s' who w w') (i : Nat) (u : Worker) (hi : s'.workers[i]? = some u) :
    i ∈ s'.order ↔ u.standing.hasEntered = true := by
  by_cases hwho : i = who
  · subst hwho
    obtain rfl := Option.some.inj ((hturn.getElem?_self hw).symm.trans hi)
    cases hturn.reorders with
    | stays horder hentered => rw [horder, hentered, h.entered i w hw]
    | enters horder _ _ _ hentered => simp [horder, hentered]
    | withdraws horder _ _ hentered => simp [horder, hentered]
  · rw [hturn.getElem?_of_ne hwho] at hi
    rw [← h.entered i u hi]
    cases hturn.reorders with
    | stays horder => rw [horder]
    | enters horder => simp [horder, hwho]
    | withdraws horder => simp [horder, hwho]

theorem nodup_of_turn (h : Accord L settings first s) (hw : s.workers[who]? = some w)
    (hturn : Turn L s s' who w w') : s'.order.Nodup := by
  cases hturn.reorders with
  | stays horder => exact horder ▸ h.nodup
  | enters horder hout =>
      have hnot := h.notMem_order hw hout
      rw [horder]
      exact List.nodup_append.2 ⟨h.nodup, List.nodup_singleton who, by
        rintro i hi j hj rfl
        exact hnot (List.mem_singleton.1 hj ▸ hi)⟩
  | withdraws horder => exact horder ▸ h.nodup.filter _

theorem last_of_turn (h : Accord L settings first s) (hw : s.workers[who]? = some w)
    (hturn : Turn L s s' who w w') :
    s'.order.Pairwise fun i j => ∀ u v : Worker, s'.workers[i]? = some u → s'.workers[j]? = some v →
      u.standing.holdsLock = true → v.domain ≠ u.domain := by
  have hdomain {i : Nat} {u : Worker} (hi : s'.workers[i]? = some u) :
      ∃ u', s.workers[i]? = some u' ∧ u'.domain = u.domain := by
    by_cases hwho : i = who
    · subst hwho
      obtain rfl := Option.some.inj ((hturn.getElem?_self hw).symm.trans hi)
      exact ⟨w, hw, hturn.domain.symm⟩
    · exact ⟨u, hturn.getElem?_of_ne hwho ▸ hi, rfl⟩
  -- Those who hold a lock after the move, and did not get it with this move, held it before.
  have hold (hgot : w'.standing.holdsLock = true → w.standing.holdsLock = true) :
      s.order.Pairwise fun i j => ∀ u v : Worker, s'.workers[i]? = some u →
        s'.workers[j]? = some v → u.standing.holdsLock = true → v.domain ≠ u.domain := by
    refine h.last.imp ?_
    intro i j hij u v hi hj hu
    obtain ⟨v', hj', hv'⟩ := hdomain hj
    rw [← hv']
    by_cases hwho : i = who
    · subst hwho
      obtain rfl := Option.some.inj ((hturn.getElem?_self hw).symm.trans hi)
      rw [hturn.domain]
      exact hij w v' hw hj' (hgot hu)
    · exact hij u v' (hturn.getElem?_of_ne hwho ▸ hi) hj' hu
  cases hturn.reorders with
  | stays horder _ _ hheld => exact horder ▸ hold hheld
  | enters horder hout _ hfree hentered hheld =>
      have hnot := h.notMem_order hw hout
      rw [horder]
      refine List.pairwise_append.2 ⟨h.last.imp_of_mem ?_, List.pairwise_singleton _ _, ?_⟩
      · intro i j hi _ hij u v hu hv
        obtain ⟨v', hj', hv'⟩ := hdomain hv
        rw [← hv']
        have hwho : i ≠ who := fun heq => hnot (heq ▸ hi)
        exact hij u v' (hturn.getElem?_of_ne hwho ▸ hu) hj'
      · intro i hi j hj u v hu hv hheld' hsame
        obtain rfl := List.mem_singleton.1 hj
        obtain rfl := Option.some.inj ((hturn.getElem?_self hw).symm.trans hv)
        have hwho : i ≠ j := fun heq => hnot (heq ▸ hi)
        have hboth := (h.holds_of_turn hw hturn i u hu hheld').1
        rw [← hsame, hturn.domain] at hboth
        exact hwho (hturn.isSound.holder_unique hboth (hturn.holds hheld).1)
  | withdraws horder _ _ _ hfree =>
      rw [horder]
      exact (hold fun hheld => absurd (hfree.symm.trans hheld) Bool.false_ne_true).filter _

theorem linked_of_turn (h : Accord L settings first s) (hw : s.workers[who]? = some w)
    (hturn : Turn L s s' who w w') : Linked first s'.links s'.share := by
  have hself : s.link? who = some w.link := by rw [link?, hw, Option.map_some]
  have hself' : s'.link? who = some w'.link := by
    rw [link?, hturn.getElem?_self hw, Option.map_some]
  cases hturn.reorders with
  | stays horder hentered hfound hheld hleft =>
      rw [links, horder]
      by_cases hmem : who ∈ s.order
      · obtain ⟨before, behind, hsplit, hbefore, hbehind⟩ := split_of_mem h.nodup hmem
        have hlinked := h.linked
        rw [links, hsplit, List.filterMap_append, List.filterMap_cons, hself] at hlinked
        rw [hsplit, List.filterMap_append, List.filterMap_cons, hself',
          hturn.filterMap_link? hbefore, hturn.filterMap_link? hbehind]
        have hlink : w'.link = { w.link with left := w'.standing.left } := by
          simp only [Worker.link, hturn.domain, hfound]
        by_cases hin : w.standing.holdsLock = true
        · rw [if_pos hin] at hleft
          have hlast : ∀ m ∈ behind.filterMap s.link?, m.domain ≠ w.link.domain := by
            intro m hm
            obtain ⟨j, hj, hlink⟩ := List.mem_filterMap.1 hm
            obtain ⟨u, hu, rfl⟩ := Option.map_eq_some_iff.1 hlink
            have hpairs := h.last
            rw [hsplit, List.pairwise_append, List.pairwise_cons] at hpairs
            exact hpairs.2.1.1 j hj w u hw hu hin
          have hshare : s'.share = Function.update s.share w.link.domain w'.standing.left := by
            refine (Function.update_eq_iff.2 ⟨hleft, fun d hd => ?_⟩).symm
            exact (hturn.shares d (Or.inl hd)).symm
          rw [hlink, hshare]
          exact hlinked.relink hlast _
        · rw [if_neg hin] at hleft
          have hshare : s'.share = s.share :=
            funext fun d => hturn.shares d (Or.inr (by simpa using hin))
          rw [hlink, hleft, hshare]
          exact hlinked
      · rw [hturn.filterMap_link? hmem]
        have hshare : s'.share = s.share := by
          refine funext fun d => hturn.shares d (Or.inr (Bool.eq_false_iff.2 fun hin => hmem ?_))
          exact (h.entered who w hw).2 ((h.safe who w hw).inside hin)
        exact hshare ▸ h.linked
  | enters horder hout hshare _ _ _ hfound hleft =>
      have hnot := h.notMem_order hw hout
      have hlink : w'.link = ⟨w.domain, s.share w.domain, s.share w.domain⟩ := by
        simp only [Worker.link, hturn.domain, hfound, hleft]
      rw [links, horder, List.filterMap_append, hturn.filterMap_link? hnot, List.filterMap_cons,
        hself', hlink, hshare]
      exact h.linked.append_same w.domain
  | withdraws horder hclean hshare hentered _ =>
      rw [links, horder, hshare]
      by_cases hmem : who ∈ s.order
      · obtain ⟨before, behind, hsplit, hbefore, hbehind⟩ := split_of_mem h.nodup hmem
        have hlinked := h.linked
        rw [links, hsplit, List.filterMap_append, List.filterMap_cons, hself] at hlinked
        rw [hsplit, List.filter_append, List.filter_cons_of_neg (by simp), filter_bne hbefore,
          filter_bne hbehind, List.filterMap_append, hturn.filterMap_link? hbefore,
          hturn.filterMap_link? hbehind]
        exact hlinked.remove (hclean ((h.entered who w hw).1 hmem))
      · rw [filter_bne hmem, hturn.filterMap_link? hmem]
        exact h.linked

theorem turn (h : Accord L settings first s) (hw : s.workers[who]? = some w)
    (hturn : Turn L s s' who w w') : Accord L settings first s' where
  agreed := hturn.settings.trans h.agreed
  mayFail := hturn.mayFail.trans h.mayFail
  isSound := hturn.isSound
  sees := hturn.sees
  safe := by
    intro i u hi
    by_cases hwho : i = who
    · subst hwho
      obtain rfl := Option.some.inj ((hturn.getElem?_self hw).symm.trans hi)
      exact hturn.safe
    · exact h.safe i u (hturn.getElem?_of_ne hwho ▸ hi)
  holds := h.holds_of_turn hw hturn
  nodup := h.nodup_of_turn hw hturn
  entered := h.entered_of_turn hw hturn
  present := by
    intro i hi
    rw [hturn.workers, List.length_set]
    cases hturn.reorders with
    | stays horder => exact h.present i (horder ▸ hi)
    | enters horder =>
        rw [horder, List.mem_append, List.mem_singleton] at hi
        rcases hi with hi | rfl
        · exact h.present i hi
        · exact (List.getElem?_eq_some_iff.1 hw).1
    | withdraws horder => exact h.present i (List.mem_filter.1 (horder ▸ hi)).1
  last := h.last_of_turn hw hturn
  linked := h.linked_of_turn hw hturn

end Accord

end Traffic

end ZoneKeeper
