import Mathlib.Logic.Function.Basic
import ZoneKeeper.Proofs.Traffic.Basic

namespace ZoneKeeper

structure Link where
  domain : String
  found : Share
  left : Share

abbrev Shares := String → Share

def Linked (first : Shares) : List Link → Shares → Prop
  | [], last => last = first
  | l :: rest, last =>
      first l.domain = l.found ∧ Linked (Function.update first l.domain l.left) rest last

namespace Linked

variable {first last : Shares} {links before behind : List Link} {l : Link}

theorem append_iff : Linked first (before ++ behind) last
    ↔ ∃ mid, Linked first before mid ∧ Linked mid behind last := by
  induction before generalizing first with
  | nil => simp [Linked]
  | cons l rest ih =>
      simp only [List.cons_append, Linked, ih]
      constructor
      · rintro ⟨hfound, mid, hrest, hbehind⟩
        exact ⟨mid, ⟨hfound, hrest⟩, hbehind⟩
      · rintro ⟨mid, ⟨hfound, hrest⟩, hbehind⟩
        exact ⟨hfound, mid, hrest, hbehind⟩

theorem append_same (h : Linked first links last) (domain : String) :
    Linked first (links ++ [⟨domain, last domain, last domain⟩]) last :=
  append_iff.2 ⟨last, h, rfl, (Function.update_eq_self domain last).symm⟩

theorem remove (h : Linked first (before ++ l :: behind) last) (hl : l.left = l.found) :
    Linked first (before ++ behind) last := by
  obtain ⟨mid, hbefore, hfound, hbehind⟩ := append_iff.1 h
  rw [hl, ← hfound, Function.update_eq_self] at hbehind
  exact append_iff.2 ⟨mid, hbefore, hbehind⟩

theorem update (h : Linked first links last) {domain : String} (share : Share)
    (hother : ∀ l ∈ links, l.domain ≠ domain) :
    Linked (Function.update first domain share) links (Function.update last domain share) := by
  induction links generalizing first with
  | nil => exact congrArg (Function.update · domain share) h
  | cons l rest ih =>
      have hne := hother l List.mem_cons_self
      refine ⟨(Function.update_of_ne hne ..).trans h.1, ?_⟩
      rw [Function.update_comm hne.symm]
      exact ih h.2 fun m hm => hother m (List.mem_cons_of_mem _ hm)

theorem relink (h : Linked first (before ++ l :: behind) last)
    (hother : ∀ m ∈ behind, m.domain ≠ l.domain) (share : Share) :
    Linked first (before ++ { l with left := share } :: behind)
      (Function.update last l.domain share) := by
  obtain ⟨mid, hbefore, hfound, hbehind⟩ := append_iff.1 h
  have hlater := hbehind.update share hother
  rw [Function.update_idem] at hlater
  exact append_iff.2 ⟨mid, hbefore, hfound, hlater⟩

theorem induction {P : String → Share → Prop} (h : Linked first links last)
    (hfirst : ∀ domain, P domain (first domain))
    (hlinks : ∀ l ∈ links, P l.domain l.found → P l.domain l.left) (domain : String) :
    P domain (last domain) := by
  induction links generalizing first with
  | nil => exact h ▸ hfirst domain
  | cons l rest ih =>
      refine ih h.2 (fun d => ?_) fun m hm => hlinks m (List.mem_cons_of_mem _ hm)
      by_cases hd : d = l.domain
      · rw [hd, Function.update_self]
        exact hlinks l List.mem_cons_self (h.1 ▸ hfirst l.domain)
      · rw [Function.update_of_ne hd]
        exact hfirst d

theorem between {a b : Link} {mid : List Link} {P : Share → Prop}
    (h : Linked first (before ++ a :: (mid ++ b :: behind)) last) (hsame : b.domain = a.domain)
    (hleft : P a.left) (hmid : ∀ m ∈ mid, m.domain = a.domain → P m.found → P m.left) :
    P b.found := by
  obtain ⟨_, -, -, hrest⟩ := append_iff.1 h
  obtain ⟨_, hlinks, hfound, -⟩ := append_iff.1 hrest
  rw [← hfound]
  refine hlinks.induction (P := fun domain share => domain = a.domain → P share) ?_ ?_ _ hsame
  · rintro _ rfl
    rw [Function.update_self]
    exact hleft
  · intro m hm hkept hdomain
    exact hmid m hm hdomain (hkept hdomain)

end Linked

end ZoneKeeper
