import Mathlib.Logic.Function.Basic
import ZoneKeeper.Proofs.Traffic.Basic

namespace ZoneKeeper

namespace Outcome

theorem call_only {c : StoreCall} {domain : String} (hc : c.domain? = some domain) (o : Outcome)
    (zones : Zones) :
    (o.call c zones).1 = (o.call c (.only domain (zones.zone? domain))).1
      ∧ (o.call c zones).2.zone? domain
        = (o.call c (.only domain (zones.zone? domain))).2.zone? domain := by
  cases o with
  | carriedOut now => exact Zones.call_congr now hc (Zones.zone?_only ..).symm
  | failed e => exact ⟨rfl, (Zones.zone?_only ..).symm⟩

theorem zone?_call_of_ne {c : StoreCall} {domain : String} (hc : c.domain? ≠ some domain)
    (o : Outcome) (zones : Zones) : (o.call c zones).2.zone? domain = zones.zone? domain := by
  cases o with
  | carriedOut now => exact Zones.zone?_call_of_ne zones now hc
  | failed e => rfl

end Outcome

namespace Scene

def afterCall (scene : Scene) (c : StoreCall) (o : Outcome) : Scene :=
  { scene with zones := (o.call c scene.zones).2 }

def afterAnnouncing (scene : Scene) (change : ZoneChange) : Scene :=
  { scene with feed := scene.feed ++ [change] }

theorem share_afterCall {c : StoreCall} {domain : String} (hc : c.domain? = some domain)
    (scene : Scene) (o : Outcome) : (scene.afterCall c o).share
      = Function.update scene.share domain
          ⟨(o.call c (.only domain (scene.share domain).zone)).2.zone? domain,
            (scene.share domain).feed⟩ := by
  funext d
  rw [Function.update_apply]
  split
  · next hd =>
      subst hd
      rw [share, afterCall, (o.call_only hc scene.zones).2]
      rfl
  · next hd =>
      have hne : c.domain? ≠ some d := by
        rw [hc]
        exact fun heq => hd (Option.some.inj heq).symm
      rw [share, afterCall, o.zone?_call_of_ne hne]
      rfl

theorem share_afterAnnouncing (scene : Scene) (change : ZoneChange) :
    (scene.afterAnnouncing change).share = Function.update scene.share change.domain
      ⟨(scene.share change.domain).zone, (scene.share change.domain).feed ++ [change]⟩ := by
  funext d
  rw [Function.update_apply]
  split
  · next hd =>
      subst hd
      simp [share, afterAnnouncing]
  · next hd =>
      have hne : (change.domain == d) = false := beq_eq_false_iff_ne.2 (Ne.symm hd)
      simp [share, afterAnnouncing, hne]

end Scene

end ZoneKeeper
