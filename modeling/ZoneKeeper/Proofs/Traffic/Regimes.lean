import ZoneKeeper.Proofs.Engine.Request
import ZoneKeeper.Proofs.Traffic.Turns

namespace ZoneKeeper

structure Zones.IsProper (zones : Zones) : Prop where
  isNamed : zones.IsNamed
  isKeyed : zones.IsKeyed

theorem Zones.isProper_empty : Zones.IsProper empty := by
  constructor <;> intro name zone hzone <;> cases hzone

theorem Zones.isProper_only {name : String} {zone : Zone} (hname : zone.domain.name = name)
    (hkeyed : zone.IsKeyed) : Zones.IsProper (only name (some zone)) := by
  have hzone {n : String} {z : Zone} (h : zone? (only name (some zone)) n = some z) :
      n = name ∧ z = zone := by
    rw [only, zone?_insert] at h
    split at h
    · next hn => exact ⟨hn, (Option.some.inj h).symm⟩
    · cases h
  constructor
  · intro n z h
    obtain ⟨rfl, rfl⟩ := hzone h
    exact hname
  · intro n z h
    obtain ⟨rfl, rfl⟩ := hzone h
    exact hkeyed

namespace Regime

def free (mayFail : StoreCall → Bool) : Regime where
  mayFail := mayFail
  allows := fun _ => True
  sees := fun domain zone? => ∀ zone, zone? = some zone → zone.domain.name = domain ∧ zone.IsKeyed
  isNamed := fun h => (h _ rfl).1
  isKeyed := fun h => (h _ rfl).2
  isKept := by
    intro zones c now _ hkeyed hsees domain zone hzone
    have hnamed : zones.IsNamed := fun name zone hzone => (hsees name zone hzone).1
    have hall : zones.IsKeyed := fun name zone hzone => (hsees name zone hzone).2
    exact ⟨hnamed.call c now domain zone hzone, hall.call hkeyed now domain zone hzone⟩

def settled (mayFail : StoreCall → Bool) (zones : Zones) : Regime where
  mayFail := mayFail
  allows := fun c => c.touchesDomains = false
  sees := fun domain zone? => (free mayFail).sees domain zone?
    ∧ zone?.map (·.domain) = zones.domain? domain
  isNamed := fun h => (h.1 _ rfl).1
  isKeyed := fun h => (h.1 _ rfl).2
  isKept := by
    intro now' c now htouches hkeyed hsees domain
    refine ⟨(free mayFail).isKept now trivial hkeyed (fun d => (hsees d).1) domain, ?_⟩
    rw [Zones.domain_call htouches]
    exact (hsees domain).2

variable {mayFail : StoreCall → Bool} {zones : Zones}

theorem free_sees (h : zones.IsProper) (domain : String) :
    (free mayFail).sees domain (zones.zone? domain) :=
  fun zone hzone => ⟨h.isNamed domain zone hzone, h.isKeyed domain zone hzone⟩

theorem settled_sees (h : zones.IsProper) (domain : String) :
    (settled mayFail zones).sees domain (zones.zone? domain) :=
  ⟨free_sees h domain, rfl⟩

theorem free_suitsBatches (h : ∀ c : StoreCall, c.isRestore = true → mayFail c = false) :
    (free mayFail).SuitsBatches := ⟨fun _ _ => trivial, h⟩

theorem settled_suitsBatches (h : ∀ c : StoreCall, c.isRestore = true → mayFail c = false) :
    (settled mayFail zones).SuitsBatches := ⟨fun _ hc => hc, h⟩

end Regime

namespace Traffic

variable {s s' : Traffic} {who : Nat} {w : Worker}

theorem feed_prefix_of_moved (h : Moved s who w s') : s.feed <+: s'.feed := by
  cases h with
  | unlock =>
      obtain ⟨locks, hback, -⟩ := s.giveBack_eq who _
      rw [hback]
      exact List.prefix_rfl
  | announce => exact List.prefix_append _ _
  | _ => exact List.prefix_rfl

theorem feed_prefix_of_run {events : List Event} (h : s.run events = some s') :
    s.feed <+: s'.feed :=
  run_induction (P := fun mid => s.feed <+: mid.feed) h List.prefix_rfl (fun _ _ _ h => h)
    fun _ _ _ _ _ _ hmid _ _ hmoved => hmid.trans (feed_prefix_of_moved hmoved)

theorem eq_of_share (hfeed : s.feed <+: s'.feed) (hshare : s'.share = s.share) :
    s'.zones = s.zones ∧ s'.feed = s.feed := by
  refine ⟨Zones.ext_zone? fun name => congrArg Share.zone (congrFun hshare name), ?_⟩
  obtain ⟨announced, hfeed⟩ := hfeed
  have hnone : announced = [] := by
    refine List.eq_nil_iff_forall_not_mem.2 fun change hmem => ?_
    have hsame := congrArg Share.feed (congrFun hshare change.domain)
    simp only [share, scene, Scene.share, ← hfeed, List.filter_append,
      List.append_right_eq_self] at hsame
    exact List.filter_eq_nil_iff.1 hsame change hmem (beq_self_eq_true _)
  rw [← hfeed, hnone, List.append_nil]

namespace Example

def zone : Zone := ⟨⟨"a.de", "ann", 60, ⟨0, 0⟩, none⟩, SortedMap.empty⟩

def item (subname : String) : Json :=
  .object [("subname", .string subname), ("type", .string "A"), ("ttl", .int 60),
    ("records", .array [.string "192.0.2.1"])]

def write : Request := .write ⟨"ann"⟩ "a.de" .update (.array [item "", item "www"]) none

def zones : Zones := .only "a.de" (some zone)

theorem isProper_zones : zones.IsProper :=
  Zones.isProper_only rfl fun key r hr => by cases hr

def mayFail (c : StoreCall) : Bool := !c.isRestore

theorem mayFail_of_isRestore (c : StoreCall) (hc : c.isRestore = true) : mayFail c = false := by
  rw [mayFail, hc, Bool.not_true]

def start : Traffic := Traffic.start .default mayFail zones []

def answer : Move := .call (.carriedOut ⟨1, 0⟩)

def goOn : Move := .proceed ⟨1, 0⟩

def events (who : Nat) (moves : List Move) : List Event := moves.map (.move who)

def create (owner : String) : Request := .createDomain ⟨owner⟩ "example.com" none

def creating : List Move := [.refer, .join, goOn, goOn, answer, goOn]

def createWww : Request :=
  .write ⟨"alice"⟩ "example.com" .create (.object [("subname", .string "www"),
    ("type", .string "A"), ("ttl", .int 3600), ("records", .array [.string "192.0.2.1"])]) none

end Example

end Traffic

end ZoneKeeper
