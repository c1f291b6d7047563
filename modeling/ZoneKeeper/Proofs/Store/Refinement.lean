import ZoneKeeper.Proofs.Store.File

namespace ZoneKeeper

inductive StoreEvent where
  | call (now : Instant) (c : StoreCall)
  | reopen

def StoreEvent.Fits : StoreEvent → Prop
  | .call now c => c.Fits ∧ c.IsKeyed ∧ now.IsValid
  | .reopen => True

abbrev StoreReply := (c : StoreCall) × c.Answer

def Zones.replay : List StoreEvent → Zones → List StoreReply × Zones
  | [], zones => ([], zones)
  | .call now c :: rest, zones =>
      let (answer, zones) := zones.call now c
      let (replies, zones) := Zones.replay rest zones
      (⟨c, answer⟩ :: replies, zones)
  | .reopen :: rest, zones => Zones.replay rest zones

namespace FileStore

open Disk

def replay : List StoreEvent → FileStore → ExceptT Error FileProgram (List StoreReply × FileStore)
  | [], store => return ([], store)
  | .call now c :: rest, store => do
      let (answer, store) ← store.call now c
      let (replies, store) ← store.replay rest
      return (⟨c, answer⟩ :: replies, store)
  | .reopen :: rest, store => do replay rest (← openAt store.path)

variable {d d' : Disk} {path : String} {zones : Zones} {main temporary : Place}

structure Holds (d : Disk) (path : String) (main temporary : Place) (zones : Zones) : Prop where
  houses : Houses d path main temporary
  loaded : loaded d path = .ok zones
  fits : zones.Fits
  isKeyed : zones.IsKeyed

namespace Holds

variable (h : Holds d path main temporary zones)

include h

theorem run_openAt : Disk.run (openAt path).run d = (.ok ⟨path, zones⟩, d) :=
  FileStore.run_openAt (makeParent_of_leads h.houses.main.leads) h.loaded

theorem run_call {c : StoreCall} {now : Instant} (hc : c.Fits) (hkeyed : c.IsKeyed)
    (hnow : now.IsValid) : ∃ after,
      Disk.run (FileStore.call now c ⟨path, zones⟩) d
          = (((zones.call now c).1, ⟨path, (zones.call now c).2⟩), after)
        ∧ Holds after path main temporary (zones.call now c).2 := by
  have hfits := h.fits.call hc hnow
  have hnext := h.isKeyed.call hkeyed now
  cases hcarry : zones.carryOut now c with
  | error e =>
      rw [FileStore.call, hcarry, Zones.call_of_error hcarry]
      exact ⟨d, rfl, h⟩
  | ok result =>
      obtain ⟨reply, next⟩ := result
      rw [Zones.call_of_ok hcarry] at hfits hnext ⊢
      cases hsaves : saves c reply with
      | false =>
          obtain rfl := eq_of_not_saves hcarry hsaves
          refine ⟨d, ?_, h⟩
          rw [FileStore.call, hcarry]
          dsimp only
          rw [hsaves]
          rfl
      | true =>
          obtain ⟨saved, hcall, hsame, hfile⟩ := h.houses.run_call hcarry hsaves
          have hhouses := h.houses.of_sameFolders hsame
          refine ⟨saved, hcall, hhouses, ?_, hfits, hnext⟩
          rw [loaded_of_written hhouses.main.leads hfits hfile, Zones.rekeyed_of_isKeyed hnext]

theorem run_replay {events : List StoreEvent} (hevents : ∀ e ∈ events, e.Fits) : ∃ after,
    Disk.run (replay events ⟨path, zones⟩).run d
        = (.ok ((zones.replay events).1, ⟨path, (zones.replay events).2⟩), after)
      ∧ Holds after path main temporary (zones.replay events).2 := by
  -- The disk changes with every event that writes; that it holds the zones does not.
  induction events generalizing d zones with
  | nil => exact ⟨d, rfl, h⟩
  | cons e rest ih =>
      have hrest : ∀ e ∈ rest, e.Fits := fun e he => hevents e (List.mem_cons_of_mem _ he)
      cases e with
      | call now c =>
          obtain ⟨hc, hkeyed, hnow⟩ := hevents _ List.mem_cons_self
          obtain ⟨called, hcall, hheld⟩ := h.run_call hc hkeyed hnow
          obtain ⟨after, hreplay, hafter⟩ := ih hheld hrest
          refine ⟨after, ?_, hafter⟩
          have hlift := run_lift (FileStore.call now c ⟨path, zones⟩) d
          rw [hcall] at hlift
          rw [replay, run_of_ok hlift, run_of_ok hreplay]
          rfl
      | reopen =>
          obtain ⟨after, hreplay, hafter⟩ := ih h hrest
          refine ⟨after, ?_, hafter⟩
          rw [replay, run_of_ok h.run_openAt]
          exact hreplay

end Holds

/-- Where a store can be kept and no store file is yet, a store in a file answers all calls as one
in memory does, and whenever it is opened again it has the zones that it had. -/
theorem answers_as_in_memory {made : Disk} {events : List StoreEvent}
    (hmade : Disk.run (makeParent path).run d = (.ok (), made))
    (hhouses : Houses made path main temporary) (hnew : made.lookup main = none)
    (hevents : ∀ e ∈ events, e.Fits) : ∃ after,
      Disk.run (openAt path >>= replay events).run d
          = (.ok ((Zones.empty.replay events).1, ⟨path, (Zones.empty.replay events).2⟩), after)
        ∧ Disk.run (openAt path).run after
          = (.ok ⟨path, (Zones.empty.replay events).2⟩, after) := by
  have hloaded := loaded_of_none hhouses.main.leads hnew
  have hheld : Holds made path main temporary Zones.empty :=
    ⟨hhouses, hloaded, Zones.fits_empty, Zones.isKeyed_empty⟩
  obtain ⟨after, hreplay, hafter⟩ := hheld.run_replay hevents
  refine ⟨after, ?_, hafter.run_openAt⟩
  rw [run_of_ok (FileStore.run_openAt hmade hloaded)]
  exact hreplay

namespace Example

def www : Key := ⟨"www", "A"⟩

def domain : Domain := ⟨"example.com", "alice", 3600, ⟨1700000000, 123456789⟩, none⟩

def creation : StoreEvent := .call ⟨1700000000, 0⟩ (.createDomain domain)

def writing : StoreEvent :=
  .call ⟨1700000001, 500⟩ (.upsert "example.com" www 3600 (SortedSet.ofList ["192.0.2.1"]))

def reading : StoreEvent := .call ⟨1700000002, 0⟩ (.get "example.com" www)

def events : List StoreEvent := [creation, writing, .reopen, reading]

theorem houses : Houses Disk.empty "zones.json" ["zones.json"] ["zones.tmp"] :=
  ⟨⟨rfl, nofun⟩, ⟨rfl, nofun⟩⟩

theorem fits_events : ∀ e ∈ events, e.Fits := by
  have httl : 3600 < 1 <<< 32 := by decide
  simp only [events, List.forall_mem_cons]
  refine ⟨⟨⟨httl, ?_, nofun⟩, trivial, ?_⟩, ⟨httl, trivial, ?_⟩, trivial,
    ⟨trivial, trivial, ?_⟩, nofun⟩
  all_goals exact ⟨by decide, by decide, by decide⟩

end Example

theorem reopened_store_has_times : ∃ after replies zones,
    Disk.run (openAt "zones.json" >>= replay Example.events).run Disk.empty
        = (.ok (replies, ⟨"zones.json", zones⟩), after)
      ∧ replies.getLast? = some ⟨.get "example.com" Example.www, .ok (some ⟨"www", "A", 3600,
        SortedSet.ofList ["192.0.2.1"], ⟨1700000001, 500⟩, ⟨1700000001, 500⟩⟩)⟩ := by
  obtain ⟨after, hreplay, -⟩ :=
    answers_as_in_memory rfl Example.houses rfl Example.fits_events
  exact ⟨after, _, _, hreplay, rfl⟩

end FileStore

end ZoneKeeper
