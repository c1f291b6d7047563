import ZoneKeeper.Proofs.Engine.Exclusion
import ZoneKeeper.Proofs.Traffic.Naming
import ZoneKeeper.Proofs.Traffic.Sequence

namespace ZoneKeeper

def Charter.read : Charter := fun domain key _ records => ∃ contents, contents ≠ []
  ∧ RecordSet.read key.type key.subname (ownerName key.subname domain.name) contents = .ok records

theorem BatchJob.honours_read (job : BatchJob) (settings : EngineSettings) (domain : Domain) :
    job.Honours settings .read domain := by
  intro batch snapshot plan hmake hstored p hp ttl records hwrite
  rcases Plan.records_of_write hmake hp hwrite with hread | ⟨r, hr, rfl⟩
  · exact hread
  · obtain ⟨hkey, hallowed⟩ := hstored p.key r hr
    rw [← hkey]
    exact hallowed

abbrev IsRead (name : String) : Option Zone → Prop :=
  IsUpheld .read fun domain => domain.name = name

theorem Charter.read_congr {domain other : Domain} (h : domain.name = other.name) :
    Charter.read domain = Charter.read other := by
  funext key ttl records
  rw [read, read, h]

theorem Request.upholds_read (settings : EngineSettings) (r : Request) :
    Upholds (IsRead r.domainName) r.domainName (Request.run settings r).run fun _ => True :=
  upholds_run (fun _ hname => hname)
    (fun _ _ _ hname hname' => Charter.read_congr (hname'.trans hname.symm))
    (fun _ _ hname => hname) fun job _ domain => job.honours_read settings domain

namespace Traffic

variable {s s' : Traffic} {who : Nat} {w : Worker}

structure HoldsRead (s : Traffic) : Prop where
  stored : ∀ name, IsRead name (s.zones.zone? name)
  kept : ∀ (i : Nat) (u : Worker), s.workers[i]? = some u → u.Maintains (IsRead u.domain) s.zones

namespace HoldsRead

theorem moved (h : HoldsRead s) (hw : s.workers[who]? = some w) (hmoved : Moved s who w s') :
    HoldsRead s' := by
  obtain ⟨w', hworkers, hdomain, hafter, helse⟩ := maintains_of_moved hmoved hw (h.kept who w hw)
  have hstored : ∀ name, IsRead name (s'.zones.zone? name) := by
    intro name
    by_cases hname : name = w.domain
    · have hholds := hafter.holds
      rw [hdomain] at hholds
      rw [hname]
      exact hholds
    · rw [helse name hname]
      exact h.stored name
  refine ⟨hstored, fun i u hu => ?_⟩
  rcases set_cases hworkers hu with ⟨-, rfl⟩ | ⟨-, hu⟩
  · rw [hdomain]
    exact hafter
  · exact { h.kept i u hu with holds := hstored u.domain }

theorem arrive (h : HoldsRead s) (r : Request) : HoldsRead (s.arrive r) := by
  refine ⟨h.stored, fun i u hu => ?_⟩
  rcases arrive_cases hu with hu | ⟨-, rfl⟩
  · exact h.kept i u hu
  · refine ⟨h.stored r.domainName, Request.upholds_read s.settings r, ?_⟩
    rintro _ ⟨⟩

theorem of_run {settings : EngineSettings} {mayFail : StoreCall → Bool} {feed : List ZoneChange}
    {events : List Event} (h : (start settings mayFail .empty feed).run events = some s) :
    HoldsRead s := by
  refine run_induction h ⟨?_, ?_⟩ (fun _ r _ hs => hs.arrive r)
    fun _ _ _ _ _ _ hs hw _ hmoved => hs.moved hw hmoved
  · rintro name zone ⟨⟩
  · rintro i u ⟨⟩

end HoldsRead

variable {settings : EngineSettings} {mayFail : StoreCall → Bool} {feed : List ZoneChange}
  {events : List Event}

theorem read_of_stored (h : (start settings mayFail .empty feed).run events = some s)
    {name : String} {zone : Zone} (hzone : s.zones.zone? name = some zone) {key : Key} {r : Rrset}
    (hr : zone.rrsets.get? key = some r) : r.key = key ∧ ∃ contents, contents ≠ []
      ∧ RecordSet.read key.type key.subname (ownerName key.subname zone.domain.name) contents
        = .ok r.records := by
  obtain ⟨hkey, hread⟩ := ((HoldsRead.of_run h).stored name zone hzone).2 key r hr
  rw [Charter.AllowsSet, hkey] at hread
  exact ⟨hkey, hread⟩

end Traffic

def Key.apexAlias : Key := ⟨"", "CNAME"⟩

structure Zones.IsSettled (zones : Zones) : Prop where
  isProper : zones.IsProper
  isRegistrable : ∀ name, (zones.zone? name).isSome = true → IsRegistrable name
  noAlias : ∀ name zone, zones.zone? name = some zone → ¬ zone.HasSet .apexAlias

namespace Traffic

variable {s : Traffic} {settings : EngineSettings} {mayFail : StoreCall → Bool}
  {feed : List ZoneChange} {events : List Event}

theorem isSettled_of_run (h : (start settings mayFail .empty feed).run events = some s) :
    s.zones.IsSettled := by
  have hregisters := Registers.of_run h
  refine ⟨⟨hregisters.named, fun name zone hzone key r hr => (read_of_stored h hzone hr).1⟩,
    hregisters.registrable, fun name zone hzone hset => ?_⟩
  obtain ⟨r, hr⟩ := Option.isSome_iff_exists.1 hset
  obtain ⟨-, contents, hcontents, hread⟩ := read_of_stored h hzone hr
  exact (RecordSet.subname_of_read hread hcontents).1 (Or.inl rfl) rfl

theorem isSettled_of_runInTurn (h : (start settings mayFail .empty []).runInTurn events = some s) :
    s.zones.IsSettled :=
  isSettled_of_run (run_of_runInTurn h)

end Traffic

end ZoneKeeper
