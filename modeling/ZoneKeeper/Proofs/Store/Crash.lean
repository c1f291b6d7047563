import ZoneKeeper.Proofs.Files.Interruption
import ZoneKeeper.Proofs.Store.Refinement

namespace ZoneKeeper.FileStore

open Disk ZoneKeeper.Path

variable {d d' d'' : Disk} {path : String} {zones : Zones} {store : FileStore} {main : Place}

section Kept

structure Kept (path : String) (d d' : Disk) : Prop where
  folders : SameFolders d d'
  found : ∀ entry, d.find path = .ok entry ↔ d'.find path = .ok entry
  parent : ∀ parent, parent? path = some parent → parent ≠ "" → d.isThere parent = true →
    d'.isThere parent = true

theorem Kept.refl (path : String) (d : Disk) : Kept path d d :=
  ⟨.refl d, fun _ => Iff.rfl, fun _ _ _ h => h⟩

theorem Kept.trans (h : Kept path d d') (h' : Kept path d' d'') : Kept path d d'' :=
  ⟨h.folders.trans h'.folders, fun entry => (h.found entry).trans (h'.found entry),
    fun parent hparent hne hthere => h'.parent parent hparent hne (h.parent parent hparent hne hthere)⟩

theorem not_leads_sibling {extension : String} {q : Place} (hextension : IsExtension extension)
    (hother : withExtension path extension ≠ path)
    (hq : d.Leads (withExtension path extension) q) : ¬ d.Leads path q := by
  intro hleads
  obtain ⟨folder, name, hnames⟩ := hleads.names
  have hsibling := hnames.sibling hextension
  have hname := hleads.name_eq hnames hsibling hq
  exact hother (by rw [hsibling.path_eq, hnames.path_eq, ← hname])

theorem kept_of_disturbs {extension : String} (hextension : IsExtension extension)
    (hother : withExtension path extension ≠ path)
    (h : Disturbs (withExtension path extension) d d') : Kept path d d' := by
  rcases h with rfl | ⟨q, htakes, hchanged⟩
  · exact .refl path d'
  · -- A file was written beside the store file, so the folder of both is there.
    have hq := not_leads_sibling hextension hother htakes.leads
    refine ⟨hchanged.folders, fun _ => find_iff_of_changedAt hchanged htakes hq, ?_⟩
    intro parent hparent hnonempty _
    rw [← parent?_withExtension hother hextension] at hparent
    have hleads := htakes.leads.of_sameFolders hchanged.folders
    exact isThere_of_find (hleads.find_parent hparent hnonempty)

theorem loaded_of_kept (h : Kept path d d') : loaded d' path = loaded d path := by
  have hfound := h.found
  cases hd : d.find path with
  | ok entry =>
      have hd' := (hfound entry).1 hd
      simp only [loaded, Disk.isThere, Disk.readText, readBytes, hd, hd']
  | error fault =>
      cases hd' : d'.find path with
      | ok entry =>
          rw [(hfound entry).2 hd'] at hd
          cases hd
      | error fault' => simp only [loaded, Disk.isThere, hd, hd', Bool.false_eq_true, if_false]

end Kept

structure IsHeld (store : FileStore) (d : Disk) : Prop where
  parent : ∀ parent, parent? store.path = some parent → parent ≠ "" → d.isThere parent = true
  loaded : loaded d store.path = .ok store.zones

theorem IsHeld.run_openAt (h : store.IsHeld d) :
    Disk.run (openAt store.path).run d = (.ok store, d) :=
  FileStore.run_openAt (makeParent_of_isThere h.parent) h.loaded

theorem IsHeld.of_kept (h : store.IsHeld d) (hkept : Kept store.path d d') : store.IsHeld d' :=
  ⟨fun parent hparent hne => hkept.parent parent hparent hne (h.parent parent hparent hne),
    (loaded_of_kept hkept).trans h.loaded⟩

theorem fits_of_loaded (h : loaded d path = .ok zones) : zones.Fits ∧ zones.IsKeyed := by
  unfold loaded at h
  split at h
  · split at h
    · cases h
    · split at h
      · next hread =>
          obtain rfl := Except.ok.inj h
          exact Zones.fits_of_read? hread
      · cases h
  · obtain rfl := Except.ok.inj h
    exact ⟨Zones.fits_empty, Zones.isKeyed_empty⟩

def IsSaved (path : String) (zones : Zones) (d : Disk) : Prop :=
  ∃ main, d.Leads path main ∧ d.lookup main = some (.file (octets zones.write))

theorem IsSaved.isHeld (h : IsSaved path zones d) (hfits : zones.Fits) :
    IsHeld ⟨path, zones.rekeyed⟩ d := by
  obtain ⟨main, hleads, hfile⟩ := h
  exact ⟨fun parent hparent hne => isThere_of_find (hleads.find_parent hparent hne),
    loaded_of_written hleads hfits hfile⟩

section Save

variable (htemporary : temporaryPath path ≠ path) (hbackup : backupPath path ≠ path)

theorem act_cases {p : FileProgram (Except FileFault Unit)} {describe : FileFault → Error}
    {result : Option (Except Error Unit)} (h : MayEnd (act p describe).run d result d') :
    ∃ reached, MayEnd p d reached d' ∧ (∀ u, result = some (.ok u) → reached = some (.ok ()))
      ∧ ∀ e, result = some (.error e) → ∃ fault, reached = some (.error fault) := by
  have hbind : MayEnd (p >>= fun answer => pure (answer.mapError describe)) d result d' := h
  rcases hbind.bind_cases with ⟨rfl, hp⟩ | ⟨answer, left, hp, hdone⟩
  · exact ⟨none, hp, nofun, nofun⟩
  · obtain ⟨rfl, hresult⟩ := hdone.eq_of_done
    refine ⟨some answer, hp, ?_⟩
    rcases hresult with rfl | rfl
    · exact ⟨nofun, nofun⟩
    · cases answer with
      | ok u => exact ⟨fun _ _ => rfl, nofun⟩
      | error fault => exact ⟨nofun, fun _ _ => ⟨fault, rfl⟩⟩

theorem kept_of_mayEnd {a : FileAct} {result : Option a.Answer} {extension : String}
    (h : MayEnd (.act a .done) d result d') (ha : a.written? = some (withExtension path extension))
    (hextension : IsExtension extension) (hother : withExtension path extension ≠ path) :
    Kept path d d' :=
  kept_of_disturbs hextension hother (disturbs_of_mayEnd h ha)

def IsReady (path : String) (zones : Zones) (d : Disk) : Prop :=
  ∃ temporary, d.Leads (temporaryPath path) temporary
    ∧ d.lookup temporary = some (.file (octets zones.write))

include htemporary in
theorem IsReady.of_disturbs (h : IsReady path zones d) (hdisturbs : Disturbs (backupPath path) d d') :
    IsReady path zones d' := by
  rcases hdisturbs with rfl | ⟨backup, htakes, hchanged⟩
  · exact h
  · obtain ⟨temporary, hleads, hfile⟩ := h
    obtain ⟨folder, name, hnames, -, hextended⟩ := exists_names_of_extended htemporary
    have hleads' : d.Leads (temporaryPath (trimmed path)) temporary := by
      rw [temporaryPath, hextended]
      exact hleads
    have hbackup : d.Leads (backupPath (trimmed path)) backup := by
      rw [backupPath, hextended]
      exact htakes.leads
    have hne := ne_of_siblings hnames hleads' hbackup
    exact ⟨temporary, hleads.of_sameFolders hchanged.folders,
      (hchanged.elsewhere temporary hne.symm).trans hfile⟩

theorem isReady_of_written {created filled : Disk}
    (hcreate : d.create (temporaryPath path) = .ok created)
    (happend : created.append (temporaryPath path) (octets zones.write) = .ok filled) :
    IsReady path zones filled := by
  obtain ⟨temporary, htakes, rfl⟩ := create_ok hcreate
  have hleads := htakes.leads.of_sameFolders (sameFolders_put htakes.free [])
  have hempty : (d.put temporary (.file [])).lookup temporary = some (.file []) := by
    rw [lookup_put htakes.free, if_pos rfl]
  have hfree : (d.put temporary (.file [])).lookup temporary ≠ some .folder := by
    rw [hempty]
    exact nofun
  rw [append_of_leads hleads hempty] at happend
  obtain rfl := Except.ok.inj happend
  refine ⟨temporary, hleads.of_sameFolders (sameFolders_put hfree _), ?_⟩
  rw [lookup_put hfree, if_pos rfl, List.nil_append]

theorem rename_ends {describe : FileFault → Error} {result : Option (Except Error Unit)}
    (hready : IsReady path zones d)
    (h : MayEnd (act (.rename (temporaryPath path) path) describe).run d result d') :
    (d' = d ∧ ∀ u, result ≠ some (.ok u))
      ∨ (IsSaved path zones d' ∧ ∀ e, result ≠ some (.error e)) := by
  obtain ⟨reached, hreached, hok, herror⟩ := act_cases h
  rcases rename_cases hreached with ⟨rfl, hnot⟩ | ⟨hrename, hnot⟩
  · exact .inl ⟨rfl, fun u hu => hnot (hok u hu)⟩
  · refine .inr ⟨?_, fun e he => ?_⟩
    · obtain ⟨temporary, hleads, hfile⟩ := hready
      obtain ⟨start, goal, bytes, hstart, hbytes, hgoal, hrenamed⟩ := rename_ok hrename
      have hsame : start = temporary := by
        injection hstart.symm.trans hleads with hsite
        injection hsite
      subst hsame
      obtain rfl : bytes = octets zones.write := by
        injection hbytes.symm.trans hfile with hentry
        injection hentry
      exact ⟨goal, hgoal.leads.of_sameFolders hrenamed.folders, hrenamed.moved⟩
    · obtain ⟨fault, hfault⟩ := herror e he
      exact hnot fault hfault

include htemporary hbackup in
theorem save_cases {result : Option (Except Error Unit)}
    (h : MayEnd (save path zones).run d result d') :
    (Kept path d d' ∧ ∀ u, result ≠ some (.ok u))
      ∨ (IsSaved path zones d' ∧ ∀ e, result ≠ some (.error e)) := by
  rw [save] at h
  rcases h.except_cases with ⟨_, hcreate, -, hresult⟩ | ⟨u, created, hcreate, h⟩
  · obtain ⟨_, hcreate, -⟩ := act_cases hcreate
    exact .inl ⟨kept_of_mayEnd hcreate rfl isExtension_temporary htemporary, hresult⟩
  obtain ⟨_, hcreate, hok, -⟩ := act_cases hcreate
  obtain rfl := hok u rfl
  have hkept := kept_of_mayEnd hcreate rfl isExtension_temporary htemporary
  rcases h.except_cases with ⟨_, happend, -, hresult⟩ | ⟨u, filled, happend, h⟩
  · obtain ⟨_, happend, -⟩ := act_cases happend
    have hkept' := kept_of_mayEnd happend rfl isExtension_temporary htemporary
    exact .inl ⟨hkept.trans hkept', hresult⟩
  obtain ⟨_, happend, hok, -⟩ := act_cases happend
  obtain rfl := hok u rfl
  replace hkept := hkept.trans (kept_of_mayEnd happend rfl isExtension_temporary htemporary)
  -- From here on the temporary file holds the whole document, and only a backup may still be made.
  have hready : IsReady path zones filled :=
    isReady_of_written (create_of_mayEnd hcreate) (append_of_mayEnd happend)
  rcases h.except_cases with ⟨_, hthere, -, hresult⟩ | ⟨there, asked, hthere, h⟩
  · obtain ⟨_, hthere⟩ := hthere.lift_cases
    obtain rfl := hthere.eq_of_isThere
    exact .inl ⟨hkept, hresult⟩
  obtain ⟨_, hthere⟩ := hthere.lift_cases
  obtain rfl := hthere.eq_of_isThere
  cases there with
  | false =>
      rcases rename_ends hready h with ⟨rfl, hresult⟩ | hsaved
      · exact .inl ⟨hkept, hresult⟩
      · exact .inr hsaved
  | true =>
      rcases h.except_cases with ⟨_, hcopy, -, hresult⟩ | ⟨_, copied, hcopy, h⟩
      · obtain ⟨_, hcopy⟩ := hcopy.lift_cases
        have hkept' := kept_of_mayEnd hcopy rfl isExtension_backup hbackup
        exact .inl ⟨hkept.trans hkept', hresult⟩
      obtain ⟨_, hcopy⟩ := hcopy.lift_cases
      have hkept' := kept_of_mayEnd hcopy rfl isExtension_backup hbackup
      have hready' := hready.of_disturbs htemporary (disturbs_of_mayEnd hcopy rfl)
      rcases rename_ends hready' h with ⟨rfl, hresult⟩ | hsaved
      · exact .inl ⟨hkept.trans hkept', hresult⟩
      · exact .inr hsaved

end Save

section Call

variable {c : StoreCall} {now : Instant} {result : Option (c.Answer × FileStore)}

theorem ended_of_done {answer : c.Answer} {left : FileStore}
    (h : MayEnd (.done (answer, left)) d result d') :
    d' = d ∧ ∀ answer' left', result = some (answer', left') → answer' = answer ∧ left' = left := by
  obtain ⟨rfl, rfl | rfl⟩ := h.eq_of_done
  · exact ⟨rfl, nofun⟩
  · refine ⟨rfl, fun answer' left' h => ?_⟩
    obtain ⟨rfl, rfl⟩ := Prod.mk.inj (Option.some.inj h)
    exact ⟨rfl, rfl⟩

variable (hheld : store.IsHeld d) (htemporary : temporaryPath store.path ≠ store.path)
  (hbackup : backupPath store.path ≠ store.path) (hc : c.Fits) (hnow : now.IsValid)
  (h : MayEnd (store.call now c) d result d')

include hheld htemporary hbackup hc hnow h

theorem call_cases :
    (store.IsHeld d' ∧ ∀ answer left, result = some (answer, left) →
        left = store ∧ ∀ reply, answer = .ok reply → (store.zones.call now c).2 = store.zones)
      ∨ (IsHeld ⟨store.path, (store.zones.call now c).2.rekeyed⟩ d'
        ∧ ∀ answer left, result = some (answer, left) →
          left = ⟨store.path, (store.zones.call now c).2⟩ ∧ ∃ reply, answer = .ok reply) := by
  have hfits := (fits_of_loaded hheld.loaded).1.call hc hnow
  rw [call] at h
  cases hcarry : store.zones.carryOut now c with
  | error e =>
      rw [hcarry] at h
      obtain ⟨rfl, hended⟩ := ended_of_done h
      refine .inl ⟨hheld, fun answer left hresult => ?_⟩
      obtain ⟨rfl, rfl⟩ := hended answer left hresult
      refine ⟨rfl, fun reply hreply => ?_⟩
      cases hreply
  | ok outcome =>
      obtain ⟨reply, next⟩ := outcome
      rw [hcarry] at h
      rw [Zones.call_of_ok hcarry] at hfits ⊢
      dsimp only at h hfits ⊢
      cases hsaves : saves c reply with
      | false =>
          rw [hsaves] at h
          obtain ⟨rfl, hended⟩ := ended_of_done h
          refine .inl ⟨hheld, fun answer left hresult => ?_⟩
          exact ⟨(hended answer left hresult).2, fun _ _ => eq_of_not_saves hcarry hsaves⟩
      | true =>
          rw [hsaves, if_pos rfl] at h
          rcases h.bind_cases with ⟨rfl, hsave⟩ | ⟨reached, left, hsave, hdone⟩
          · rcases save_cases htemporary hbackup hsave with ⟨hkept, -⟩ | ⟨hsaved, -⟩
            · refine .inl ⟨hheld.of_kept hkept, fun answer left hresult => ?_⟩
              cases hresult
            · refine .inr ⟨hsaved.isHeld hfits, fun answer left hresult => ?_⟩
              cases hresult
          · cases reached with
            | ok u =>
                obtain ⟨rfl, hended⟩ := ended_of_done hdone
                rcases save_cases htemporary hbackup hsave with ⟨-, hnot⟩ | ⟨hsaved, -⟩
                · exact absurd rfl (hnot u)
                · refine .inr ⟨hsaved.isHeld hfits, fun answer left hresult => ?_⟩
                  obtain ⟨rfl, rfl⟩ := hended answer left hresult
                  exact ⟨rfl, reply, rfl⟩
            | error e =>
                obtain ⟨rfl, hended⟩ := ended_of_done hdone
                rcases save_cases htemporary hbackup hsave with ⟨hkept, -⟩ | ⟨-, hnot⟩
                · refine .inl ⟨hheld.of_kept hkept, fun answer left hresult => ?_⟩
                  obtain ⟨rfl, rfl⟩ := hended answer left hresult
                  refine ⟨rfl, fun reply hreply => ?_⟩
                  cases hreply
                · exact absurd rfl (hnot e)

/-- Whatever happens during a call, the store opens with what it had before or with what it has
after the call, each record set at its own key; and a call that is answered by an error has changed
neither the store in memory nor the one that is opened next. -/
theorem interrupted_call_is_whole :
    (Disk.run (openAt store.path).run d' = (.ok store, d')
        ∨ Disk.run (openAt store.path).run d'
          = (.ok ⟨store.path, (store.zones.call now c).2.rekeyed⟩, d'))
      ∧ (c.IsKeyed → (store.zones.call now c).2.rekeyed = (store.zones.call now c).2)
      ∧ ∀ e left, result = some (.error e, left) →
        left = store ∧ Disk.run (openAt store.path).run d' = (.ok store, d') := by
  refine ⟨?_, fun hkeyed => ?_, fun e left hresult => ?_⟩
  · rcases call_cases hheld htemporary hbackup hc hnow h with ⟨hbefore, -⟩ | ⟨hafter, -⟩
    · exact .inl hbefore.run_openAt
    · exact .inr hafter.run_openAt
  · exact Zones.rekeyed_of_isKeyed ((fits_of_loaded hheld.loaded).2.call hkeyed now)
  · rcases call_cases hheld htemporary hbackup hc hnow h with ⟨hbefore, hends⟩ | ⟨-, hends⟩
    · exact ⟨(hends _ left hresult).1, hbefore.run_openAt⟩
    · obtain ⟨-, reply, hreply⟩ := hends _ left hresult
      cases hreply

theorem answered_call_is_kept {reply : c.Reply} {left : FileStore}
    (hresult : result = some (.ok reply, left)) :
    left = ⟨store.path, (store.zones.call now c).2⟩
      ∧ Disk.run (openAt store.path).run d'
        = (.ok ⟨store.path, (store.zones.call now c).2.rekeyed⟩, d') := by
  rcases call_cases hheld htemporary hbackup hc hnow h with ⟨hbefore, hends⟩ | ⟨hafter, hends⟩
  · obtain ⟨rfl, hsame⟩ := hends _ left hresult
    have hkeyed := (fits_of_loaded hheld.loaded).2
    rw [hsame reply rfl, Zones.rekeyed_of_isKeyed hkeyed]
    exact ⟨rfl, hbefore.run_openAt⟩
  · exact ⟨(hends _ left hresult).1, hafter.run_openAt⟩

end Call

namespace Example

def created : Zones := (Zones.empty.call ⟨1700000000, 0⟩ (.createDomain domain)).2

def opened : FileStore := ⟨"zones.json", created⟩

def disk : Disk := ⟨[(["zones.json"], .file (octets created.write))]⟩

theorem fits_created : created.Fits ∧ created.IsKeyed := by
  obtain ⟨hc, hkeyed, hnow⟩ := fits_events creation List.mem_cons_self
  exact ⟨Zones.fits_empty.call hc hnow, Zones.isKeyed_empty.call hkeyed _⟩

theorem isHeld_opened : opened.IsHeld disk := by
  have hsaved : IsSaved "zones.json" created disk := ⟨["zones.json"], rfl, rfl⟩
  have hheld := hsaved.isHeld fits_created.1
  rw [Zones.rekeyed_of_isKeyed fits_created.2] at hheld
  exact hheld

def write : StoreCall := .upsert "example.com" www 3600 (SortedSet.ofList ["192.0.2.1"])

def halfWritten : Disk :=
  (disk.put ["zones.tmp"] (.file [])).put ["zones.tmp"] (.file ((octets created.write).take 100))

theorem stops_half_written : MayEnd (opened.call ⟨1700000001, 500⟩ write) disk none halfWritten := by
  have htakes : (disk.put ["zones.tmp"] (.file [])).Takes "zones.tmp" ["zones.tmp"] := ⟨rfl, nofun⟩
  refine .carry (.cut (.inr ⟨"zones.tmp", rfl, .inr ⟨["zones.tmp"], htakes, ?_⟩⟩))
  exact changedAt_put htakes.free _

end Example

theorem half_written_store_opens :
    MayEnd (Example.opened.call ⟨1700000001, 500⟩ Example.write) Example.disk none
        Example.halfWritten
      ∧ (Disk.run (openAt "zones.json").run Example.halfWritten
          = (.ok Example.opened, Example.halfWritten)
        ∨ Disk.run (openAt "zones.json").run Example.halfWritten
          = (.ok ⟨"zones.json", (Example.created.call ⟨1700000001, 500⟩ Example.write).2.rekeyed⟩,
            Example.halfWritten)) := by
  obtain ⟨hc, -, hnow⟩ := Example.fits_events Example.writing (by simp [Example.events])
  have hstop := Example.stops_half_written
  exact ⟨hstop, (interrupted_call_is_whole Example.isHeld_opened (by decide) (by decide)
    hc hnow hstop).1⟩

namespace Example

def misplacing : StoreCall :=
  .restore "example.com" ⟨"mail", "A"⟩ (some ⟨"www", "A", 3600, SortedSet.ofList ["192.0.2.1"],
    ⟨1700000001, 500⟩, ⟨1700000001, 500⟩⟩)

def misplaced : Zones := (created.call ⟨1700000002, 0⟩ misplacing).2

theorem fits_misplaced : misplaced.Fits := by
  have httl : 3600 < 1 <<< 32 := by decide
  refine fits_created.1.call ?_ ⟨by decide, by decide, by decide⟩
  rintro _ ⟨⟩
  refine ⟨httl, ?_, ?_⟩
  all_goals exact ⟨by decide, by decide, by decide⟩

theorem houses_opened : Houses disk "zones.json" ["zones.json"] ["zones.tmp"] :=
  ⟨⟨rfl, nofun⟩, ⟨rfl, nofun⟩⟩

end Example

theorem misplaced_set_moves : ∃ d', Example.opened.IsHeld Example.disk
    ∧ temporaryPath "zones.json" ≠ "zones.json" ∧ backupPath "zones.json" ≠ "zones.json"
    ∧ MayEnd (Example.opened.call ⟨1700000002, 0⟩ Example.misplacing) Example.disk none d'
    ∧ Disk.run (openAt "zones.json").run d' ≠ (.ok Example.opened, d')
    ∧ Disk.run (openAt "zones.json").run d' ≠ (.ok ⟨"zones.json", Example.misplaced⟩, d') := by
  have hcarry : Example.created.carryOut ⟨1700000002, 0⟩ Example.misplacing
      = .ok ((), Example.misplaced) := rfl
  obtain ⟨saved, hcall, hsame, hfile⟩ := Example.houses_opened.run_call hcarry rfl
  have hstop := MayEnd.stopped_of_run (Example.opened.call ⟨1700000002, 0⟩ Example.misplacing)
    Example.disk
  have hleads := Example.houses_opened.main.leads.of_sameFolders hsame
  have hsaved : IsSaved "zones.json" Example.misplaced saved := ⟨_, hleads, hfile⟩
  have hopen := (hsaved.isHeld Example.fits_misplaced).run_openAt
  have hzones {zones : Zones}
      (hsame : Disk.run (openAt "zones.json").run saved = (.ok ⟨"zones.json", zones⟩, saved)) :
      Example.misplaced.rekeyed = zones := by
    injection hopen.symm.trans hsame with hstore
    injection hstore with hstore
    injection hstore
  have hmoved : (Example.misplaced.rekeyed.get? "example.com" Example.www).isSome = true := rfl
  refine ⟨saved, Example.isHeld_opened, by decide, by decide, ?_, fun hsame => ?_, fun hsame => ?_⟩
  · rw [Example.opened, hcall] at hstop
    exact hstop
  · rw [hzones hsame] at hmoved
    cases hmoved
  · rw [hzones hsame] at hmoved
    cases hmoved

end ZoneKeeper.FileStore
