import ZoneKeeper.Proofs.Files.Disk
import ZoneKeeper.Proofs.Store.Document
import ZoneKeeper.Proofs.Text.Utf8
import ZoneKeeper.Store.File

namespace ZoneKeeper

namespace Disk

variable {α β : Type} {d d' : Disk}

theorem run_bind (p : FileProgram α) (f : α → FileProgram β) (d : Disk) :
    run (p >>= f) d = run (f (run p d).1) (run p d).2 :=
  Program.run_bind handle p f d

theorem run_of_ok {x : ExceptT Error FileProgram α} {f : α → ExceptT Error FileProgram β} {a : α}
    (h : run x.run d = (.ok a, d')) : run (x >>= f).run d = run (f a).run d' := by
  rw [ExceptT.run_bind, run_bind, h]

theorem run_of_error {x : ExceptT Error FileProgram α} {f : α → ExceptT Error FileProgram β}
    {e : Error} (h : run x.run d = (.error e, d')) : run (x >>= f).run d = (.error e, d') := by
  rw [ExceptT.run_bind, run_bind, h]
  rfl

theorem run_lift (p : FileProgram α) (d : Disk) :
    run (monadLift p : ExceptT Error FileProgram α).run d = (.ok (run p d).1, (run p d).2) := by
  change run (Except.ok <$> p) d = _
  rw [map_eq_pure_bind, run_bind]
  rfl

section Text

variable {path : String} {bytes : Octets} (h : d.find path = .ok (.file bytes))

include h

theorem readText_of_isText (htext : bytes.IsText) : d.readText path = .ok bytes.text := by
  have hsame : (octets bytes.text == bytes) = true := beq_iff_eq.2 htext.octets_text
  rw [readText, readBytes, h]
  exact if_pos hsame

theorem readText_of_not_isText (htext : ¬ bytes.IsText) : d.readText path = .error .notText := by
  have hother : ¬ (octets bytes.text == bytes) = true := fun h => htext ⟨bytes.text, eq_of_beq h⟩
  rw [readText, readBytes, h]
  exact if_neg hother

end Text

theorem isThere_of_find {path : String} {entry : Entry} (h : d.find path = .ok entry) :
    d.isThere path = true := by
  rw [isThere, h]

end Disk

namespace FileStore

open FileProgram Disk

variable {d d' : Disk} {path : String} {zones zones' : Zones} {main temporary : Place}

theorem run_act {p : FileProgram (Except FileFault Unit)} {describe : FileFault → Error}
    (h : Disk.run p d = (.ok (), d')) : Disk.run (act p describe).run d = (.ok (), d') := by
  change Disk.run (p >>= fun result => pure (result.mapError describe)) d = _
  rw [Disk.run_bind, h]
  rfl

def loaded (d : Disk) (path : String) : Except Error Zones :=
  if d.isThere path then
    match d.readText path with
    | .error fault => .error (.storage s!"Failed to read store file {path}: {fault.message}")
    | .ok text =>
        match Zones.read? text with
        | some zones => .ok zones
        | none => .error .json
  else .ok Zones.empty

theorem run_load (d : Disk) (path : String) : Disk.run (load path).run d = (loaded d path, d) := by
  rw [load, run_of_ok (run_lift (isThere path) d), loaded]
  change Disk.run (ExceptT.run (if d.isThere path = true then _ else _)) d = _
  split
  · rw [run_of_ok (run_lift (readText path) d)]
    change Disk.run (ExceptT.run (match d.readText path with | .error _ => _ | .ok _ => _)) d = _
    cases d.readText path with
    | error fault => rfl
    | ok text =>
        dsimp only
        cases Zones.read? text <;> rfl
  · rfl

theorem makeParent_of_isThere
    (h : ∀ parent, Path.parent? path = some parent → parent ≠ "" → d.isThere parent = true) :
    Disk.run (makeParent path).run d = (.ok (), d) := by
  rw [makeParent]
  cases hparent : Path.parent? path with
  | none => rfl
  | some parent =>
      dsimp only
      by_cases hempty : parent = ""
      · subst hempty
        rfl
      · rw [if_neg (by simpa using hempty), run_of_ok (run_lift (isThere parent) d)]
        have hthere : (Disk.run (isThere parent) d).1 = true := h parent hparent hempty
        rw [hthere]
        rfl

theorem run_openAt (hparent : Disk.run (makeParent path).run d = (.ok (), d'))
    (hloaded : loaded d' path = .ok zones) :
    Disk.run (openAt path).run d = (.ok ⟨path, zones⟩, d') := by
  have hload : Disk.run (loadOrRecover path).run d' = (.ok zones, d') := by
    change Disk.run ((load path).run >>= _) d' = _
    rw [Disk.run_bind, run_load, hloaded]
    rfl
  rw [openAt, run_of_ok hparent, run_of_ok hload]
  rfl

theorem makeParent_of_leads (h : d.Leads path main) :
    Disk.run (makeParent path).run d = (.ok (), d) := by
  exact makeParent_of_isThere fun parent hparent hne =>
    isThere_of_find (h.find_parent hparent hne)

theorem loaded_of_none (h : d.Leads path main) (hnone : d.lookup main = none) :
    loaded d path = .ok Zones.empty := by
  rw [loaded, h.isThere_eq, hnone]
  rfl

theorem loaded_of_written (h : d.Leads path main) (hzones : zones.Fits)
    (hfile : d.lookup main = some (.file (octets zones.write))) :
    loaded d path = .ok zones.rekeyed := by
  have hfind : d.find path = .ok (.file (octets zones.write)) := by rw [h.find_eq, hfile]
  have hread : d.readText path = .ok zones.write := by
    rw [readText_of_isText hfind ⟨_, rfl⟩, text_octets]
  rw [loaded, isThere_of_find hfind, if_pos rfl, hread]
  dsimp only
  rw [Zones.read?_write hzones]

theorem eq_of_not_saves {c : StoreCall} {now : Instant} {reply : c.Reply}
    (h : zones.carryOut now c = .ok (reply, zones')) (hsaves : saves c reply = false) :
    zones' = zones := by
  cases c with
  | getDomain | get | list => exact (Prod.mk.inj (Except.ok.inj h)).2.symm
  | deleteDomain name =>
      obtain ⟨hfound, rfl⟩ := Prod.mk.inj (Except.ok.inj h)
      have hnone : zones.zone? name = none := by
        have hcontains : zones.contains name = false := hfound.trans hsaves
        simpa [SortedMap.contains, Zones.zone?] using hcontains
      refine Zones.ext_zone? fun other => ?_
      rw [Zones.zone?_erase]
      split
      · next hother => rw [hother, hnone]
      · rfl
  | createDomain | markPublished | upsert | restore | flush => cases hsaves

section Siblings

open ZoneKeeper.Path

variable {folder name : List Char}

theorem isExtension_temporary : IsExtension "tmp" := ⟨by simp, by simp⟩

theorem isExtension_backup : IsExtension "backup" := ⟨by simp, by simp⟩

theorem names_temporary (h : Names path folder name) :
    Names (temporaryPath path) folder (stem name ++ ".tmp".toList) :=
  h.sibling isExtension_temporary

theorem names_backup (h : Names path folder name) :
    Names (backupPath path) folder (stem name ++ ".backup".toList) :=
  h.sibling isExtension_backup

theorem ne_of_siblings {backup : Place} (h : Names path folder name)
    (htemporary : d.Leads (temporaryPath path) temporary)
    (hbackup : d.Leads (backupPath path) backup) : backup ≠ temporary := by
  rintro rfl
  have hsame := htemporary.name_eq (names_temporary h) (names_backup h) hbackup
  exact absurd (List.append_cancel_left hsame) (by decide)

end Siblings

structure Houses (d : Disk) (path : String) (main temporary : Place) : Prop where
  main : d.Takes path main
  temporary : d.Takes (temporaryPath path) temporary

namespace Houses

variable (h : Houses d path main temporary)

include h

theorem of_sameFolders (hsame : SameFolders d d') : Houses d' path main temporary :=
  ⟨h.main.of_sameFolders hsame, h.temporary.of_sameFolders hsame⟩

theorem backup_ne_temporary {backup : Place} (hbackup : d.Leads (backupPath path) backup) :
    backup ≠ temporary := by
  obtain ⟨folder, name, hnames⟩ := h.main.leads.names
  exact ne_of_siblings hnames h.temporary.leads hbackup

theorem run_copy (source : String) : ∃ copied,
    Disk.run (copy source (backupPath path)) d
        = ((d.settle (d.copy source (backupPath path))).1, copied)
      ∧ SameFolders d copied ∧ copied.lookup temporary = d.lookup temporary := by
  refine ⟨_, rfl, ?_⟩
  cases hcopy : d.copy source (backupPath path) with
  | error fault => exact ⟨.refl d, rfl⟩
  | ok copied =>
      obtain ⟨backup, hbackup, hchanged⟩ := changedAt_copy hcopy
      exact ⟨hchanged.folders, hchanged.elsewhere _ (h.backup_ne_temporary hbackup.leads).symm⟩

theorem run_create : ∃ created, Disk.run (create (temporaryPath path)) d = (.ok (), created)
    ∧ SameFolders d created ∧ created.lookup temporary = some (.file []) := by
  refine ⟨d.put temporary (.file []), ?_, sameFolders_put h.temporary.free [], ?_⟩
  · change d.settle (d.create (temporaryPath path)) = _
    rw [create_of_takes h.temporary]
    rfl
  · rw [lookup_put h.temporary.free, if_pos rfl]

theorem run_append {old : Octets} (hfile : d.lookup temporary = some (.file old)) (bytes : Octets) :
    ∃ filled, Disk.run (append (temporaryPath path) bytes) d = (.ok (), filled)
      ∧ SameFolders d filled ∧ filled.lookup temporary = some (.file (old ++ bytes)) := by
  refine ⟨d.put temporary (.file (old ++ bytes)), ?_, sameFolders_put h.temporary.free _, ?_⟩
  · change d.settle (d.append (temporaryPath path) bytes) = _
    rw [append_of_leads h.temporary.leads hfile]
    rfl
  · rw [lookup_put h.temporary.free, if_pos rfl]

theorem run_rename {bytes : Octets} (hfile : d.lookup temporary = some (.file bytes)) :
    ∃ moved, Disk.run (rename (temporaryPath path) path) d = (.ok (), moved)
      ∧ SameFolders d moved ∧ moved.lookup main = some (.file bytes) := by
  obtain ⟨moved, hrename, hrenamed⟩ := rename_of_takes h.temporary.leads hfile h.main
  refine ⟨moved, ?_, hrenamed.folders, hrenamed.moved⟩
  change d.settle (d.rename (temporaryPath path) path) = _
  rw [hrename]
  rfl

theorem run_save (zones : Zones) : ∃ saved, Disk.run (save path zones).run d = (.ok (), saved)
    ∧ SameFolders d saved ∧ saved.lookup main = some (.file (octets zones.write)) := by
  obtain ⟨created, hcreate, hsame₁, hempty⟩ := h.run_create
  have h₁ := h.of_sameFolders hsame₁
  obtain ⟨filled, happend, hsame₂, hfilled⟩ := h₁.run_append hempty (octets zones.write)
  have h₂ := h₁.of_sameFolders hsame₂
  rw [save, run_of_ok (run_act hcreate), run_of_ok (run_act happend),
    run_of_ok (run_lift (isThere path) filled)]
  dsimp only
  split
  · obtain ⟨copied, hcopy, hsame₃, hkept⟩ := h₂.run_copy path
    have hlift := run_lift (copy path (backupPath path)) filled
    rw [hcopy] at hlift
    obtain ⟨saved, hrename, hsame₄, hsaved⟩ :=
      (h₂.of_sameFolders hsame₃).run_rename (hkept.trans hfilled)
    exact ⟨saved, (run_of_ok hlift).trans (run_act hrename),
      hsame₁.trans (hsame₂.trans (hsame₃.trans hsame₄)), hsaved⟩
  · obtain ⟨saved, hrename, hsame₃, hsaved⟩ := h₂.run_rename hfilled
    exact ⟨saved, run_act hrename, hsame₁.trans (hsame₂.trans hsame₃), hsaved⟩

theorem run_call {c : StoreCall} {now : Instant} {reply : c.Reply}
    (hcarry : zones.carryOut now c = .ok (reply, zones')) (hsaves : saves c reply = true) :
    ∃ saved, Disk.run (FileStore.call now c ⟨path, zones⟩) d = ((.ok reply, ⟨path, zones'⟩), saved)
      ∧ SameFolders d saved ∧ saved.lookup main = some (.file (octets zones'.write)) := by
  obtain ⟨saved, hsave, hsaved⟩ := h.run_save zones'
  refine ⟨saved, ?_, hsaved⟩
  rw [FileStore.call, hcarry]
  dsimp only
  rw [hsaves, if_pos rfl, Disk.run_bind, hsave]
  rfl

end Houses

end FileStore

end ZoneKeeper
