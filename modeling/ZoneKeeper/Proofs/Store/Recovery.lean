import ZoneKeeper.Proofs.Store.Crash

namespace ZoneKeeper

def Disk.zones? (d : Disk) (path : String) : Option Zones :=
  match d.readText path with
  | .ok text => Zones.read? text
  | .error _ => none

namespace FileStore

open Disk

variable {d : Disk} {path : String} {bytes : Octets} {zones : Zones}

theorem loaded_eq_ok_iff (h : d.isThere path = true) :
    loaded d path = .ok zones ↔ d.zones? path = some zones := by
  rw [loaded, if_pos h, Disk.zones?]
  cases d.readText path with
  | error fault => simp
  | ok text =>
      dsimp only
      cases Zones.read? text <;> simp

theorem zones?_of_not_isThere (h : d.isThere path = false) : d.zones? path = none := by
  have hfind : ∀ entry, d.find path ≠ .ok entry := by
    intro entry hentry
    rw [isThere_of_find hentry] at h
    cases h
  rw [Disk.zones?, Disk.readText, readBytes]
  cases hd : d.find path with
  | error fault => rfl
  | ok entry => exact absurd hd (hfind entry)

theorem run_recover (d : Disk) (path : String) :
    (Disk.run (recover path) d).1 = (d.zones? (backupPath path)).getD Zones.empty := by
  rw [recover, Disk.run_bind]
  change (Disk.run (if d.isThere (backupPath path) = true then _ else _) d).1 = _
  cases hthere : d.isThere (backupPath path) with
  | false =>
      rw [zones?_of_not_isThere hthere]
      rfl
  | true =>
      rw [if_pos rfl, Disk.run_bind, run_load]
      cases hloaded : loaded d (backupPath path) with
      | ok zones =>
          rw [(loaded_eq_ok_iff hthere).1 hloaded]
          rfl
      | error e =>
          have hnone : d.zones? (backupPath path) = none := by
            rw [Option.eq_none_iff_forall_ne_some]
            intro zones hzones
            rw [(loaded_eq_ok_iff hthere).2 hzones] at hloaded
            cases hloaded
          rw [hnone]
          rfl

section Invalid

variable (hfile : d.find path = .ok (.file bytes)) (hinvalid : d.zones? path = none)

include hfile

include hinvalid in
theorem loaded_of_isText (htext : bytes.IsText) : loaded d path = .error .json := by
  rw [loaded, isThere_of_find hfile, if_pos rfl]
  rw [Disk.zones?] at hinvalid
  rw [readText_of_isText hfile htext] at hinvalid ⊢
  dsimp only at hinvalid ⊢
  rw [hinvalid]

include hinvalid in
theorem run_openAt_of_isText (htext : bytes.IsText) : ∃ d', Disk.run (openAt path).run d
    = (.ok ⟨path, (d.zones? (backupPath path)).getD Zones.empty⟩, d') := by
  obtain ⟨main, hleads⟩ := leads_of_find hfile
  have hload : Disk.run (loadOrRecover path).run d
      = (.ok (Disk.run (recover path) d).1, (Disk.run (recover path) d).2) := by
    change Disk.run ((load path).run >>= _) d = _
    rw [Disk.run_bind, run_load, loaded_of_isText hfile hinvalid htext]
    dsimp only
    rw [Disk.run_bind]
    rfl
  rw [openAt, run_of_ok (makeParent_of_leads hleads), run_of_ok hload, run_recover]
  exact ⟨_, rfl⟩

theorem run_openAt_of_not_isText (htext : ¬ bytes.IsText) :
    Disk.run (openAt path).run d = (.error
      (.storage s!"Failed to read store file {path}: {FileFault.notText.message}"), d) := by
  obtain ⟨main, hleads⟩ := leads_of_find hfile
  have hload : Disk.run (loadOrRecover path).run d = (.error
      (.storage s!"Failed to read store file {path}: {FileFault.notText.message}"), d) := by
    change Disk.run ((load path).run >>= _) d = _
    rw [Disk.run_bind, run_load, loaded, isThere_of_find hfile, if_pos rfl,
      readText_of_not_isText hfile htext]
    rfl
  rw [openAt, run_of_ok (makeParent_of_leads hleads), run_of_error hload]

include hinvalid in
theorem recovers_iff_text : (∃ d', Disk.run (openAt path).run d
    = (.ok ⟨path, (d.zones? (backupPath path)).getD Zones.empty⟩, d')) ↔ bytes.IsText := by
  refine ⟨fun ⟨d', hopen⟩ => ?_, run_openAt_of_isText hfile hinvalid⟩
  by_contra htext
  rw [run_openAt_of_not_isText hfile htext] at hopen
  cases hopen

end Invalid

namespace Example

def damaged (bytes : Octets) : Disk :=
  ⟨[(["zones.json"], .file bytes), (["zones.backup"], .file (octets created.write))]⟩

theorem zones?_backup (bytes : Octets) :
    (damaged bytes).zones? (backupPath "zones.json") = some created := by
  have hleads : (damaged bytes).Leads (backupPath "zones.json") ["zones.backup"] := rfl
  have hloaded := loaded_of_written hleads fits_created.1 rfl
  rw [Zones.rekeyed_of_isKeyed fits_created.2] at hloaded
  exact (loaded_eq_ok_iff rfl).1 hloaded

end Example

theorem garbage_is_recovered : ∃ d',
    Disk.run (openAt "zones.json").run (Example.damaged (octets "corrupted json data"))
      = (.ok ⟨"zones.json", Example.created⟩, d') := by
  have hinvalid : (Example.damaged (octets "corrupted json data")).zones? "zones.json" = none := rfl
  have hopen := (recovers_iff_text rfl hinvalid).2 ⟨_, rfl⟩
  rw [Example.zones?_backup] at hopen
  exact hopen

theorem lone_byte_is_not_recovered : ∃ e,
    (Example.damaged [0xff]).find "zones.json" = .ok (.file [0xff])
      ∧ (Example.damaged [0xff]).zones? "zones.json" = none
      ∧ (Example.damaged [0xff]).zones? (backupPath "zones.json") = some Example.created
      ∧ Disk.run (openAt "zones.json").run (Example.damaged [0xff])
        = (.error (.storage e), Example.damaged [0xff]) := by
  have hbyte : ¬ Octets.IsText [0xff] := by
    intro htext
    exact absurd htext.octets_text (by decide)
  exact ⟨_, rfl, rfl, Example.zones?_backup [0xff], run_openAt_of_not_isText rfl hbyte⟩

end FileStore

end ZoneKeeper
