import ZoneKeeper.Files.Disk
import ZoneKeeper.Store.Call
import ZoneKeeper.Store.Document

namespace ZoneKeeper

structure FileStore where
  path : String
  zones : Zones

namespace FileStore

open FileProgram

def temporaryPath (path : String) : String := Path.withExtension path "tmp"

def backupPath (path : String) : String := Path.withExtension path "backup"

def act (p : FileProgram (Except FileFault Unit)) (describe : FileFault → Error) :
    ExceptT Error FileProgram Unit :=
  ExceptT.mk do return (← p).mapError describe

def save (path : String) (zones : Zones) : ExceptT Error FileProgram Unit := do
  let temporary := temporaryPath path
  act (create temporary) fun fault =>
    .storage s!"Failed to create temp file {temporary}: {fault.message}"
  act (append temporary (octets zones.write)) fun fault =>
    .storage s!"Failed to write to temp file {temporary}: {fault.message}"
  if ← isThere path then
    let _ ← copy path (backupPath path)
  act (rename temporary path) fun fault =>
    .storage s!"Failed to rename {temporary} to {path}: {fault.message}"

def load (path : String) : ExceptT Error FileProgram Zones := do
  if ← isThere path then
    match ← readText path with
    | .error fault => throw (.storage s!"Failed to read store file {path}: {fault.message}")
    | .ok text =>
        match Zones.read? text with
        | some zones => return zones
        | none => throw .json
  else return Zones.empty

def recover (path : String) : FileProgram Zones := do
  let backup := backupPath path
  if ← isThere backup then
    match ← (load backup).run with
    | .ok zones =>
        let _ ← copy backup path
        return zones
    | .error _ => return Zones.empty
  else return Zones.empty

def loadOrRecover (path : String) : ExceptT Error FileProgram Zones :=
  ExceptT.mk do
    match ← (load path).run with
    | .error .json => return .ok (← recover path)
    | result => return result

def makeParent (path : String) : ExceptT Error FileProgram Unit := do
  match Path.parent? path with
  | none => return
  | some parent =>
      if parent.isEmpty then return
      if ← isThere parent then return
      act (makeFolders parent) fun fault =>
        .config s!"Failed to create store directory {parent}: {fault.message}"

def openAt (path : String) : ExceptT Error FileProgram FileStore := do
  makeParent path
  return ⟨path, ← loadOrRecover path⟩

def saves : (c : StoreCall) → c.Reply → Bool
  | .getDomain _, _ => false
  | .get .., _ => false
  | .list .., _ => false
  | .deleteDomain _, found => found
  | _, _ => true

def call (now : Instant) (c : StoreCall) (store : FileStore) :
    FileProgram (c.Answer × FileStore) := do
  match store.zones.carryOut now c with
  | .error e => return (.error e, store)
  | .ok (reply, zones) =>
      if saves c reply then
        match ← (save store.path zones).run with
        | .ok _ => return (.ok reply, { store with zones := zones })
        | .error e => return (.error e, store)
      else return (.ok reply, store)

end FileStore

end ZoneKeeper
