import ZoneKeeper.Settings.Basic
import ZoneKeeper.Store.File

namespace ZoneKeeper

inductive Store where
  | memory (zones : Zones)
  | file (store : FileStore)

namespace Store

def ofSettings (settings : StoreSettings) : ExceptT Error FileProgram Store :=
  match settings.validate with
  | .error e => throw e
  | .ok _ =>
      match settings with
      | .memory => return .memory Zones.empty
      | .file path => return .file (← FileStore.openAt path)

def zones : Store → Zones
  | .memory zones => zones
  | .file store => store.zones

def call (now : Instant) (c : StoreCall) : Store → FileProgram (c.Answer × Store)
  | .memory zones => return ((zones.call now c).1, .memory (zones.call now c).2)
  | .file store => do
      let (answer, store) ← store.call now c
      return (answer, .file store)

end Store

end ZoneKeeper
