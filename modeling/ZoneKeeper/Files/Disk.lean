import ZoneKeeper.Files.Path
import ZoneKeeper.Program
import ZoneKeeper.Text.Utf8

namespace ZoneKeeper

abbrev Place := List String

inductive Entry where
  | folder
  | file (bytes : Octets)
  deriving DecidableEq, Repr

inductive FileFault where
  | missing
  | exists
  | notFolder
  | isFolder
  | notEmpty
  | notText
  | notRegular
  | busy
  | tooLong
  | zeroByte
  | other (message : String)
  deriving DecidableEq, Repr

def FileFault.message : FileFault → String
  | .missing => "No such file or directory (os error 2)"
  | .exists => "File exists (os error 17)"
  | .notFolder => "Not a directory (os error 20)"
  | .isFolder => "Is a directory (os error 21)"
  | .notEmpty => "Directory not empty (os error 39)"
  | .notText => "stream did not contain valid UTF-8"
  | .notRegular => "the source path is neither a regular file nor a symlink to a regular file"
  | .busy => "Device or resource busy (os error 16)"
  | .tooLong => "File name too long (os error 36)"
  | .zeroByte => "file name contained an unexpected NUL byte"
  | .other message => message

/-- The entries by location. The root and the folder that paths start in are always there. -/
structure Disk where
  entries : List (Place × Entry)
  deriving DecidableEq, Repr

namespace Disk

def empty : Disk := ⟨[]⟩

def root : Place := ["/"]

def lookup (d : Disk) (l : Place) : Option Entry :=
  if l == [] || l == root then some .folder else (d.entries.find? (·.1 == l)).map (·.2)

def put (d : Disk) (l : Place) (e : Entry) : Disk :=
  ⟨(l, e) :: d.entries.filter (·.1 != l)⟩

def remove (d : Disk) (l : Place) : Disk := ⟨d.entries.filter (!l.isPrefixOf ·.1)⟩

def maxName : Nat := 255

def maxPath : Nat := 4095

def enter (d : Disk) (here : Place) (name : String) : Except FileFault Place :=
  if name == "." then .ok here
  else if name == ".." then .ok (if here == root then root else here.dropLast)
  else if maxName < name.utf8ByteSize then .error .tooLong
  else match d.lookup (here ++ [name]) with
    | some .folder => .ok (here ++ [name])
    | some (.file _) => .error .notFolder
    | none => .error .missing

inductive Site where
  | folder (place : Place)
  | named (place : Place) (isClosed : Bool)

def locate (d : Disk) (path : String) : Except FileFault Site := do
  if path.toList.contains '\x00' then throw .zeroByte
  if maxPath < path.utf8ByteSize then throw .tooLong
  let pieces := Path.pieces path
  match pieces.getLast? with
  | none => throw .missing
  | some name =>
      let here ← pieces.dropLast.foldlM d.enter []
      if name == "." || name == ".." then return .folder (← d.enter here name)
      if maxName < name.utf8ByteSize then throw .tooLong
      return .named (here ++ [name]) (Path.isClosed path)

def find (d : Disk) (path : String) : Except FileFault Entry := do
  match ← d.locate path with
  | .folder _ => return .folder
  | .named place isClosed =>
      match d.lookup place with
      | some .folder => return .folder
      | some (.file bytes) => if isClosed then throw .notFolder else return .file bytes
      | none => throw .missing

def isThere (d : Disk) (path : String) : Bool :=
  match d.find path with
  | .ok _ => true
  | .error _ => false

def readBytes (d : Disk) (path : String) : Except FileFault Octets := do
  match ← d.find path with
  | .folder => .error .isFolder
  | .file bytes => .ok bytes

def readText (d : Disk) (path : String) : Except FileFault String := do
  let bytes ← d.readBytes path
  let text := bytes.text
  if octets text == bytes then .ok text else .error .notText

def create (d : Disk) (path : String) : Except FileFault Disk := do
  match ← d.locate path with
  | .named place false =>
      match d.lookup place with
      | some .folder => throw .isFolder
      | _ => return d.put place (.file [])
  | _ => throw .isFolder

def append (d : Disk) (path : String) (bytes : Octets) : Except FileFault Disk := do
  match ← d.locate path with
  | .named place false =>
      match d.lookup place with
      | some (.file old) => return d.put place (.file (old ++ bytes))
      | some .folder => throw .isFolder
      | none => throw .missing
  | _ => throw .isFolder

def copy (d : Disk) (source target : String) : Except FileFault Disk := do
  match ← d.find source with
  | .folder => throw .notRegular
  | .file _ =>
      let d ← d.create target
      d.append target (← d.readBytes source)

def rename (d : Disk) (source target : String) : Except FileFault Disk := do
  match ← d.locate source, ← d.locate target with
  | .named start isClosed, .named goal isClosed' =>
      match d.lookup start with
      | none => throw .missing
      | some .folder => throw .isFolder
      | some (.file bytes) =>
          if isClosed || isClosed' then throw .notFolder
          match d.lookup goal with
          | some .folder => throw .isFolder
          | _ => return (d.remove start).put goal (.file bytes)
  | _, _ => throw .busy

def makeFolder (d : Disk) (path : String) : Except FileFault Disk := do
  match ← d.locate path with
  | .folder _ => throw .exists
  | .named place _ =>
      match d.lookup place with
      | some _ => throw .exists
      | none => return d.put place .folder

def settle (d : Disk) : Except FileFault Disk → Except FileFault Unit × Disk
  | .ok d' => (.ok (), d')
  | .error fault => (.error fault, d)

def ensureFolder (d : Disk) (path : String) : Except FileFault Disk :=
  match d.makeFolder path, d.find path with
  | .error .exists, .ok .folder => .ok d
  | result, _ => result

def ensureLineage (d : Disk) : List String → Except FileFault Unit × Disk
  | [] => (.ok (), d)
  | path :: above =>
      match d.ensureFolder path with
      | .error .missing =>
          match ensureLineage d above with
          | (.ok _, d) => d.settle (d.ensureFolder path)
          | failed => failed
      | result => d.settle result

def makeFolders (d : Disk) (path : String) : Except FileFault Unit × Disk :=
  d.ensureLineage (Path.lineage path)

def write (d : Disk) (path : String) (bytes : Octets) : Except FileFault Disk := do
  (← d.create path).append path bytes

def removeFile (d : Disk) (path : String) : Except FileFault Disk := do
  match ← d.locate path with
  | .folder _ => throw .isFolder
  | .named place isClosed =>
      match d.lookup place with
      | some (.file _) => if isClosed then throw .notFolder else return d.remove place
      | some .folder => throw .isFolder
      | none => throw .missing

def removeFolder (d : Disk) (path : String) : Except FileFault Disk := do
  match ← d.locate path with
  | .folder _ => throw .busy
  | .named place _ =>
      match d.lookup place with
      | some .folder => return d.remove place
      | some (.file _) => throw .notFolder
      | none => throw .missing

end Disk

inductive FileAct where
  | isThere (path : String)
  | makeFolders (path : String)
  | readText (path : String)
  | create (path : String)
  | append (path : String) (bytes : Octets)
  | copy (source target : String)
  | rename (source target : String)
  deriving DecidableEq, Repr

def FileAct.Answer : FileAct → Type
  | .isThere _ => Bool
  | .readText _ => Except FileFault String
  | _ => Except FileFault Unit

abbrev FileProgram := Program FileAct FileAct.Answer

namespace FileProgram

def isThere (path : String) : FileProgram Bool := .act (.isThere path) .done

def makeFolders (path : String) : FileProgram (Except FileFault Unit) :=
  .act (.makeFolders path) .done

def readText (path : String) : FileProgram (Except FileFault String) :=
  .act (.readText path) .done

def create (path : String) : FileProgram (Except FileFault Unit) := .act (.create path) .done

def append (path : String) (bytes : Octets) : FileProgram (Except FileFault Unit) :=
  .act (.append path bytes) .done

def copy (source target : String) : FileProgram (Except FileFault Unit) :=
  .act (.copy source target) .done

def rename (source target : String) : FileProgram (Except FileFault Unit) :=
  .act (.rename source target) .done

end FileProgram

namespace Disk

def handle : (a : FileAct) → Disk → a.Answer × Disk
  | .isThere path, d => (d.isThere path, d)
  | .readText path, d => (d.readText path, d)
  | .makeFolders path, d => d.makeFolders path
  | .create path, d => d.settle (d.create path)
  | .append path bytes, d => d.settle (d.append path bytes)
  | .copy source target, d => d.settle (d.copy source target)
  | .rename source target, d => d.settle (d.rename source target)

def run {α : Type} (p : FileProgram α) (d : Disk) : α × Disk := p.run handle d

end Disk

end ZoneKeeper
