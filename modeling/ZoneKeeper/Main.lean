import Std.Time.DateTime.Timestamp
import ZoneKeeper.Service.Daemon

namespace ZoneKeeper.Main

def environment : IO Environment := do
  let found ← DaemonSettings.variableNames.mapM fun name => do
    return (← IO.getEnv name).map (name, ·)
  return found.filterMap id

def codeAndDetails? : IO.Error → Option (UInt32 × String)
  | .alreadyExists _ code details => some (code, details)
  | .otherError code details => some (code, details)
  | .resourceBusy code details => some (code, details)
  | .resourceVanished code details => some (code, details)
  | .unsupportedOperation code details => some (code, details)
  | .hardwareFault code details => some (code, details)
  | .unsatisfiedConstraints code details => some (code, details)
  | .illegalOperation code details => some (code, details)
  | .protocolError code details => some (code, details)
  | .timeExpired code details => some (code, details)
  | .interrupted _ code details => some (code, details)
  | .noFileOrDirectory _ code details => some (code, details)
  | .invalidArgument _ code details => some (code, details)
  | .permissionDenied _ code details => some (code, details)
  | .resourceExhausted _ code details => some (code, details)
  | .inappropriateType _ code details => some (code, details)
  | .noSuchThing _ code details => some (code, details)
  | .unexpectedEof => none
  | .userError _ => none

def fault (e : IO.Error) : FileFault :=
  match codeAndDetails? e with
  | some (code, details) => .other s!"{details} (os error {code})"
  | none => .other (toString e)

def attempt {α : Type} (action : IO α) : IO (Except FileFault α) := do
  try
    return .ok (← action)
  catch e => return .error (fault e)

def isThere (path : String) : IO Bool := do
  try
    let _ ← IO.FS.Handle.mk path .read
    return true
  catch
    | .permissionDenied .. => return true
    | _ => return false

def readText (path : String) : IO (Except FileFault String) := do
  match ← attempt (IO.FS.readBinFile path) with
  | .error e => return .error e
  | .ok bytes =>
      match String.fromUTF8? bytes with
      | some text => return .ok text
      | none => return .error .notText

def append (path : String) (bytes : Octets) : IO Unit := do
  let file ← IO.FS.Handle.mk path .append
  file.write (ByteArray.mk bytes.toArray)
  file.flush

def copy (source target : String) : IO Unit := do
  IO.FS.writeBinFile target (← IO.FS.readBinFile source)

def handleFile : (a : FileAct) → IO a.Answer
  | .isThere path => isThere path
  | .makeFolders path => attempt (IO.FS.createDirAll path)
  | .readText path => readText path
  | .create path => attempt (IO.FS.writeFile path "")
  | .append path bytes => attempt (append path bytes)
  | .copy source target => attempt (copy source target)
  | .rename source target => attempt (IO.FS.rename source target)

def readClock : IO Instant := do
  let nanos : Int := (← Std.Time.Timestamp.now).toNanosecondsSinceUnixEpoch.val
  return ⟨nanos / 1000000000, (nanos % 1000000000).toNat⟩

def withoutEnd (line : String) : String :=
  match line.toList.reverse with
  | '\n' :: '\r' :: rest => String.ofList rest.reverse
  | '\n' :: rest => String.ofList rest.reverse
  | rest => String.ofList rest.reverse

def readLine : IO InputLine := do
  try
    let line ← (← IO.getStdin).getLine
    return if line.isEmpty then .finished else .line (withoutEnd line)
  catch _ => return .unreadable

def printLine (line : String) : IO Unit := do
  let output ← IO.getStdout
  output.putStrLn line
  output.flush

def handle : (a : HostAct) → IO a.Answer
  | .file a => handleFile a
  | .readClock => readClock
  | .wait milliseconds => IO.sleep (min milliseconds 0xffffffff).toUInt32
  | .readLine => readLine
  | .printLine line => printLine line
  | .complain line => do (← IO.getStderr).putStrLn line

end ZoneKeeper.Main

def main : IO UInt32 := do
  let program := ZoneKeeper.Daemon.run UInt64.size (← ZoneKeeper.Main.environment)
  return (← program.interpret ZoneKeeper.Main.handle).toNat.toUInt32
