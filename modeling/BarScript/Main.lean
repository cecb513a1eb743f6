import BarScript.Arith.Double
import BarScript.Command.Execute

/-!
# The program

The command line on the files of the system.
-/

namespace BarScript

/-- The fault of a code of the system. -/
def FileFault.ofCode (code : UInt32) (details : String) : FileFault :=
  if code = 2 then .notFound
  else if code = 20 then .notDirectory
  else if code = 21 then .isDirectory
  else if code = 36 then .nameTooLong
  else .other s!"{details} (os error {code})"

/-- The fault of an error of the system. -/
def FileFault.ofError : IO.Error → FileFault
  | .noFileOrDirectory _ code details => .ofCode code details
  | .inappropriateType _ code details => .ofCode code details
  | .invalidArgument _ code details => .ofCode code details
  | .permissionDenied _ code details => .ofCode code details
  | .resourceExhausted _ code details => .ofCode code details
  | .alreadyExists _ code details => .ofCode code details
  | .otherError code details => .ofCode code details
  | e => .other (toString e)

/-- A path of the system. -/
def systemPath (path : String) := (IO.FS.DirEntry.mk path "").root

/-- A computation on files, with its fault as a value. -/
def faulting {β : Type} (x : IO β) : IO (Except FileFault β) := do
  match ← x.toBaseIO with
  | .ok y => return .ok y
  | .error e => return .error (.ofError e)

instance : Files IO where
  readText path := do
    match ← faulting (IO.FS.readBinFile (systemPath path)) with
    | .error fault => return .error fault
    | .ok bytes =>
      match String.fromUTF8? bytes with
      | some s => return .ok s
      | none => return .error .notUtf8
  names path := do
    let entries ← faulting (systemPath path).readDir
    return entries.map fun es => es.toList.map (·.fileName)
  isThere path := (systemPath path).pathExists
  writeText path s := faulting (IO.FS.writeFile (systemPath path) s)

end BarScript

/-- Reads the arguments and performs the command that they give. -/
def main (args : List String) : IO UInt32 := do
  match BarScript.Command.read args with
  | .error e =>
    (if e.exitCode = 0 then IO.println else IO.eprintln) e.message
    return e.exitCode.toUInt32
  | .ok command =>
    let (code, transcript) ← (command.perform Float : IO (Nat × BarScript.Transcript))
    IO.eprint transcript.told
    IO.print transcript.printed
    return code.toUInt32
