import Mend.Command.Run

/-!
# The program

The outer layer: it looks at the disk, carries the request out, and writes what came of it.
-/

namespace Mend

/-- The fault that an error of the system stands for. -/
def faultOf : IO.Error → Command.ReadFault
  | .noFileOrDirectory .. => .missing
  | .inappropriateType _ code _ => if code = 21 then .directory else .notDirectory
  | error => .other (toString error)

/-- The text of a file on disk. -/
def readDisk (path : String) : IO (Except Command.ReadFault String) := do
  match ← (IO.FS.readBinFile path).toBaseIO with
  | .ok bytes => return Command.decodeText bytes
  | .error error => return .error (faultOf error)

/-- Whether there is a file or directory on disk. -/
def isOnDisk (path : String) : IO Bool := do
  match ← readDisk path with
  | .error .missing | .error .notDirectory => return false
  | _ => return true

/-- The names in a directory on disk. -/
def listDisk (path : String) : IO (List String) := do
  match ← (IO.FS.DirEntry.mk path "").root.readDir.toBaseIO with
  | .ok entries => return entries.toList.map (·.fileName)
  | .error _ => return []

/-- Looking at the disk. -/
def disk : Command.Files IO := ⟨readDisk, isOnDisk, listDisk⟩

/-- How the program is to be called. -/
def usage : String :=
  "usage: [--output text|json] [--quiet] [--verbose] [--config FILE] " ++
    "check FILES... | tree FILE | test [DIR]\n"

end Mend

/-- Carry out what the arguments ask for. -/
def main (arguments : List String) : IO UInt32 := do
  match Mend.Command.Request.ofArguments? arguments with
  | none =>
    IO.eprint Mend.usage
    return 2
  | some request =>
    let output ← Mend.Command.run Mend.disk request
    IO.print output.results
    IO.eprint output.complaints
    return UInt32.ofNat output.status
