/-!
# Access to files

What the commands need to know of the files around them: the text of a file, whether something is
there, and what a directory holds. The commands are written over any way to answer that, so that
the same code serves the disk and files kept in memory.
-/

namespace Mend.Command

/-- Why the text of a file cannot be had. -/
inductive ReadFault where
  | missing
  | directory
  | notDirectory
  | notText
  /-- Any other reason, in the words of the system. -/
  | other (reason : String)
  deriving DecidableEq, Repr, Inhabited

/-- The wording of a fault. -/
def ReadFault.message : ReadFault → String
  | missing => "No such file or directory (os error 2)"
  | directory => "Is a directory (os error 21)"
  | notDirectory => "Not a directory (os error 20)"
  | notText => "stream did not contain valid UTF-8"
  | other reason => reason

/-- The text that the bytes of a file spell. -/
def decodeText (bytes : ByteArray) : Except ReadFault String :=
  match String.fromUTF8? bytes with
  | some text => .ok text
  | none => .error .notText

/-- A way to look at files. -/
structure Files (m : Type → Type) where
  /-- The text of a file. -/
  read : String → m (Except ReadFault String)
  /-- Whether there is a file or directory. -/
  isThere : String → m Bool
  /-- The names in a directory; none if it is not one. -/
  list : String → m (List String)

/-- The path of something in a directory. -/
def join (directory name : String) : String :=
  if directory = "" || directory.endsWith "/" then directory ++ name else directory ++ "/" ++ name

end Mend.Command
