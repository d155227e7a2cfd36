import Mend.Command.Arguments
import Mend.Command.Show
import Mend.Command.Suite
import Mend.Limits.Decode
import Mend.Toml.Parser

/-!
# Running a request

The settings are read first; without them nothing else is done. Then the request is carried out
over whatever files it is given.
-/

namespace Mend.Command

/-- What is said of a settings file that cannot be read. -/
def noSettings (file : String) (fault : ReadFault) (style : Style) : Output :=
  ⟨2, "", style.complain ("could not read '" ++ file ++ "': " ++ fault.message)⟩

/-- What is said of a settings file that holds no settings: its name alone, and no end of line
behind it. -/
def badSettings (file : String) (style : Style) : Output :=
  ⟨2, "", if style.quiet then "" else "could not parse '" ++ file ++ "'"⟩

/-- The limits that a settings file gives, or what is said instead. -/
def settings {m : Type → Type} [Monad m] (files : Files m) (config : Option String)
    (style : Style) : m (Except Output Limits) := do
  match config with
  | none => return .ok .standard
  | some file =>
    match ← files.read file with
    | .error fault => return .error (noSettings file fault style)
    | .ok text =>
      match (Toml.parse? text).bind Limits.ofStatements? with
      | some limits => return .ok limits
      | none => return .error (badSettings file style)

/-- Carry a request out. -/
def run {m : Type → Type} [Monad m] (files : Files m) (request : Request) : m Output := do
  match ← settings files request.config request.style with
  | .error output => return output
  | .ok limits =>
    match request.action with
    | .check names => return check (← names.mapM (readSource files)) limits request.style
    | .tree name => return display (← readSource files name) limits request.style
    | .test directory => suite files directory limits request.style

end Mend.Command
