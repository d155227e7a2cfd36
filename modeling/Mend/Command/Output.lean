import Mend.Json.Printer

/-!
# What a command says

A command ends with a status and has written to two channels. Results go to one of them and
complaints to the other, both as text or as JSON.
-/

namespace Mend.Command

/-- The form of results and complaints. -/
inductive Format where
  | text
  | json
  deriving DecidableEq, Repr, Inhabited

/-- How a command is to speak. -/
structure Style where
  format : Format
  /-- Leave out what is not asked for. -/
  quiet : Bool
  deriving DecidableEq, Repr, Inhabited

/-- What a command has said, and the status it ends with. -/
structure Output where
  status : Nat
  results : String
  complaints : String
  deriving DecidableEq, Repr, Inhabited

/-- A complaint, with the end of its line. A quiet command makes none. -/
def Style.complain (style : Style) (message : String) : String :=
  if style.quiet then ""
  else
    match style.format with
    | .text => message ++ "\n"
    | .json => (Json.object [("error", .string message)]).compact ++ "\n"

end Mend.Command
