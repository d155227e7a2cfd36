import Mend.Command.Output

/-!
# Arguments

Options that hold for every command may stand before the command or among its own arguments; of
two values for one option the later counts. What is not an option is first the command, then what
the command is about.
-/

namespace Mend.Command

/-- What is to be done. -/
inductive Action where
  | check (files : List String)
  | tree (file : String)
  | test (directory : String)
  deriving DecidableEq, Repr, Inhabited

/-- A request to the program. -/
structure Request where
  action : Action
  style : Style
  /-- The settings file. -/
  config : Option String
  deriving DecidableEq, Repr, Inhabited

/-- The options found so far, and the other arguments in reverse. -/
structure Parsed where
  style : Style
  config : Option String
  others : List String

/-- The format with a name. -/
def Format.ofName? : String → Option Format
  | "text" => some .text
  | "json" => some .json
  | _ => none

/-- The value of an option that is written with its name. -/
def attached? (option argument : String) : Option String :=
  let front := option ++ "="
  if front.toList.isPrefixOf argument.toList then
    some (String.ofList (argument.toList.drop front.length))
  else none

/-- The parse with another format. -/
def Parsed.setFormat (parsed : Parsed) (format : Format) : Parsed :=
  { parsed with style := { parsed.style with format := format } }

/-- The arguments sorted into options and others; none if one is not understood. -/
def sortArguments (parsed : Parsed) : List String → Option Parsed
  | [] => some parsed
  | "--" :: rest => some { parsed with others := rest.reverse ++ parsed.others }
  | "--quiet" :: rest =>
    sortArguments { parsed with style := { parsed.style with quiet := true } } rest
  | "--verbose" :: rest => sortArguments parsed rest
  | "-v" :: rest => sortArguments parsed rest
  | "--output" :: value :: rest =>
    (Format.ofName? value).bind fun format => sortArguments (parsed.setFormat format) rest
  | "--config" :: value :: rest => sortArguments { parsed with config := some value } rest
  | argument :: rest =>
    match attached? "--output" argument, attached? "--config" argument with
    | some value, _ =>
      (Format.ofName? value).bind fun format => sortArguments (parsed.setFormat format) rest
    | none, some value => sortArguments { parsed with config := some value } rest
    | none, none =>
      if argument.startsWith "-" && argument ≠ "-" then none
      else sortArguments { parsed with others := argument :: parsed.others } rest

/-- The directory of the suite that is run when none is named. -/
def standardSuite : String := "conformance"

/-- What arguments that are not options ask for. -/
def Action.ofArguments? : List String → Option Action
  | "check" :: file :: files => some (.check (file :: files))
  | ["tree", file] => some (.tree file)
  | ["test"] => some (.test standardSuite)
  | ["test", directory] => some (.test directory)
  | _ => none

/-- The request that some arguments make. -/
def Request.ofArguments? (arguments : List String) : Option Request := do
  let parsed ← sortArguments ⟨⟨.text, false⟩, none, []⟩ arguments
  let action ← Action.ofArguments? parsed.others.reverse
  return ⟨action, parsed.style, parsed.config⟩

end Mend.Command
