import Mend.Toml.Basic
import Mend.Toml.Moment
import Mend.Toml.Text

/-!
# Reading settings files

The statements of a settings file, or nothing if it is not one. A statement ends with its line; a
list may go on over several lines, with comments between its items, while a table in line may not.
-/

namespace Mend.Toml

/-! ## Keys -/

/-- A character of a key without quotes. -/
def isBare (c : Char) : Bool := c.isAlphanum || c == '_' || c == '-'

/-- One part of a key, and what follows. -/
def keyPart? : List Char → Option (String × List Char)
  | '"' :: cs => (quoted? cs).map fun (part, rest) => (String.ofList part, rest)
  | '\'' :: cs => (literal? cs).map fun (part, rest) => (String.ofList part, rest)
  | cs =>
    match cs.takeWhile isBare with
    | [] => none
    | part => some (String.ofList part, cs.dropWhile isBare)

/-- A key of at most so many parts, and what follows. -/
def keyParts? : Nat → List Char → Option (Key × List Char)
  | 0, _ => none
  | limit + 1, cs => do
    let (part, rest) ← keyPart? (skipGap cs)
    match skipGap rest with
    | '.' :: rest =>
      let (parts, rest) ← keyParts? limit rest
      return (part :: parts, rest)
    | rest => return ([part], rest)

/-- A key, and what follows it. -/
def key? (cs : List Char) : Option (Key × List Char) := keyParts? depthLimit cs

/-! ## Values -/

/-- What follows one of some words. -/
def behindWord? (words : List String) (cs : List Char) : Option (List Char) :=
  words.findSome? fun word => word.toList.isPrefixOf? cs

/-- What follows a value of which nothing is kept. -/
def behindOther? (cs : List Char) : Option (List Char) :=
  behindText? cs <|> behindMoment? cs <|> behindFraction? cs <|>
    behindWord? ["inf", "nan"] (sign cs).2 <|> behindWord? ["true", "false"] cs

/-- A value that does not hold others, and what follows. -/
def single? (cs : List Char) : Option (Value × List Char) :=
  match behindOther? cs with
  | some rest => some (.other, rest)
  | none => (number? cs).map fun (value, rest) => (.number value, rest)

/-- The items of a list up to its closing bracket, each read by `item?`, and what follows. -/
def listItems? (item? : List Char → Option (Value × List Char)) :
    Nat → List Char → Option (List Value × List Char)
  | 0, _ => none
  | fuel + 1, cs => do
    match ← skipLines cs.length cs with
    | ']' :: rest => return ([], rest)
    | cs =>
      let (item, rest) ← item? cs
      match ← skipLines rest.length rest with
      | ']' :: rest => return ([item], rest)
      | ',' :: rest =>
        let (items, rest) ← listItems? item? fuel rest
        return (item :: items, rest)
      | _ => none

/-- The entries of a table in line up to its closing brace, their values read by `value?`, and what
follows. -/
def tableEntries? (value? : List Char → Option (Value × List Char)) :
    Nat → List Char → Option (List (Key × Value) × List Char)
  | 0, _ => none
  | fuel + 1, cs => do
    let (key, rest) ← key? cs
    let (value, rest) ← value? (skipGap (← behind? '=' rest))
    match skipGap rest with
    | '\x7d' :: rest => return ([(key, value)], rest)
    | ',' :: rest =>
      let (entries, rest) ← tableEntries? value? fuel rest
      return ((key, value) :: entries, rest)
    | _ => none

/-- A table in line behind its opening brace, and what follows. -/
def table? (value? : List Char → Option (Value × List Char)) (cs : List Char) :
    Option (Value × List Char) :=
  match skipGap cs with
  | '\x7d' :: rest => some (.table [], rest)
  | cs => do
    let (entries, rest) ← tableEntries? value? (cs.length + 1) cs
    guard (Key.agree (entries.map (·.1)))
    return (.table entries, rest)

/-- A value with lists and tables nested at most so deep, and what follows it. -/
def value? : Nat → List Char → Option (Value × List Char)
  | depth + 1, '[' :: rest =>
    (listItems? (value? depth) (rest.length + 1) rest).map fun (items, rest) => (.list items, rest)
  | depth + 1, '\x7b' :: rest => table? (value? depth) rest
  | _, cs => single? cs

/-! ## Statements -/

/-- A statement, and what follows it on its line. -/
def statement? (cs : List Char) : Option (Statement × List Char) :=
  match cs with
  | '[' :: rest => do
    let (key, rest) ← key? rest
    return (.heading key, ← behind? ']' rest)
  | _ => do
    let (key, rest) ← key? cs
    let (value, rest) ← value? depthLimit (skipGap (← behind? '=' rest))
    return (.assign key value, rest)

/-- The statements of a text, at most as many as there are characters. -/
def statements? : Nat → List Char → Option (List Statement)
  | 0, _ => none
  | fuel + 1, cs => do
    match ← skipLines cs.length cs with
    | [] => return []
    | cs =>
      let (statement, rest) ← statement? cs
      let rest ← restOfLine? rest
      let more ← statements? fuel rest
      return statement :: more

/-- The statements of a settings file; a mark of the byte order in front is passed over. -/
def parse? (text : String) : Option (List Statement) :=
  let cs := text.toList
  let cs := if cs.head? = some '\ufeff' then cs.drop 1 else cs
  statements? (cs.length + 1) cs

end Mend.Toml
