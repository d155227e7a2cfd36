import Mend.Json.Basic
import Mend.Text.Quoted

/-!
# Writing JSON

Two layouts of the same value: on one line without blanks, and one item a line with two spaces of
indentation for each level. An empty array or object is written on one line in both.
-/

namespace Mend.Json

/-- The four hexadecimal digits of a control character. -/
def controlDigits (code : Nat) : List Char :=
  ['0', '0', Text.Quoted.hexDigit (code / 16), Text.Quoted.hexDigit (code % 16)]

/-- A character inside a string. -/
def escapeChar (c : Char) : List Char :=
  if c = '"' then ['\\', '"']
  else if c = '\\' then ['\\', '\\']
  else if c = '\x08' then ['\\', 'b']
  else if c = '\x0c' then ['\\', 'f']
  else if c = '\n' then ['\\', 'n']
  else if c = '\r' then ['\\', 'r']
  else if c = '\t' then ['\\', 't']
  else if c.toNat < 0x20 then ['\\', 'u'] ++ controlDigits c.toNat
  else [c]

/-- A string with its quotes. -/
def quote (text : String) : String :=
  String.ofList ('"' :: text.toList.flatMap escapeChar ++ ['"'])

/-- A value that holds no other one. -/
def scalarText : Json → String
  | null => "null"
  | bool true => "true"
  | bool false => "false"
  | number literal => literal
  | string value => quote value
  | _ => ""

mutual

/-- The value on one line. -/
def compact : Json → String
  | array items => "[" ++ String.intercalate "," (compactItems items) ++ "]"
  | object members => "\x7b" ++ String.intercalate "," (compactMembers members) ++ "\x7d"
  | json => scalarText json

/-- The items of an array, each on one line. -/
def compactItems : List Json → List String
  | [] => []
  | item :: rest => compact item :: compactItems rest

/-- The members of an object, each on one line. -/
def compactMembers : List (String × Json) → List String
  | [] => []
  | (key, value) :: rest => (quote key ++ ":" ++ compact value) :: compactMembers rest

end

/-- Two spaces for each level. -/
def indentation (level : Nat) : String := String.ofList (List.replicate (2 * level) ' ')

/-- The parts of an array or object, one a line, between its brackets. -/
def layOut (level : Nat) (opening closing : String) : List String → String
  | [] => opening ++ closing
  | parts =>
    opening ++ "\n" ++ String.intercalate ",\n" (parts.map (indentation (level + 1) ++ ·)) ++
      "\n" ++ indentation level ++ closing

mutual

/-- The value with one part a line, the first line already indented. -/
def prettyAt (level : Nat) : Json → String
  | array items => layOut level "[" "]" (prettyItems (level + 1) items)
  | object members => layOut level "\x7b" "\x7d" (prettyMembers (level + 1) members)
  | json => scalarText json

/-- The items of an array at a level. -/
def prettyItems (level : Nat) : List Json → List String
  | [] => []
  | item :: rest => prettyAt level item :: prettyItems level rest

/-- The members of an object at a level. -/
def prettyMembers (level : Nat) : List (String × Json) → List String
  | [] => []
  | (key, value) :: rest =>
    (quote key ++ ": " ++ prettyAt level value) :: prettyMembers level rest

end

/-- The value with one part a line. -/
def pretty (json : Json) : String := prettyAt 0 json

end Mend.Json
