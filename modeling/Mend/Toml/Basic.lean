/-!
# Settings files

The part of TOML that settings files use: tables, given by a heading, by dotted keys or in line,
whose values are whole numbers or lists of them. A list may go on with any other values, so these
are known as well, though nothing is kept of what they say.
-/

namespace Mend.Toml

/-- A key, part by part. -/
abbrev Key := List String

/-- A value in a settings file. -/
inductive Value where
  /-- A whole number. -/
  | number (value : Int)
  /-- A text, a truth value, a fraction, or a date or time. -/
  | other
  | list (items : List Value)
  | table (entries : List (Key × Value))
  deriving Repr, Inhabited

/-- A line of a settings file. -/
inductive Statement where
  /-- The heading of a table. -/
  | heading (key : Key)
  /-- A key and its value. -/
  | assign (key : Key) (value : Value)
  deriving Repr, Inhabited

/-- Whether one key begins with the other. The shorter one then stands for a value, and the longer
one for an entry of a table in the same place. -/
def Key.clashes (a b : Key) : Bool := a.isPrefixOf b || b.isPrefixOf a

/-- Whether one table can hold all of the keys. -/
def Key.agree : List Key → Bool
  | [] => true
  | key :: rest => rest.all (fun other => !clashes key other) && agree rest

/-- How deep lists and tables may be nested in each other, and of how many parts a key may be. -/
def depthLimit : Nat := 79

end Mend.Toml
