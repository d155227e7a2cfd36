/-!
# JSON values

A value of a JSON text. Numbers keep their literal, so that `1`, `1.0` and `1e0` stay apart, and
objects keep their members in order and with repetitions, so that a repeated key can be noticed.
-/

namespace Mend

/-- A JSON value. -/
inductive Json where
  | null
  | bool (value : Bool)
  /-- A number, as it is written. -/
  | number (literal : String)
  | string (value : String)
  | array (items : List Json)
  | object (members : List (String × Json))
  deriving Inhabited

namespace Json

/-- The number written in decimal digits. -/
def ofNat (n : Nat) : Json := number (toString n)

/-- The members of an object; no other value has any. -/
def members : Json → List (String × Json)
  | object members => members
  | _ => []

/-- The value of the first member with a key. -/
def get? (json : Json) (key : String) : Option Json :=
  (json.members.find? (·.1 == key)).map (·.2)

/-- The number as a natural number, when it is written in digits alone. -/
def toNat? : Json → Option Nat
  | number literal => if literal.toList.all Char.isDigit then literal.toNat? else none
  | _ => none

/-- The text of a string. -/
def toString? : Json → Option String
  | string value => some value
  | _ => none

/-- The items of an array. -/
def toList? : Json → Option (List Json)
  | array items => some items
  | _ => none

/-- The truth value. -/
def toBool? : Json → Option Bool
  | bool value => some value
  | _ => none

end Json

end Mend
