import Mend.Toml.Number

/-!
# Dates and times of settings files

A date of the calendar, a time of the day, or both with or without the distance from universal
time. Every part has a fixed number of digits and its own bounds.
-/

namespace Mend.Toml

/-- The value of a fixed number of digits, and what follows. -/
def fixed? (count : Nat) (cs : List Char) : Option (Nat × List Char) := do
  let digits ← (cs.take count).mapM (digit? 10)
  guard (digits.length = count)
  return (valueOf 10 digits, cs.drop count)

/-- A part of two digits within bounds, and what follows. -/
def part? (low high : Nat) (cs : List Char) : Option (Nat × List Char) := do
  let (value, rest) ← fixed? 2 cs
  guard (low ≤ value ∧ value ≤ high)
  return (value, rest)

/-- What follows a sign that must stand here. -/
def behind? (c : Char) (cs : List Char) : Option (List Char) := [c].isPrefixOf? cs

/-! ## Dates -/

/-- Whether a year has a day more. -/
def isLeap (year : Nat) : Bool := year % 4 == 0 && (year % 100 != 0 || year % 400 == 0)

/-- How many days a month has. -/
def daysIn (year month : Nat) : Nat :=
  if month = 2 then if isLeap year then 29 else 28
  else if month = 4 ∨ month = 6 ∨ month = 9 ∨ month = 11 then 30
  else 31

/-- What follows a date. -/
def behindDate? (cs : List Char) : Option (List Char) := do
  let (year, cs) ← fixed? 4 cs
  let (month, cs) ← part? 1 12 (← behind? '-' cs)
  let (_, cs) ← part? 1 (daysIn year month) (← behind? '-' cs)
  return cs

/-! ## Times -/

/-- What follows the fraction of a second, if there is one. -/
def skipFraction : List Char → List Char
  | '.' :: c :: cs => if c.isDigit then cs.dropWhile Char.isDigit else '.' :: c :: cs
  | cs => cs

/-- What follows a time of the day; a minute may have a leap second. -/
def behindTime? (cs : List Char) : Option (List Char) := do
  let (_, cs) ← part? 0 23 cs
  let (_, cs) ← part? 0 59 (← behind? ':' cs)
  let (_, cs) ← part? 0 60 (← behind? ':' cs)
  return skipFraction cs

/-- What follows the distance of a place, in hours and minutes. -/
def behindDistance? (cs : List Char) : Option (List Char) := do
  let (_, cs) ← part? 0 23 cs
  let (_, cs) ← part? 0 59 (← behind? ':' cs)
  return cs

/-- What follows the distance from universal time, if it is given. -/
def behindOffset? : List Char → Option (List Char)
  | 'Z' :: cs => some cs
  | 'z' :: cs => some cs
  | '+' :: cs => behindDistance? cs
  | '-' :: cs => behindDistance? cs
  | cs => some cs

/-! ## Both -/

/-- What follows the time that may stand behind a date. -/
def behindClock? : List Char → Option (List Char)
  | c :: cs =>
    if c = 'T' || c = 't' || c = ' ' then (behindTime? cs).bind behindOffset? else none
  | [] => none

/-- What follows a date, a date with a time, or a time. -/
def behindMoment? (cs : List Char) : Option (List Char) :=
  match behindDate? cs with
  | some rest => some ((behindClock? rest).getD rest)
  | none => behindTime? cs

end Mend.Toml
