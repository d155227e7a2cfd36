import Mend.Json.Basic

/-!
# Reading JSON

A strict reader: one value, blanks of the four permitted kinds around every part, no comments, no
trailing commas, no leading zeros, and no control character inside a string. Each of the mutually
recursive readers takes at least one character between two of its calls, so the number of
characters bounds their depth.
-/

namespace Mend.Json

/-- The blanks between the parts of a JSON text. -/
def isGap (c : Char) : Bool := c == ' ' || c == '\t' || c == '\n' || c == '\r'

/-- The text without the blanks it starts with. -/
def skipGap (cs : List Char) : List Char := cs.dropWhile isGap

/-! ## Numbers -/

/-- One digit or more, and what follows. -/
def digits? (cs : List Char) : Option (List Char × List Char) :=
  match cs.takeWhile Char.isDigit with
  | [] => none
  | ds => some (ds, cs.dropWhile Char.isDigit)

/-- The digits before the point: a zero alone, or digits that do not start with one. -/
def wholePart? : List Char → Option (List Char × List Char)
  | '0' :: cs => some (['0'], cs)
  | cs => digits? cs

/-- The point and the digits behind it, if there are any. -/
def fraction? : List Char → Option (List Char × List Char)
  | '.' :: cs => (digits? cs).map fun (ds, rest) => ('.' :: ds, rest)
  | cs => some ([], cs)

/-- The sign of an exponent, if there is one. -/
def exponentSign : List Char → List Char × List Char
  | '+' :: cs => (['+'], cs)
  | '-' :: cs => (['-'], cs)
  | cs => ([], cs)

/-- The exponent, if there is one. -/
def exponent? : List Char → Option (List Char × List Char)
  | [] => some ([], [])
  | c :: cs =>
    if c = 'e' || c = 'E' then
      let (sign, rest) := exponentSign cs
      (digits? rest).map fun (ds, rest) => (c :: sign ++ ds, rest)
    else some ([], c :: cs)

/-- The literal of a number without a sign, and what follows. -/
def unsigned? (cs : List Char) : Option (List Char × List Char) := do
  let (whole, rest) ← wholePart? cs
  let (decimals, rest) ← fraction? rest
  let (power, rest) ← exponent? rest
  return (whole ++ decimals ++ power, rest)

/-- The literal of a number, and what follows. -/
def number? : List Char → Option (List Char × List Char)
  | '-' :: cs => (unsigned? cs).map fun (literal, rest) => ('-' :: literal, rest)
  | cs => unsigned? cs

/-! ## Strings -/

/-- The value of a hexadecimal digit. -/
def hexValue? (c : Char) : Option Nat :=
  if '0' ≤ c ∧ c ≤ '9' then some (c.toNat - 48)
  else if 'a' ≤ c ∧ c ≤ 'f' then some (c.toNat - 87)
  else if 'A' ≤ c ∧ c ≤ 'F' then some (c.toNat - 55)
  else none

/-- The number written by four hexadecimal digits. -/
def hexQuad? (a b c d : Char) : Option Nat := do
  let a ← hexValue? a
  let b ← hexValue? b
  let c ← hexValue? c
  let d ← hexValue? d
  return ((a * 16 + b) * 16 + c) * 16 + d

/-- The character written by a backslash and one letter. -/
def simpleEscape? : Char → Option Char
  | '"' => some '"'
  | '\\' => some '\\'
  | '/' => some '/'
  | 'b' => some '\x08'
  | 'f' => some '\x0c'
  | 'n' => some '\n'
  | 'r' => some '\r'
  | 't' => some '\t'
  | _ => none

/-- The character of a pair of surrogates. -/
def surrogatePair? (high low : Nat) : Option Char :=
  if 0xd800 ≤ high ∧ high < 0xdc00 ∧ 0xdc00 ≤ low ∧ low < 0xe000 then
    some (Char.ofNat (0x10000 + (high - 0xd800) * 0x400 + (low - 0xdc00)))
  else none

/-- The characters up to the closing quote, and what follows it. -/
def stringBody? : List Char → Option (List Char × List Char)
  | '"' :: cs => some ([], cs)
  | '\\' :: 'u' :: a :: b :: c :: d :: '\\' :: 'u' :: e :: f :: g :: h :: cs =>
    match hexQuad? a b c d, hexQuad? e f g h with
    | some high, some low =>
      match surrogatePair? high low with
      | some char => (stringBody? cs).map fun (inside, rest) => (char :: inside, rest)
      | none =>
        if 0xd800 ≤ high ∧ high < 0xe000 then none
        else (stringBody? ('\\' :: 'u' :: e :: f :: g :: h :: cs)).map
          fun (inside, rest) => (Char.ofNat high :: inside, rest)
    | _, _ => none
  | '\\' :: 'u' :: a :: b :: c :: d :: cs =>
    match hexQuad? a b c d with
    | some code =>
      if 0xd800 ≤ code ∧ code < 0xe000 then none
      else (stringBody? cs).map fun (inside, rest) => (Char.ofNat code :: inside, rest)
    | none => none
  | '\\' :: c :: cs =>
    match simpleEscape? c with
    | some char => (stringBody? cs).map fun (inside, rest) => (char :: inside, rest)
    | none => none
  | c :: cs =>
    if c.toNat < 0x20 then none
    else (stringBody? cs).map fun (inside, rest) => (c :: inside, rest)
  | [] => none

/-! ## Values -/

/-- A fixed word, and what follows it. -/
def word? (word : List Char) (json : Json) (cs : List Char) : Option (Json × List Char) :=
  if word.isPrefixOf cs then some (json, cs.drop word.length) else none

/-- A value that holds no other one, and what follows it. -/
def scalar? (cs : List Char) : Option (Json × List Char) :=
  match cs with
  | '"' :: rest =>
    (stringBody? rest).map fun (inside, rest) => (string (String.ofList inside), rest)
  | 'n' :: _ => word? "null".toList null cs
  | 't' :: _ => word? "true".toList (bool true) cs
  | 'f' :: _ => word? "false".toList (bool false) cs
  | _ => (number? cs).map fun (literal, rest) => (number (String.ofList literal), rest)

mutual

/-- A value without blanks in front, and what follows it. -/
def value? : Nat → List Char → Option (Json × List Char)
  | 0, _ => none
  | depth + 1, cs =>
    match cs with
    | '[' :: rest =>
      match skipGap rest with
      | ']' :: rest => some (array [], rest)
      | rest => (items? depth rest).map fun (items, rest) => (array items, rest)
    | '\x7b' :: rest =>
      match skipGap rest with
      | '\x7d' :: rest => some (object [], rest)
      | rest => (members? depth rest).map fun (members, rest) => (object members, rest)
    | _ => scalar? cs

/-- The items of an array up to its closing bracket, and what follows it. -/
def items? : Nat → List Char → Option (List Json × List Char)
  | 0, _ => none
  | depth + 1, cs => do
    let (item, rest) ← value? depth cs
    match skipGap rest with
    | ']' :: rest => return ([item], rest)
    | ',' :: rest =>
      let (items, rest) ← items? depth (skipGap rest)
      return (item :: items, rest)
    | _ => none

/-- The members of an object up to its closing brace, and what follows it. -/
def members? : Nat → List Char → Option (List (String × Json) × List Char)
  | 0, _ => none
  | depth + 1, cs => do
    match cs with
    | '"' :: rest =>
      let (key, rest) ← stringBody? rest
      match skipGap rest with
      | ':' :: rest =>
        let (value, rest) ← value? depth (skipGap rest)
        match skipGap rest with
        | '\x7d' :: rest => return ([(String.ofList key, value)], rest)
        | ',' :: rest =>
          let (members, rest) ← members? depth (skipGap rest)
          return ((String.ofList key, value) :: members, rest)
        | _ => none
      | _ => none
    | _ => none

end

/-- The value that a text holds, with nothing but blanks around it. -/
def parse? (text : String) : Option Json := do
  let cs := text.toList
  let (json, rest) ← value? (cs.length + 1) (skipGap cs)
  if skipGap rest = [] then some json else none

end Mend.Json
