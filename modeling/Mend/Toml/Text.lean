import Mend.Json.Parser

/-!
# Lines and texts of settings files

Blanks, comments and the ends of lines, and the four ways to write a text: in double quotes, with
escapes, or in single quotes, without; and either on one line or, in triple quotes, over several.
-/

namespace Mend.Toml

/-! ## Lines -/

/-- A blank inside a line. -/
def isGap (c : Char) : Bool := c == ' ' || c == '\t'

/-- The text without the blanks it starts with. -/
def skipGap (cs : List Char) : List Char := cs.dropWhile isGap

/-- A character that may stand in a comment or a text. -/
def isPlain (c : Char) : Bool := c == '\t' || (decide (c.toNat ≥ 0x20) && c.toNat != 0x7f)

/-- What follows the end of the line: the end of the file counts as one. -/
def lineEnd? : List Char → Option (List Char)
  | [] => some []
  | '\n' :: cs => some cs
  | '\r' :: '\n' :: cs => some cs
  | _ => none

/-- What follows the rest of a line that holds nothing but blanks and a comment. -/
def restOfLine? (cs : List Char) : Option (List Char) :=
  match skipGap cs with
  | '#' :: comment => lineEnd? (comment.dropWhile isPlain)
  | cs => lineEnd? cs

/-- What is behind blanks, line ends and comments, at most as many as there are characters. -/
def skipLines : Nat → List Char → Option (List Char)
  | 0, cs => some cs
  | fuel + 1, cs =>
    match skipGap cs with
    | [] => some []
    | c :: rest =>
      if c = '#' || c = '\n' || c = '\r' then (restOfLine? (c :: rest)).bind (skipLines fuel)
      else some (c :: rest)

/-! ## Texts on one line -/

/-- The value of hexadecimal digits. -/
def hexNumber? (digits : List Char) : Option Nat :=
  digits.foldlM (fun value c => (Json.hexValue? c).map (value * 16 + ·)) 0

/-- The character with a code point. -/
def scalar? (code : Nat) : Option Char :=
  if code.isValidChar then some (Char.ofNat code) else none

/-- The character written by an escape of one letter. -/
def letterEscape? : Char → Option Char
  | 'b' => some '\x08'
  | 't' => some '\t'
  | 'n' => some '\n'
  | 'f' => some '\x0c'
  | 'r' => some '\r'
  | '"' => some '"'
  | '\\' => some '\\'
  | _ => none

/-- The character written by what stands behind a backslash, and what follows. -/
def escape? : List Char → Option (Char × List Char)
  | 'u' :: a :: b :: c :: d :: cs => do
    let char ← scalar? (← hexNumber? [a, b, c, d])
    return (char, cs)
  | 'U' :: a :: b :: c :: d :: e :: f :: g :: h :: cs => do
    let char ← scalar? (← hexNumber? [a, b, c, d, e, f, g, h])
    return (char, cs)
  | c :: cs => (letterEscape? c).map (·, cs)
  | [] => none

/-- A text up to its closing double quote, of at most so many characters, and what follows. -/
def quotedFrom? : Nat → List Char → Option (List Char × List Char)
  | 0, _ => none
  | _ + 1, [] => none
  | fuel + 1, c :: cs =>
    if c = '"' then some ([], cs)
    else do
      let (char, rest) ←
        if c = '\\' then escape? cs else if isPlain c then some (c, cs) else none
      let (inside, rest) ← quotedFrom? fuel rest
      return (char :: inside, rest)

/-- A text up to its closing double quote, and what follows. -/
def quoted? (cs : List Char) : Option (List Char × List Char) := quotedFrom? (cs.length + 1) cs

/-- A text up to its closing single quote, and what follows. -/
def literal? (cs : List Char) : Option (List Char × List Char) :=
  let inside := cs.takeWhile fun c => isPlain c && c != '\''
  match cs.drop inside.length with
  | '\'' :: rest => some (inside, rest)
  | _ => none

/-! ## Texts over several lines -/

/-- Whether nothing but blanks stands before the end of the line. -/
def endsLine (cs : List Char) : Bool :=
  match skipGap cs with
  | '\n' :: _ => true
  | '\r' :: '\n' :: _ => true
  | _ => false

/-- What follows a text over several lines, when `seen` of its quotes stand directly before. Three
of them close it; one or two more may come first and then belong to the text. -/
def behindLines? (quote : Char) : Nat → Nat → List Char → Option (List Char)
  | 0, _, _ => none
  | _ + 1, seen, [] => if 3 ≤ seen then some [] else none
  | fuel + 1, seen, c :: cs =>
    if c = quote && seen < 5 then behindLines? quote fuel (seen + 1) cs
    else if 3 ≤ seen then some (c :: cs)
    else if c = '\\' && quote = '"' && !endsLine cs then
      (escape? cs).bind fun (_, rest) => behindLines? quote fuel 0 rest
    else if isPlain c then behindLines? quote fuel 0 cs
    else
      match c, cs with
      | '\n', cs => behindLines? quote fuel 0 cs
      | '\r', '\n' :: cs => behindLines? quote fuel 0 cs
      | _, _ => none

/-- What follows a text. -/
def behindText? : List Char → Option (List Char)
  | '"' :: '"' :: '"' :: cs => behindLines? '"' (cs.length + 1) 0 cs
  | '"' :: cs => (quoted? cs).map (·.2)
  | '\'' :: '\'' :: '\'' :: cs => behindLines? '\'' (cs.length + 1) 0 cs
  | '\'' :: cs => (literal? cs).map (·.2)
  | _ => none

end Mend.Toml
