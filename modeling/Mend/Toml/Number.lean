import Mend.Json.Parser

/-!
# Numbers of settings files

Whole numbers of 64 bits, in decimal with a sign or in one of three other bases without, and
fractions, which have a point or an exponent. Single underscores may stand between two digits.
-/

namespace Mend.Toml

/-! ## Digits -/

/-- The value of a digit in a base. -/
def digit? (base : Nat) (c : Char) : Option Nat :=
  (Json.hexValue? c).bind fun value => if value < base then some value else none

/-- The digits that go on from here, and what follows them. -/
def digitsFrom (base : Nat) : List Char → List Nat × List Char
  | [] => ([], [])
  | '_' :: c :: cs =>
    match digit? base c with
    | some d => let (ds, rest) := digitsFrom base cs; (d :: ds, rest)
    | none => ([], '_' :: c :: cs)
  | c :: cs =>
    match digit? base c with
    | some d => let (ds, rest) := digitsFrom base cs; (d :: ds, rest)
    | none => ([], c :: cs)

/-- One digit or more, and what follows them. -/
def digits? (base : Nat) : List Char → Option (List Nat × List Char)
  | [] => none
  | c :: cs => (digit? base c).map fun d => let (ds, rest) := digitsFrom base cs; (d :: ds, rest)

/-- The value of digits, of which the first counts most. -/
def valueOf (base : Nat) (digits : List Nat) : Nat :=
  digits.foldl (fun value d => value * base + d) 0

/-- The digits of a decimal number without a sign: a zero in front stands alone. -/
def decimal? : List Char → Option (List Nat × List Char)
  | '0' :: cs => some ([0], cs)
  | cs => digits? 10 cs

/-- Whether a sign says that a number is negative, and what follows the sign. -/
def sign : List Char → Bool × List Char
  | '-' :: cs => (true, cs)
  | '+' :: cs => (false, cs)
  | cs => (false, cs)

/-! ## Whole numbers -/

/-- The value of digits in a base, and what follows. -/
def inBase? (base : Nat) (cs : List Char) : Option (Int × List Char) :=
  (digits? base cs).map fun (ds, rest) => (Int.ofNat (valueOf base ds), rest)

/-- The value of a decimal number, and what follows. -/
def signed? (cs : List Char) : Option (Int × List Char) :=
  let (negative, cs) := sign cs
  (decimal? cs).map fun (ds, rest) =>
    let value := Int.ofNat (valueOf 10 ds)
    (if negative then -value else value, rest)

/-- A whole number within 64 bits, and what follows. -/
def number? (cs : List Char) : Option (Int × List Char) := do
  let (value, rest) ←
    match cs with
    | '0' :: 'x' :: cs => inBase? 16 cs
    | '0' :: 'o' :: cs => inBase? 8 cs
    | '0' :: 'b' :: cs => inBase? 2 cs
    | cs => signed? cs
  guard (-9223372036854775808 ≤ value ∧ value ≤ 9223372036854775807)
  return (value, rest)

/-! ## Fractions -/

/-- The least number that is not nearer to some finite double than to 2 ^ 1024. -/
def doubleLimit : Nat := Nat.pow 2 1024 - Nat.pow 2 970

/-- Whether digits, moved to the left by some places, are too large for a double. Only numbers with
as many places before the point as the limit itself has are worked out. -/
def isTooLarge (digits : List Nat) (places : Int) : Bool :=
  match digits.dropWhile (· == 0) with
  | [] => false
  | digits =>
    let size := Int.ofNat digits.length + places
    if size < 309 then false
    else if 309 < size then true
    else
      doubleLimit * Nat.pow 10 (-places).toNat ≤ valueOf 10 digits * Nat.pow 10 places.toNat

/-- The digits behind a point, if there is one, and what follows. -/
def pointed? : List Char → Option (List Nat × List Char)
  | '.' :: cs => digits? 10 cs
  | cs => some ([], cs)

/-- The value of an exponent behind its mark, and what follows. -/
def power? (cs : List Char) : Option (Int × List Char) :=
  let (negative, cs) := sign cs
  (digits? 10 cs).map fun (ds, rest) =>
    let value := Int.ofNat (valueOf 10 ds)
    (if negative then -value else value, rest)

/-- An exponent, zero if there is none, and what follows. -/
def exponent? : List Char → Option (Int × List Char)
  | 'e' :: cs => power? cs
  | 'E' :: cs => power? cs
  | cs => some (0, cs)

/-- Whether a fraction goes on here behind its whole part. -/
def goesOn (cs : List Char) : Bool := cs.head?.any fun c => c == '.' || c == 'e' || c == 'E'

/-- What follows a fraction. One above zero that is too large for a double is refused; one below
zero is let pass, however large. -/
def behindFraction? (cs : List Char) : Option (List Char) := do
  let (negative, cs) := sign cs
  let (whole, cs) ← decimal? cs
  guard (goesOn cs)
  let (part, cs) ← pointed? cs
  let (exponent, cs) ← exponent? cs
  guard (negative || !isTooLarge (whole ++ part) (exponent - Int.ofNat part.length))
  return cs

end Mend.Toml
