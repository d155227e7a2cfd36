import Mend.Token.Basic

/-!
# Reading tokens

A reader stands between two tokens of a list that ends with the end of the input. Looking ahead
changes nothing; reading moves one token on. The end of the input is never passed: looking or
reading beyond it keeps giving it.
-/

namespace Mend

/-- A place in a list of tokens. -/
structure Reader where
  /-- The tokens already read, most recent first. -/
  consumed : List Token
  /-- The tokens still to be read, without the end of the input. -/
  ahead : List Token
  /-- The end of the input. -/
  last : Token
  deriving Inhabited

namespace Reader

/-- A reader at the start of a list. If the list lacks an end of input, one is put on the line
of its last token. -/
def ofTokens (tokens : List Token) : Reader :=
  match tokens.getLast? with
  | none => ⟨[], [], .eof 1⟩
  | some t => if t.kind = .eof then ⟨[], tokens.dropLast, t⟩ else ⟨[], tokens, .eof t.line⟩

/-- The token some places ahead; the next token is one place ahead. -/
def peekN (r : Reader) (k : Nat) : Token := r.ahead.getD (k - 1) r.last

/-- The next token. -/
def peek (r : Reader) : Token := r.peekN 1

/-- The next token, and the reader behind it. -/
def read (r : Reader) : Token × Reader :=
  match r.ahead with
  | [] => (r.last, r)
  | t :: rest => (t, { r with consumed := t :: r.consumed, ahead := rest })

/-- The token read most recently. -/
def previous? (r : Reader) : Option Token := r.consumed.head?

/-- How many tokens have been read. -/
def index (r : Reader) : Nat := r.consumed.length

/-- How many documentation tokens stand directly at a place ahead. -/
def documentationAt (r : Reader) (k : Nat) : Nat :=
  ((r.ahead.drop (k - 1)).takeWhile (·.kind == .documentationString)).length

/-- The first place at or behind a place ahead where no documentation stands. -/
def skipDocumentation (r : Reader) (k : Nat) : Nat :=
  match r.documentationAt k with
  | 0 => k
  | n + 1 => max k 1 + (n + 1)

/-- Reading gives the token that looking ahead shows. -/
theorem read_fst (r : Reader) : r.read.1 = r.peek := by
  unfold read peek peekN
  split <;> rename_i h <;> simp [h]

end Reader

end Mend
