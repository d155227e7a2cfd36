import Mend.Limits
import Mend.Repair.Search

/-!
# A session of repairs

A session belongs to one pass over the input. It holds the reader, the stack of enclosing
productions, and how often repair has been asked for at the token that comes next. `recover`
chooses a repair and carries it out.

At the end of the input only supplying a token is possible, and it is not counted. Before the
end, an attempt that is to complete the construct at hand supplies the token of the shortest way
on while few enough attempts were made; otherwise the search decides, while few enough were made
for it. When neither finds anything the next token is left out, which always moves on, except at
the one count at which the session gives up.
-/

namespace Mend

/-- The state of repair during one pass over the input. -/
structure Session where
  reader : Reader
  stack : Stack
  limits : Limits
  /-- The index at which repair was last asked for, and how often it had been before. -/
  attempts : Option (Nat × Nat)
  /-- The token to supply for a kind at a position on a line. -/
  supply : Kind → Position → UInt32 → Token

/-- The token supplied for a kind: empty, and reported as missing. -/
def Token.missingOf (kind : Kind) (_position : Position) (line : UInt32) : Token :=
  .supplied kind line (.missing kind line)

namespace Session

/-- A session at the start of the input, outside of every production. -/
def start (reader : Reader) (limits : Limits) : Session :=
  ⟨reader, [], limits, none, Token.missingOf⟩

/-- How often repair was asked for at the last index before the last time. -/
def attemptCount (s : Session) : Nat := (s.attempts.map (·.2)).getD 0

/-- The session with a production opened. -/
def enter (s : Session) (production : Position) : Session :=
  { s with stack := production :: s.stack }

/-- The session with one more attempt recorded at the reader's index. The first one counts as
zero. -/
def recordAttempt (s : Session) : Session :=
  let index := s.reader.index
  let count :=
    match s.attempts with
    | some (last, count) => if last = index then count + 1 else 0
    | none => 0
  { s with attempts := some (index, count) }

/-- Carry a repair out on the input. -/
def apply (s : Session) (repair : Repair) : Repair × Session :=
  match repair.action with
  | .keep => (repair, s)
  | .insert =>
    let t := s.supply repair.kind repair.position s.reader.peek.line
    ({ repair with resolved := t.kind, recovered := some t }, s)
  | .remove =>
    let (t, reader) := s.reader.read
    ({ repair with removed := some t, recovered := some reader.peek },
      { s with reader := reader })

/-- The kind of the first token on the shortest way on, found within a number of moves. There is
none at the end of the input, where nothing can be supplied, or where the tables end. -/
def shortestKind? : Nat → Position → Stack → Option Kind
  | 0, _, _ => none
  | moves + 1, position, stack =>
    match position.role? with
    | none => none
    | some (.branch _) => position.shortest?.bind fun path => shortestKind? moves path stack
    | some .silent =>
      match position.advance stack with
      | .reach next stack' => shortestKind? moves next stack'
      | .stuck _ _ => none
    | some _ =>
      let kind := position.expectedKind
      if kind = .absent ∨ kind = .eof then none else some kind

/-- Supplying the token of the shortest way on. -/
def shortestInsertion? (s : Session) (position : Position) : Option Repair :=
  (shortestKind? Search.silentLimit position s.stack).map (Repair.insert position)

/-- The repair that the search finds, if it matches anything. -/
def resolution (s : Session) (position : Position) (next : Token) :
    Except Breakdown (Option Repair) := do
  let found ← Search.run s.limits.lookahead s.reader position s.stack
  let valid := found.validate position next
  return if valid.matched = 0 then none else valid.choice

/-- The repair that completes the construct at hand, or else what the search finds. -/
def completion (s : Session) (position : Position) (next : Token) :
    Except Breakdown (Option Repair) :=
  match s.shortestInsertion? position with
  | some repair => .ok (some repair)
  | none => s.resolution position next

/-- The repair for the attempt that was recorded last, if one is found. -/
def proposal (s : Session) (position : Position) (next : Token) (completing : Bool) :
    Except Breakdown (Option Repair) :=
  if completing && decide (s.attemptCount < s.limits.completion) then s.completion position next
  else if s.attemptCount < s.limits.resolution then s.resolution position next
  else .ok none

/-- Repair at the end of the input, where a token is supplied in any case. -/
def recoverAtEnd (s : Session) (position : Position) : Repair × Session :=
  s.apply ((s.shortestInsertion? position).getD (.insert position position.expectedKind))

/-- Repair before the end of the input, after the attempt has been recorded. -/
def recoverAttempt (s : Session) (position : Position) (next : Token) (completing : Bool) :
    Except Breakdown Repair × Session :=
  match s.proposal position next completing with
  | .error error => (.error error, s)
  | .ok (some repair) =>
    let (repair, s) := s.apply repair
    (.ok repair, s)
  | .ok none =>
    if s.attemptCount = s.limits.completion then
      (.error (.exhausted position s.reader.index s.attemptCount), s)
    else
      let (repair, s) := s.apply (.remove position next)
      (.ok repair, s)

/-- Choose a repair for a token at a position and carry it out. -/
def recover (s : Session) (position : Position) (next : Token) (completing : Bool) :
    Except Breakdown Repair × Session :=
  if next.kind = .eof then
    let (repair, s) := s.recoverAtEnd position
    (.ok repair, s)
  else s.recordAttempt.recoverAttempt position next completing

end Session

end Mend
