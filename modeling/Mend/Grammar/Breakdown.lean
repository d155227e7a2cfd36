import Mend.Grammar.Position

/-!
# Breakdowns of the grammar engine

What can go wrong inside the engine itself: the tables have no rule for a position and the stack
it was met with, or repair was tried too often at one token. None of these describes bad input.
-/

namespace Mend

/-- Why the automaton cannot go on from a position. -/
inductive NoTransition where
  /-- The position neither takes a token, nor moves on, nor leaves a choice. -/
  | neverSearched
  /-- The position has no successor inside this production, or outside of all. -/
  | enclosing (production : Option Position)
  /-- Something ended inside the position, where nothing can follow. -/
  | cannotContinue
  /-- The position leaves a choice, so no single position follows. -/
  | noSuccessor
  /-- Too many positions in a row took no token. -/
  | cycle
  /-- A choice was to be made among no paths. -/
  | noPaths
  deriving DecidableEq, Repr, Inhabited

/-- A production that may be absent, as it appears in messages. -/
def NoTransition.showProduction : Option Position → String
  | some production => "Some(" ++ production.name ++ ")"
  | none => "None"

/-- The wording of a reason. -/
def NoTransition.message : NoTransition → String
  | neverSearched => "context is never searched"
  | enclosing production => "unexpected enclosing production " ++ showProduction production
  | cannotContinue => "production ended in a context that cannot continue"
  | noSuccessor => "context has no single successor"
  | cycle => "pass-through cycle"
  | noPaths => "branch point without alternatives"

/-- A failure of the engine. -/
inductive Breakdown where
  /-- The automaton cannot go on from a position. -/
  | noTransition (position : Position) (cause : NoTransition)
  /-- A production was to be left outside of all productions. -/
  | underflow
  /-- Repair made no progress at the token with this index. -/
  | exhausted (position : Position) (index attempts : Nat)
  deriving DecidableEq, Repr, Inhabited

/-- The wording of a breakdown. -/
def Breakdown.message : Breakdown → String
  | noTransition position cause =>
    "no grammar transition from " ++ position.name ++ ": " ++ cause.message
  | underflow => "context stack underflow"
  | exhausted position index attempts =>
    "recovery exhausted at token " ++ toString index ++ " in " ++ position.name ++
      " after " ++ toString attempts ++ " attempts"

end Mend
