import Mend.Grammar.Advance
import Mend.Grammar.Terminal

/-!
# Roles of positions

Every position of the automaton plays one of four parts: it takes a token of a class, it wants a
reserved word, it leaves a choice, or it is passed in silence. One production, the body of an
`else`, is only ever entered by replacing another one, and plays none of them.
-/

namespace Mend

/-- What a position asks of the input. -/
inductive Role where
  | terminal (wanted : TokenClass)
  | keyword (word : Kind)
  | branch (paths : List Position)
  | silent
  deriving DecidableEq, Repr

/-- The role of a position, if it plays one. -/
def Position.role? (position : Position) : Option Role :=
  if position.isBranch then some (.branch position.paths)
  else
    match position.keyword?, position.tokenClass? with
    | some word, _ => some (.keyword word)
    | none, some wanted => some (.terminal wanted)
    | none, none => if position.isSilent then some .silent else none

/-- The role of a position, or the breakdown that asking for it is. -/
def Position.role (position : Position) : Except Breakdown Role :=
  match position.role? with
  | some role => .ok role
  | none => .error (.noTransition position .neverSearched)

namespace Position

/-- Every position but one plays a part. -/
theorem role?_eq_none_iff {position : Position} :
    position.role? = none ↔ position = .elseBlock := by
  cases position <;> decide

end Position

end Mend
