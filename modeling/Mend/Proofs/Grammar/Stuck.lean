import Mend.Grammar.Weight

/-!
# Moves that fail

A move of the automaton looks at one position and at the productions around it. If it fails, then
for want of a rule there or of a production to leave. That a search went in a circle, that it had
nothing to choose from, or that repair was given up, is never what a move finds.
-/

namespace Mend

/-- What a move of the automaton can fail with. -/
inductive Breakdown.OfMove : Breakdown → Prop
  | enclosing (p : Position) (production : Option Position) :
      OfMove (.noTransition p (.enclosing production))
  | cannotContinue (p : Position) : OfMove (.noTransition p .cannotContinue)
  | noSuccessor (p : Position) : OfMove (.noTransition p .noSuccessor)
  | underflow : OfMove .underflow

/-- A move that succeeds, or fails as a move can. -/
def Step.Proper : Step → Prop
  | .reach _ _ => True
  | .stuck error _ => error.OfMove

namespace Position

theorem proper_refuse (p : Position) (S : Stack) : (p.refuse S).Proper :=
  .enclosing p S.head?

theorem proper_stay (p : Position) (S : Stack) : (p.stay S).Proper := by
  cases S with
  | nil => exact p.proper_refuse []
  | cons production rest =>
    rw [stay]
    cases p.inside? production with
    | some next => trivial
    | none => exact p.proper_refuse (production :: rest)

theorem proper_afterProduction (S : Stack) : (afterProduction S).Proper := by
  fun_induction afterProduction S with
  | case1 => exact .underflow
  | case2 _ ih => exact ih
  | case3 => trivial
  | case4 production => exact .cannotContinue production

theorem proper_afterPattern (S : Stack) : (afterPattern S).Proper := by
  unfold afterPattern
  split
  · trivial
  · trivial
  · trivial
  · exact proper_refuse _ _

theorem proper_afterBlock (S : Stack) : (afterBlock S).Proper := by
  unfold afterBlock
  split
  · exact proper_refuse _ _
  · trivial
  · trivial
  · trivial
  · split
    · exact proper_afterProduction _
    · exact proper_refuse _ _

theorem proper_resume (p : Position) (S : Stack) : (p.resume S).Proper := by
  unfold resume afterExpression afterBinding afterPeer afterParenthesis afterParameters
    afterArguments afterBrace afterBracket afterSemicolon afterElse afterIf afterTemplate
  repeat' split
  all_goals first
    | trivial
    | exact .underflow
    | exact .noSuccessor _
    | exact proper_refuse _ _
    | exact proper_stay _ _
    | exact proper_afterProduction _
    | exact proper_afterPattern _
    | exact proper_afterBlock _

/-- A move that fails does so for want of a rule or of a production to leave. -/
theorem ofMove_of_advance {p : Position} {S T : Stack} {error : Breakdown}
    (h : p.advance S = .stuck error T) : error.OfMove := by
  have hproper : (p.advance S).Proper := by
    unfold advance
    split
    · trivial
    · split
      · trivial
      · exact proper_resume p S
  rw [h] at hproper
  exact hproper

end Position

end Mend
