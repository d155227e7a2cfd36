import Mend.Proofs.Repair.Closure

/-!
# Every construct can be closed

At the end of the input whatever is open has to be completed. The way out takes the shortest way
on at each branch point and passes every other position as if its token stood there. It leads from
every state that can be reached to the end of a program (`every_construct_closes`).

Closing one construct may open others: a modifier opens a declaration, a pattern is followed by an
arrow and a block, a clause by a whole `select`. So the depth of the stack does not fall along the
way out. What falls is the number of moves that are still due: `Position.due` at the position
itself, and `Position.debt` for each production around it, which is what becomes due when that
production is taken up again. A move never looks at more than two productions, so that each of
them falls whatever lies below (`Position.closingMove_below`); that the walk gets somewhere at all
is a matter of legal states (`Legal.closingMove`).
-/

namespace Mend

namespace Position

/-! ## The way out -/

/-- One move on the way out: the shortest way on at a branch point, and past any other position as
if its token stood there. -/
def closingMove (position : Position) (stack : Stack) : Step :=
  match position.shortest? with
  | some path => .reach path stack
  | none => position.advance stack

/-- A number of moves on the way out. -/
def closingWalk : Nat → Position → Stack → Step
  | 0, position, stack => .reach position stack
  | moves + 1, position, stack =>
    match position.closingMove stack with
    | .reach next stack' => closingWalk moves next stack'
    | .stuck error stack' => .stuck error stack'

/-! ## What is due -/

/-- A bound on the moves that are due at a position before what encloses it is taken up again. -/
def due : Position → Nat
  | .topLevelNode | .importNameRhs | .paramStart | .paramEnd | .recordFieldOrEnd | .varDeclRhs
    | .statementsOrEnd | .returnRhs | .argStart | .argEnd | .objectMemberOrEnd | .methodDeclRhs
    | .listConstructorStart | .listConstructorEnd | .mappingFieldOrEnd | .mappingFieldEnd
    | .matchClauseOrEnd | .listPatternStart | .listPatternEnd | .mappingPatternStart
    | .mappingPatternEnd | .forkBodyOrEnd | .breakKeyword | .continueKeyword | .importModuleName
    | .fieldName | .peerWorker =>
    1
  | .compUnit | .ifEnd | .returnKeyword | .waitKeyword | .importOrgOrModuleName | .parameterName
    | .openBrace | .slash | .openBracket | .rightArrow | .leftArrow =>
    2
  | .elseOrEnd | .importKeyword | .recordKeyword | .objectKeyword | .forkKeyword => 3
  | .breakStmt | .continueStmt => 4
  | .returnStmt | .sendStmt => 5
  | .importDecl | .forkStmt => 6
  | .block => 7
  | .expressionEnd | .returnTypeOrBody | .elseBody | .workerReturnOrBody | .lockKeyword
    | .rightDoubleArrow =>
    8
  | .lockStmt | .expressionRhs | .matchPatternRhs | .workerName => 9
  | .workerKeyword | .variableRef | .fieldAccessName | .patternName | .basicLiteral
    | .constPattern | .closeBacktick =>
    10
  | .workerDecl | .expression | .matchPattern | .templateMemberOrEnd | .dot => 11
  | .receiveExpr | .waitExpr | .ifKeyword | .whileKeyword | .inKeyword | .whereKeyword
    | .selectKeyword | .matchKeyword | .unaryOperator | .binaryOperator | .templateText
    | .openParenthesis | .assignOp | .colon | .pipe | .openBacktick | .interpolationStart =>
    12
  | .whileBlock | .listConstructor | .mappingConstructor | .listMatchPattern
    | .mappingMatchPattern | .templateTypeKeyword | .constName | .variableName | .bindingName
    | .mappingFieldName | .patternFieldName =>
    13
  | .mappingField | .matchClause | .fieldMatchPattern | .templateExpr | .typeDescEnd
    | .constKeyword | .varKeyword =>
    14
  | .assignmentStmt | .selectClause | .matchStmt | .varBindingPattern | .typeDescRhs
    | .varDeclTypeStart | .questionMark =>
    15
  | .statementStartIdentifierRhs | .queryClauseOrSelect | .fromKeyword | .letKeyword
    | .foreachKeyword | .typeReference | .builtinTypeDescriptor =>
    16
  | .constDecl | .foreachStmt | .typeDescriptor | .statementStartIdentifier => 17
  | .varDecl | .parameter | .varDeclAfterTypeRef | .statement | .returnsKeyword | .typeName => 18
  | .typeKeyword | .comma => 19
  | .recordTypeDesc | .recordField | .objectTypeDesc | .objectField => 20
  | .paramList | .typeDefinition | .ifBlock | .whereClause => 22
  | .argList | .bracedExpr | .functionName => 23
  | .functionKeyword | .className => 24
  | .funcDefinition | .interpolation | .newKeyword => 25
  | .callStmt | .newExpr | .fromClause | .letClause | .topLevelNodeWithoutModifier => 26
  | .objectMethod | .queryExpr | .publicKeyword => 27
  | .topLevelNodeWithoutMetadata | .objectMember => 28
  | .docString => 29
  | _ => 0

/-- A bound on the moves that become due when a production is taken up again. -/
def debt : Position → Nat
  | .importDecl | .typeDefinition | .recordField | .constDecl | .varDecl | .returnStmt
    | .breakStmt | .continueStmt | .assignmentStmt | .callStmt | .objectField | .objectMethod
    | .selectClause | .matchStmt | .matchClause | .forkStmt | .sendStmt =>
    2
  | .block => 4
  | .paramList | .ifBlock | .fromClause | .whereClause | .letClause | .receiveExpr | .waitExpr => 9
  | .argList | .bracedExpr | .listConstructor | .listMatchPattern | .mappingConstructor
    | .mappingMatchPattern =>
    10
  | .interpolation => 12
  | .recordTypeDesc | .objectTypeDesc => 16
  | _ => 0

theorem due_le (position : Position) : position.due ≤ 29 := by
  cases position <;> decide

theorem debt_le (production : Position) : production.debt ≤ 16 := by
  cases production <;> decide

end Position

/-- A bound on the moves that become due below a position. -/
def Stack.debt : Stack → Nat
  | [] => 0
  | production :: rest => production.debt + debt rest

theorem Stack.debt_cons (production : Position) (rest : Stack) :
    Stack.debt (production :: rest) = production.debt + Stack.debt rest := rfl

theorem Stack.debt_le (stack : Stack) : stack.debt ≤ 16 * stack.length := by
  induction stack with
  | nil => exact Nat.le_refl 0
  | cons production rest ih =>
    have htop := production.debt_le
    rw [Stack.debt_cons, List.length_cons]
    omega

/-- Where a move arrives less than a bound is due. Documentation is never on the way out: nothing
stands in for it. -/
def Step.Below (bound : Nat) : Step → Prop
  | .reach next stack => next ≠ .docString ∧ next.due + stack.debt < bound
  | .stuck _ _ => True

theorem Step.Below.mono {step : Step} {bound bound' : Nat} (h : step.Below bound)
    (hle : bound ≤ bound') : step.Below bound' := by
  cases step with
  | reach next stack => exact ⟨h.1, Nat.lt_of_lt_of_le h.2 hle⟩
  | stuck error stack => trivial

/-- A move that leaves a production has the debt of that production to pay with. -/
theorem Step.Below.leave {step : Step} {production : Position} {bound bound' : Nat}
    {rest : Stack} (h : step.Below (bound + rest.debt)) (hle : bound ≤ bound' + production.debt) :
    step.Below (bound' + Stack.debt (production :: rest)) :=
  h.mono (by rw [Stack.debt_cons]; omega)

/-! ## Every move pays -/

namespace Position

variable {p q : Position} {S T : Stack}

private theorem shortest_due (h : p.shortest? = some q) : q ≠ .docString ∧ q.due < p.due := by
  cases p <;> cases h <;> decide

private theorem opening_due {production : Position} (h : p.opening? = some (production, q)) :
    q ≠ .docString ∧ q.due + production.debt < p.due := by
  cases p <;> cases h <;> decide

private theorem successor_due (hend : p ≠ .eof) (h : p.successor? = some q) :
    q ≠ .docString ∧ q.due < p.due := by
  cases p <;> first | exact absurd rfl hend | (cases h <;> decide)

private theorem inside_due {production : Position} (h : p.inside? production = some q) :
    q ≠ .docString ∧ q.due < p.due := by
  unfold inside? at h
  split at h <;> cases h <;> decide

private theorem resumption_due {production : Position} (h : production.resumption? = some q) :
    q ≠ .docString ∧ q.due = 1 := by
  unfold resumption? at h
  split at h <;> cases h <;> decide

theorem refuse_below (p : Position) (S : Stack) (bound : Nat) : (p.refuse S).Below bound :=
  trivial

theorem stay_below (p : Position) (S : Stack) : (p.stay S).Below (p.due + S.debt) := by
  cases S with
  | nil => exact refuse_below ..
  | cons production rest =>
    rw [stay]
    cases hnext : p.inside? production with
    | none => exact refuse_below ..
    | some next =>
      obtain ⟨hdoc, hdue⟩ := inside_due hnext
      exact ⟨hdoc, Nat.add_lt_add_right hdue _⟩

/-- What encloses a production that has ended goes on with a branch point where one move leads
out. -/
theorem afterProduction_below (S : Stack) : (afterProduction S).Below (2 + S.debt) := by
  fun_induction afterProduction S with
  | case1 => trivial
  | case2 rest ih => exact ih.mono (by rw [Stack.debt_cons]; omega)
  | case3 production rest _ next hnext =>
    obtain ⟨hdoc, hdue⟩ := resumption_due hnext
    exact ⟨hdoc, by omega⟩
  | case4 => trivial

theorem here_below {bound : Nat} (h : q ≠ .docString ∧ q.due < bound) (S : Stack) :
    (Step.reach q S).Below (bound + S.debt) :=
  ⟨h.1, Nat.add_lt_add_right h.2 _⟩

theorem leave_below {production : Position} {bound : Nat}
    (h : q ≠ .docString ∧ q.due < bound + production.debt) (rest : Stack) :
    (Step.reach q rest).Below (bound + Stack.debt (production :: rest)) :=
  (here_below h rest).leave (Nat.le_refl _)

theorem afterPattern_below (S : Stack) :
    (afterPattern S).Below (patternName.due + S.debt) := by
  fun_cases afterPattern S with
  | case1 rest => exact here_below (by decide) _
  | case2 rest => exact here_below (by decide) _
  | case3 rest => exact leave_below (by decide) rest
  | case4 => trivial

theorem afterExpression_below (S : Stack) :
    (afterExpression S).Below (expressionEnd.due + S.debt) := by
  fun_cases afterExpression S with
  | case1 rest => exact leave_below (by decide) rest
  | case2 rest => exact leave_below (by decide) rest
  | case3 rest => exact leave_below (by decide) rest
  | case4 rest => exact leave_below (by decide) rest
  | case5 query rest =>
    have hrest : (Step.reach .expressionRhs rest).Below (10 + Stack.debt rest) :=
      here_below (by decide) rest
    have hquery : (Step.reach .expressionRhs rest).Below (10 + Stack.debt (query :: rest)) :=
      hrest.leave (Nat.le_add_right ..)
    exact hquery.leave (by decide)
  | case6 => trivial
  | case7 => exact stay_below ..

theorem afterBinding_below (S : Stack) :
    (afterBinding S).Below (bindingName.due + S.debt) := by
  fun_cases afterBinding S with
  | case1 rest => exact (afterPattern_below rest).leave (by decide)
  | case2 => exact stay_below ..

theorem afterPeer_below (S : Stack) : (afterPeer S).Below (peerWorker.due + S.debt) := by
  fun_cases afterPeer S with
  | case1 rest => exact leave_below (by decide) rest
  | case2 rest => exact leave_below (by decide) rest
  | case3 => exact stay_below ..

/-- After its arguments a call that is an expression goes on as one. -/
theorem afterArguments_below (S : Stack) :
    (afterArguments S).Below (variableRef.due + S.debt) := by
  fun_cases afterArguments S with
  | case1 rest => exact here_below (by decide) _
  | case2 rest => exact leave_below (by decide) rest
  | case3 => exact here_below (by decide) S

theorem afterParameters_below (S : Stack) : (afterParameters S).Below (9 + S.debt) := by
  fun_cases afterParameters S with
  | case1 rest => exact here_below (by decide) _
  | case2 => exact here_below (by decide) S

theorem afterParenthesis_below (S : Stack) :
    (afterParenthesis S).Below (closeParenthesis.due + S.debt) := by
  fun_cases afterParenthesis S with
  | case1 rest => exact (afterParameters_below rest).leave (by decide)
  | case2 rest => exact (afterArguments_below rest).leave (by decide)
  | case3 rest => exact leave_below (by decide) rest
  | case4 => trivial

theorem afterBlock_below (S : Stack) : (afterBlock S).Below (4 + S.debt) := by
  fun_cases afterBlock S with
  | case1 => trivial
  | case2 rest => exact leave_below (by decide) rest
  | case3 rest => exact here_below (by decide) _
  | case4 rest => exact here_below (by decide) _
  | case5 owner rest => exact (afterProduction_below rest).leave (by omega)
  | case6 => trivial

theorem afterBrace_below (S : Stack) : (afterBrace S).Below (closeBrace.due + S.debt) := by
  fun_cases afterBrace S with
  | case1 rest => exact leave_below (by decide) rest
  | case2 rest => exact leave_below (by decide) rest
  | case3 rest => exact leave_below (by decide) rest
  | case4 rest => exact (afterPattern_below rest).leave (by decide)
  | case5 rest => exact leave_below (by decide) rest
  | case6 rest => exact (afterProduction_below rest).leave (by decide)
  | case7 rest => exact (afterProduction_below rest).leave (by decide)
  | case8 rest => exact (afterBlock_below rest).leave (by decide)
  | case9 => trivial

theorem afterBracket_below (S : Stack) : (afterBracket S).Below (closeBracket.due + S.debt) := by
  fun_cases afterBracket S with
  | case1 rest => exact leave_below (by decide) rest
  | case2 rest => exact (afterPattern_below rest).leave (by decide)
  | case3 => trivial

private theorem debt_of_endsAtSemicolon {production : Position}
    (h : production.endsAtSemicolon = true) : production.debt = 2 := by
  unfold endsAtSemicolon at h
  split at h <;> first | rfl | cases h

theorem afterSemicolon_below (S : Stack) : (afterSemicolon S).Below (semicolon.due + S.debt) := by
  fun_cases afterSemicolon S with
  | case1 => trivial
  | case2 production rest hends =>
    exact (afterProduction_below rest).leave (by rw [debt_of_endsAtSemicolon hends]; decide)
  | case3 => trivial

theorem afterElse_below (S : Stack) : (afterElse S).Below (elseKeyword.due + S.debt) := by
  fun_cases afterElse S with
  | case1 rest =>
    refine ⟨by decide, ?_⟩
    change 8 + (0 + Stack.debt rest) < 0 + (9 + Stack.debt rest)
    omega
  | case2 => trivial

theorem afterIf_below (S : Stack) : (afterIf S).Below (ifEnd.due + S.debt) := by
  fun_cases afterIf S with
  | case1 => trivial
  | case2 production rest => exact (afterProduction_below rest).leave (Nat.le_add_right ..)

theorem afterTemplate_below (S : Stack) : (afterTemplate S).Below (closeBacktick.due + S.debt) := by
  fun_cases afterTemplate S with
  | case1 => trivial
  | case2 production rest =>
    have hrest : (Step.reach .expressionRhs rest).Below (10 + Stack.debt rest) :=
      here_below (by decide) rest
    exact hrest.leave (Nat.le_add_right ..)

/-- The moves that depend on the enclosing productions pay. -/
theorem resume_below (p : Position) (S : Stack) : (p.resume S).Below (p.due + S.debt) := by
  cases p with
  | expressionEnd => exact afterExpression_below S
  | bindingName => exact afterBinding_below S
  | peerWorker => exact afterPeer_below S
  | patternName => exact afterPattern_below S
  | constPattern => exact afterPattern_below S
  | closeParenthesis => exact afterParenthesis_below S
  | closeBrace => exact afterBrace_below S
  | closeBracket => exact afterBracket_below S
  | semicolon => exact afterSemicolon_below S
  | elseKeyword => exact afterElse_below S
  | ifEnd => exact afterIf_below S
  | closeBacktick => exact afterTemplate_below S
  | _ => first | exact stay_below _ S | trivial

theorem advance_below (hend : p ≠ .eof) (S : Stack) : (p.advance S).Below (p.due + S.debt) := by
  unfold advance
  split
  · rename_i production first hopening
    obtain ⟨hdoc, hdue⟩ := opening_due hopening
    exact ⟨hdoc, by rw [Stack.debt_cons]; omega⟩
  · split
    · exact here_below (successor_due hend ‹_›) S
    · exact resume_below p S

/-- Every move on the way out leaves less due than before. -/
theorem closingMove_below (hend : p ≠ .eof) (S : Stack) :
    (p.closingMove S).Below (p.due + S.debt) := by
  unfold closingMove
  split
  · exact here_below (shortest_due ‹_›) S
  · exact advance_below hend S

/-- A branch point is a position that has a shortest way on. -/
theorem shortest?_eq_none_iff : p.shortest? = none ↔ p.isBranch = false := by
  cases p <;> decide

end Position

variable {p : Position} {S : Stack}

/-! ## The way out leads to the end of the program -/

/-- On the way out of a legal state every move arrives, at a legal state again. -/
theorem Legal.closingMove (h : Legal p S) : Legal.Arrives (p.closingMove S) := by
  unfold Position.closingMove
  split
  · rename_i path hpath
    exact .reach (h.path (Position.mem_paths_of_shortest? hpath))
  · rename_i hpath
    exact h.advance (Position.shortest?_eq_none_iff.1 hpath)

/-- The end of the input stands in the program and nothing else. -/
theorem Legal.stack_eq_of_eof (h : Legal .eof S) : S = [.compUnit] := by
  obtain ⟨rest, rfl⟩ := h.fits.sole (by decide) rfl
  cases rest with
  | nil => rfl
  | cons outer rest => exact absurd h.nested.1 List.not_mem_nil

/-- The way out of a legal state is never stuck. -/
theorem Legal.closingWalk (h : Legal p S) (n : Nat) : Legal.Arrives (p.closingWalk n S) := by
  induction n generalizing p S with
  | zero => exact .reach h
  | succ n ih =>
    obtain ⟨q, T, hmove, hlegal⟩ := h.closingMove
    rw [Position.closingWalk, hmove]
    exact ih hlegal

/-- At the end of the program the way out stays where it is. -/
theorem Position.closingWalk_eof (n : Nat) :
    Position.closingWalk n .eof [.compUnit] = .reach .eof [.compUnit] := by
  induction n with
  | zero => rfl
  | succ n ih => exact ih

/-- The way out of a legal state ends once every move that was due has been made. -/
theorem Legal.closingWalk_eq (h : Legal p S) {n : Nat} (hn : p.due + S.debt ≤ n) :
    p.closingWalk n S = .reach .eof [.compUnit] := by
  induction n generalizing p S with
  | zero =>
    by_cases hend : p = .eof
    · subst hend
      rw [h.stack_eq_of_eof, Position.closingWalk]
    · obtain ⟨q, T, hmove, _⟩ := h.closingMove
      have hpays := Position.closingMove_below hend S
      rw [hmove] at hpays
      exact absurd hpays.2 (by omega)
  | succ n ih =>
    by_cases hend : p = .eof
    · subst hend
      rw [h.stack_eq_of_eof, Position.closingWalk_eof]
    · obtain ⟨q, T, hmove, hlegal⟩ := h.closingMove
      have hpays := Position.closingMove_below hend S
      rw [hmove] at hpays
      rw [Position.closingWalk, hmove]
      exact ih hlegal (by have hdue := hpays.2; omega)

/-- Every construct can be closed: the way out of a state that can be reached is never stuck, and
after a number of moves that the depth of the stack bounds it has come to the end of the input,
with nothing open but the program. -/
theorem every_construct_closes (h : Reachable p S) :
    (∀ n, ∃ q T, p.closingWalk n S = .reach q T) ∧
    ∀ n, 29 + 16 * S.length ≤ n → p.closingWalk n S = .reach .eof [.compUnit] := by
  constructor
  · intro n
    obtain ⟨q, T, hwalk, _⟩ := h.legal.closingWalk n
    exact ⟨q, T, hwalk⟩
  · intro n hn
    have hdue := p.due_le
    have hdebt := S.debt_le
    exact h.legal.closingWalk_eq (by omega)

/-- A modifier closes although it opens a whole function. -/
theorem modifier_closes :
    Reachable .publicKeyword [.compUnit] ∧
    (∀ n, ∃ q T, Position.closingWalk n .publicKeyword [.compUnit] = .reach q T) ∧
    ∀ n, 29 + 16 * 1 ≤ n →
      Position.closingWalk n .publicKeyword [.compUnit] = .reach .eof [.compUnit] := by
  have htop : Reachable .topLevelNode [.compUnit] := .move .start rfl rfl
  have hplain : Reachable .topLevelNodeWithoutMetadata [.compUnit] := htop.way (by decide)
  have hpublic : Reachable .publicKeyword [.compUnit] := hplain.way (by decide)
  exact ⟨hpublic, every_construct_closes hpublic⟩

end Mend
