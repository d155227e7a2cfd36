import Mend.Grammar.Role

/-!
# The moves that take no token come to an end

Choosing a path at a branch point and passing a silent position both leave the input alone. Each
of them makes the weight of the state smaller, whatever the stack, so only finitely many can
follow each other. Almost every position has a weight of its own. The exception is the end of an
expression: a clause that it completes may complete an expression around it in turn, which each
time takes two productions off the stack.
-/

namespace Mend.Position

/-- How many moves without a token may follow at a position whose moves do not depend on how
deeply it is nested. -/
def rank : Position → Nat
  | .importDecl | .funcDefinition | .typeDefinition | .constDecl | .recordTypeDesc
  | .objectTypeDesc | .paramList | .block | .ifBlock | .whileBlock | .returnStmt | .breakStmt
  | .continueStmt | .assignmentStmt | .argList | .bracedExpr | .objectMethod | .newExpr
  | .listConstructor | .listMatchPattern | .mappingConstructor | .mappingMatchPattern
  | .mappingField | .fromClause | .whereClause | .letClause | .selectClause | .matchStmt
  | .varBindingPattern | .fieldMatchPattern | .foreachStmt | .lockStmt | .workerDecl | .forkStmt
  | .sendStmt | .receiveExpr | .waitExpr | .templateExpr | .interpolation | .importNameRhs
  | .paramEnd | .varDeclRhs | .argEnd | .methodDeclRhs | .listConstructorEnd | .mappingFieldEnd
  | .matchPatternRhs | .listPatternEnd | .mappingPatternEnd =>
    1
  | .typeDescriptor | .typeDescEnd | .callStmt | .queryExpr | .matchPattern | .forkBodyOrEnd
  | .returnTypeOrBody | .elseBody | .mappingFieldOrEnd | .queryClauseOrSelect
  | .mappingPatternStart | .workerReturnOrBody | .templateMemberOrEnd =>
    2
  | .varDeclTypeStart | .recordField | .typeDescRhs | .objectField | .matchClause | .parameter
  | .expression | .listPatternStart =>
    3
  | .varDecl | .varDeclAfterTypeRef | .recordFieldOrEnd | .objectMember | .matchClauseOrEnd
  | .paramStart | .returnRhs | .argStart | .listConstructorStart =>
    4
  | .topLevelNodeWithoutModifier | .statement | .objectMemberOrEnd
  | .statementStartIdentifierRhs =>
    5
  | .topLevelNodeWithoutMetadata | .statementsOrEnd => 6
  | .topLevelNode => 7
  | .compUnit | .ifEnd => 8
  | .elseOrEnd => 9
  | _ => 0

/-- Whether a position ends an expression, or stands where one may end. -/
def isTail : Position → Bool
  | .expressionRhs | .expressionEnd => true
  | _ => false

/-- A bound on the moves without a token that may follow a state. -/
def weight (position : Position) (stack : Stack) : Nat :=
  match position with
  | .expressionRhs => 4 + 2 * stack.length
  | .expressionEnd => 3 + 2 * stack.length
  | position => position.rank

theorem weight_eq_rank {position : Position} (h : position.isTail = false) (stack : Stack) :
    position.weight stack = position.rank := by
  unfold weight
  split
  · cases h
  · cases h
  · rfl

/-- Whether a position is of rank below a bound and does not end an expression. -/
def isBelow (bound : Nat) (position : Position) : Bool :=
  !position.isTail && decide (position.rank < bound)

theorem weight_lt_of_isBelow {bound : Nat} {position : Position}
    (h : position.isBelow bound = true) (stack : Stack) : position.weight stack < bound := by
  simp only [isBelow, Bool.and_eq_true, Bool.not_eq_true', decide_eq_true_eq] at h
  rw [weight_eq_rank h.1]
  exact h.2

/-! ## Choosing a path -/

private theorem paths_isBelow (position : Position) :
    position.isTail = true ∨ position.paths.all (isBelow position.rank) = true := by
  cases position <;> decide

/-- Every path of a branch point weighs less than the branch point. -/
theorem weight_lt_of_mem_paths {position path : Position} (h : path ∈ position.paths)
    (stack : Stack) : path.weight stack < position.weight stack := by
  cases htail : position.isTail with
  | false =>
    rcases paths_isBelow position with hbad | hall
    · rw [htail] at hbad
      cases hbad
    · rw [weight_eq_rank htail]
      exact weight_lt_of_isBelow (List.all_eq_true.1 hall path h) stack
  | true =>
    match position, htail with
    | .expressionRhs, _ =>
      change path ∈ [.binaryOperator, .dot, .argList, .expressionEnd] at h
      simp only [List.mem_cons, List.not_mem_nil, or_false] at h
      rcases h with rfl | rfl | rfl | rfl
      · change 0 < 4 + 2 * stack.length
        omega
      · change 0 < 4 + 2 * stack.length
        omega
      · change 1 < 4 + 2 * stack.length
        omega
      · change 3 + 2 * stack.length < 4 + 2 * stack.length
        omega
    | .expressionEnd, _ => exact absurd h List.not_mem_nil

/-! ## Passing a silent position -/

private theorem entry_isBelow (position : Position) :
    position.opening?.all (fun entered => isBelow position.rank entered.2) = true := by
  cases position <;> decide

private theorem typeDescEnd_isBelow (production : Position) :
    (inside? .typeDescEnd production).all (isBelow 2) = true := by
  cases production <;> decide

private theorem expressionEnd_isBelow (production : Position) :
    (inside? .expressionEnd production).all (isBelow 3) = true := by
  cases production <;> decide

private theorem resumption_isBelow (production : Position) :
    production.resumption?.all (isBelow 8) = true := by
  cases production <;> decide

private theorem stay_isBelow {position : Position} {bound : Nat}
    (hinside : ∀ production, (inside? position production).all (isBelow bound) = true)
    {stack stack' : Stack} {next : Position} (h : stay position stack = .reach next stack') :
    isBelow bound next = true := by
  cases stack with
  | nil => simp [stay, refuse] at h
  | cons production rest =>
    have hall := hinside production
    simp only [stay] at h
    cases hfound : position.inside? production with
    | none => simp [hfound, refuse] at h
    | some found =>
      simp only [hfound, Step.reach.injEq] at h
      rw [hfound] at hall
      rw [← h.1]
      simpa using hall

private theorem afterProduction_isBelow {stack stack' : Stack} {next : Position}
    (h : afterProduction stack = .reach next stack') : isBelow 8 next = true := by
  fun_induction afterProduction stack with
  | case1 => simp at h
  | case2 _ ih => exact ih h
  | case3 production rest _ found hfound =>
    have hall := resumption_isBelow production
    rw [hfound] at hall
    simp only [Step.reach.injEq] at h
    rw [← h.1]
    simpa using hall
  | case4 => simp at h

private theorem weight_lt_of_afterExpression {stack stack' : Stack} {next : Position}
    (h : afterExpression stack = .reach next stack') :
    next.weight stack' < weight .expressionEnd stack := by
  unfold afterExpression at h
  split at h
  · simp only [Step.reach.injEq] at h
    obtain ⟨rfl, rfl⟩ := h
    change 1 < 3 + 2 * (List.length _ + 1)
    omega
  · simp only [Step.reach.injEq] at h
    obtain ⟨rfl, rfl⟩ := h
    change 2 < 3 + 2 * (List.length _ + 1)
    omega
  · simp only [Step.reach.injEq] at h
    obtain ⟨rfl, rfl⟩ := h
    change 2 < 3 + 2 * (List.length _ + 1)
    omega
  · simp only [Step.reach.injEq] at h
    obtain ⟨rfl, rfl⟩ := h
    change 2 < 3 + 2 * (List.length _ + 1)
    omega
  · simp only [Step.reach.injEq] at h
    obtain ⟨rfl, rfl⟩ := h
    change 4 + 2 * List.length _ < 3 + 2 * (List.length _ + 1 + 1)
    omega
  · simp at h
  · have hbelow := weight_lt_of_isBelow (stay_isBelow expressionEnd_isBelow h) stack'
    change _ < 3 + 2 * stack.length
    omega

private theorem silent_cases (position : Position) :
    position.isSilent = false ∨ position.opening?.isSome = true ∨ position = .parameter ∨
      position = .typeDescEnd ∨ position = .expressionEnd ∨ position = .ifEnd := by
  cases position <;> decide

private theorem isTail_of_opening? {position : Position} {entered : Position × Position}
    (h : position.opening? = some entered) : position.isTail = false := by
  unfold isTail
  split
  · cases h
  · cases h
  · rfl

/-- Passing a silent position makes the weight smaller. -/
theorem weight_lt_of_advance {position next : Position} {stack stack' : Stack}
    (hsilent : position.isSilent = true) (h : position.advance stack = .reach next stack') :
    next.weight stack' < position.weight stack := by
  unfold advance at h
  split at h
  · rename_i production first hentry
    have hall := entry_isBelow position
    rw [hentry] at hall
    simp only [Step.reach.injEq] at h
    obtain ⟨rfl, rfl⟩ := h
    have hbelow := weight_lt_of_isBelow (by simpa using hall) (production :: stack)
    rwa [weight_eq_rank (isTail_of_opening? hentry)]
  · rename_i hentry
    rcases silent_cases position with hloud | hsome | rfl | rfl | rfl | rfl
    · rw [hsilent] at hloud
      cases hloud
    · simp [hentry] at hsome
    · change Step.reach .typeDescriptor stack = .reach next stack' at h
      simp only [Step.reach.injEq] at h
      obtain ⟨rfl, rfl⟩ := h
      exact Nat.lt_succ_self 2
    · have hbelow := weight_lt_of_isBelow (stay_isBelow typeDescEnd_isBelow h) stack'
      exact hbelow
    · exact weight_lt_of_afterExpression h
    · cases stack with
      | nil => exact absurd h (by intro h; cases h)
      | cons production rest =>
        have hbelow := weight_lt_of_isBelow (afterProduction_isBelow h) stack'
        exact hbelow

end Mend.Position
