import Mend.Proofs.Grammar.Run

/-!
# Legal states of the automaton

A position stands in few productions only, and what follows it is decided by the innermost one or
two of them. So whether a state can go wrong is a matter of adjacent pairs on the stack: `hosts`
lists, for every position, the productions it may stand directly in, and a stack is nested when
each production on it stands in the one below.

Legal states are closed under everything the automaton can do (`Legal.advance`, `Legal.path`), and
none of them is without a rule. The closers are where this needs an argument: they take
productions off the stack, and the rule for what follows looks at what comes to light below.
-/

namespace Mend

namespace Position

/-! ## Which productions hold what -/

/-- The productions that hold a type. -/
def typeHosts : List Position :=
  [.paramList, .funcDefinition, .typeDefinition, .recordField, .varDecl, .letClause, .objectField,
    .objectMethod, .workerDecl, .fromClause, .foreachStmt]

/-- The productions that hold an expression. -/
def expressionHosts : List Position :=
  [.varDecl, .constDecl, .assignmentStmt, .returnStmt, .argList, .bracedExpr, .ifBlock,
    .whileBlock, .foreachStmt, .matchStmt, .interpolation, .listConstructor, .mappingField,
    .fromClause, .whereClause, .letClause, .selectClause]

/-- The productions that hold a match pattern. -/
def patternHosts : List Position := [.matchClause, .listMatchPattern, .fieldMatchPattern]

/-- The productions that hold a block. -/
def blockHosts : List Position :=
  [.funcDefinition, .whileBlock, .elseBlock, .foreachStmt, .lockStmt, .workerDecl, .matchClause,
    .ifBlock, .block]

/-- The productions that a position may stand directly in. -/
def hosts : Position → List Position
  | .compUnit => []
  | .topLevelNode | .topLevelNodeWithoutMetadata | .topLevelNodeWithoutModifier | .importDecl
  | .funcDefinition | .typeDefinition | .constDecl | .docString | .publicKeyword | .eof =>
    [.compUnit]
  | .importKeyword | .importOrgOrModuleName | .importNameRhs | .slash | .importModuleName =>
    [.importDecl]
  | .functionKeyword | .functionName | .paramList => [.funcDefinition, .objectMethod]
  | .paramStart | .paramEnd | .parameter | .parameterName => [.paramList]
  | .returnTypeOrBody => [.funcDefinition]
  | .methodDeclRhs => [.objectMethod]
  | .returnsKeyword => [.funcDefinition, .objectMethod, .workerDecl]
  | .typeKeyword | .typeName => [.typeDefinition]
  | .constKeyword | .constName => [.constDecl]
  | .typeDescriptor | .typeReference | .builtinTypeDescriptor | .recordTypeDesc
  | .objectTypeDesc | .typeDescRhs | .questionMark | .typeDescEnd =>
    typeHosts
  | .recordKeyword | .recordFieldOrEnd | .recordField => [.recordTypeDesc]
  | .objectKeyword | .objectMemberOrEnd | .objectMember | .objectMethod | .objectField =>
    [.objectTypeDesc]
  | .fieldName => [.recordField, .objectField]
  | .varDecl => [.compUnit, .block]
  | .varKeyword => [.varDecl, .letClause, .fromClause, .foreachStmt, .varBindingPattern]
  | .varDeclTypeStart => [.varDecl, .letClause, .fromClause, .foreachStmt]
  | .variableName => [.varDecl, .letClause]
  | .varDeclRhs => [.varDecl]
  | .assignOp => [.varDecl, .constDecl, .assignmentStmt, .letClause]
  | .block => blockHosts
  | .openBrace =>
    [.block, .recordTypeDesc, .objectTypeDesc, .mappingConstructor, .matchStmt,
      .mappingMatchPattern, .forkStmt]
  | .closeBrace =>
    [.block, .recordTypeDesc, .objectTypeDesc, .mappingConstructor, .matchStmt,
      .mappingMatchPattern, .forkStmt, .interpolation]
  | .statementsOrEnd | .statement | .statementStartIdentifier | .statementStartIdentifierRhs
  | .whileBlock | .returnStmt | .breakStmt | .continueStmt | .assignmentStmt | .callStmt
  | .varDeclAfterTypeRef | .sendStmt | .matchStmt | .foreachStmt | .lockStmt | .forkStmt =>
    [.block]
  | .workerDecl => [.block, .forkStmt]
  | .ifBlock | .elseBlock => [.block, .elseBlock]
  | .ifKeyword | .elseOrEnd | .elseKeyword | .ifEnd => [.ifBlock]
  | .elseBody => [.elseBlock]
  | .whileKeyword => [.whileBlock]
  | .returnKeyword | .returnRhs => [.returnStmt]
  | .breakKeyword => [.breakStmt]
  | .continueKeyword => [.continueStmt]
  | .foreachKeyword => [.foreachStmt]
  | .lockKeyword => [.lockStmt]
  | .workerKeyword | .workerName | .workerReturnOrBody => [.workerDecl]
  | .forkKeyword | .forkBodyOrEnd => [.forkStmt]
  | .matchKeyword | .matchClauseOrEnd | .matchClause => [.matchStmt]
  | .matchPatternRhs | .rightDoubleArrow | .pipe => [.matchClause]
  | .matchPattern | .patternName | .constPattern | .varBindingPattern | .listMatchPattern
  | .mappingMatchPattern =>
    patternHosts
  | .listPatternStart | .listPatternEnd => [.listMatchPattern]
  | .mappingPatternStart | .mappingPatternEnd | .fieldMatchPattern => [.mappingMatchPattern]
  | .patternFieldName => [.fieldMatchPattern]
  | .colon => [.mappingField, .fieldMatchPattern]
  | .bindingName => [.fromClause, .foreachStmt, .varBindingPattern]
  | .inKeyword => [.fromClause, .foreachStmt]
  | .expression | .variableRef | .basicLiteral | .bracedExpr | .unaryOperator | .binaryOperator
  | .listConstructor | .mappingConstructor | .newExpr | .queryExpr | .receiveExpr | .waitExpr
  | .templateExpr | .expressionRhs | .expressionEnd | .dot | .fieldAccessName =>
    expressionHosts
  | .argList => .callStmt :: .newExpr :: expressionHosts
  | .argStart | .argEnd => [.argList]
  | .openParenthesis | .closeParenthesis => [.paramList, .argList, .bracedExpr]
  | .listConstructorStart | .listConstructorEnd => [.listConstructor]
  | .openBracket | .closeBracket => [.listConstructor, .listMatchPattern]
  | .mappingFieldOrEnd | .mappingFieldEnd | .mappingField => [.mappingConstructor]
  | .mappingFieldName => [.mappingField]
  | .comma =>
    [.paramList, .argList, .listConstructor, .mappingConstructor, .listMatchPattern,
      .mappingMatchPattern]
  | .newKeyword | .className => [.newExpr]
  | .queryClauseOrSelect | .fromClause | .whereClause | .letClause | .selectClause => [.queryExpr]
  | .fromKeyword => [.fromClause]
  | .whereKeyword => [.whereClause]
  | .letKeyword => [.letClause]
  | .selectKeyword => [.selectClause]
  | .rightArrow => [.sendStmt]
  | .leftArrow => [.receiveExpr]
  | .waitKeyword => [.waitExpr]
  | .peerWorker => [.sendStmt, .receiveExpr, .waitExpr]
  | .templateTypeKeyword | .openBacktick | .closeBacktick | .templateText | .templateMemberOrEnd
  | .interpolation =>
    [.templateExpr]
  | .interpolationStart => [.interpolation]
  | .semicolon =>
    [.importDecl, .typeDefinition, .recordField, .constDecl, .varDecl, .assignmentStmt, .callStmt,
      .returnStmt, .breakStmt, .continueStmt, .objectField, .objectMethod, .sendStmt]

/-- Whether a position may stand at the top of a stack. A program stands in nothing. -/
def Fits (position : Position) : Stack → Prop
  | [] => position = .compUnit
  | production :: _ => production ∈ position.hosts

/-- All but a program stands on a stack with one of its productions on top. -/
theorem Fits.exists_cons {position : Position} {stack : Stack} (h : position.Fits stack)
    (hinner : position ≠ .compUnit) :
    ∃ production rest, stack = production :: rest ∧ production ∈ position.hosts := by
  cases stack with
  | nil => exact absurd h hinner
  | cons production rest => exact ⟨production, rest, rfl, h⟩

/-- What stands in one production alone stands on a stack with that production on top. -/
theorem Fits.sole {position production : Position} {stack : Stack} (h : position.Fits stack)
    (hinner : position ≠ .compUnit) (hsole : position.hosts = [production]) :
    ∃ rest, stack = production :: rest := by
  obtain ⟨top, rest, rfl, hmem⟩ := h.exists_cons hinner
  rw [hsole, List.mem_singleton] at hmem
  exact ⟨rest, by rw [hmem]⟩

/-- What stands in fewer productions fits wherever it does. -/
theorem Fits.mono {p q : Position} {stack : Stack} (h : p.Fits stack) (hinner : p ≠ .compUnit)
    (hsub : p.hosts ⊆ q.hosts) : q.Fits stack := by
  cases stack with
  | nil => exact absurd h hinner
  | cons top rest => exact hsub h

end Position

/-- A stack on which every production may stand in the one below. -/
def Stack.Nested : Stack → Prop
  | [] => True
  | production :: rest => production.Fits rest ∧ Nested rest

/-- A state that the grammar allows: a position that is searched, on a nested stack it fits. -/
structure Legal (position : Position) (stack : Stack) : Prop where
  searched : position ≠ .elseBlock
  fits : position.Fits stack
  nested : Stack.Nested stack

namespace Position

/-! ## The tables agree on where positions stand -/

private theorem ways_hosts (p : Position) :
    p.ways.all (fun q => q != .elseBlock && p.hosts.all q.hosts.contains) = true := by
  cases p <;> decide

private theorem opening_hosts (p : Position) :
    p.opening?.all (fun entered =>
      (entered.1 == .compUnit) == (p == .compUnit) && p.hosts.all entered.1.hosts.contains &&
        entered.2 != .elseBlock && entered.2.hosts.contains entered.1) = true := by
  cases p <;> decide

private theorem successor_hosts (p : Position) :
    p.successor?.all (fun q =>
      p != .compUnit && q != .elseBlock && p.hosts.all q.hosts.contains) = true := by
  cases p <;> decide

/-- Whether a position only ever moves on inside the production that it stands in. -/
def stays : Position → Bool
  | .varKeyword | .variableName | .assignOp | .colon | .openBracket | .openParenthesis
  | .openBrace | .comma | .typeDescEnd =>
    true
  | _ => false

theorem resume_of_stays {p : Position} {S : Stack} (hstays : p.stays = true) :
    p.resume S = p.stay S := by
  cases p <;> first | rfl | cases hstays

/-- Whether a position has a successor inside a production, and one that stands there. -/
def staysIn (p production : Position) : Bool :=
  (p.inside? production).any fun q => q != .elseBlock && q.hosts.contains production

private theorem staysIn_hosts (p : Position) (hstays : p.stays = true) :
    p.hosts.all p.staysIn = true := by
  revert hstays
  cases p <;> decide

/-- Whether the end of an expression leaves a production. -/
def endsWithExpression : Position → Bool
  | .mappingField | .fromClause | .whereClause | .letClause | .selectClause => true
  | _ => false

private theorem staysIn_expressionHosts :
    expressionHosts.all (fun production =>
      production.endsWithExpression || staysIn .expressionEnd production) = true := by
  decide

end Position

namespace Legal

variable {p q : Position} {S : Stack}

/-- Every way on from a legal branch point is legal. -/
theorem way (h : Legal p S) (hway : q ∈ p.ways) : Legal q S := by
  have htable := List.all_eq_true.1 (Position.ways_hosts p) q hway
  simp only [Bool.and_eq_true, bne_iff_ne, ne_eq, List.all_eq_true] at htable
  refine ⟨htable.1, ?_, h.nested⟩
  cases S with
  | nil =>
    have hp : p = .compUnit := h.fits
    subst hp
    exact absurd hway List.not_mem_nil
  | cons production rest =>
    have hmem := htable.2 production h.fits
    simpa [Position.Fits] using hmem

theorem path (h : Legal p S) (hpath : q ∈ p.paths) : Legal q S :=
  h.way (Position.mem_ways_of_mem_paths hpath)

/-! ## Moves from a legal state -/

/-- A move that reaches a legal state. -/
def Arrives (step : Step) : Prop := ∃ q S, step = .reach q S ∧ Legal q S

theorem Arrives.reach (h : Legal q S) : Arrives (.reach q S) := ⟨q, S, rfl, h⟩

/-- Where a production ends, what encloses it goes on. -/
theorem arrives_afterProduction {production : Position} (hfits : production.Fits S)
    (hnested : Stack.Nested S)
    (hresumes : ∀ outer ∈ production.hosts, outer = .elseBlock ∨ outer.resumption?.isSome = true)
    (hinner : production ≠ .compUnit) : Arrives (Position.afterProduction S) := by
  induction S generalizing production with
  | nil => exact absurd hfits hinner
  | cons outer rest ih =>
    rcases hresumes outer hfits with rfl | hsome
    · exact ih hnested.1 hnested.2 (by decide) (by decide)
    · have hboth : ∀ p : Position, p.resumption?.isSome = true → p ≠ .elseBlock ∧
          p.resumption?.all (fun q => q != .elseBlock && q.hosts.contains p) = true := by
        intro p
        cases p <;> decide
      obtain ⟨helse, htable⟩ := hboth outer hsome
      obtain ⟨next, hnext⟩ := Option.isSome_iff_exists.1 hsome
      rw [hnext] at htable
      simp only [Option.all_some, Bool.and_eq_true, bne_iff_ne, ne_eq, List.contains_iff_mem]
        at htable
      have hstep : Position.afterProduction (outer :: rest) = .reach next (outer :: rest) := by
        rw [Position.afterProduction]
        · rw [hnext]
        · exact helse
      rw [hstep]
      exact .reach ⟨htable.1, htable.2, hnested⟩

/-- Inside a production that holds the next position, the move arrives. -/
theorem arrives_here {production : Position} {rest : Stack} (hq : q ≠ .elseBlock)
    (hmem : production ∈ q.hosts) (hnested : Stack.Nested (production :: rest)) :
    Arrives (.reach q (production :: rest)) :=
  .reach ⟨hq, hmem, hnested⟩

/-- A complete pattern is followed by what its clause, list or field goes on with. -/
theorem arrives_afterPattern (hfits : Position.matchPattern.Fits S) (hnested : Stack.Nested S) :
    Arrives (Position.afterPattern S) := by
  obtain ⟨production, rest, rfl, hmem⟩ := hfits.exists_cons (by decide)
  change production ∈ [_, _, _] at hmem
  simp only [List.mem_cons, List.not_mem_nil, or_false] at hmem
  rcases hmem with rfl | rfl | rfl
  · exact arrives_here (by decide) (by decide) hnested
  · exact arrives_here (by decide) (by decide) hnested
  · obtain ⟨rest, rfl⟩ := hnested.1.sole (by decide) rfl
    exact arrives_here (by decide) (by decide) hnested.2

/-- A move that stays inside the enclosing production arrives. -/
theorem arrives_stay {production : Position} {rest : Stack} (hstays : p.staysIn production = true)
    (hnested : Stack.Nested (production :: rest)) : Arrives (p.stay (production :: rest)) := by
  rw [Position.stay]
  cases hnext : p.inside? production with
  | none => simp [Position.staysIn, hnext] at hstays
  | some next =>
    simp only [Position.staysIn, hnext, Option.any_some, Bool.and_eq_true, bne_iff_ne, ne_eq,
      List.contains_iff_mem] at hstays
    exact arrives_here hstays.1 hstays.2 hnested

theorem arrives_of_stays (hstays : p.stays = true) (hfits : p.Fits S) (hnested : Stack.Nested S) :
    Arrives (p.stay S) := by
  cases S with
  | nil =>
    have hp : p = .compUnit := hfits
    subst hp
    cases hstays
  | cons production rest =>
    exact arrives_stay (List.all_eq_true.1 (Position.staysIn_hosts p hstays) production hfits)
      hnested

/-- Where a production of an expression has been left, the expression goes on. -/
theorem arrives_expressionRhs (hfits : p.Fits S) (hinner : p ≠ .compUnit)
    (hsub : p.hosts ⊆ Position.expressionHosts) (hnested : Stack.Nested S) :
    Arrives (.reach .expressionRhs S) :=
  .reach ⟨by decide, hfits.mono hinner hsub, hnested⟩

/-- What follows an argument list that has been left. -/
theorem arrives_afterArguments (hfits : Position.argList.Fits S) (hnested : Stack.Nested S) :
    Arrives (Position.afterArguments S) := by
  unfold Position.afterArguments
  split
  · exact arrives_here (by decide) (by decide) hnested
  · exact arrives_expressionRhs hnested.1 (by decide) (List.Subset.refl _) hnested.2
  · rename_i hcall hnew
    cases S with
    | nil => exact absurd hfits (by decide : Position.argList ≠ .compUnit)
    | cons production rest =>
      have hmem : production ∈ Position.callStmt :: .newExpr :: Position.expressionHosts := hfits
      rcases List.mem_cons.1 hmem with rfl | hmem
      · exact absurd rfl (hcall rest)
      · rcases List.mem_cons.1 hmem with rfl | hmem
        · exact absurd rfl (hnew rest)
        · exact arrives_here (by decide) hmem hnested

/-- A call that goes on with an expression is followed by what goes on with it. -/
theorem afterArguments (h : Legal .expressionRhs S) :
    Position.afterArguments S = .reach .expressionRhs S := by
  unfold Position.afterArguments
  split
  · exact absurd h.fits (by decide : Position.callStmt ∉ Position.expressionHosts)
  · exact absurd h.fits (by decide : Position.newExpr ∉ Position.expressionHosts)
  · rfl

/-- What follows the end of an expression. -/
theorem arrives_afterExpression (hfits : Position.expressionEnd.Fits S)
    (hnested : Stack.Nested S) : Arrives (Position.afterExpression S) := by
  unfold Position.afterExpression
  split
  · obtain ⟨rest, rfl⟩ := hnested.1.sole (by decide) rfl
    exact arrives_here (by decide) (by decide) hnested.2
  · obtain ⟨rest, rfl⟩ := hnested.1.sole (by decide) rfl
    exact arrives_here (by decide) (by decide) hnested.2
  · obtain ⟨rest, rfl⟩ := hnested.1.sole (by decide) rfl
    exact arrives_here (by decide) (by decide) hnested.2
  · obtain ⟨rest, rfl⟩ := hnested.1.sole (by decide) rfl
    exact arrives_here (by decide) (by decide) hnested.2
  · obtain ⟨rest, hrest⟩ := hnested.1.sole (by decide) rfl
    rw [List.cons.injEq] at hrest
    obtain ⟨rfl, rfl⟩ := hrest
    exact arrives_expressionRhs hnested.2.1 (by decide) (List.Subset.refl _) hnested.2.2
  · exact absurd hnested.1 (by decide : Position.selectClause ≠ .compUnit)
  · rename_i hfield hfrom hwhere hlet hselect hlone
    cases S with
    | nil => exact absurd hfits (by decide : Position.expressionEnd ≠ .compUnit)
    | cons production rest =>
      have htable := List.all_eq_true.1 Position.staysIn_expressionHosts production hfits
      rcases Bool.or_eq_true_iff.1 htable with hleaves | hstays
      · unfold Position.endsWithExpression at hleaves
        split at hleaves
        · exact absurd rfl (hfield rest)
        · exact absurd rfl (hfrom rest)
        · exact absurd rfl (hwhere rest)
        · exact absurd rfl (hlet rest)
        · obtain ⟨inner, rfl⟩ := hnested.1.sole (by decide) rfl
          exact absurd rfl (hselect _ inner)
        · cases hleaves
      · exact arrives_stay hstays hnested

/-- What follows the name of a binding. -/
theorem arrives_afterBinding (hfits : Position.bindingName.Fits S) (hnested : Stack.Nested S) :
    Arrives (Position.afterBinding S) := by
  obtain ⟨production, rest, rfl, hmem⟩ := hfits.exists_cons (by decide)
  change production ∈ [_, _, _] at hmem
  simp only [List.mem_cons, List.not_mem_nil, or_false] at hmem
  rcases hmem with rfl | rfl | rfl
  · exact arrives_stay (p := .bindingName) (by decide) hnested
  · exact arrives_stay (p := .bindingName) (by decide) hnested
  · exact arrives_afterPattern (hnested.1.mono (by decide) (List.Subset.refl _)) hnested.2

/-- What follows the worker of a message. -/
theorem arrives_afterPeer (hfits : Position.peerWorker.Fits S) (hnested : Stack.Nested S) :
    Arrives (Position.afterPeer S) := by
  obtain ⟨production, rest, rfl, hmem⟩ := hfits.exists_cons (by decide)
  change production ∈ [_, _, _] at hmem
  simp only [List.mem_cons, List.not_mem_nil, or_false] at hmem
  rcases hmem with rfl | rfl | rfl
  · exact arrives_stay (p := .peerWorker) (by decide) hnested
  · exact arrives_expressionRhs hnested.1 (by decide) (List.Subset.refl _) hnested.2
  · exact arrives_expressionRhs hnested.1 (by decide) (List.Subset.refl _) hnested.2

/-- What follows a parameter list that has been left. -/
theorem arrives_afterParameters (hfits : Position.paramList.Fits S) (hnested : Stack.Nested S) :
    Arrives (Position.afterParameters S) := by
  obtain ⟨production, rest, rfl, hmem⟩ := hfits.exists_cons (by decide)
  change production ∈ [_, _] at hmem
  simp only [List.mem_cons, List.not_mem_nil, or_false] at hmem
  rcases hmem with rfl | rfl
  · exact arrives_here (by decide) (by decide) hnested
  · exact arrives_here (by decide) (by decide) hnested

/-- What follows a closing parenthesis. -/
theorem arrives_afterParenthesis (hfits : Position.closeParenthesis.Fits S)
    (hnested : Stack.Nested S) : Arrives (Position.afterParenthesis S) := by
  obtain ⟨production, rest, rfl, hmem⟩ := hfits.exists_cons (by decide)
  change production ∈ [_, _, _] at hmem
  simp only [List.mem_cons, List.not_mem_nil, or_false] at hmem
  rcases hmem with rfl | rfl | rfl
  · exact arrives_afterParameters hnested.1 hnested.2
  · exact arrives_afterArguments hnested.1 hnested.2
  · exact arrives_expressionRhs hnested.1 (by decide) (List.Subset.refl _) hnested.2

/-- What follows a block. -/
theorem arrives_afterBlock (hfits : Position.block.Fits S) (hnested : Stack.Nested S) :
    Arrives (Position.afterBlock S) := by
  unfold Position.afterBlock
  split
  · exact absurd hfits (by decide : Position.block ≠ .compUnit)
  · obtain ⟨rest, rfl⟩ := hnested.1.sole (by decide) rfl
    exact arrives_here (by decide) (by decide) hnested.2
  · exact arrives_here (by decide) (by decide) hnested
  · exact arrives_here (by decide) (by decide) hnested
  · rename_i owner rest hclause hif hblock
    have howners : ∀ owner ∈ Position.blockHosts, owner = .matchClause ∨ owner = .ifBlock ∨
        owner = .block ∨ owner.endsWithBody = true ∧ owner ≠ .compUnit ∧
          ∀ outer ∈ owner.hosts, outer = .elseBlock ∨ outer.resumption?.isSome = true := by
      decide
    rcases howners owner hfits with rfl | rfl | rfl | ⟨hends, hinner, hresumes⟩
    · exact absurd rfl hclause
    · exact absurd rfl hif
    · exact absurd rfl hblock
    · rw [if_pos hends]
      exact arrives_afterProduction hnested.1 hnested.2 hresumes hinner

/-- What follows a closing brace. -/
theorem arrives_afterBrace (hfits : Position.closeBrace.Fits S) (hnested : Stack.Nested S) :
    Arrives (Position.afterBrace S) := by
  obtain ⟨production, rest, rfl, hmem⟩ := hfits.exists_cons (by decide)
  change production ∈ [_, _, _, _, _, _, _, _] at hmem
  simp only [List.mem_cons, List.not_mem_nil, or_false] at hmem
  rcases hmem with rfl | rfl | rfl | rfl | rfl | rfl | rfl | rfl
  · exact arrives_afterBlock hnested.1 hnested.2
  · exact .reach ⟨by decide, hnested.1.mono (by decide) (List.Subset.refl _), hnested.2⟩
  · exact .reach ⟨by decide, hnested.1.mono (by decide) (List.Subset.refl _), hnested.2⟩
  · exact arrives_expressionRhs hnested.1 (by decide) (List.Subset.refl _) hnested.2
  · exact arrives_afterProduction hnested.1 hnested.2 (by decide) (by decide)
  · exact arrives_afterPattern (hnested.1.mono (by decide) (List.Subset.refl _)) hnested.2
  · exact arrives_afterProduction hnested.1 hnested.2 (by decide) (by decide)
  · exact .reach ⟨by decide, hnested.1.mono (by decide) (List.Subset.refl _), hnested.2⟩

/-- What follows a closing bracket. -/
theorem arrives_afterBracket (hfits : Position.closeBracket.Fits S) (hnested : Stack.Nested S) :
    Arrives (Position.afterBracket S) := by
  obtain ⟨production, rest, rfl, hmem⟩ := hfits.exists_cons (by decide)
  change production ∈ [_, _] at hmem
  simp only [List.mem_cons, List.not_mem_nil, or_false] at hmem
  rcases hmem with rfl | rfl
  · exact arrives_expressionRhs hnested.1 (by decide) (List.Subset.refl _) hnested.2
  · exact arrives_afterPattern (hnested.1.mono (by decide) (List.Subset.refl _)) hnested.2

/-- What follows a semicolon. -/
theorem arrives_afterSemicolon (hfits : Position.semicolon.Fits S) (hnested : Stack.Nested S) :
    Arrives (Position.afterSemicolon S) := by
  obtain ⟨production, rest, rfl, hmem⟩ := hfits.exists_cons (by decide)
  have hends : ∀ production ∈ Position.semicolon.hosts,
      production.endsAtSemicolon = true ∧ production ≠ .compUnit ∧
        ∀ outer ∈ production.hosts, outer = .elseBlock ∨ outer.resumption?.isSome = true := by
    decide
  obtain ⟨hsemicolon, hinner, hresumes⟩ := hends production hmem
  rw [Position.afterSemicolon, if_pos hsemicolon]
  exact arrives_afterProduction hnested.1 hnested.2 hresumes hinner

/-- What follows the word that starts the other branch of a conditional. -/
theorem arrives_afterElse (hfits : Position.elseKeyword.Fits S) (hnested : Stack.Nested S) :
    Arrives (Position.afterElse S) := by
  obtain ⟨rest, rfl⟩ := hfits.sole (by decide) rfl
  have hfits' : Position.elseBlock.Fits rest := hnested.1.mono (by decide) (List.Subset.refl _)
  exact arrives_here (by decide) (by decide) ⟨hfits', hnested.2⟩

/-- What follows a conditional without another branch. -/
theorem arrives_afterIf (hfits : Position.ifEnd.Fits S) (hnested : Stack.Nested S) :
    Arrives (Position.afterIf S) := by
  obtain ⟨rest, rfl⟩ := hfits.sole (by decide) rfl
  exact arrives_afterProduction hnested.1 hnested.2 (by decide) (by decide)

/-- What follows a string template. -/
theorem arrives_afterTemplate (hfits : Position.closeBacktick.Fits S) (hnested : Stack.Nested S) :
    Arrives (Position.afterTemplate S) := by
  obtain ⟨rest, rfl⟩ := hfits.sole (by decide) rfl
  exact arrives_expressionRhs hnested.1 (by decide) (List.Subset.refl _) hnested.2

/-- The moves that depend on the enclosing productions arrive. -/
theorem arrives_resume (h : Legal p S) (hbranch : p.isBranch = false)
    (hopening : p.opening? = none) (hsuccessor : p.successor? = none) :
    Arrives (p.resume S) := by
  have hfits := h.fits
  have hnested := h.nested
  have hkinds : ∀ p : Position, p.isBranch = true ∨ p.opening?.isSome = true ∨
      p.successor?.isSome = true ∨ p = .elseBlock ∨ p.stays = true ∨
      p ∈ [Position.expressionEnd, .bindingName, .peerWorker, .patternName, .constPattern,
        .closeParenthesis, .closeBrace, .closeBracket, .semicolon, .elseKeyword, .ifEnd,
        .closeBacktick] := by
    intro p
    cases p <;> decide
  rcases hkinds p with hb | ho | hs | rfl | hstays | hmem
  · rw [hbranch] at hb
    cases hb
  · rw [hopening] at ho
    cases ho
  · rw [hsuccessor] at hs
    cases hs
  · exact absurd rfl h.searched
  · rw [Position.resume_of_stays hstays]
    exact arrives_of_stays hstays hfits hnested
  · simp only [List.mem_cons, List.not_mem_nil, or_false] at hmem
    rcases hmem with rfl | rfl | rfl | rfl | rfl | rfl | rfl | rfl | rfl | rfl | rfl | rfl
    · exact arrives_afterExpression hfits hnested
    · exact arrives_afterBinding hfits hnested
    · exact arrives_afterPeer hfits hnested
    · exact arrives_afterPattern (hfits.mono (by decide) (List.Subset.refl _)) hnested
    · exact arrives_afterPattern (hfits.mono (by decide) (List.Subset.refl _)) hnested
    · exact arrives_afterParenthesis hfits hnested
    · exact arrives_afterBrace hfits hnested
    · exact arrives_afterBracket hfits hnested
    · exact arrives_afterSemicolon hfits hnested
    · exact arrives_afterElse hfits hnested
    · exact arrives_afterIf hfits hnested
    · exact arrives_afterTemplate hfits hnested

/-- Every legal position but a branch point moves on to a legal state. -/
theorem advance (h : Legal p S) (hbranch : p.isBranch = false) : Arrives (p.advance S) := by
  unfold Position.advance
  split
  · rename_i production first hopening
    have htable := Position.opening_hosts p
    rw [hopening] at htable
    simp only [Option.all_some, Bool.and_eq_true, beq_iff_eq, bne_iff_ne, ne_eq,
      List.all_eq_true, List.contains_iff_mem] at htable
    obtain ⟨⟨⟨hprogram, hsub⟩, hfirst⟩, hmem⟩ := htable
    refine arrives_here hfirst hmem ⟨?_, h.nested⟩
    cases S with
    | nil =>
      have hp : p = .compUnit := h.fits
      have hproduction : production = .compUnit := by simpa [hp] using hprogram
      exact hproduction
    | cons outer rest => exact hsub outer h.fits
  · rename_i hopening
    split
    · rename_i next hsuccessor
      have htable := Position.successor_hosts p
      rw [hsuccessor] at htable
      simp only [Option.all_some, Bool.and_eq_true, bne_iff_ne, ne_eq, List.all_eq_true,
        List.contains_iff_mem] at htable
      obtain ⟨⟨hinner, hnext⟩, hsub⟩ := htable
      exact .reach ⟨hnext, h.fits.mono hinner (fun outer => hsub outer), h.nested⟩
    · exact arrives_resume h hbranch hopening ‹_›

/-- Where a legal position other than a branch point moves on to is legal. -/
theorem reach {S' : Stack} (h : Legal p S) (hbranch : p.isBranch = false)
    (hmove : p.advance S = .reach q S') : Legal q S' := by
  obtain ⟨next, T, hnext, hlegal⟩ := h.advance hbranch
  rw [hmove, Step.reach.injEq] at hnext
  rw [hnext.1, hnext.2]
  exact hlegal

end Legal

/-- A run from a legal state stays among legal states. -/
theorem Run.legal {p q : Position} {S T : Stack} {ts : List Token} (h : Run p S ts q T)
    (hlegal : Legal p S) : Legal q T := by
  induction h with
  | refl => exact hlegal
  | branch hway _ ih => exact ih (hlegal.way hway)
  | silent hsilent hmove _ ih =>
    exact ih (hlegal.reach (Position.isBranch_of_isSilent hsilent) hmove)
  | read haccepts hmove _ ih =>
    exact ih (hlegal.reach (Position.isBranch_of_accepts haccepts) hmove)

/-- The start of a program is legal. -/
theorem legal_start : Legal .compUnit [] := ⟨by decide, rfl, trivial⟩

end Mend
