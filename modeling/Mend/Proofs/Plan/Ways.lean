import Mend.Proofs.Plan.Productions

/-!
# Choices follow the automaton

Whatever a branch point is resolved to, the plan that the machine goes on with is the plan of one
of the automaton's ways on from there, and that plan follows the automaton to the branch point's
exit. What the exit is depends on the productions around the branch point, but all its ways agree
on it.
-/

namespace Mend

/-- The plan of a way on from a branch point. -/
def Plan.via (b way : Position) : Plan := continuation b (.kind way.leadingKind)

namespace Follows

open Position

/-- The plan of a way on takes the automaton to the exit of the branch point. -/
def Opens (b way : Position) : Prop :=
  ∀ {P : Plan} {T S : Stack} {q : Position}, b.Fits T → b.exit T = .reach q S →
    Follows P T q S (b == .expression) → Follows (Plan.via b way ++ P) T way T false

variable {b way : Position}

/-! ## Declarations -/

private theorem opens_topLevelNodeWithoutMetadata (hmem : way ∈ ways .topLevelNodeWithoutMetadata) :
    Opens .topLevelNodeWithoutMetadata way := by
  have hway : way = .publicKeyword ∨ way = .topLevelNodeWithoutModifier := by
    simpa [ways, paths] using hmem
  intro P T S q _ hexit h
  rcases hway with rfl | rfl
  · exact .expect rfl rfl rfl (.choose rfl hexit h)
  · exact .choose rfl hexit h

private theorem opens_topLevelNodeWithoutModifier (hmem : way ∈ ways .topLevelNodeWithoutModifier) :
    Opens .topLevelNodeWithoutModifier way := by
  have hway : way = .funcDefinition ∨ way = .typeDefinition ∨ way = .constDecl ∨
        way = .varDecl := by
    simpa [ways, paths] using hmem
  intro P T S q _ hexit h
  rcases hway with rfl | rfl | rfl | rfl
  · exact functionDefinition hexit h
  · exact typeDefinition hexit h
  · exact constDecl hexit h
  · exact varDecl hexit h

private theorem opens_importNameRhs (hmem : way ∈ ways .importNameRhs) :
    Opens .importNameRhs way := by
  have hway : way = .semicolon ∨ way = .slash := by simpa [ways, paths] using hmem
  intro P T S q _ hexit h
  rcases hway with rfl | rfl
  · exact .expect rfl rfl hexit h
  · exact .expect rfl rfl rfl (.expect rfl rfl rfl (.expect rfl rfl hexit h))

private theorem opens_paramStart (hmem : way ∈ ways .paramStart) : Opens .paramStart way := by
  have hway : way = .closeParenthesis ∨ way = .parameter := by simpa [ways, paths] using hmem
  intro P T S q hfits hexit h
  rcases hway with rfl | rfl
  · exact .expect rfl rfl hexit h
  · obtain ⟨T, rfl⟩ := hfits.sole (by decide) rfl
    exact parameter (.choose rfl hexit h)

private theorem opens_paramEnd (hmem : way ∈ ways .paramEnd) : Opens .paramEnd way := by
  have hway : way = .closeParenthesis ∨ way = .comma := by simpa [ways, paths] using hmem
  intro P T S q hfits hexit h
  rcases hway with rfl | rfl
  · exact .expect rfl rfl hexit h
  · obtain ⟨T, rfl⟩ := hfits.sole (by decide) rfl
    exact .expect rfl rfl rfl (parameter (.choose rfl hexit h))

private theorem opens_returnTypeOrBody (hmem : way ∈ ways .returnTypeOrBody) :
    Opens .returnTypeOrBody way := by
  have hway : way = .block ∨ way = .returnsKeyword := by simpa [ways, paths] using hmem
  intro P T S q hfits hexit h
  rcases hway with rfl | rfl
  · exact block hexit h
  · obtain ⟨T, rfl⟩ := hfits.sole (by decide) rfl
    exact returnType (.silent rfl rfl (block hexit h))

private theorem opens_workerReturnOrBody (hmem : way ∈ ways .workerReturnOrBody) :
    Opens .workerReturnOrBody way := by
  have hway : way = .block ∨ way = .returnsKeyword := by simpa [ways, paths] using hmem
  intro P T S q hfits hexit h
  rcases hway with rfl | rfl
  · exact block hexit h
  · obtain ⟨T, rfl⟩ := hfits.sole (by decide) rfl
    exact returnType (.silent rfl rfl (block hexit h))

private theorem opens_methodDeclRhs (hmem : way ∈ ways .methodDeclRhs) :
    Opens .methodDeclRhs way := by
  have hway : way = .semicolon ∨ way = .returnsKeyword := by simpa [ways, paths] using hmem
  intro P T S q hfits hexit h
  rcases hway with rfl | rfl
  · exact .expect rfl rfl hexit h
  · obtain ⟨T, rfl⟩ := hfits.sole (by decide) rfl
    exact returnType (.silent rfl rfl (.expect rfl rfl hexit h))

/-! ## Types -/

private theorem opens_typeDescriptor (hmem : way ∈ ways .typeDescriptor) :
    Opens .typeDescriptor way := by
  have hway : way = .typeReference ∨ way = .builtinTypeDescriptor ∨ way = .recordTypeDesc ∨
      way = .objectTypeDesc := by
    simpa [ways, paths] using hmem
  intro P T S q _ hexit h
  obtain ⟨rfl, rfl⟩ := Step.reach.inj hexit
  rcases hway with rfl | rfl | rfl | rfl
  · exact .begin (.expect rfl rfl rfl (.finish (.optionalSuffix h)))
  · exact .begin (.expect rfl rfl rfl (.finish (.optionalSuffix h)))
  · exact recordType (.optionalSuffix h)
  · exact objectType (.optionalSuffix h)

private theorem opens_recordFieldOrEnd (hmem : way ∈ ways .recordFieldOrEnd) :
    Opens .recordFieldOrEnd way := by
  have hway : way = .closeBrace ∨ way = .recordField := by simpa [ways, paths] using hmem
  intro P T S q hfits hexit h
  obtain ⟨T, rfl⟩ := hfits.sole (by decide) rfl
  rcases hway with rfl | rfl
  · exact .expect rfl rfl hexit h
  · exact recordField rfl (.choose rfl hexit h)

private theorem opens_objectMemberOrEnd (hmem : way ∈ ways .objectMemberOrEnd) :
    Opens .objectMemberOrEnd way := by
  have hway : way = .closeBrace ∨ way = .objectMember := by simpa [ways, paths] using hmem
  intro P T S q hfits hexit h
  obtain ⟨T, rfl⟩ := hfits.sole (by decide) rfl
  rcases hway with rfl | rfl
  · exact .expect rfl rfl hexit h
  · exact .choose rfl rfl (.choose rfl hexit h)

private theorem opens_objectMember (hmem : way ∈ ways .objectMember) : Opens .objectMember way := by
  have hway : way = .objectMethod ∨ way = .objectField := by simpa [ways, paths] using hmem
  intro P T S q _ hexit h
  rcases hway with rfl | rfl
  · exact methodDeclaration hexit h
  · exact objectField hexit h

private theorem opens_varDeclTypeStart (hmem : way ∈ ways .varDeclTypeStart) :
    Opens .varDeclTypeStart way := by
  have hway : way = .varKeyword ∨ way = .typeDescriptor := by simpa [ways, paths] using hmem
  intro P T S q hfits hexit h
  obtain ⟨production, T, rfl, hhost⟩ := hfits.exists_cons (by decide)
  rcases hway with rfl | rfl
  · -- The word stands for a type: the same name follows in every production.
    have hsame : advance .varKeyword (production :: T) = .reach q S := by
      rw [← hexit]
      simp only [hosts, List.mem_cons, List.not_mem_nil, or_false] at hhost
      rcases hhost with rfl | rfl | rfl | rfl <;> rfl
    exact .expect rfl rfl hsame h
  · exact .choose rfl rfl (.silent rfl hexit h)

/-! ## Statements -/

private theorem opens_varDeclRhs (hmem : way ∈ ways .varDeclRhs) : Opens .varDeclRhs way := by
  have hway : way = .semicolon ∨ way = .assignOp := by simpa [ways, paths] using hmem
  intro P T S q hfits hexit h
  obtain ⟨T, rfl⟩ := hfits.sole (by decide) rfl
  rcases hway with rfl | rfl
  · exact .expect rfl rfl hexit h
  · exact .expect rfl rfl rfl (expression (.silent rfl rfl (.expect rfl rfl hexit h)))

private theorem opens_statementsOrEnd (hmem : way ∈ ways .statementsOrEnd) :
    Opens .statementsOrEnd way := by
  have hway : way = .closeBrace ∨ way = .statement := by simpa [ways, paths] using hmem
  intro P T S q hfits hexit h
  obtain ⟨T, rfl⟩ := hfits.sole (by decide) rfl
  rcases hway with rfl | rfl
  · exact .expect rfl rfl hexit h
  · exact .choose rfl rfl (.choose rfl hexit h)

private theorem opens_statement (hmem : way ∈ ways .statement) : Opens .statement way := by
  have hway : way = .statementStartIdentifier ∨ way = .varDecl ∨ way = .ifBlock ∨
      way = .whileBlock ∨ way = .returnStmt ∨ way = .breakStmt ∨ way = .continueStmt ∨
      way = .matchStmt ∨ way = .foreachStmt ∨ way = .lockStmt ∨ way = .workerDecl ∨
      way = .forkStmt ∨ way = .block := by
    simpa [ways, paths] using hmem
  intro P T S q hfits hexit h
  obtain ⟨T, rfl⟩ := hfits.sole (by decide) rfl
  rcases hway with
    rfl | rfl | rfl | rfl | rfl | rfl | rfl | rfl | rfl | rfl | rfl | rfl | rfl
  · exact nameStmt hexit h
  · exact .begin (varDecl hexit h)
  · exact ifStmt hexit h
  · exact whileStmt hexit h
  · exact returnStmt hexit h
  · exact breakStmt hexit h
  · exact continueStmt hexit h
  · exact matchStmt hexit h
  · exact foreachStmt hexit h
  · exact lockStmt hexit h
  · exact workerDecl hexit h
  · exact forkStmt hexit h
  · exact block hexit h

private theorem opens_statementStartIdentifierRhs (hmem : way ∈ ways .statementStartIdentifierRhs) :
    Opens .statementStartIdentifierRhs way := by
  have hway : way = .assignmentStmt ∨ way = .callStmt ∨ way = .varDeclAfterTypeRef ∨
      way = .sendStmt := by
    simpa [ways, paths] using hmem
  intro P T S q _ hexit h
  rcases hway with rfl | rfl | rfl | rfl
  · exact assignment hexit h
  · exact callStmt hexit h
  · exact namedTypeDecl hexit h
  · exact sendStmt hexit h

private theorem opens_elseBody (hmem : way ∈ ways .elseBody) : Opens .elseBody way := by
  have hway : way = .block ∨ way = .ifBlock := by simpa [ways, paths] using hmem
  intro P T S q hfits hexit h
  obtain ⟨T, rfl⟩ := hfits.sole (by decide) rfl
  rcases hway with rfl | rfl
  · exact block hexit h
  · exact ifStmt hexit h

private theorem opens_returnRhs (hmem : way ∈ ways .returnRhs) : Opens .returnRhs way := by
  have hway : way = .semicolon ∨ way = .expression := by simpa [ways, paths] using hmem
  intro P T S q hfits hexit h
  obtain ⟨T, rfl⟩ := hfits.sole (by decide) rfl
  rcases hway with rfl | rfl
  · exact .expect rfl rfl hexit h
  · exact expression (.silent rfl rfl (.expect rfl rfl hexit h))

private theorem opens_forkBodyOrEnd (hmem : way ∈ ways .forkBodyOrEnd) :
    Opens .forkBodyOrEnd way := by
  have hway : way = .closeBrace ∨ way = .workerDecl := by simpa [ways, paths] using hmem
  intro P T S q hfits hexit h
  obtain ⟨T, rfl⟩ := hfits.sole (by decide) rfl
  rcases hway with rfl | rfl
  · exact .expect rfl rfl hexit h
  · exact workerDecl rfl (.choose rfl hexit h)

private theorem opens_matchClauseOrEnd (hmem : way ∈ ways .matchClauseOrEnd) :
    Opens .matchClauseOrEnd way := by
  have hway : way = .closeBrace ∨ way = .matchClause := by simpa [ways, paths] using hmem
  intro P T S q _ hexit h
  rcases hway with rfl | rfl
  · exact .expect rfl rfl hexit h
  · exact matchClause (.choose rfl hexit h)

/-! ## Match patterns -/

private theorem opens_matchPattern (hmem : way ∈ ways .matchPattern) : Opens .matchPattern way := by
  have hway : way = .patternName ∨ way = .constPattern ∨ way = .varBindingPattern ∨
      way = .listMatchPattern ∨ way = .mappingMatchPattern := by
    simpa [ways, paths] using hmem
  intro P T S q _ hexit h
  rcases hway with rfl | rfl | rfl | rfl | rfl
  · exact .begin (.expect rfl rfl hexit (.finish h))
  · exact .begin (.expect rfl rfl hexit (.finish h))
  · exact bindingPattern hexit h
  · exact listPattern hexit h
  · exact mappingPattern hexit h

private theorem opens_matchPatternRhs (hmem : way ∈ ways .matchPatternRhs) :
    Opens .matchPatternRhs way := by
  have hway : way = .rightDoubleArrow ∨ way = .pipe := by simpa [ways, paths] using hmem
  intro P T S q hfits hexit h
  obtain ⟨T, rfl⟩ := hfits.sole (by decide) rfl
  rcases hway with rfl | rfl
  · exact .expect rfl rfl rfl (block hexit h)
  · exact .expect rfl rfl rfl (.choose rfl rfl (.choose rfl hexit h))

private theorem opens_listPatternStart (hmem : way ∈ ways .listPatternStart) :
    Opens .listPatternStart way := by
  have hway : way = .closeBracket ∨ way = .matchPattern := by simpa [ways, paths] using hmem
  intro P T S q hfits hexit h
  obtain ⟨T, rfl⟩ := hfits.sole (by decide) rfl
  rcases hway with rfl | rfl
  · exact .expect rfl rfl hexit h
  · exact .choose rfl rfl (.choose rfl hexit h)

private theorem opens_listPatternEnd (hmem : way ∈ ways .listPatternEnd) :
    Opens .listPatternEnd way := by
  have hway : way = .closeBracket ∨ way = .comma := by simpa [ways, paths] using hmem
  intro P T S q hfits hexit h
  obtain ⟨T, rfl⟩ := hfits.sole (by decide) rfl
  rcases hway with rfl | rfl
  · exact .expect rfl rfl hexit h
  · exact .expect rfl rfl rfl (.choose rfl rfl (.choose rfl hexit h))

private theorem opens_mappingPatternStart (hmem : way ∈ ways .mappingPatternStart) :
    Opens .mappingPatternStart way := by
  have hway : way = .closeBrace ∨ way = .fieldMatchPattern := by simpa [ways, paths] using hmem
  intro P T S q _ hexit h
  rcases hway with rfl | rfl
  · exact .expect rfl rfl hexit h
  · exact fieldPattern (.choose rfl hexit h)

private theorem opens_mappingPatternEnd (hmem : way ∈ ways .mappingPatternEnd) :
    Opens .mappingPatternEnd way := by
  have hway : way = .closeBrace ∨ way = .comma := by simpa [ways, paths] using hmem
  intro P T S q hfits hexit h
  obtain ⟨T, rfl⟩ := hfits.sole (by decide) rfl
  rcases hway with rfl | rfl
  · exact .expect rfl rfl hexit h
  · exact .expect rfl rfl rfl (fieldPattern (.choose rfl hexit h))

/-! ## Expressions -/

private theorem opens_expression (hmem : way ∈ ways .expression) : Opens .expression way := by
  have hway : way = .variableRef ∨ way = .basicLiteral ∨ way = .bracedExpr ∨
      way = .unaryOperator ∨ way = .listConstructor ∨ way = .mappingConstructor ∨
      way = .newExpr ∨ way = .queryExpr ∨ way = .receiveExpr ∨ way = .waitExpr ∨
      way = .templateExpr := by
    simpa [ways, paths] using hmem
  intro P T S q _ hexit h
  obtain ⟨rfl, rfl⟩ := Step.reach.inj hexit
  rcases hway with rfl | rfl | rfl | rfl | rfl | rfl | rfl | rfl | rfl | rfl | rfl
  · exact .begin (.expect rfl rfl rfl (.finish (.postfixes h)))
  · exact .begin (.expect rfl rfl rfl (.finish (.postfixes h)))
  · exact bracedExpr (.postfixes h)
  · exact unaryExpr h
  · exact listConstructor (.postfixes h)
  · exact mappingConstructor (.postfixes h)
  · exact newExpr (.postfixes h)
  · exact queryExpr (.postfixes h)
  · exact receiveExpr (.postfixes h)
  · exact waitExpr (.postfixes h)
  · exact templateExpr (.postfixes h)

private theorem opens_argStart (hmem : way ∈ ways .argStart) : Opens .argStart way := by
  have hway : way = .closeParenthesis ∨ way = .expression := by simpa [ways, paths] using hmem
  intro P T S q hfits hexit h
  obtain ⟨T, rfl⟩ := hfits.sole (by decide) rfl
  rcases hway with rfl | rfl
  · exact .expect rfl rfl hexit h
  · exact expression (.silent rfl rfl (.choose rfl hexit h))

private theorem opens_argEnd (hmem : way ∈ ways .argEnd) : Opens .argEnd way := by
  have hway : way = .closeParenthesis ∨ way = .comma := by simpa [ways, paths] using hmem
  intro P T S q hfits hexit h
  obtain ⟨T, rfl⟩ := hfits.sole (by decide) rfl
  rcases hway with rfl | rfl
  · exact .expect rfl rfl hexit h
  · exact .expect rfl rfl rfl (expression (.silent rfl rfl (.choose rfl hexit h)))

private theorem opens_listConstructorStart (hmem : way ∈ ways .listConstructorStart) :
    Opens .listConstructorStart way := by
  have hway : way = .closeBracket ∨ way = .expression := by simpa [ways, paths] using hmem
  intro P T S q hfits hexit h
  obtain ⟨T, rfl⟩ := hfits.sole (by decide) rfl
  rcases hway with rfl | rfl
  · exact .expect rfl rfl hexit h
  · exact expression (.silent rfl rfl (.choose rfl hexit h))

private theorem opens_listConstructorEnd (hmem : way ∈ ways .listConstructorEnd) :
    Opens .listConstructorEnd way := by
  have hway : way = .closeBracket ∨ way = .comma := by simpa [ways, paths] using hmem
  intro P T S q hfits hexit h
  obtain ⟨T, rfl⟩ := hfits.sole (by decide) rfl
  rcases hway with rfl | rfl
  · exact .expect rfl rfl hexit h
  · exact .expect rfl rfl rfl (expression (.silent rfl rfl (.choose rfl hexit h)))

private theorem opens_mappingFieldOrEnd (hmem : way ∈ ways .mappingFieldOrEnd) :
    Opens .mappingFieldOrEnd way := by
  have hway : way = .closeBrace ∨ way = .mappingField := by simpa [ways, paths] using hmem
  intro P T S q _ hexit h
  rcases hway with rfl | rfl
  · exact .expect rfl rfl hexit h
  · exact mappingField (.choose rfl hexit h)

private theorem opens_mappingFieldEnd (hmem : way ∈ ways .mappingFieldEnd) :
    Opens .mappingFieldEnd way := by
  have hway : way = .closeBrace ∨ way = .comma := by simpa [ways, paths] using hmem
  intro P T S q hfits hexit h
  obtain ⟨T, rfl⟩ := hfits.sole (by decide) rfl
  rcases hway with rfl | rfl
  · exact .expect rfl rfl hexit h
  · exact .expect rfl rfl rfl (mappingField (.choose rfl hexit h))

private theorem opens_queryClauseOrSelect (hmem : way ∈ ways .queryClauseOrSelect) :
    Opens .queryClauseOrSelect way := by
  have hway : way = .selectClause ∨ way = .whereClause ∨ way = .letClause ∨
      way = .fromClause := by
    simpa [ways, paths] using hmem
  intro P T S q hfits hexit h
  obtain ⟨T, rfl⟩ := hfits.sole (by decide) rfl
  rcases hway with rfl | rfl | rfl | rfl
  · obtain ⟨rfl, rfl⟩ := Step.reach.inj hexit
    exact selectClause h
  · exact whereClause (.choose rfl hexit h)
  · exact letClause (.choose rfl hexit h)
  · exact fromClause (.choose rfl hexit h)

private theorem opens_templateMemberOrEnd (hmem : way ∈ ways .templateMemberOrEnd) :
    Opens .templateMemberOrEnd way := by
  have hway : way = .closeBacktick ∨ way = .templateText ∨ way = .interpolation := by
    simpa [ways, paths] using hmem
  intro P T S q _ hexit h
  rcases hway with rfl | rfl | rfl
  · exact .expect rfl rfl hexit h
  · exact .expect rfl rfl rfl (.choose rfl hexit h)
  · exact interpolation (.choose rfl hexit h)

/-! ## Every choice -/

theorem opens (hchoice : b.isChoice = true) (hway : way ∈ b.ways) : Opens b way := by
  cases b with
  | topLevelNode =>
    intro P T S q _ hexit
    cases hexit
  | topLevelNodeWithoutMetadata => exact opens_topLevelNodeWithoutMetadata hway
  | topLevelNodeWithoutModifier => exact opens_topLevelNodeWithoutModifier hway
  | importNameRhs => exact opens_importNameRhs hway
  | paramStart => exact opens_paramStart hway
  | paramEnd => exact opens_paramEnd hway
  | returnTypeOrBody => exact opens_returnTypeOrBody hway
  | workerReturnOrBody => exact opens_workerReturnOrBody hway
  | methodDeclRhs => exact opens_methodDeclRhs hway
  | typeDescriptor => exact opens_typeDescriptor hway
  | recordFieldOrEnd => exact opens_recordFieldOrEnd hway
  | objectMemberOrEnd => exact opens_objectMemberOrEnd hway
  | objectMember => exact opens_objectMember hway
  | varDeclTypeStart => exact opens_varDeclTypeStart hway
  | varDeclRhs => exact opens_varDeclRhs hway
  | statementsOrEnd => exact opens_statementsOrEnd hway
  | statement => exact opens_statement hway
  | statementStartIdentifierRhs => exact opens_statementStartIdentifierRhs hway
  | elseBody => exact opens_elseBody hway
  | returnRhs => exact opens_returnRhs hway
  | forkBodyOrEnd => exact opens_forkBodyOrEnd hway
  | matchClauseOrEnd => exact opens_matchClauseOrEnd hway
  | matchPattern => exact opens_matchPattern hway
  | matchPatternRhs => exact opens_matchPatternRhs hway
  | listPatternStart => exact opens_listPatternStart hway
  | listPatternEnd => exact opens_listPatternEnd hway
  | mappingPatternStart => exact opens_mappingPatternStart hway
  | mappingPatternEnd => exact opens_mappingPatternEnd hway
  | expression => exact opens_expression hway
  | argStart => exact opens_argStart hway
  | argEnd => exact opens_argEnd hway
  | listConstructorStart => exact opens_listConstructorStart hway
  | listConstructorEnd => exact opens_listConstructorEnd hway
  | mappingFieldOrEnd => exact opens_mappingFieldOrEnd hway
  | mappingFieldEnd => exact opens_mappingFieldEnd hway
  | queryClauseOrSelect => exact opens_queryClauseOrSelect hway
  | templateMemberOrEnd => exact opens_templateMemberOrEnd hway
  | _ => cases hchoice

/-- The ways on between two declarations come back to it or come to the end of the input. -/
theorem opens_top (hway : way ∈ ways .topLevelNode) :
    Follows (Plan.via .topLevelNode way) [.compUnit] way [.compUnit] false := by
  have hway : way = .docString ∨ way = .eof ∨ way = .importDecl ∨
      way = .topLevelNodeWithoutMetadata := by
    simpa [ways, paths] using hway
  rcases hway with rfl | rfl | rfl | rfl
  · exact .begin (.expect rfl rfl rfl (.choose rfl rfl .chooseTop))
  · exact .drain
  · exact importDecl rfl .chooseTop
  · exact .begin (.choose rfl rfl .chooseTop)

/-- Whichever way is taken at a choice, its plan follows. -/
theorem choose_way {P : Plan} {T S : Stack} {q : Position} {full : Bool}
    (h : Follows (.choose b :: P) T q S full) (hlegal : Legal b T) (hway : way ∈ b.ways) :
    Follows (Plan.via b way ++ P) T way T false := by
  obtain ⟨hchoice, _, ⟨q', S', hexit, hrest⟩ | ⟨rfl, rfl, rfl⟩⟩ := h.choose_inv
  · exact opens hchoice hway hlegal.fits hexit hrest
  · rw [List.append_nil]
    exact opens_top hway

end Follows

/-! ## Choices and ways -/

/-- Whether a choice can come up at a branch point: a kind, or one of its own paths. -/
def Choice.Arises (b : Position) : Choice → Prop
  | .kind _ => True
  | .path target => target ∈ b.paths

theorem Choice.arises_kind (b : Position) (k : Kind) : (Choice.kind k).Arises b := trivial

namespace Plan

private theorem kind_table : Position.all.all (fun b => !b.isChoice || Kind.all.all fun k =>
    b.ways.any fun way => continuation b (.kind k) == via b way) = true := by
  decide +kernel

private theorem path_table : Position.all.all (fun b => !b.isChoice || b.paths.all fun target =>
    b.ways.any fun way => continuation b (.path target) == via b way) = true := by
  decide +kernel

/-- Every choice leads to the plan of a way on. -/
theorem continuation_eq_via {b : Position} {choice : Choice} (hb : b.isChoice = true)
    (h : choice.Arises b) : ∃ way ∈ b.ways, continuation b choice = via b way := by
  cases choice with
  | kind k =>
    have htable := Position.of_all kind_table b
    simp only [hb, Bool.not_true, Bool.false_or, List.all_eq_true, List.any_eq_true, beq_iff_eq]
      at htable
    exact htable k k.mem_all
  | path target =>
    have htable := Position.of_all path_table b
    simp only [hb, Bool.not_true, Bool.false_or, List.all_eq_true, List.any_eq_true, beq_iff_eq]
      at htable
    exact htable target h

end Plan

end Mend
