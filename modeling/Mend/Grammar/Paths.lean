import Mend.Grammar.Position

/-!
# Branch points

At a branch point the automaton goes on at one of several positions. Their order is the last
tie-break between equally good repairs. Documentation is not among the ways to go on: it is only
ever taken when it stands in the input.
-/

namespace Mend.Position

/-- The ways to go on at a branch point, in order; empty for every other position. -/
def paths : Position → List Position
  | .topLevelNode => [.eof, .importDecl, .topLevelNodeWithoutMetadata]
  | .topLevelNodeWithoutMetadata => [.publicKeyword, .topLevelNodeWithoutModifier]
  | .topLevelNodeWithoutModifier => [.funcDefinition, .typeDefinition, .constDecl, .varDecl]
  | .importNameRhs => [.semicolon, .slash]
  | .paramStart => [.closeParenthesis, .parameter]
  | .paramEnd => [.closeParenthesis, .comma]
  | .returnTypeOrBody => [.block, .returnsKeyword]
  | .typeDescriptor => [.typeReference, .builtinTypeDescriptor, .recordTypeDesc, .objectTypeDesc]
  | .typeDescRhs => [.questionMark, .typeDescEnd]
  | .recordFieldOrEnd => [.closeBrace, .recordField]
  | .varDeclTypeStart => [.varKeyword, .typeDescriptor]
  | .varDeclRhs => [.semicolon, .assignOp]
  | .statementsOrEnd => [.closeBrace, .statement]
  | .statement =>
    [.statementStartIdentifier, .varDecl, .ifBlock, .whileBlock, .returnStmt, .breakStmt,
     .continueStmt, .matchStmt, .foreachStmt, .lockStmt, .workerDecl, .forkStmt, .block]
  | .statementStartIdentifierRhs => [.assignmentStmt, .callStmt, .varDeclAfterTypeRef, .sendStmt]
  | .elseOrEnd => [.elseKeyword, .ifEnd]
  | .elseBody => [.block, .ifBlock]
  | .returnRhs => [.semicolon, .expression]
  | .expression =>
    [.variableRef, .basicLiteral, .bracedExpr, .unaryOperator, .listConstructor,
     .mappingConstructor, .newExpr, .queryExpr, .receiveExpr, .waitExpr, .templateExpr]
  | .expressionRhs => [.binaryOperator, .dot, .argList, .expressionEnd]
  | .argStart => [.closeParenthesis, .expression]
  | .argEnd => [.closeParenthesis, .comma]
  | .objectMemberOrEnd => [.closeBrace, .objectMember]
  | .objectMember => [.objectMethod, .objectField]
  | .methodDeclRhs => [.semicolon, .returnsKeyword]
  | .listConstructorStart => [.closeBracket, .expression]
  | .listConstructorEnd => [.closeBracket, .comma]
  | .mappingFieldOrEnd => [.closeBrace, .mappingField]
  | .mappingFieldEnd => [.closeBrace, .comma]
  | .queryClauseOrSelect => [.selectClause, .whereClause, .letClause, .fromClause]
  | .matchClauseOrEnd => [.closeBrace, .matchClause]
  | .matchPattern =>
    [.patternName, .constPattern, .varBindingPattern, .listMatchPattern, .mappingMatchPattern]
  | .matchPatternRhs => [.rightDoubleArrow, .pipe]
  | .listPatternStart => [.closeBracket, .matchPattern]
  | .listPatternEnd => [.closeBracket, .comma]
  | .mappingPatternStart => [.closeBrace, .fieldMatchPattern]
  | .mappingPatternEnd => [.closeBrace, .comma]
  | .workerReturnOrBody => [.block, .returnsKeyword]
  | .forkBodyOrEnd => [.closeBrace, .workerDecl]
  | .templateMemberOrEnd => [.closeBacktick, .templateText, .interpolation]
  | _ => []

/-- Whether a position leaves a choice. -/
def isBranch (position : Position) : Bool := !position.paths.isEmpty

/-- The way to go on that needs the fewest tokens. Operators, a question mark and an `else` are
optional, so their branch points stop there. -/
def shortest? : Position → Option Position
  | .expressionRhs => some .expressionEnd
  | .typeDescRhs => some .typeDescEnd
  | .elseOrEnd => some .ifEnd
  | position => position.paths.head?

/-- The way that needs the fewest tokens is one of the ways to go on. -/
theorem mem_paths_of_shortest? {position next : Position} (h : position.shortest? = some next) :
    next ∈ position.paths := by
  cases position <;> simp_all [shortest?, paths]

/-- A choice leaves at least two ways. -/
theorem two_le_length_paths {position : Position} (h : position.isBranch = true) :
    2 ≤ position.paths.length := by
  cases position <;> simp_all [isBranch, paths]

end Mend.Position
