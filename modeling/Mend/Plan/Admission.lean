import Mend.Plan.Instruction

/-!
# The tokens that resolve a branch point

A branch point is resolved without repair by a token that starts one of its ways to go on.
-/

namespace Mend

namespace Kind

/-- Whether a type can start with a token of this kind. -/
def startsType (kind : Kind) : Bool :=
  match kind with
  | .identifier | .recordKeyword | .objectKeyword => true
  | kind => kind.isBuiltinType

/-- Whether an expression can start with a token of this kind. -/
def startsExpression (kind : Kind) : Bool :=
  match kind with
  | .identifier | .openParen | .openBracket | .openBrace | .newKeyword | .fromKeyword
  | .leftArrow | .waitKeyword | .stringKeyword =>
    true
  | kind => kind.isLiteral || kind.isUnaryOperator

/-- Whether a match pattern can start with a token of this kind. -/
def startsPattern (kind : Kind) : Bool :=
  match kind with
  | .identifier | .varKeyword | .openBracket | .openBrace => true
  | kind => kind.isLiteral

/-- Whether a declaration can start with a token of this kind. -/
def startsDeclaration (kind : Kind) : Bool :=
  match kind with
  | .functionKeyword | .typeKeyword | .constKeyword | .varKeyword => true
  | kind => kind.startsType

/-- Whether a member of an object type can start with a token of this kind. -/
def startsMember (kind : Kind) : Bool := kind == .functionKeyword || kind.startsType

/-- Whether a statement can start with a token of this kind. -/
def startsStatement (kind : Kind) : Bool :=
  match kind with
  | .varKeyword | .ifKeyword | .whileKeyword | .returnKeyword | .breakKeyword
  | .continueKeyword | .matchKeyword | .foreachKeyword | .lockKeyword | .workerKeyword
  | .forkKeyword | .openBrace =>
    true
  | kind => kind.startsType

end Kind

namespace Position

/-- Whether a token of a kind resolves a branch point as it stands. -/
def admits (position : Position) (kind : Kind) : Bool :=
  match position with
  | .topLevelNode =>
    kind == .eof || kind == .importKeyword || kind == .documentationString ||
      kind == .publicKeyword || kind.startsDeclaration
  | .topLevelNodeWithoutMetadata => kind == .publicKeyword || kind.startsDeclaration
  | .topLevelNodeWithoutModifier => kind.startsDeclaration
  | .importNameRhs => kind == .slash || kind == .semicolon
  | .paramStart => kind == .closeParen || kind.startsType
  | .paramEnd | .argEnd => kind == .closeParen || kind == .comma
  | .returnTypeOrBody | .workerReturnOrBody => kind == .openBrace || kind == .returnsKeyword
  | .typeDescriptor => kind.startsType
  | .recordFieldOrEnd => kind == .closeBrace || kind.startsType
  | .objectMemberOrEnd => kind == .closeBrace || kind.startsMember
  | .objectMember => kind.startsMember
  | .methodDeclRhs => kind == .semicolon || kind == .returnsKeyword
  | .varDeclTypeStart => kind == .varKeyword || kind.startsType
  | .varDeclRhs => kind == .assign || kind == .semicolon
  | .statementsOrEnd => kind == .closeBrace || kind.startsStatement
  | .statement => kind.startsStatement
  | .statementStartIdentifierRhs =>
    kind == .assign || kind == .openParen || kind == .identifier || kind == .questionMark ||
      kind == .rightArrow
  | .elseBody => kind == .openBrace || kind == .ifKeyword
  | .returnRhs => kind == .semicolon || kind.startsExpression
  | .expression => kind.startsExpression
  | .argStart => kind == .closeParen || kind.startsExpression
  | .listConstructorStart => kind == .closeBracket || kind.startsExpression
  | .listConstructorEnd | .listPatternEnd => kind == .closeBracket || kind == .comma
  | .mappingFieldOrEnd | .mappingPatternStart => kind == .closeBrace || kind == .identifier
  | .mappingFieldEnd | .mappingPatternEnd => kind == .closeBrace || kind == .comma
  | .queryClauseOrSelect =>
    kind == .selectKeyword || kind == .whereKeyword || kind == .letKeyword ||
      kind == .fromKeyword
  | .matchClauseOrEnd => kind == .closeBrace || kind.startsPattern
  | .matchPattern => kind.startsPattern
  | .matchPatternRhs => kind == .rightDoubleArrow || kind == .pipe
  | .listPatternStart => kind == .closeBracket || kind.startsPattern
  | .forkBodyOrEnd => kind == .closeBrace || kind == .workerKeyword
  | .templateMemberOrEnd =>
    kind == .backtick || kind == .templateString || kind == .interpolationStart
  | _ => false

end Position

end Mend
