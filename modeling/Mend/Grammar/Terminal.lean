import Mend.Grammar.Paths
import Mend.Token.Basic

/-!
# The tokens that positions take

A position that takes a token names either a reserved word or a class of tokens. Reserved words
are also recognised when they arrive as names with the spelling of the word. For repair, each
position that can have a token supplied has one kind of token that is supplied for it.
-/

namespace Mend

/-- A class of tokens. -/
inductive TokenClass where
  | kind (kind : Kind)
  | builtinType
  | literal
  | unaryOperator
  | binaryOperator
  deriving DecidableEq, Repr, Inhabited

namespace TokenClass

/-- Whether a kind of token belongs to a class. -/
def contains : TokenClass → Kind → Bool
  | kind wanted, k => k == wanted
  | builtinType, k => k.isBuiltinType
  | literal, k => k.isLiteral
  | unaryOperator, k => k.isUnaryOperator
  | binaryOperator, k => k.isBinaryOperator

/-- The kind of token supplied where one of a class is missing. -/
def representative : TokenClass → Kind
  | kind wanted => wanted
  | builtinType => .intKeyword
  | literal => .intLiteral
  | unaryOperator => .minus
  | binaryOperator => .plus

end TokenClass

/-- Whether a token is a reserved word, or a name that is spelled like it. -/
def Token.isWord (t : Token) (word : Kind) : Bool :=
  t.kind == word || (t.kind == .identifier && t.text == word.text)

namespace Position

/-- The class of tokens that a position takes, if it takes one and wants no reserved word. -/
def tokenClass? : Position → Option TokenClass
  | .importOrgOrModuleName | .importModuleName | .functionName | .parameterName | .typeName
  | .fieldName | .constName | .variableName | .typeReference | .variableRef
  | .fieldAccessName | .statementStartIdentifier | .className | .bindingName
  | .mappingFieldName | .patternFieldName | .patternName | .workerName | .peerWorker =>
    some (.kind .identifier)
  | .openParenthesis => some (.kind .openParen)
  | .closeParenthesis => some (.kind .closeParen)
  | .openBrace => some (.kind .openBrace)
  | .closeBrace => some (.kind .closeBrace)
  | .semicolon => some (.kind .semicolon)
  | .comma => some (.kind .comma)
  | .slash => some (.kind .slash)
  | .assignOp => some (.kind .assign)
  | .questionMark => some (.kind .questionMark)
  | .dot => some (.kind .dot)
  | .openBracket => some (.kind .openBracket)
  | .closeBracket => some (.kind .closeBracket)
  | .colon => some (.kind .colon)
  | .pipe => some (.kind .pipe)
  | .rightDoubleArrow => some (.kind .rightDoubleArrow)
  | .rightArrow => some (.kind .rightArrow)
  | .leftArrow => some (.kind .leftArrow)
  | .openBacktick | .closeBacktick => some (.kind .backtick)
  | .interpolationStart => some (.kind .interpolationStart)
  | .templateText => some (.kind .templateString)
  | .docString => some (.kind .documentationString)
  | .eof => some (.kind .eof)
  | .builtinTypeDescriptor => some .builtinType
  | .basicLiteral | .constPattern => some .literal
  | .unaryOperator => some .unaryOperator
  | .binaryOperator => some .binaryOperator
  | _ => none

/-- The reserved word that a position wants. -/
def keyword? : Position → Option Kind
  | .importKeyword => some .importKeyword
  | .publicKeyword => some .publicKeyword
  | .functionKeyword => some .functionKeyword
  | .returnsKeyword => some .returnsKeyword
  | .typeKeyword => some .typeKeyword
  | .recordKeyword => some .recordKeyword
  | .constKeyword => some .constKeyword
  | .varKeyword => some .varKeyword
  | .ifKeyword => some .ifKeyword
  | .elseKeyword => some .elseKeyword
  | .whileKeyword => some .whileKeyword
  | .returnKeyword => some .returnKeyword
  | .breakKeyword => some .breakKeyword
  | .continueKeyword => some .continueKeyword
  | .objectKeyword => some .objectKeyword
  | .newKeyword => some .newKeyword
  | .fromKeyword => some .fromKeyword
  | .inKeyword => some .inKeyword
  | .whereKeyword => some .whereKeyword
  | .letKeyword => some .letKeyword
  | .selectKeyword => some .selectKeyword
  | .matchKeyword => some .matchKeyword
  | .foreachKeyword => some .foreachKeyword
  | .lockKeyword => some .lockKeyword
  | .workerKeyword => some .workerKeyword
  | .forkKeyword => some .forkKeyword
  | .waitKeyword => some .waitKeyword
  | .templateTypeKeyword => some .stringKeyword
  | _ => none

/-- Whether a position takes a given token. -/
def accepts (position : Position) (t : Token) : Bool :=
  match position.keyword? with
  | some word => t.isWord word
  | none => position.tokenClass?.any (·.contains t.kind)

/-- Whether a position takes no token and leaves no choice. -/
def isSilent : Position → Bool
  | .compUnit | .importDecl | .funcDefinition | .paramList | .typeDefinition | .recordTypeDesc
  | .recordField | .constDecl | .varDecl | .block | .ifBlock | .whileBlock | .returnStmt
  | .breakStmt | .continueStmt | .assignmentStmt | .callStmt | .argList | .bracedExpr
  | .objectTypeDesc | .objectField | .objectMethod | .newExpr | .listConstructor
  | .mappingConstructor | .mappingField | .queryExpr | .fromClause | .whereClause | .letClause
  | .selectClause | .matchStmt | .matchClause | .varBindingPattern | .listMatchPattern
  | .mappingMatchPattern | .fieldMatchPattern | .foreachStmt | .lockStmt | .workerDecl
  | .forkStmt | .sendStmt | .receiveExpr | .waitExpr | .templateExpr | .interpolation
  | .parameter | .varDeclAfterTypeRef | .typeDescEnd | .expressionEnd | .ifEnd =>
    true
  | _ => false

/-- The kind of the first token of a production. -/
def firstKind : Position → Kind
  | .importDecl => .importKeyword
  | .funcDefinition | .objectMethod => .functionKeyword
  | .typeDefinition => .typeKeyword
  | .recordTypeDesc => .recordKeyword
  | .constDecl => .constKeyword
  | .ifBlock => .ifKeyword
  | .whileBlock => .whileKeyword
  | .returnStmt => .returnKeyword
  | .breakStmt => .breakKeyword
  | .continueStmt => .continueKeyword
  | .assignmentStmt => .assign
  | .block | .mappingConstructor | .mappingMatchPattern => .openBrace
  | .paramList | .callStmt | .argList | .bracedExpr => .openParen
  | .varDecl | .varBindingPattern => .varKeyword
  | .recordField | .parameter | .varDeclAfterTypeRef | .objectField | .mappingField
  | .fieldMatchPattern | .matchClause =>
    .identifier
  | .objectTypeDesc => .objectKeyword
  | .newExpr => .newKeyword
  | .listConstructor | .listMatchPattern => .openBracket
  | .queryExpr | .fromClause => .fromKeyword
  | .whereClause => .whereKeyword
  | .letClause => .letKeyword
  | .selectClause => .selectKeyword
  | .matchStmt => .matchKeyword
  | .foreachStmt => .foreachKeyword
  | .lockStmt => .lockKeyword
  | .workerDecl => .workerKeyword
  | .forkStmt => .forkKeyword
  | .sendStmt => .rightArrow
  | .receiveExpr => .leftArrow
  | .waitExpr => .waitKeyword
  | .templateExpr => .stringKeyword
  | .interpolation => .interpolationStart
  | _ => .absent

/-- The kind of the token that a position without choice starts with. -/
def leadingKind (position : Position) : Kind :=
  match position.keyword?, position.tokenClass? with
  | some word, _ => word
  | none, some c => c.representative
  | none, none => position.firstKind

/-- The kind of token supplied at a position: its own, or the first one on the shortest way on.
Documentation is never supplied. -/
def expectedKind (position : Position) : Kind :=
  if position = .docString then .absent
  else
    match position.shortest? with
    | some path => path.leadingKind
    | none => position.leadingKind

end Position

end Mend
