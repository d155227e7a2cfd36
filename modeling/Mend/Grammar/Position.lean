/-!
# Grammar positions

The grammar is read as an automaton with a stack. A position says what is to come next; the stack
of enclosing productions says where in the program it stands. Some positions take one token, some
take none and only move the automaton, and some leave a choice between several others.
-/

namespace Mend

/-- A position in the grammar. -/
inductive Position where
  -- Productions: each encloses what it is made of, and is also the position that enters it.
  | compUnit
  | importDecl
  | funcDefinition
  | paramList
  | typeDefinition
  | recordTypeDesc
  | recordField
  | constDecl
  | varDecl
  | block
  | ifBlock
  | elseBlock
  | whileBlock
  | returnStmt
  | breakStmt
  | continueStmt
  | assignmentStmt
  | callStmt
  | argList
  | bracedExpr
  | objectTypeDesc
  | objectField
  | objectMethod
  | newExpr
  | listConstructor
  | mappingConstructor
  | mappingField
  | queryExpr
  | fromClause
  | whereClause
  | letClause
  | selectClause
  | matchStmt
  | matchClause
  | varBindingPattern
  | listMatchPattern
  | mappingMatchPattern
  | fieldMatchPattern
  | foreachStmt
  | lockStmt
  | workerDecl
  | forkStmt
  | sendStmt
  | receiveExpr
  | waitExpr
  | templateExpr
  | interpolation
  -- Positions that take no token and enclose nothing.
  | parameter
  | varDeclAfterTypeRef
  | typeDescEnd
  | expressionEnd
  | ifEnd
  -- Branch points: positions with more than one way to go on.
  | topLevelNode
  | topLevelNodeWithoutMetadata
  | topLevelNodeWithoutModifier
  | importNameRhs
  | paramStart
  | paramEnd
  | returnTypeOrBody
  | typeDescriptor
  | typeDescRhs
  | recordFieldOrEnd
  | varDeclTypeStart
  | varDeclRhs
  | statementsOrEnd
  | statement
  | statementStartIdentifierRhs
  | elseOrEnd
  | elseBody
  | returnRhs
  | expression
  | expressionRhs
  | argStart
  | argEnd
  | objectMemberOrEnd
  | objectMember
  | methodDeclRhs
  | listConstructorStart
  | listConstructorEnd
  | mappingFieldOrEnd
  | mappingFieldEnd
  | queryClauseOrSelect
  | matchClauseOrEnd
  | matchPattern
  | matchPatternRhs
  | listPatternStart
  | listPatternEnd
  | mappingPatternStart
  | mappingPatternEnd
  | workerReturnOrBody
  | forkBodyOrEnd
  | templateMemberOrEnd
  -- Reserved words.
  | importKeyword
  | publicKeyword
  | functionKeyword
  | returnsKeyword
  | typeKeyword
  | recordKeyword
  | constKeyword
  | varKeyword
  | ifKeyword
  | elseKeyword
  | whileKeyword
  | returnKeyword
  | breakKeyword
  | continueKeyword
  | objectKeyword
  | newKeyword
  | fromKeyword
  | inKeyword
  | whereKeyword
  | letKeyword
  | selectKeyword
  | matchKeyword
  | foreachKeyword
  | lockKeyword
  | workerKeyword
  | forkKeyword
  | waitKeyword
  /-- The word that opens a string template. -/
  | templateTypeKeyword
  -- Names.
  | importOrgOrModuleName
  | importModuleName
  | functionName
  | parameterName
  | typeName
  | fieldName
  | constName
  | variableName
  | typeReference
  | variableRef
  | fieldAccessName
  | statementStartIdentifier
  | className
  | bindingName
  | mappingFieldName
  | patternFieldName
  /-- A name, or an underscore, that is a match pattern of its own. -/
  | patternName
  | workerName
  | peerWorker
  -- Classes of tokens.
  | builtinTypeDescriptor
  | basicLiteral
  | unaryOperator
  | binaryOperator
  | constPattern
  | templateText
  -- Punctuation and markers.
  | openParenthesis
  | closeParenthesis
  | openBrace
  | closeBrace
  | semicolon
  | comma
  | slash
  | assignOp
  | questionMark
  | dot
  | openBracket
  | closeBracket
  | colon
  | pipe
  | rightDoubleArrow
  | rightArrow
  | leftArrow
  | openBacktick
  | closeBacktick
  | interpolationStart
  | docString
  | eof
  deriving DecidableEq, Repr, Inhabited

namespace Position

/-- Every position, in order of declaration. -/
def all : List Position :=
  [.compUnit, .importDecl, .funcDefinition, .paramList, .typeDefinition, .recordTypeDesc,
   .recordField, .constDecl, .varDecl, .block, .ifBlock, .elseBlock, .whileBlock, .returnStmt,
   .breakStmt, .continueStmt, .assignmentStmt, .callStmt, .argList, .bracedExpr, .objectTypeDesc,
   .objectField, .objectMethod, .newExpr, .listConstructor, .mappingConstructor, .mappingField,
   .queryExpr, .fromClause, .whereClause, .letClause, .selectClause, .matchStmt, .matchClause,
   .varBindingPattern, .listMatchPattern, .mappingMatchPattern, .fieldMatchPattern, .foreachStmt,
   .lockStmt, .workerDecl, .forkStmt, .sendStmt, .receiveExpr, .waitExpr, .templateExpr,
   .interpolation, .parameter, .varDeclAfterTypeRef, .typeDescEnd, .expressionEnd, .ifEnd,
   .topLevelNode, .topLevelNodeWithoutMetadata, .topLevelNodeWithoutModifier, .importNameRhs,
   .paramStart, .paramEnd, .returnTypeOrBody, .typeDescriptor, .typeDescRhs, .recordFieldOrEnd,
   .varDeclTypeStart, .varDeclRhs, .statementsOrEnd, .statement, .statementStartIdentifierRhs,
   .elseOrEnd, .elseBody, .returnRhs, .expression, .expressionRhs, .argStart, .argEnd,
   .objectMemberOrEnd, .objectMember, .methodDeclRhs, .listConstructorStart, .listConstructorEnd,
   .mappingFieldOrEnd, .mappingFieldEnd, .queryClauseOrSelect, .matchClauseOrEnd, .matchPattern,
   .matchPatternRhs, .listPatternStart, .listPatternEnd, .mappingPatternStart, .mappingPatternEnd,
   .workerReturnOrBody, .forkBodyOrEnd, .templateMemberOrEnd, .importKeyword, .publicKeyword,
   .functionKeyword, .returnsKeyword, .typeKeyword, .recordKeyword, .constKeyword, .varKeyword,
   .ifKeyword, .elseKeyword, .whileKeyword, .returnKeyword, .breakKeyword, .continueKeyword,
   .objectKeyword, .newKeyword, .fromKeyword, .inKeyword, .whereKeyword, .letKeyword,
   .selectKeyword, .matchKeyword, .foreachKeyword, .lockKeyword, .workerKeyword, .forkKeyword,
   .waitKeyword, .templateTypeKeyword, .importOrgOrModuleName, .importModuleName, .functionName,
   .parameterName, .typeName, .fieldName, .constName, .variableName, .typeReference, .variableRef,
   .fieldAccessName, .statementStartIdentifier, .className, .bindingName, .mappingFieldName,
   .patternFieldName, .patternName, .workerName, .peerWorker, .builtinTypeDescriptor,
   .basicLiteral, .unaryOperator, .binaryOperator, .constPattern, .templateText, .openParenthesis,
   .closeParenthesis, .openBrace, .closeBrace, .semicolon, .comma, .slash, .assignOp,
   .questionMark, .dot, .openBracket, .closeBracket, .colon, .pipe, .rightDoubleArrow,
   .rightArrow, .leftArrow, .openBacktick, .closeBacktick, .interpolationStart, .docString, .eof]

/-- The name under which a position is reported. -/
def name : Position → String
  | .compUnit => "CompUnit"
  | .importDecl => "ImportDecl"
  | .funcDefinition => "FuncDefinition"
  | .paramList => "ParamList"
  | .typeDefinition => "TypeDefinition"
  | .recordTypeDesc => "RecordTypeDesc"
  | .recordField => "RecordField"
  | .constDecl => "ConstDecl"
  | .varDecl => "VarDecl"
  | .block => "Block"
  | .ifBlock => "IfBlock"
  | .elseBlock => "ElseBlock"
  | .whileBlock => "WhileBlock"
  | .returnStmt => "ReturnStmt"
  | .breakStmt => "BreakStmt"
  | .continueStmt => "ContinueStmt"
  | .assignmentStmt => "AssignmentStmt"
  | .callStmt => "CallStmt"
  | .argList => "ArgList"
  | .bracedExpr => "BracedExpr"
  | .objectTypeDesc => "ObjectTypeDesc"
  | .objectField => "ObjectField"
  | .objectMethod => "ObjectMethod"
  | .newExpr => "NewExpr"
  | .listConstructor => "ListConstructor"
  | .mappingConstructor => "MappingConstructor"
  | .mappingField => "MappingField"
  | .queryExpr => "QueryExpr"
  | .fromClause => "FromClause"
  | .whereClause => "WhereClause"
  | .letClause => "LetClause"
  | .selectClause => "SelectClause"
  | .matchStmt => "MatchStmt"
  | .matchClause => "MatchClause"
  | .varBindingPattern => "VarBindingPattern"
  | .listMatchPattern => "ListMatchPattern"
  | .mappingMatchPattern => "MappingMatchPattern"
  | .fieldMatchPattern => "FieldMatchPattern"
  | .foreachStmt => "ForeachStmt"
  | .lockStmt => "LockStmt"
  | .workerDecl => "WorkerDecl"
  | .forkStmt => "ForkStmt"
  | .sendStmt => "SendStmt"
  | .receiveExpr => "ReceiveExpr"
  | .waitExpr => "WaitExpr"
  | .templateExpr => "TemplateExpr"
  | .interpolation => "Interpolation"
  | .parameter => "Parameter"
  | .varDeclAfterTypeRef => "VarDeclAfterTypeRef"
  | .typeDescEnd => "TypeDescEnd"
  | .expressionEnd => "ExpressionEnd"
  | .ifEnd => "IfEnd"
  | .topLevelNode => "TopLevelNode"
  | .topLevelNodeWithoutMetadata => "TopLevelNodeWithoutMetadata"
  | .topLevelNodeWithoutModifier => "TopLevelNodeWithoutModifier"
  | .importNameRhs => "ImportNameRhs"
  | .paramStart => "ParamStart"
  | .paramEnd => "ParamEnd"
  | .returnTypeOrBody => "ReturnTypeOrBody"
  | .typeDescriptor => "TypeDescriptor"
  | .typeDescRhs => "TypeDescRhs"
  | .recordFieldOrEnd => "RecordFieldOrEnd"
  | .varDeclTypeStart => "VarDeclTypeStart"
  | .varDeclRhs => "VarDeclRhs"
  | .statementsOrEnd => "StatementsOrEnd"
  | .statement => "Statement"
  | .statementStartIdentifierRhs => "StatementStartIdentifierRhs"
  | .elseOrEnd => "ElseOrEnd"
  | .elseBody => "ElseBody"
  | .returnRhs => "ReturnRhs"
  | .expression => "Expression"
  | .expressionRhs => "ExpressionRhs"
  | .argStart => "ArgStart"
  | .argEnd => "ArgEnd"
  | .objectMemberOrEnd => "ObjectMemberOrEnd"
  | .objectMember => "ObjectMember"
  | .methodDeclRhs => "MethodDeclRhs"
  | .listConstructorStart => "ListConstructorStart"
  | .listConstructorEnd => "ListConstructorEnd"
  | .mappingFieldOrEnd => "MappingFieldOrEnd"
  | .mappingFieldEnd => "MappingFieldEnd"
  | .queryClauseOrSelect => "QueryClauseOrSelect"
  | .matchClauseOrEnd => "MatchClauseOrEnd"
  | .matchPattern => "MatchPattern"
  | .matchPatternRhs => "MatchPatternRhs"
  | .listPatternStart => "ListPatternStart"
  | .listPatternEnd => "ListPatternEnd"
  | .mappingPatternStart => "MappingPatternStart"
  | .mappingPatternEnd => "MappingPatternEnd"
  | .workerReturnOrBody => "WorkerReturnOrBody"
  | .forkBodyOrEnd => "ForkBodyOrEnd"
  | .templateMemberOrEnd => "TemplateMemberOrEnd"
  | .importKeyword => "ImportKeyword"
  | .publicKeyword => "PublicKeyword"
  | .functionKeyword => "FunctionKeyword"
  | .returnsKeyword => "ReturnsKeyword"
  | .typeKeyword => "TypeKeyword"
  | .recordKeyword => "RecordKeyword"
  | .constKeyword => "ConstKeyword"
  | .varKeyword => "VarKeyword"
  | .ifKeyword => "IfKeyword"
  | .elseKeyword => "ElseKeyword"
  | .whileKeyword => "WhileKeyword"
  | .returnKeyword => "ReturnKeyword"
  | .breakKeyword => "BreakKeyword"
  | .continueKeyword => "ContinueKeyword"
  | .objectKeyword => "ObjectKeyword"
  | .newKeyword => "NewKeyword"
  | .fromKeyword => "FromKeyword"
  | .inKeyword => "InKeyword"
  | .whereKeyword => "WhereKeyword"
  | .letKeyword => "LetKeyword"
  | .selectKeyword => "SelectKeyword"
  | .matchKeyword => "MatchKeyword"
  | .foreachKeyword => "ForeachKeyword"
  | .lockKeyword => "LockKeyword"
  | .workerKeyword => "WorkerKeyword"
  | .forkKeyword => "ForkKeyword"
  | .waitKeyword => "WaitKeyword"
  | .templateTypeKeyword => "TemplateTypeKeyword"
  | .importOrgOrModuleName => "ImportOrgOrModuleName"
  | .importModuleName => "ImportModuleName"
  | .functionName => "FunctionName"
  | .parameterName => "ParameterName"
  | .typeName => "TypeName"
  | .fieldName => "FieldName"
  | .constName => "ConstName"
  | .variableName => "VariableName"
  | .typeReference => "TypeReference"
  | .variableRef => "VariableRef"
  | .fieldAccessName => "FieldAccessName"
  | .statementStartIdentifier => "StatementStartIdentifier"
  | .className => "ClassName"
  | .bindingName => "BindingName"
  | .mappingFieldName => "MappingFieldName"
  | .patternFieldName => "PatternFieldName"
  | .patternName => "PatternName"
  | .workerName => "WorkerName"
  | .peerWorker => "PeerWorker"
  | .builtinTypeDescriptor => "BuiltinTypeDescriptor"
  | .basicLiteral => "BasicLiteral"
  | .unaryOperator => "UnaryOperator"
  | .binaryOperator => "BinaryOperator"
  | .constPattern => "ConstPattern"
  | .templateText => "TemplateText"
  | .openParenthesis => "OpenParenthesis"
  | .closeParenthesis => "CloseParenthesis"
  | .openBrace => "OpenBrace"
  | .closeBrace => "CloseBrace"
  | .semicolon => "Semicolon"
  | .comma => "Comma"
  | .slash => "Slash"
  | .assignOp => "AssignOp"
  | .questionMark => "QuestionMark"
  | .dot => "Dot"
  | .openBracket => "OpenBracket"
  | .closeBracket => "CloseBracket"
  | .colon => "Colon"
  | .pipe => "Pipe"
  | .rightDoubleArrow => "RightDoubleArrow"
  | .rightArrow => "RightArrow"
  | .leftArrow => "LeftArrow"
  | .openBacktick => "OpenBacktick"
  | .closeBacktick => "CloseBacktick"
  | .interpolationStart => "InterpolationStart"
  | .docString => "DocString"
  | .eof => "Eof"

/-- The position reported under a name. -/
def ofName? (name : String) : Option Position := all.find? (·.name == name)

theorem mem_all (position : Position) : position ∈ all := by cases position <;> decide

end Position

/-- The productions that enclose a position, innermost first. -/
abbrev Stack := List Position

end Mend
