import Mend.Grammar.Breakdown

/-!
# Moves of the automaton

`advance` takes a position that has been passed and the stack of enclosing productions to the
position that comes next. Three tables decide: a position that opens a production pushes it; a
position with one successor goes there; every other position looks at the production that
encloses it, and may leave it and others around it.

A failed move reports the stack as far as it had been taken down, so that a failure shows where
the engine stood.
-/

namespace Mend

/-- The outcome of one move. -/
inductive Step where
  /-- The next position, and the stack there. -/
  | reach (next : Position) (stack : Stack)
  /-- There is none; the stack is what was left when that was found. -/
  | stuck (error : Breakdown) (stack : Stack)
  deriving DecidableEq, Repr

namespace Step

/-- The stack after the move, whether it succeeded or not. -/
def stack : Step → Stack
  | reach _ stack => stack
  | stuck _ stack => stack

end Step

namespace Stack

/-- The stack without its innermost production. -/
def leave : Stack → Except Breakdown (Position × Stack)
  | [] => .error .underflow
  | production :: rest => .ok (production, rest)

/-- The stack with its innermost production replaced. -/
def switch (stack : Stack) (production : Position) : Except Breakdown Stack :=
  stack.leave.map fun (_, rest) => production :: rest

end Stack

namespace Position

/-! ## Tables -/

/-- The production that a position opens, and the first position in it. -/
def opening? : Position → Option (Position × Position)
  | .compUnit => some (.compUnit, .topLevelNode)
  | .importDecl => some (.importDecl, .importKeyword)
  | .funcDefinition => some (.funcDefinition, .functionKeyword)
  | .paramList => some (.paramList, .openParenthesis)
  | .typeDefinition => some (.typeDefinition, .typeKeyword)
  | .recordTypeDesc => some (.recordTypeDesc, .recordKeyword)
  | .recordField => some (.recordField, .typeDescriptor)
  | .constDecl => some (.constDecl, .constKeyword)
  | .varDecl => some (.varDecl, .varDeclTypeStart)
  | .varDeclAfterTypeRef => some (.varDecl, .typeDescRhs)
  | .block => some (.block, .openBrace)
  | .ifBlock => some (.ifBlock, .ifKeyword)
  | .whileBlock => some (.whileBlock, .whileKeyword)
  | .returnStmt => some (.returnStmt, .returnKeyword)
  | .breakStmt => some (.breakStmt, .breakKeyword)
  | .continueStmt => some (.continueStmt, .continueKeyword)
  | .assignmentStmt => some (.assignmentStmt, .assignOp)
  | .callStmt => some (.callStmt, .argList)
  | .argList => some (.argList, .openParenthesis)
  | .bracedExpr => some (.bracedExpr, .openParenthesis)
  | .objectTypeDesc => some (.objectTypeDesc, .objectKeyword)
  | .objectField => some (.objectField, .typeDescriptor)
  | .objectMethod => some (.objectMethod, .functionKeyword)
  | .newExpr => some (.newExpr, .newKeyword)
  | .listConstructor => some (.listConstructor, .openBracket)
  | .listMatchPattern => some (.listMatchPattern, .openBracket)
  | .mappingConstructor => some (.mappingConstructor, .openBrace)
  | .mappingMatchPattern => some (.mappingMatchPattern, .openBrace)
  | .mappingField => some (.mappingField, .mappingFieldName)
  | .queryExpr => some (.queryExpr, .fromClause)
  | .fromClause => some (.fromClause, .fromKeyword)
  | .whereClause => some (.whereClause, .whereKeyword)
  | .letClause => some (.letClause, .letKeyword)
  | .selectClause => some (.selectClause, .selectKeyword)
  | .matchStmt => some (.matchStmt, .matchKeyword)
  | .matchClause => some (.matchClause, .matchPattern)
  | .varBindingPattern => some (.varBindingPattern, .varKeyword)
  | .fieldMatchPattern => some (.fieldMatchPattern, .patternFieldName)
  | .foreachStmt => some (.foreachStmt, .foreachKeyword)
  | .lockStmt => some (.lockStmt, .lockKeyword)
  | .workerDecl => some (.workerDecl, .workerKeyword)
  | .forkStmt => some (.forkStmt, .forkKeyword)
  | .sendStmt => some (.sendStmt, .rightArrow)
  | .receiveExpr => some (.receiveExpr, .leftArrow)
  | .waitExpr => some (.waitExpr, .waitKeyword)
  | .templateExpr => some (.templateExpr, .templateTypeKeyword)
  | .interpolation => some (.interpolation, .interpolationStart)
  | _ => none

/-- The position that follows another one wherever that stands. -/
def successor? : Position → Option Position
  | .parameter | .returnsKeyword | .typeName => some .typeDescriptor
  | .eof => some .eof
  | .docString => some .topLevelNodeWithoutMetadata
  | .publicKeyword => some .topLevelNodeWithoutModifier
  | .importKeyword => some .importOrgOrModuleName
  | .importOrgOrModuleName => some .importNameRhs
  | .slash => some .importModuleName
  | .importModuleName | .fieldName | .breakKeyword | .continueKeyword => some .semicolon
  | .functionKeyword => some .functionName
  | .functionName => some .paramList
  | .parameterName => some .paramEnd
  | .typeKeyword => some .typeName
  | .typeReference | .builtinTypeDescriptor => some .typeDescRhs
  | .questionMark => some .typeDescEnd
  | .recordKeyword | .objectKeyword | .forkKeyword => some .openBrace
  | .constKeyword => some .constName
  | .constName => some .assignOp
  | .statementStartIdentifier => some .statementStartIdentifierRhs
  | .returnKeyword => some .returnRhs
  | .variableRef | .basicLiteral | .fieldAccessName => some .expressionRhs
  | .ifKeyword | .whileKeyword | .unaryOperator | .binaryOperator | .inKeyword
  | .whereKeyword | .selectKeyword | .matchKeyword | .interpolationStart =>
    some .expression
  | .dot => some .fieldAccessName
  | .newKeyword => some .className
  | .className => some .argList
  | .fromKeyword | .letKeyword | .foreachKeyword => some .varDeclTypeStart
  | .mappingFieldName | .patternFieldName => some .colon
  | .pipe => some .matchPattern
  | .rightDoubleArrow | .lockKeyword => some .block
  | .workerKeyword => some .workerName
  | .workerName => some .workerReturnOrBody
  | .rightArrow | .leftArrow | .waitKeyword => some .peerWorker
  | .templateTypeKeyword => some .openBacktick
  | .openBacktick | .templateText => some .templateMemberOrEnd
  | _ => none

/-- What follows a position that stays inside the production that encloses it: the second
argument is that production. -/
def inside? : Position → Position → Option Position
  | .varKeyword, .varDecl | .varKeyword, .letClause => some .variableName
  | .varKeyword, .fromClause | .varKeyword, .foreachStmt | .varKeyword, .varBindingPattern =>
    some .bindingName
  | .variableName, .varDecl => some .varDeclRhs
  | .variableName, .letClause => some .assignOp
  | .assignOp, .varDecl | .assignOp, .constDecl | .assignOp, .assignmentStmt
  | .assignOp, .letClause =>
    some .expression
  | .bindingName, .fromClause | .bindingName, .foreachStmt => some .inKeyword
  | .colon, .mappingField => some .expression
  | .colon, .fieldMatchPattern => some .matchPattern
  | .peerWorker, .sendStmt => some .semicolon
  | .openBracket, .listConstructor => some .listConstructorStart
  | .openBracket, .listMatchPattern => some .listPatternStart
  | .openParenthesis, .paramList => some .paramStart
  | .openParenthesis, .argList => some .argStart
  | .openParenthesis, .bracedExpr => some .expression
  | .openBrace, .block => some .statementsOrEnd
  | .openBrace, .recordTypeDesc => some .recordFieldOrEnd
  | .openBrace, .objectTypeDesc => some .objectMemberOrEnd
  | .openBrace, .mappingConstructor => some .mappingFieldOrEnd
  | .openBrace, .matchStmt => some .matchClauseOrEnd
  | .openBrace, .mappingMatchPattern => some .mappingPatternStart
  | .openBrace, .forkStmt => some .forkBodyOrEnd
  | .comma, .paramList => some .parameter
  | .comma, .argList | .comma, .listConstructor => some .expression
  | .comma, .mappingConstructor => some .mappingField
  | .comma, .listMatchPattern => some .matchPattern
  | .comma, .mappingMatchPattern => some .fieldMatchPattern
  | .typeDescEnd, .paramList => some .parameterName
  | .typeDescEnd, .funcDefinition | .typeDescEnd, .workerDecl => some .block
  | .typeDescEnd, .typeDefinition | .typeDescEnd, .objectMethod => some .semicolon
  | .typeDescEnd, .recordField | .typeDescEnd, .objectField => some .fieldName
  | .typeDescEnd, .varDecl | .typeDescEnd, .letClause => some .variableName
  | .typeDescEnd, .fromClause | .typeDescEnd, .foreachStmt => some .bindingName
  | .expressionEnd, .varDecl | .expressionEnd, .constDecl | .expressionEnd, .assignmentStmt
  | .expressionEnd, .returnStmt =>
    some .semicolon
  | .expressionEnd, .argList => some .argEnd
  | .expressionEnd, .bracedExpr => some .closeParenthesis
  | .expressionEnd, .ifBlock | .expressionEnd, .whileBlock | .expressionEnd, .foreachStmt =>
    some .block
  | .expressionEnd, .matchStmt => some .openBrace
  | .expressionEnd, .interpolation => some .closeBrace
  | .expressionEnd, .listConstructor => some .listConstructorEnd
  | _, _ => none

/-- Where a production goes on when something inside it has ended. -/
def resumption? : Position → Option Position
  | .compUnit => some .topLevelNode
  | .block => some .statementsOrEnd
  | .recordTypeDesc => some .recordFieldOrEnd
  | .objectTypeDesc => some .objectMemberOrEnd
  | .matchStmt => some .matchClauseOrEnd
  | .forkStmt => some .forkBodyOrEnd
  | _ => none

/-- Whether a semicolon ends the production. -/
def endsAtSemicolon : Position → Bool
  | .importDecl | .typeDefinition | .recordField | .constDecl | .varDecl | .assignmentStmt
  | .callStmt | .returnStmt | .breakStmt | .continueStmt | .objectField | .objectMethod
  | .sendStmt =>
    true
  | _ => false

/-- Whether a production ends with the block that is its body. -/
def endsWithBody : Position → Bool
  | .funcDefinition | .whileBlock | .elseBlock | .foreachStmt | .lockStmt | .workerDecl => true
  | _ => false

/-! ## Leaving productions -/

/-- The position does not go on inside what encloses it. -/
def refuse (position : Position) (stack : Stack) : Step :=
  .stuck (.noTransition position (.enclosing stack.head?)) stack

/-- The move inside the enclosing production. -/
def stay (position : Position) : Stack → Step
  | [] => position.refuse []
  | production :: rest =>
    match position.inside? production with
    | some next => .reach next (production :: rest)
    | none => position.refuse (production :: rest)

/-- What follows a production that has been left; an `else` ends with its body. -/
def afterProduction : Stack → Step
  | [] => .stuck .underflow []
  | .elseBlock :: rest => afterProduction rest
  | production :: rest =>
    match production.resumption? with
    | some next => .reach next (production :: rest)
    | none => .stuck (.noTransition production .cannotContinue) (production :: rest)

/-- What follows a complete match pattern. -/
def afterPattern : Stack → Step
  | .matchClause :: rest => .reach .matchPatternRhs (.matchClause :: rest)
  | .listMatchPattern :: rest => .reach .listPatternEnd (.listMatchPattern :: rest)
  | .fieldMatchPattern :: rest => .reach .mappingPatternEnd rest
  | stack => refuse .matchPattern stack

/-- What follows an expression that leaves its production; the other expressions stay inside. -/
def afterExpression : Stack → Step
  | .mappingField :: rest => .reach .mappingFieldEnd rest
  | .fromClause :: rest | .whereClause :: rest | .letClause :: rest =>
    .reach .queryClauseOrSelect rest
  | .selectClause :: _query :: rest => .reach .expressionRhs rest
  | [.selectClause] => .stuck .underflow []
  | stack => stay .expressionEnd stack

/-- What follows the name that a binding introduces. -/
def afterBinding : Stack → Step
  | .varBindingPattern :: rest => afterPattern rest
  | stack => stay .bindingName stack

/-- What follows the worker a message goes to or comes from. -/
def afterPeer : Stack → Step
  | .receiveExpr :: rest | .waitExpr :: rest => .reach .expressionRhs rest
  | stack => stay .peerWorker stack

/-- What follows an argument list that has been left. -/
def afterArguments : Stack → Step
  | .callStmt :: rest => .reach .semicolon (.callStmt :: rest)
  | .newExpr :: rest => .reach .expressionRhs rest
  | stack => .reach .expressionRhs stack

/-- What follows a parameter list that has been left. -/
def afterParameters : Stack → Step
  | .objectMethod :: rest => .reach .methodDeclRhs (.objectMethod :: rest)
  | stack => .reach .returnTypeOrBody stack

/-- What follows a closing parenthesis. -/
def afterParenthesis : Stack → Step
  | .paramList :: rest => afterParameters rest
  | .argList :: rest => afterArguments rest
  | .bracedExpr :: rest => .reach .expressionRhs rest
  | stack => refuse .closeParenthesis stack

/-- What follows a block that has been left. -/
def afterBlock : Stack → Step
  | [] => refuse .closeBrace []
  | .matchClause :: rest => .reach .matchClauseOrEnd rest
  | .ifBlock :: rest => .reach .elseOrEnd (.ifBlock :: rest)
  | .block :: rest => .reach .statementsOrEnd (.block :: rest)
  | owner :: rest =>
    if owner.endsWithBody then afterProduction rest else refuse .closeBrace (owner :: rest)

/-- What follows a closing brace. -/
def afterBrace : Stack → Step
  | .recordTypeDesc :: rest | .objectTypeDesc :: rest => .reach .typeDescRhs rest
  | .mappingConstructor :: rest => .reach .expressionRhs rest
  | .mappingMatchPattern :: rest => afterPattern rest
  | .interpolation :: rest => .reach .templateMemberOrEnd rest
  | .matchStmt :: rest | .forkStmt :: rest => afterProduction rest
  | .block :: rest => afterBlock rest
  | stack => refuse .closeBrace stack

/-- What follows a closing bracket. -/
def afterBracket : Stack → Step
  | .listConstructor :: rest => .reach .expressionRhs rest
  | .listMatchPattern :: rest => afterPattern rest
  | stack => refuse .closeBracket stack

/-- What follows a semicolon. -/
def afterSemicolon : Stack → Step
  | [] => refuse .semicolon []
  | production :: rest =>
    if production.endsAtSemicolon then afterProduction rest
    else refuse .semicolon (production :: rest)

/-- What follows the word that starts the other branch of a conditional. -/
def afterElse : Stack → Step
  | .ifBlock :: rest => .reach .elseBody (.elseBlock :: rest)
  | stack => refuse .elseKeyword stack

/-- What follows a conditional without another branch. -/
def afterIf : Stack → Step
  | [] => .stuck .underflow []
  | _ :: rest => afterProduction rest

/-- What follows the end of a string template. -/
def afterTemplate : Stack → Step
  | [] => .stuck .underflow []
  | _ :: rest => .reach .expressionRhs rest

/-- The move from a position whose successor depends on what encloses it. -/
def resume (position : Position) (stack : Stack) : Step :=
  match position with
  | .varKeyword | .variableName | .assignOp | .colon | .openBracket | .openParenthesis
  | .openBrace | .comma | .typeDescEnd =>
    stay position stack
  | .expressionEnd => afterExpression stack
  | .bindingName => afterBinding stack
  | .peerWorker => afterPeer stack
  | .patternName | .constPattern => afterPattern stack
  | .closeParenthesis => afterParenthesis stack
  | .closeBrace => afterBrace stack
  | .closeBracket => afterBracket stack
  | .semicolon => afterSemicolon stack
  | .elseKeyword => afterElse stack
  | .ifEnd => afterIf stack
  | .closeBacktick => afterTemplate stack
  | _ => .stuck (.noTransition position .noSuccessor) stack

/-- The move that passes a position. -/
def advance (position : Position) (stack : Stack) : Step :=
  match position.opening? with
  | some (production, first) => .reach first (production :: stack)
  | none =>
    match position.successor? with
    | some next => .reach next stack
    | none => position.resume stack

end Position

end Mend
