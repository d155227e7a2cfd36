import Mend.Plan.Admission

/-!
# The plan of every production

The plan of a construct opens its production, takes its tokens, leaves its parts to the branch
points they start with, and builds its node. A list of items is a loop through the branch point
that stands between them.
-/

namespace Mend.Plan

open Instruction

/-- A node around some instructions. -/
def node (kind : NodeKind) (body : Plan) : Plan := begin :: body ++ [finish kind]

/-- Some instructions inside a production. -/
def within (production : Position) (body : Plan) : Plan :=
  enter production :: body ++ [leave]

/-- A production and its node. -/
def construct (kind : NodeKind) (production : Position) (body : Plan) : Plan :=
  node kind (within production body)

/-- The last child of the node at hand put into a node of its own. -/
def wrapLast (kind : NodeKind) : Plan := [adopt, finish kind]

/-! ## Types -/

/-- A type. -/
def typeDescriptor : Plan := [choose .typeDescriptor]

/-- The type of a binding, or the word that stands for any. -/
def bindingType : Plan := [choose .varDeclTypeStart]

/-- A field of a record type. -/
def recordField : Plan :=
  construct .recordField .recordField
    (typeDescriptor ++ [expect .fieldName, expect .semicolon])

/-- A record type. -/
def recordType : Plan :=
  construct .recordTypeDescriptor .recordTypeDesc
    [expect .recordKeyword, expect .openBrace, choose .recordFieldOrEnd]

/-- A field of an object type. -/
def objectField : Plan :=
  construct .objectField .objectField
    (typeDescriptor ++ [expect .fieldName, expect .semicolon])

/-- An object type. -/
def objectType : Plan :=
  construct .objectTypeDescriptor .objectTypeDesc
    [expect .objectKeyword, expect .openBrace, choose .objectMemberOrEnd]

/-! ## Expressions -/

/-- An expression. -/
def expression : Plan := [choose .expression, operators 0]

/-- An argument list. -/
def argList : Plan :=
  construct .argList .argList [expect .openParenthesis, choose .argStart]

/-- An operation with one operand. -/
def unaryExpr : Plan := node .unaryExpr [expect .unaryOperator, choose .expression]

/-- An expression in parentheses. -/
def bracedExpr : Plan :=
  construct .bracedExpr .bracedExpr
    (expect .openParenthesis :: expression ++ [expect .closeParenthesis])

/-- A list. -/
def listConstructor : Plan :=
  construct .listConstructor .listConstructor
    [expect .openBracket, choose .listConstructorStart]

/-- A field of a mapping. -/
def mappingField : Plan :=
  construct .mappingField .mappingField
    ([expect .mappingFieldName, expect .colon] ++ expression)

/-- A mapping. -/
def mappingConstructor : Plan :=
  construct .mappingConstructor .mappingConstructor
    [expect .openBrace, choose .mappingFieldOrEnd]

/-- The creation of an object. -/
def newExpr : Plan :=
  construct .newExpr .newExpr ([expect .newKeyword, expect .className] ++ argList)

/-- A clause of a query that draws from a collection. -/
def fromClause : Plan :=
  construct .fromClause .fromClause
    (expect .fromKeyword :: bindingType ++ [expect .bindingName, expect .inKeyword] ++ expression)

/-- A clause of a query that filters. -/
def whereClause : Plan :=
  construct .whereClause .whereClause (expect .whereKeyword :: expression)

/-- A clause of a query that names a value. -/
def letClause : Plan :=
  construct .letClause .letClause
    (expect .letKeyword :: bindingType ++ [expect .variableName, expect .assignOp] ++ expression)

/-- The clause that ends a query. -/
def selectClause : Plan :=
  construct .selectClause .selectClause (expect .selectKeyword :: expression)

/-- A query. -/
def queryExpr : Plan :=
  construct .queryExpr .queryExpr (fromClause ++ [choose .queryClauseOrSelect])

/-- A message received from a worker. -/
def receiveExpr : Plan :=
  construct .receiveExpr .receiveExpr [expect .leftArrow, expect .peerWorker]

/-- Waiting for a worker. -/
def waitExpr : Plan :=
  construct .waitExpr .waitExpr [expect .waitKeyword, expect .peerWorker]

/-- An interpolation in a string template. -/
def interpolation : Plan :=
  construct .interpolation .interpolation
    (expect .interpolationStart :: expression ++ [expect .closeBrace])

/-- A string template. -/
def templateExpr : Plan :=
  construct .templateExpr .templateExpr
    [expect .templateTypeKeyword, expect .openBacktick, choose .templateMemberOrEnd]

/-! ## Match patterns -/

/-- A pattern that binds a name. -/
def bindingPattern : Plan :=
  construct .bindingPattern .varBindingPattern [expect .varKeyword, expect .bindingName]

/-- A pattern for a list. -/
def listPattern : Plan :=
  construct .listPattern .listMatchPattern [expect .openBracket, choose .listPatternStart]

/-- A pattern for a field of a mapping. -/
def fieldPattern : Plan :=
  construct .fieldPattern .fieldMatchPattern
    [expect .patternFieldName, expect .colon, choose .matchPattern]

/-- A pattern for a mapping. -/
def mappingPattern : Plan :=
  construct .mappingPattern .mappingMatchPattern [expect .openBrace, choose .mappingPatternStart]

/-! ## Statements -/

/-- A block. -/
def block : Plan := construct .block .block [expect .openBrace, choose .statementsOrEnd]

/-- A declared name, an optional value and the semicolon. -/
def declaredName : Plan := [expect .variableName, choose .varDeclRhs]

/-- A variable declaration, whose node has been started. -/
def varDecl : Plan := within .varDecl (bindingType ++ declaredName) ++ [finish .varDecl]

/-- A conditional. -/
def ifStmt : Plan :=
  construct .ifStmt .ifBlock (expect .ifKeyword :: expression ++ block ++ [otherBranch])

/-- The other branch of a conditional, whose production it takes over. -/
def elseClause : Plan :=
  node .elseClause [expect .elseKeyword, switch .elseBlock, choose .elseBody]

/-- A loop under a condition. -/
def whileStmt : Plan :=
  construct .whileStmt .whileBlock (expect .whileKeyword :: expression ++ block)

/-- A return. -/
def returnStmt : Plan :=
  construct .returnStmt .returnStmt [expect .returnKeyword, choose .returnRhs]

/-- A statement that is one word. -/
def jump (kind : NodeKind) (production keyword : Position) : Plan :=
  construct kind production [expect keyword, expect .semicolon]

/-- A loop over a collection. -/
def foreachStmt : Plan :=
  construct .foreachStmt .foreachStmt
    (expect .foreachKeyword :: bindingType ++ [expect .bindingName, expect .inKeyword] ++
      expression ++ block)

/-- A block under a lock. -/
def lockStmt : Plan := construct .lockStmt .lockStmt (expect .lockKeyword :: block)

/-- A match statement. -/
def matchStmt : Plan :=
  construct .matchStmt .matchStmt
    (expect .matchKeyword :: expression ++ [expect .openBrace, choose .matchClauseOrEnd])

/-- A clause of a match statement. -/
def matchClause : Plan :=
  construct .matchClause .matchClause [choose .matchPattern, choose .matchPatternRhs]

/-- A worker. -/
def workerDecl : Plan :=
  construct .workerDecl .workerDecl
    [expect .workerKeyword, expect .workerName, choose .workerReturnOrBody]

/-- A fork. -/
def forkStmt : Plan :=
  construct .forkStmt .forkStmt [expect .forkKeyword, expect .openBrace, choose .forkBodyOrEnd]

/-- A statement that starts with a name, up to what follows the name. -/
def nameStmt : Plan :=
  [begin, expect .statementStartIdentifier, choose .statementStartIdentifierRhs]

/-- The rest of an assignment. -/
def assignment : Plan :=
  wrapLast .nameRef ++
    within .assignmentStmt (expect .assignOp :: expression ++ [expect .semicolon]) ++
    [finish .assignmentStmt]

/-- The rest of a call statement. -/
def callStmt : Plan :=
  wrapLast .nameRef ++ within .callStmt (argList ++ [expect .semicolon]) ++ [finish .callStmt]

/-- The rest of a message to a worker. -/
def sendStmt : Plan :=
  wrapLast .nameRef ++
    within .sendStmt [expect .rightArrow, expect .peerWorker, expect .semicolon] ++
    [finish .sendStmt]

/-- The rest of a declaration whose type is a name. -/
def namedTypeDecl : Plan :=
  wrapLast .typeReference ++ within .varDecl (optionalSuffix :: declaredName) ++
    [finish .varDecl]

/-! ## Declarations -/

/-- An import. -/
def importDecl : Plan :=
  construct .importDecl .importDecl
    [expect .importKeyword, expect .importOrgOrModuleName, choose .importNameRhs]

/-- The type that a function returns. -/
def returnType : Plan :=
  node .returnTypeDescriptor (expect .returnsKeyword :: typeDescriptor)

/-- A parameter. -/
def parameter : Plan := node .parameter (typeDescriptor ++ [expect .parameterName])

/-- A parameter list. -/
def paramList : Plan :=
  construct .paramList .paramList [expect .openParenthesis, choose .paramStart]

/-- A function, whose node has been started. -/
def functionDefinition : Plan :=
  within .funcDefinition
    ([expect .functionKeyword, expect .functionName] ++ paramList ++ [choose .returnTypeOrBody]) ++
    [finish .functionDefinition]

/-- The declaration of a method. -/
def methodDeclaration : Plan :=
  construct .methodDeclaration .objectMethod
    ([expect .functionKeyword, expect .functionName] ++ paramList ++ [choose .methodDeclRhs])

/-- A type definition, whose node has been started. -/
def typeDefinition : Plan :=
  within .typeDefinition
    ([expect .typeKeyword, expect .typeName] ++ typeDescriptor ++ [expect .semicolon]) ++
    [finish .typeDefinition]

/-- A constant, whose node has been started. -/
def constDecl : Plan :=
  within .constDecl
    ([expect .constKeyword, expect .constName, expect .assignOp] ++ expression ++
      [expect .semicolon]) ++
    [finish .constDecl]

end Mend.Plan
