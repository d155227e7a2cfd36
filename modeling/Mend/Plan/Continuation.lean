import Mend.Plan.Production

/-!
# What a choice leads to

For every branch point, the plan that each choice puts in front of the remaining instructions. A
branch point between the items of a list comes back to itself until the list is closed.
-/

namespace Mend.Plan

open Instruction

/-- The plan of the first way to go on that a choice opens. -/
def select (choice : Choice) (ways : List (Position × Plan)) (otherwise : Plan) : Plan :=
  match ways.find? fun way => choice.opens way.1 with
  | some way => way.2
  | none => otherwise

/-- One more item of a list and the branch point behind it, or the end of the list. -/
def itemsOrEnd (choice : Choice) (closing : Position) (item : Plan) (behind : Position) :
    Plan :=
  select choice [(closing, [expect closing])] (item ++ [choose behind])

/-- A comma and one more item, or the end of the list. -/
def commaOrEnd (choice : Choice) (closing : Position) (item : Plan) (behind : Position) :
    Plan :=
  select choice [(.comma, expect .comma :: item ++ [choose behind])] [expect closing]

/-- A node with one token. -/
def single (kind : NodeKind) (position : Position) : Plan := node kind [expect position]

/-- After the start of a type. -/
def afterTypeDescriptor (choice : Choice) : Plan :=
  select choice [(.recordTypeDesc, recordType), (.objectTypeDesc, objectType)]
    (if choice.isKind Kind.isBuiltinType then single .builtinType .builtinTypeDescriptor
      else single .typeReference .typeReference) ++
    [optionalSuffix]

/-- After the start of an operand. -/
def afterExpression (choice : Choice) : Plan :=
  if choice.isKind Kind.isUnaryOperator then unaryExpr
  else
    (if choice.isKind Kind.isLiteral then single .literal .basicLiteral
    else
      select choice
        [(.bracedExpr, bracedExpr), (.listConstructor, listConstructor),
          (.mappingConstructor, mappingConstructor), (.newExpr, newExpr), (.queryExpr, queryExpr),
          (.receiveExpr, receiveExpr), (.waitExpr, waitExpr), (.templateExpr, templateExpr)]
        (single .nameRef .variableRef)) ++
      [postfixes]

/-- After the start of a match pattern. -/
def afterMatchPattern (choice : Choice) : Plan :=
  if choice.isKind Kind.isLiteral then single .constPattern .constPattern
  else
    select choice
      [(.varBindingPattern, bindingPattern), (.listMatchPattern, listPattern),
        (.mappingMatchPattern, mappingPattern)]
      (single .namePattern .patternName)

/-- Whether a choice is a declaration whose type shows at once. -/
def startsVarDecl (choice : Choice) : Bool :=
  choice.opens .varDecl || choice.opens .recordTypeDesc || choice.opens .objectTypeDesc ||
    choice.isKind Kind.isBuiltinType

/-- After the start of a statement. -/
def afterStatement (choice : Choice) : Plan :=
  if startsVarDecl choice then begin :: varDecl
  else
    select choice
      [(.ifBlock, ifStmt), (.whileBlock, whileStmt), (.returnStmt, returnStmt),
        (.breakStmt, jump .breakStmt .breakStmt .breakKeyword),
        (.continueStmt, jump .continueStmt .continueStmt .continueKeyword),
        (.matchStmt, matchStmt), (.foreachStmt, foreachStmt), (.lockStmt, lockStmt),
        (.workerDecl, workerDecl), (.forkStmt, forkStmt), (.block, block)]
      nameStmt

/-- After the start of a declaration or of the end of the input. -/
def afterTopLevelNode (choice : Choice) : Plan :=
  select choice
    [(.eof, [drain, take, leave]),
      (.importDecl, importDecl ++ [choose .topLevelNode]),
      (.docString,
        [begin, expect .docString, choose .topLevelNodeWithoutMetadata, choose .topLevelNode])]
    [begin, choose .topLevelNodeWithoutMetadata, choose .topLevelNode]

/-- The plan that a choice at a branch point leads to. -/
def continuation (position : Position) (choice : Choice) : Plan :=
  match position with
  | .topLevelNode => afterTopLevelNode choice
  | .topLevelNodeWithoutMetadata =>
    select choice [(.publicKeyword, [expect .publicKeyword, choose .topLevelNodeWithoutModifier])]
      [choose .topLevelNodeWithoutModifier]
  | .topLevelNodeWithoutModifier =>
    select choice
      [(.funcDefinition, functionDefinition), (.typeDefinition, typeDefinition),
        (.constDecl, constDecl)]
      varDecl
  | .importNameRhs =>
    select choice [(.slash, [expect .slash, expect .importModuleName, expect .semicolon])]
      [expect .semicolon]
  | .paramStart => itemsOrEnd choice .closeParenthesis parameter .paramEnd
  | .paramEnd => commaOrEnd choice .closeParenthesis parameter .paramEnd
  | .returnTypeOrBody | .workerReturnOrBody =>
    select choice [(.returnsKeyword, returnType ++ block)] block
  | .methodDeclRhs =>
    select choice [(.returnsKeyword, returnType ++ [expect .semicolon])] [expect .semicolon]
  | .typeDescriptor => afterTypeDescriptor choice
  | .recordFieldOrEnd => itemsOrEnd choice .closeBrace recordField .recordFieldOrEnd
  | .objectMemberOrEnd => itemsOrEnd choice .closeBrace [choose .objectMember] .objectMemberOrEnd
  | .objectMember => select choice [(.objectMethod, methodDeclaration)] objectField
  | .varDeclTypeStart => select choice [(.varKeyword, [expect .varKeyword])] typeDescriptor
  | .varDeclRhs =>
    select choice [(.assignOp, expect .assignOp :: expression ++ [expect .semicolon])]
      [expect .semicolon]
  | .statementsOrEnd => itemsOrEnd choice .closeBrace [choose .statement] .statementsOrEnd
  | .statement => afterStatement choice
  | .statementStartIdentifierRhs =>
    select choice
      [(.assignmentStmt, assignment), (.callStmt, callStmt), (.sendStmt, sendStmt)]
      namedTypeDecl
  | .elseBody => select choice [(.ifBlock, ifStmt)] block
  | .returnRhs =>
    select choice [(.semicolon, [expect .semicolon])] (expression ++ [expect .semicolon])
  | .expression => afterExpression choice
  | .argStart => itemsOrEnd choice .closeParenthesis expression .argEnd
  | .argEnd => commaOrEnd choice .closeParenthesis expression .argEnd
  | .listConstructorStart => itemsOrEnd choice .closeBracket expression .listConstructorEnd
  | .listConstructorEnd => commaOrEnd choice .closeBracket expression .listConstructorEnd
  | .mappingFieldOrEnd => itemsOrEnd choice .closeBrace mappingField .mappingFieldEnd
  | .mappingFieldEnd => commaOrEnd choice .closeBrace mappingField .mappingFieldEnd
  | .queryClauseOrSelect =>
    select choice
      [(.whereClause, whereClause ++ [choose .queryClauseOrSelect]),
        (.letClause, letClause ++ [choose .queryClauseOrSelect]),
        (.fromClause, fromClause ++ [choose .queryClauseOrSelect])]
      selectClause
  | .matchClauseOrEnd => itemsOrEnd choice .closeBrace matchClause .matchClauseOrEnd
  | .matchPattern => afterMatchPattern choice
  | .matchPatternRhs =>
    select choice [(.pipe, [expect .pipe, choose .matchPattern, choose .matchPatternRhs])]
      (expect .rightDoubleArrow :: block)
  | .listPatternStart => itemsOrEnd choice .closeBracket [choose .matchPattern] .listPatternEnd
  | .listPatternEnd => commaOrEnd choice .closeBracket [choose .matchPattern] .listPatternEnd
  | .mappingPatternStart => itemsOrEnd choice .closeBrace fieldPattern .mappingPatternEnd
  | .mappingPatternEnd => commaOrEnd choice .closeBrace fieldPattern .mappingPatternEnd
  | .forkBodyOrEnd => itemsOrEnd choice .closeBrace workerDecl .forkBodyOrEnd
  | .templateMemberOrEnd =>
    select choice
      [(.templateText, [expect .templateText, choose .templateMemberOrEnd]),
        (.interpolation, interpolation ++ [choose .templateMemberOrEnd])]
      [expect .closeBacktick]
  | _ => []

end Mend.Plan
