/-!
# Kinds of tree nodes

A node of the tree is one construct of the program.
-/

namespace Mend

/-- The construct that a node stands for. -/
inductive NodeKind where
  | compUnit
  | importDecl
  | functionDefinition
  | paramList
  | parameter
  | returnTypeDescriptor
  | typeDefinition
  | recordTypeDescriptor
  | recordField
  | objectTypeDescriptor
  | objectField
  | methodDeclaration
  | builtinType
  | typeReference
  | optionalType
  | constDecl
  | varDecl
  | block
  | ifStmt
  | elseClause
  | whileStmt
  | returnStmt
  | breakStmt
  | continueStmt
  | matchStmt
  | matchClause
  | foreachStmt
  | lockStmt
  | workerDecl
  | forkStmt
  | sendStmt
  | assignmentStmt
  | callStmt
  | argList
  | binaryExpr
  | unaryExpr
  | bracedExpr
  | fieldAccess
  | callExpr
  | nameRef
  | literal
  | listConstructor
  | mappingConstructor
  | mappingField
  | newExpr
  | queryExpr
  | fromClause
  | whereClause
  | letClause
  | selectClause
  | receiveExpr
  | waitExpr
  | templateExpr
  | interpolation
  | namePattern
  | constPattern
  | bindingPattern
  | listPattern
  | mappingPattern
  | fieldPattern
  deriving DecidableEq, Repr, Inhabited

namespace NodeKind

/-- Every kind of node, in order of declaration. -/
def all : List NodeKind :=
  [.compUnit, .importDecl, .functionDefinition, .paramList, .parameter, .returnTypeDescriptor,
   .typeDefinition, .recordTypeDescriptor, .recordField, .objectTypeDescriptor, .objectField,
   .methodDeclaration, .builtinType, .typeReference, .optionalType, .constDecl, .varDecl, .block,
   .ifStmt, .elseClause, .whileStmt, .returnStmt, .breakStmt, .continueStmt, .matchStmt,
   .matchClause, .foreachStmt, .lockStmt, .workerDecl, .forkStmt, .sendStmt, .assignmentStmt,
   .callStmt, .argList, .binaryExpr, .unaryExpr, .bracedExpr, .fieldAccess, .callExpr, .nameRef,
   .literal, .listConstructor, .mappingConstructor, .mappingField, .newExpr, .queryExpr,
   .fromClause, .whereClause, .letClause, .selectClause, .receiveExpr, .waitExpr, .templateExpr,
   .interpolation, .namePattern, .constPattern, .bindingPattern, .listPattern, .mappingPattern,
   .fieldPattern]

/-- The name under which a kind of node is reported. -/
def name : NodeKind → String
  | .compUnit => "CompUnit"
  | .importDecl => "ImportDecl"
  | .functionDefinition => "FunctionDefinition"
  | .paramList => "ParamList"
  | .parameter => "Parameter"
  | .returnTypeDescriptor => "ReturnTypeDescriptor"
  | .typeDefinition => "TypeDefinition"
  | .recordTypeDescriptor => "RecordTypeDescriptor"
  | .recordField => "RecordField"
  | .objectTypeDescriptor => "ObjectTypeDescriptor"
  | .objectField => "ObjectField"
  | .methodDeclaration => "MethodDeclaration"
  | .builtinType => "BuiltinType"
  | .typeReference => "TypeReference"
  | .optionalType => "OptionalType"
  | .constDecl => "ConstDecl"
  | .varDecl => "VarDecl"
  | .block => "Block"
  | .ifStmt => "IfStmt"
  | .elseClause => "ElseClause"
  | .whileStmt => "WhileStmt"
  | .returnStmt => "ReturnStmt"
  | .breakStmt => "BreakStmt"
  | .continueStmt => "ContinueStmt"
  | .matchStmt => "MatchStmt"
  | .matchClause => "MatchClause"
  | .foreachStmt => "ForeachStmt"
  | .lockStmt => "LockStmt"
  | .workerDecl => "WorkerDecl"
  | .forkStmt => "ForkStmt"
  | .sendStmt => "SendStmt"
  | .assignmentStmt => "AssignmentStmt"
  | .callStmt => "CallStmt"
  | .argList => "ArgList"
  | .binaryExpr => "BinaryExpr"
  | .unaryExpr => "UnaryExpr"
  | .bracedExpr => "BracedExpr"
  | .fieldAccess => "FieldAccess"
  | .callExpr => "CallExpr"
  | .nameRef => "NameRef"
  | .literal => "Literal"
  | .listConstructor => "ListConstructor"
  | .mappingConstructor => "MappingConstructor"
  | .mappingField => "MappingField"
  | .newExpr => "NewExpr"
  | .queryExpr => "QueryExpr"
  | .fromClause => "FromClause"
  | .whereClause => "WhereClause"
  | .letClause => "LetClause"
  | .selectClause => "SelectClause"
  | .receiveExpr => "ReceiveExpr"
  | .waitExpr => "WaitExpr"
  | .templateExpr => "TemplateExpr"
  | .interpolation => "Interpolation"
  | .namePattern => "NamePattern"
  | .constPattern => "ConstPattern"
  | .bindingPattern => "BindingPattern"
  | .listPattern => "ListPattern"
  | .mappingPattern => "MappingPattern"
  | .fieldPattern => "FieldPattern"

/-- The kind of node reported under a name. -/
def ofName? (name : String) : Option NodeKind := all.find? (·.name == name)

theorem mem_all (kind : NodeKind) : kind ∈ all := by cases kind <;> decide

end NodeKind

end Mend
