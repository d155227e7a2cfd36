import Mend.Proofs.Plan.Follows

/-!
# The plan of every production follows the automaton

One lemma for each plan: done before a plan that follows the automaton from where the production
ends, it follows the automaton from where the production starts. Where a production ends is for
some of them a matter of what encloses them; those lemmas take the automaton's move as given.

The proofs are the productions themselves, read along both readings of the grammar at once.
-/

namespace Mend.Follows

open Position

variable {P : Plan} {T S : Stack} {q : Position}

/-! ## Types -/

theorem recordField (hexit : afterProduction T = .reach q S) (h : Follows P T q S false) :
    Follows (Plan.recordField ++ P) T .recordField T false :=
  .begin (.enter rfl (.choose rfl rfl (.silent rfl rfl (.expect rfl rfl rfl
    (.expect rfl rfl hexit (.leave (.finish h)))))))

theorem recordType (h : Follows P T .typeDescRhs T false) :
    Follows (Plan.recordType ++ P) T .recordTypeDesc T false :=
  .begin (.enter rfl (.expect rfl rfl rfl (.expect rfl rfl rfl (.choose rfl rfl
    (.leave (.finish h))))))

theorem objectField (hexit : afterProduction T = .reach q S) (h : Follows P T q S false) :
    Follows (Plan.objectField ++ P) T .objectField T false :=
  .begin (.enter rfl (.choose rfl rfl (.silent rfl rfl (.expect rfl rfl rfl
    (.expect rfl rfl hexit (.leave (.finish h)))))))

theorem objectType (h : Follows P T .typeDescRhs T false) :
    Follows (Plan.objectType ++ P) T .objectTypeDesc T false :=
  .begin (.enter rfl (.expect rfl rfl rfl (.expect rfl rfl rfl (.choose rfl rfl
    (.leave (.finish h))))))

/-! ## Expressions -/

theorem expression (h : Follows P T .expressionEnd T false) :
    Follows (Plan.expression ++ P) T .expression T false :=
  .choose rfl rfl (.operators h)

theorem argList (hexit : afterArguments T = .reach q S) (h : Follows P T q S false) :
    Follows (Plan.argList ++ P) T .argList T false :=
  .begin (.enter rfl (.expect rfl rfl rfl (.choose rfl hexit (.leave (.finish h)))))

theorem unaryExpr (h : Follows P T .expressionRhs T true) :
    Follows (Plan.unaryExpr ++ P) T .unaryOperator T false :=
  .begin (.expect rfl rfl rfl (.choose rfl rfl (.finish h)))

theorem bracedExpr (h : Follows P T .expressionRhs T false) :
    Follows (Plan.bracedExpr ++ P) T .bracedExpr T false :=
  .begin (.enter rfl (.expect rfl rfl rfl (expression (.silent rfl rfl (.expect rfl rfl rfl
    (.leave (.finish h)))))))

theorem listConstructor (h : Follows P T .expressionRhs T false) :
    Follows (Plan.listConstructor ++ P) T .listConstructor T false :=
  .begin (.enter rfl (.expect rfl rfl rfl (.choose rfl rfl (.leave (.finish h)))))

theorem mappingField (h : Follows P T .mappingFieldEnd T false) :
    Follows (Plan.mappingField ++ P) T .mappingField T false :=
  .begin (.enter rfl (.expect rfl rfl rfl (.expect rfl rfl rfl (expression (.silent rfl rfl
    (.leave (.finish h)))))))

theorem mappingConstructor (h : Follows P T .expressionRhs T false) :
    Follows (Plan.mappingConstructor ++ P) T .mappingConstructor T false :=
  .begin (.enter rfl (.expect rfl rfl rfl (.choose rfl rfl (.leave (.finish h)))))

theorem newExpr (h : Follows P T .expressionRhs T false) :
    Follows (Plan.newExpr ++ P) T .newExpr T false :=
  .begin (.enter rfl (.expect rfl rfl rfl (.expect rfl rfl rfl (argList rfl
    (.leave (.finish h))))))

theorem fromClause (h : Follows P T .queryClauseOrSelect T false) :
    Follows (Plan.fromClause ++ P) T .fromClause T false :=
  .begin (.enter rfl (.expect rfl rfl rfl (.choose rfl rfl (.expect rfl rfl rfl
    (.expect rfl rfl rfl (expression (.silent rfl rfl (.leave (.finish h)))))))))

theorem whereClause (h : Follows P T .queryClauseOrSelect T false) :
    Follows (Plan.whereClause ++ P) T .whereClause T false :=
  .begin (.enter rfl (.expect rfl rfl rfl (expression (.silent rfl rfl (.leave (.finish h))))))

theorem letClause (h : Follows P T .queryClauseOrSelect T false) :
    Follows (Plan.letClause ++ P) T .letClause T false :=
  .begin (.enter rfl (.expect rfl rfl rfl (.choose rfl rfl (.expect rfl rfl rfl
    (.expect rfl rfl rfl (expression (.silent rfl rfl (.leave (.finish h)))))))))

theorem selectClause {query : Position} (h : Follows P (query :: T) .expressionRhs T false) :
    Follows (Plan.selectClause ++ P) (query :: T) .selectClause (query :: T) false :=
  .begin (.enter rfl (.expect rfl rfl rfl (expression (.silent rfl rfl (.leave (.finish h))))))

theorem queryExpr (h : Follows P T .expressionRhs T false) :
    Follows (Plan.queryExpr ++ P) T .queryExpr T false :=
  .begin (.enter rfl (fromClause (.choose rfl rfl (.leave (.finish h)))))

theorem receiveExpr (h : Follows P T .expressionRhs T false) :
    Follows (Plan.receiveExpr ++ P) T .receiveExpr T false :=
  .begin (.enter rfl (.expect rfl rfl rfl (.expect rfl rfl rfl (.leave (.finish h)))))

theorem waitExpr (h : Follows P T .expressionRhs T false) :
    Follows (Plan.waitExpr ++ P) T .waitExpr T false :=
  .begin (.enter rfl (.expect rfl rfl rfl (.expect rfl rfl rfl (.leave (.finish h)))))

theorem interpolation (h : Follows P T .templateMemberOrEnd T false) :
    Follows (Plan.interpolation ++ P) T .interpolation T false :=
  .begin (.enter rfl (.expect rfl rfl rfl (expression (.silent rfl rfl (.expect rfl rfl rfl
    (.leave (.finish h)))))))

theorem templateExpr (h : Follows P T .expressionRhs T false) :
    Follows (Plan.templateExpr ++ P) T .templateExpr T false :=
  .begin (.enter rfl (.expect rfl rfl rfl (.expect rfl rfl rfl (.choose rfl rfl
    (.leave (.finish h))))))

/-! ## Match patterns -/

theorem bindingPattern (hexit : afterPattern T = .reach q S) (h : Follows P T q S false) :
    Follows (Plan.bindingPattern ++ P) T .varBindingPattern T false :=
  .begin (.enter rfl (.expect rfl rfl rfl (.expect rfl rfl hexit (.leave (.finish h)))))

theorem listPattern (hexit : afterPattern T = .reach q S) (h : Follows P T q S false) :
    Follows (Plan.listPattern ++ P) T .listMatchPattern T false :=
  .begin (.enter rfl (.expect rfl rfl rfl (.choose rfl hexit (.leave (.finish h)))))

theorem fieldPattern (h : Follows P T .mappingPatternEnd T false) :
    Follows (Plan.fieldPattern ++ P) T .fieldMatchPattern T false :=
  .begin (.enter rfl (.expect rfl rfl rfl (.expect rfl rfl rfl (.choose rfl rfl
    (.leave (.finish h))))))

theorem mappingPattern (hexit : afterPattern T = .reach q S) (h : Follows P T q S false) :
    Follows (Plan.mappingPattern ++ P) T .mappingMatchPattern T false :=
  .begin (.enter rfl (.expect rfl rfl rfl (.choose rfl hexit (.leave (.finish h)))))

/-! ## Statements -/

theorem block (hexit : afterBlock T = .reach q S) (h : Follows P T q S false) :
    Follows (Plan.block ++ P) T .block T false :=
  .begin (.enter rfl (.expect rfl rfl rfl (.choose rfl hexit (.leave (.finish h)))))

theorem varDecl (hexit : afterProduction T = .reach q S) (h : Follows P T q S false) :
    Follows (Plan.varDecl ++ P) T .varDecl T false :=
  .enter rfl (.choose rfl rfl (.expect rfl rfl rfl (.choose rfl hexit (.leave (.finish h)))))

theorem ifStmt (hexit : afterProduction T = .reach q S) (h : Follows P T q S false) :
    Follows (Plan.ifStmt ++ P) T .ifBlock T false :=
  .begin (.enter rfl (.expect rfl rfl rfl (expression (.silent rfl rfl (block rfl
    (.otherBranch hexit (.finish h)))))))

/-- The other branch ends the conditional that it belongs to. -/
theorem elseClause (hexit : afterProduction T = .reach q S) (h : Follows P T q S false) :
    Follows (Plan.elseClause ++ .leave :: P) (.ifBlock :: T) .elseKeyword (.ifBlock :: T) false :=
  .begin (.expect rfl rfl rfl (.switch (.choose rfl hexit (.finish (.leave h)))))

theorem whileStmt (hexit : afterProduction T = .reach q S) (h : Follows P T q S false) :
    Follows (Plan.whileStmt ++ P) T .whileBlock T false :=
  .begin (.enter rfl (.expect rfl rfl rfl (expression (.silent rfl rfl (block hexit
    (.leave (.finish h)))))))

theorem returnStmt (hexit : afterProduction T = .reach q S) (h : Follows P T q S false) :
    Follows (Plan.returnStmt ++ P) T .returnStmt T false :=
  .begin (.enter rfl (.expect rfl rfl rfl (.choose rfl hexit (.leave (.finish h)))))

theorem breakStmt (hexit : afterProduction T = .reach q S) (h : Follows P T q S false) :
    Follows (Plan.jump .breakStmt .breakStmt .breakKeyword ++ P) T .breakStmt T false :=
  .begin (.enter rfl (.expect rfl rfl rfl (.expect rfl rfl hexit (.leave (.finish h)))))

theorem continueStmt (hexit : afterProduction T = .reach q S) (h : Follows P T q S false) :
    Follows (Plan.jump .continueStmt .continueStmt .continueKeyword ++ P) T .continueStmt T
      false :=
  .begin (.enter rfl (.expect rfl rfl rfl (.expect rfl rfl hexit (.leave (.finish h)))))

theorem foreachStmt (hexit : afterProduction T = .reach q S) (h : Follows P T q S false) :
    Follows (Plan.foreachStmt ++ P) T .foreachStmt T false :=
  .begin (.enter rfl (.expect rfl rfl rfl (.choose rfl rfl (.expect rfl rfl rfl
    (.expect rfl rfl rfl (expression (.silent rfl rfl (block hexit (.leave (.finish h))))))))))

theorem lockStmt (hexit : afterProduction T = .reach q S) (h : Follows P T q S false) :
    Follows (Plan.lockStmt ++ P) T .lockStmt T false :=
  .begin (.enter rfl (.expect rfl rfl rfl (block hexit (.leave (.finish h)))))

theorem matchStmt (hexit : afterProduction T = .reach q S) (h : Follows P T q S false) :
    Follows (Plan.matchStmt ++ P) T .matchStmt T false :=
  .begin (.enter rfl (.expect rfl rfl rfl (expression (.silent rfl rfl (.expect rfl rfl rfl
    (.choose rfl hexit (.leave (.finish h))))))))

theorem matchClause (h : Follows P T .matchClauseOrEnd T false) :
    Follows (Plan.matchClause ++ P) T .matchClause T false :=
  .begin (.enter rfl (.choose rfl rfl (.choose rfl rfl (.leave (.finish h)))))

theorem workerDecl (hexit : afterProduction T = .reach q S) (h : Follows P T q S false) :
    Follows (Plan.workerDecl ++ P) T .workerDecl T false :=
  .begin (.enter rfl (.expect rfl rfl rfl (.expect rfl rfl rfl (.choose rfl hexit
    (.leave (.finish h))))))

theorem forkStmt (hexit : afterProduction T = .reach q S) (h : Follows P T q S false) :
    Follows (Plan.forkStmt ++ P) T .forkStmt T false :=
  .begin (.enter rfl (.expect rfl rfl rfl (.expect rfl rfl rfl (.choose rfl hexit
    (.leave (.finish h))))))

theorem nameStmt (hexit : afterProduction T = .reach q S) (h : Follows P T q S false) :
    Follows (Plan.nameStmt ++ P) T .statementStartIdentifier T false :=
  .begin (.expect rfl rfl rfl (.choose rfl hexit h))

theorem assignment (hexit : afterProduction T = .reach q S) (h : Follows P T q S false) :
    Follows (Plan.assignment ++ P) T .assignmentStmt T false :=
  .adopt (.finish (.enter rfl (.expect rfl rfl rfl (expression (.silent rfl rfl
    (.expect rfl rfl hexit (.leave (.finish h))))))))

theorem callStmt (hexit : afterProduction T = .reach q S) (h : Follows P T q S false) :
    Follows (Plan.callStmt ++ P) T .callStmt T false :=
  .adopt (.finish (.enter rfl (argList rfl (.expect rfl rfl hexit (.leave (.finish h))))))

theorem sendStmt (hexit : afterProduction T = .reach q S) (h : Follows P T q S false) :
    Follows (Plan.sendStmt ++ P) T .sendStmt T false :=
  .adopt (.finish (.enter rfl (.expect rfl rfl rfl (.expect rfl rfl rfl (.expect rfl rfl hexit
    (.leave (.finish h)))))))

theorem namedTypeDecl (hexit : afterProduction T = .reach q S) (h : Follows P T q S false) :
    Follows (Plan.namedTypeDecl ++ P) T .varDeclAfterTypeRef T false :=
  .adopt (.finish (.enter rfl (.optionalSuffix (.silent rfl rfl (.expect rfl rfl rfl
    (.choose rfl hexit (.leave (.finish h))))))))

/-! ## Declarations -/

theorem importDecl (hexit : afterProduction T = .reach q S) (h : Follows P T q S false) :
    Follows (Plan.importDecl ++ P) T .importDecl T false :=
  .begin (.enter rfl (.expect rfl rfl rfl (.expect rfl rfl rfl (.choose rfl hexit
    (.leave (.finish h))))))

theorem returnType (h : Follows P T .typeDescEnd T false) :
    Follows (Plan.returnType ++ P) T .returnsKeyword T false :=
  .begin (.expect rfl rfl rfl (.choose rfl rfl (.finish h)))

theorem parameter (h : Follows P (.paramList :: T) .paramEnd (.paramList :: T) false) :
    Follows (Plan.parameter ++ P) (.paramList :: T) .parameter (.paramList :: T) false :=
  .silent rfl rfl (.begin (.choose rfl rfl (.silent rfl rfl (.expect rfl rfl rfl (.finish h)))))

theorem paramList (hexit : afterParameters T = .reach q S) (h : Follows P T q S false) :
    Follows (Plan.paramList ++ P) T .paramList T false :=
  .begin (.enter rfl (.expect rfl rfl rfl (.choose rfl hexit (.leave (.finish h)))))

theorem functionDefinition (hexit : afterProduction T = .reach q S) (h : Follows P T q S false) :
    Follows (Plan.functionDefinition ++ P) T .funcDefinition T false :=
  .enter rfl (.expect rfl rfl rfl (.expect rfl rfl rfl (paramList rfl (.choose rfl hexit
    (.leave (.finish h))))))

theorem methodDeclaration (hexit : afterProduction T = .reach q S) (h : Follows P T q S false) :
    Follows (Plan.methodDeclaration ++ P) T .objectMethod T false :=
  .begin (.enter rfl (.expect rfl rfl rfl (.expect rfl rfl rfl (paramList rfl (.choose rfl hexit
    (.leave (.finish h)))))))

theorem typeDefinition (hexit : afterProduction T = .reach q S) (h : Follows P T q S false) :
    Follows (Plan.typeDefinition ++ P) T .typeDefinition T false :=
  .enter rfl (.expect rfl rfl rfl (.expect rfl rfl rfl (.choose rfl rfl (.silent rfl rfl
    (.expect rfl rfl hexit (.leave (.finish h)))))))

theorem constDecl (hexit : afterProduction T = .reach q S) (h : Follows P T q S false) :
    Follows (Plan.constDecl ++ P) T .constDecl T false :=
  .enter rfl (.expect rfl rfl rfl (.expect rfl rfl rfl (.expect rfl rfl rfl (expression
    (.silent rfl rfl (.expect rfl rfl hexit (.leave (.finish h))))))))

/-! ## What goes on with a type, an operand or a conditional -/

theorem optionalType (h : Follows P T .typeDescEnd T false) :
    Follows ([.adopt, .expect .questionMark, .finish .optionalType] ++ P) T .questionMark T
      false :=
  .adopt (.expect rfl rfl rfl (.finish h))

theorem fieldAccess (h : Follows P T .expressionRhs T true) :
    Follows ([.adopt, .expect .dot, .expect .fieldAccessName, .finish .fieldAccess, .postfixes] ++
      P) T .dot T false :=
  .adopt (.expect rfl rfl rfl (.expect rfl rfl rfl (.finish (.postfixes h))))

theorem callExpr (hexit : afterArguments T = .reach .expressionRhs T)
    (h : Follows P T .expressionRhs T true) :
    Follows (.adopt :: Plan.argList ++ [.finish .callExpr, .postfixes] ++ P) T .argList T false :=
  .adopt (argList hexit (.finish (.postfixes h)))

theorem binaryExpr {tightness precedence : Nat}
    (h : Follows (.operators tightness :: P) T .expressionRhs T true) :
    Follows ([.adopt, .expect .binaryOperator, .choose .expression, .operators (precedence + 1),
      .finish .binaryExpr, .operators tightness] ++ P) T .binaryOperator T false :=
  .adopt (.expect rfl rfl rfl (.choose rfl rfl (.tighter (.finish h))))

/-- A conditional without another branch is left at once. -/
theorem ifEnd (hexit : afterProduction T = .reach q S) (h : Follows P T q S false) :
    Follows (.leave :: P) (.ifBlock :: T) .ifEnd (.ifBlock :: T) false :=
  .silent rfl hexit (.leave h)

end Mend.Follows
