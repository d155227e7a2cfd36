import Mend.Machine
import Mend.Proofs.Plan.Ways

/-!
# Plans keep the productions that they find

The plan of a production opens it before it does anything else, and leaves it at the end. Between
the two it may replace what it has opened itself, as a conditional does when its other branch comes,
but it touches nothing that was open before. The height of a plan counts the productions that are
open because of it: a plan from height zero to height zero leaves the stack as it found it. Every
choice keeps the height, so what a plan turns into while it is done need not be known.
-/

namespace Mend

/-- How many productions are open after an instruction, of those that were opened before it; there
is no such number if it takes away or replaces one that was open already. -/
def Instruction.height (h : Nat) : Instruction → Option Nat
  | .enter _ => some (h + 1)
  | .leave => match h with
    | 0 => none
    | h + 1 => some h
  | .switch _ | .otherBranch => match h with
    | 0 => none
    | h + 1 => some (h + 1)
  | .choose b => match b, h with
    | .topLevelNode, 0 => none
    | .topLevelNode, h + 1 => some h
    | _, h => some h
  | _ => some h

namespace Plan

/-- How many productions are open after a plan, of those that it opens itself. -/
def height : Nat → Plan → Option Nat
  | h, [] => some h
  | h, i :: P => (i.height h).bind fun h => height h P

theorem height_append (h : Nat) (P Q : Plan) :
    height h (P ++ Q) = (height h P).bind fun h => height h Q := by
  induction P generalizing h with
  | nil => rfl
  | cons i P ih => simp only [List.cons_append, height, ih, Option.bind_assoc]

private theorem height_table (h : Nat) (b : Position) (hb : b.isChoice = true) :
    ∀ way ∈ b.ways, height h (via b way) = Instruction.height h (.choose b) := by
  revert hb
  cases h <;> cases b <;> first
    | exact fun hb => absurd hb (by decide)
    | intro _
      repeat' first
        | exact fun _ h => absurd h List.not_mem_nil
        | refine List.forall_mem_cons.2 ⟨rfl, ?_⟩

/-- Where there is no choice to be made, nothing comes of making one. -/
theorem continuation_eq_nil {b : Position} (hb : b.isChoice = false) (choice : Choice) :
    continuation b choice = [] := by
  revert hb
  cases b <;> first | exact fun _ => rfl | exact fun h => absurd h (by decide)

/-- A choice leaves as many productions open as its branch point. -/
theorem height_continuation {b : Position} {choice : Choice} (harises : choice.Arises b) (h : Nat)
    (P : Plan) : height h (continuation b choice ++ P) = height h (.choose b :: P) := by
  cases hb : b.isChoice with
  | true =>
    obtain ⟨way, hway, heq⟩ := continuation_eq_via hb harises
    rw [height_append, heq, height_table h b hb way hway]
    rfl
  | false =>
    have hsome : Instruction.height h (.choose b) = some h := by
      revert hb
      cases b <;> first | exact fun _ => rfl | exact fun h => absurd h (by decide)
    rw [continuation_eq_nil hb, height, hsome]
    rfl

/-! ## The plans of productions -/

/-- The plans of the productions of the grammar and of what is parsed in one piece inside them. -/
def productions : List Plan :=
  [Machine.program, [.choose .topLevelNodeWithoutMetadata], [.choose .topLevelNodeWithoutModifier],
    importDecl, functionDefinition, returnType, paramList, parameter, typeDefinition, constDecl,
    methodDeclaration, typeDescriptor, [.optionalSuffix], recordType, recordField, objectType,
    objectField, block, [.choose .statement], nameStmt, varDecl, bindingType, declaredName, ifStmt,
    whileStmt, returnStmt, jump .breakStmt .breakStmt .breakKeyword,
    jump .continueStmt .continueStmt .continueKeyword, foreachStmt, lockStmt, matchStmt,
    matchClause, [.choose .matchPattern], bindingPattern, listPattern, fieldPattern,
    mappingPattern, workerDecl, forkStmt, [.choose .expression], [.postfixes], bracedExpr,
    listConstructor, mappingConstructor, newExpr, queryExpr, fromClause, whereClause, letClause,
    selectClause, receiveExpr, waitExpr, templateExpr, interpolation, argList]

/-- The plan of a production: one of the list, or an operand with the operators behind it that
bind tightly enough. -/
inductive Production : Plan → Prop
  | listed {P : Plan} (h : P ∈ productions) : Production P
  | operation (tightness : Nat) : Production [.choose .expression, .operators tightness]

/-- The plan of a production leaves open what it finds open, and nothing else. -/
theorem Production.height {P : Plan} (h : Production P) : Plan.height 0 P = some 0 := by
  have htable : ∀ P ∈ productions, Plan.height 0 P = some 0 := by decide +kernel
  cases h with
  | listed h => exact htable P h
  | operation tightness => rfl

end Plan

end Mend
