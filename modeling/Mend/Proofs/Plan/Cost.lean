import Mend.Proofs.Plan.Ways

/-!
# What a plan costs

Two bounds on a plan, from which the number of steps of the machine is bounded. The cost of a plan
is how many steps it takes once the input has come to an end, where every choice is closed in the
shortest way. The depth of a plan is how many choices can follow each other before the next token
is taken: a token that resolves a choice resolves every choice on its way to the position that
takes it.
-/

namespace Mend

/-- The steps that it takes to close a choice once the input has come to an end. -/
def Position.closingCost : Position → Nat
  | .topLevelNode | .matchPattern => 4
  | .topLevelNodeWithoutMetadata => 23
  | .topLevelNodeWithoutModifier => 21
  | .returnTypeOrBody | .workerReturnOrBody | .elseBody => 8
  | .typeDescriptor | .expression => 5
  | .statement => 17
  | .statementStartIdentifierRhs => 14
  | .objectMember => 16
  | .queryClauseOrSelect => 12
  | .matchPatternRhs => 9
  | _ => 2

/-- How many choices one token may resolve from a choice on. -/
def Position.choiceDepth : Position → Nat
  | .topLevelNode => 5
  | .topLevelNodeWithoutMetadata | .statementsOrEnd => 4
  | .topLevelNodeWithoutModifier | .statement | .objectMemberOrEnd => 3
  | .paramStart | .recordFieldOrEnd | .varDeclTypeStart | .returnRhs | .argStart | .objectMember
  | .listConstructorStart | .matchClauseOrEnd | .listPatternStart
  | .statementStartIdentifierRhs =>
    2
  | _ => 1

theorem Position.one_le_closingCost (b : Position) : 1 ≤ b.closingCost := by
  unfold closingCost
  split <;> decide

theorem Position.choiceDepth_le (b : Position) : b.choiceDepth ≤ 5 := by
  unfold choiceDepth
  split <;> decide

namespace Instruction

/-- The steps of an instruction at the end of the input. -/
def cost : Instruction → Nat
  | choose b => b.closingCost
  | _ => 1

/-- The depth of an instruction before a plan of some depth. -/
def depth : Instruction → Nat → Nat
  | expect _, _ | take, _ | drain, _ => 0
  | choose b, _ => b.choiceDepth
  | optionalSuffix, d | postfixes, d | operators _, d | otherBranch, d => max 1 d
  | _, d => d

theorem one_le_cost (i : Instruction) : 1 ≤ i.cost := by
  cases i with
  | choose b => exact b.one_le_closingCost
  | _ => exact Nat.le_refl 1

theorem depth_mono {i : Instruction} {d e : Nat} (h : d ≤ e) : i.depth d ≤ i.depth e := by
  cases i <;> simp only [depth] <;> omega

theorem depth_le {i : Instruction} {d : Nat} (h : d ≤ 5) : i.depth d ≤ 5 := by
  cases i with
  | choose b => exact b.choiceDepth_le
  | _ =>
    simp only [depth]
    omega

end Instruction

namespace Plan

/-- The steps of a plan once the input has come to an end. -/
def cost (P : Plan) : Nat := P.foldr (fun i steps => i.cost + steps) 0

/-- How many choices of a plan one token may resolve, before a plan of some depth. -/
def depthBefore (d : Nat) (P : Plan) : Nat := P.foldr Instruction.depth d

/-- How many choices of a plan one token may resolve. -/
def depth (P : Plan) : Nat := depthBefore 0 P

variable {P Q : Plan} {b way : Position} {k : Kind}

@[simp] theorem cost_nil : cost [] = 0 := rfl

@[simp] theorem cost_cons (i : Instruction) (P : Plan) : cost (i :: P) = i.cost + cost P := rfl

@[simp] theorem cost_append (P Q : Plan) : cost (P ++ Q) = cost P + cost Q := by
  induction P with
  | nil => simp
  | cons i P ih => rw [List.cons_append, cost_cons, cost_cons, ih, Nat.add_assoc]

theorem depth_append (P Q : Plan) : depth (P ++ Q) = depthBefore (depth Q) P := by
  simp [depth, depthBefore]

@[simp] theorem depth_cons (i : Instruction) (P : Plan) : depth (i :: P) = i.depth (depth P) := rfl

theorem depthBefore_mono {d e : Nat} (h : d ≤ e) (P : Plan) :
    depthBefore d P ≤ depthBefore e P := by
  induction P with
  | nil => exact h
  | cons i P ih => exact Instruction.depth_mono ih

theorem depth_le (P : Plan) : depth P ≤ 5 := by
  induction P with
  | nil => exact Nat.zero_le 5
  | cons i P ih => exact Instruction.depth_le ih

/-! ## The plans of choices -/

private theorem cost_table : Position.all.all (fun b => !b.isChoice || b.ways.all fun way =>
    decide (cost (via b way) ≤ 32)) = true := by
  decide +kernel

private theorem closing_table : Position.all.all (fun b => !b.isChoice ||
    decide (cost (continuation b (.kind b.expectedKind)) < b.closingCost) &&
      depthBefore 5 (continuation b (.kind b.expectedKind)) == 0) = true := by
  decide +kernel

private theorem depth_table : Position.all.all (fun b => !b.isChoice || Kind.all.all fun k =>
    !b.admits k || decide (depthBefore 5 (continuation b (.kind k)) < b.choiceDepth)) = true := by
  decide +kernel

/-- No choice adds more than so many steps. -/
theorem cost_continuation_le {choice : Choice} (hb : b.isChoice = true)
    (h : choice.Arises b) : cost (continuation b choice) ≤ 32 := by
  obtain ⟨way, hway, heq⟩ := continuation_eq_via hb h
  have htable := Position.of_all cost_table b
  simp only [hb, Bool.not_true, Bool.false_or, List.all_eq_true, decide_eq_true_eq] at htable
  rw [heq]
  exact htable way hway

/-- Closing a choice costs less than the choice. -/
theorem cost_closing_lt (hb : b.isChoice = true) :
    cost (continuation b (.kind b.expectedKind)) < b.closingCost := by
  have htable := Position.of_all closing_table b
  simp only [hb, Bool.not_true, Bool.false_or, Bool.and_eq_true, decide_eq_true_eq] at htable
  exact htable.1

/-- The token that closes a choice is taken next. -/
theorem depth_closing (hb : b.isChoice = true) (P : Plan) :
    depth (continuation b (.kind b.expectedKind) ++ P) = 0 := by
  have htable := Position.of_all closing_table b
  simp only [hb, Bool.not_true, Bool.false_or, Bool.and_eq_true, beq_iff_eq] at htable
  have hle := depthBefore_mono (depth_le P) (continuation b (.kind b.expectedKind))
  rw [depth_append]
  omega

/-- A token that resolves a choice has one choice less to resolve behind it. -/
theorem depth_continuation_lt (hb : b.isChoice = true) (hk : b.admits k = true) (P : Plan) :
    depth (continuation b (.kind k) ++ P) < b.choiceDepth := by
  have htable := Position.of_all depth_table b
  simp only [hb, Bool.not_true, Bool.false_or, List.all_eq_true, Bool.or_eq_true,
    Bool.not_eq_true', decide_eq_true_eq] at htable
  have hlt := (htable k k.mem_all).resolve_left (by simp [hk])
  have hle := depthBefore_mono (depth_le P) (continuation b (.kind k))
  rw [depth_append]
  omega

end Plan

end Mend
