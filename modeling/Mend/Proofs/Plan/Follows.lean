import Mend.Plan.Continuation
import Mend.Proofs.Grammar.First

/-!
# Plans that follow the automaton

The machine and the automaton are two readings of one grammar. They meet in a relation: a plan on
a stack of productions follows the automaton from a state if doing the plan, instruction by
instruction, takes the automaton from that state to the end of the input. The two stacks are equal
wherever a token is wanted; in between, the automaton leaves productions as soon as the token that
ends them is taken, and the machine only when it has built the node.

The relation has one more index. Once the accesses and calls behind an operand have been taken the
operand is complete, and only then may an operator or the end of the expression follow.
-/

namespace Mend

namespace Position

/-- Where the automaton stands once everything has been taken that a choice at a branch point
leads to. -/
def exit (b : Position) (T : Stack) : Step :=
  match b with
  | .typeDescriptor => .reach .typeDescEnd T
  | .expression => .reach .expressionRhs T
  | .varDeclTypeStart => stay .typeDescEnd T
  | .matchPattern => afterPattern T
  | .topLevelNodeWithoutMetadata | .topLevelNodeWithoutModifier | .statement
  | .statementStartIdentifierRhs | .elseBody | .objectMember =>
    afterProduction T
  | .importNameRhs | .varDeclRhs | .returnRhs | .methodDeclRhs => afterSemicolon T
  | .paramStart | .paramEnd | .argStart | .argEnd => afterParenthesis T
  | .returnTypeOrBody | .workerReturnOrBody | .matchPatternRhs => afterBlock T
  | .listConstructorStart | .listConstructorEnd | .listPatternStart | .listPatternEnd =>
    afterBracket T
  | .recordFieldOrEnd | .objectMemberOrEnd | .statementsOrEnd | .mappingFieldOrEnd
  | .mappingFieldEnd | .matchClauseOrEnd | .mappingPatternStart | .mappingPatternEnd
  | .forkBodyOrEnd =>
    afterBrace T
  | .queryClauseOrSelect => .reach .expressionRhs T.tail
  | .templateMemberOrEnd => afterTemplate T
  | b => .stuck (.noTransition b .noSuccessor) T

end Position

/-- Whether an instruction only builds the tree. -/
def Instruction.builds : Instruction → Bool
  | .begin | .adopt | .finish _ => true
  | _ => false

/-- Doing a plan on a stack takes the automaton from a state to the end of the input. The flag
says that the operand at hand is complete. -/
inductive Follows : Plan → Stack → Position → Stack → Bool → Prop
  /-- The automaton passes silent positions on its own. -/
  | silent {P : Plan} {T S S' : Stack} {q q' : Position} (hsilent : q.isSilent = true)
      (hmove : q.advance S = .reach q' S') (h : Follows P T q' S' false) : Follows P T q S false
  | enter {P : Plan} {T S : Stack} {q p first : Position} (hopening : q.opening? = some (p, first))
      (h : Follows P (p :: T) first (p :: S) false) : Follows (.enter p :: P) T q S false
  | leave {P : Plan} {T S : Stack} {q p : Position} (h : Follows P T q S false) :
      Follows (.leave :: P) (p :: T) q S false
  | switch {P : Plan} {T S : Stack} {q p p' : Position} (h : Follows P (p :: T) q S false) :
      Follows (.switch p :: P) (p' :: T) q S false
  | expect {P : Plan} {T S : Stack} {p q : Position} (htakes : p.takesToken = true)
      (hend : (p == .eof) = false) (hmove : p.advance T = .reach q S) (h : Follows P T q S false) :
      Follows (.expect p :: P) T p T false
  | choose {P : Plan} {T S : Stack} {b q : Position} (hchoice : b.isChoice = true)
      (hexit : b.exit T = .reach q S) (h : Follows P T q S (b == .expression)) :
      Follows (.choose b :: P) T b T false
  /-- The choice between the declarations of a program never comes to an end before the input. -/
  | chooseTop : Follows [.choose .topLevelNode] [.compUnit] .topLevelNode [.compUnit] false
  | build {P : Plan} {T S : Stack} {q : Position} {full : Bool} {i : Instruction}
      (hbuilds : i.builds = true) (h : Follows P T q S full) : Follows (i :: P) T q S full
  | optionalSuffix {P : Plan} {T : Stack} (h : Follows P T .typeDescEnd T false) :
      Follows (.optionalSuffix :: P) T .typeDescRhs T false
  | postfixes {P : Plan} {T : Stack} (h : Follows P T .expressionRhs T true) :
      Follows (.postfixes :: P) T .expressionRhs T false
  /-- The operators of a whole expression end it. -/
  | operators {P : Plan} {T : Stack} (h : Follows P T .expressionEnd T false) :
      Follows (.operators 0 :: P) T .expressionRhs T true
  /-- The operators of a right operand leave the expression where it is. -/
  | tighter {P : Plan} {T : Stack} {tightness : Nat} (h : Follows P T .expressionRhs T true) :
      Follows (.operators (tightness + 1) :: P) T .expressionRhs T true
  /-- Without another branch the production of a conditional is left at once. -/
  | otherBranch {P : Plan} {T S : Stack} {q : Position}
      (hexit : Position.afterProduction T = .reach q S) (h : Follows P T q S false) :
      Follows (.otherBranch :: .leave :: P) (.ifBlock :: T) .elseOrEnd (.ifBlock :: T) false
  /-- The end of the input is the end of the program. -/
  | drain : Follows [.drain, .take, .leave] [.compUnit] .eof [.compUnit] false
  | take : Follows [.take, .leave] [.compUnit] .eof [.compUnit] false
  | close : Follows [.leave] [.compUnit] .eof [.compUnit] false
  | done : Follows [] [] .eof [.compUnit] false

/-! ## Moves that the automaton makes on its own -/

/-- The automaton goes from one state to another through silent positions alone. -/
inductive Passes : Position → Stack → Position → Stack → Prop
  | refl (q : Position) (S : Stack) : Passes q S q S
  | step {q q' r : Position} {S S' U : Stack} (hsilent : q.isSilent = true)
      (hmove : q.advance S = .reach q' S') (h : Passes q' S' r U) : Passes q S r U

namespace Passes

variable {q r : Position} {S U : Stack}

theorem run (h : Passes q S r U) : Run q S [] r U := by
  induction h with
  | refl => exact .refl _ _
  | step hsilent hmove _ ih => exact .silent hsilent hmove ih

/-- A position that opens a production is passed into it. -/
theorem opening {p first : Position} (h : q.opening? = some (p, first)) :
    Passes q S first (p :: S) := by
  have hkinds : ∀ q : Position, q.opening?.isSome = true → q.isSilent = true := by
    intro q
    cases q <;> decide
  have hmove : q.advance S = .reach first (p :: S) := by rw [Position.advance, h]
  exact .step (hkinds q (by rw [h]; rfl)) hmove (.refl first (p :: S))

theorem legal (h : Passes q S r U) (hlegal : Legal q S) : Legal r U := h.run.legal hlegal

/-- What is read from a state is read from where silent positions lead. -/
theorem reads {ts : List Token} (h : Passes q S r U) (hreads : Reads q S ts) : Reads r U ts := by
  induction h with
  | refl => exact hreads
  | step hsilent hmove _ ih => exact ih (hreads.silent hsilent hmove)

end Passes

namespace Follows

variable {P : Plan} {T S : Stack} {q p b : Position} {full : Bool}

theorem begin (h : Follows P T q S full) : Follows (.begin :: P) T q S full := .build rfl h

theorem adopt (h : Follows P T q S full) : Follows (.adopt :: P) T q S full := .build rfl h

theorem finish {kind : NodeKind} (h : Follows P T q S full) :
    Follows (.finish kind :: P) T q S full :=
  .build rfl h

/-! ## What a plan that follows does first -/

theorem enter_inv (h : Follows (.enter p :: P) T q S full) :
    ∃ q' S', Passes q S q' S' ∧ Follows P (p :: T) q' S' false := by
  generalize hplan : Instruction.enter p :: P = plan at h
  induction h with
  | silent hsilent hmove _ ih =>
    obtain ⟨q', S', hpass, hrest⟩ := ih hplan
    exact ⟨q', S', .step hsilent hmove hpass, hrest⟩
  | enter hopening hrest =>
    cases hplan
    exact ⟨_, _, .opening hopening, hrest⟩
  | build hbuilds _ =>
    cases hplan
    cases hbuilds
  | _ => cases hplan

theorem leave_inv (h : Follows (.leave :: P) T q S full) :
    ∃ p' T' q' S', T = p' :: T' ∧ Passes q S q' S' ∧ Follows P T' q' S' false := by
  generalize hplan : Instruction.leave :: P = plan at h
  induction h with
  | silent hsilent hmove _ ih =>
    obtain ⟨p', T', q', S', hT, hpass, hrest⟩ := ih hplan
    exact ⟨p', T', q', S', hT, .step hsilent hmove hpass, hrest⟩
  | leave hrest =>
    cases hplan
    exact ⟨_, _, _, _, rfl, .refl _ _, hrest⟩
  | close =>
    cases hplan
    exact ⟨_, _, _, _, rfl, .refl _ _, .done⟩
  | build hbuilds _ =>
    cases hplan
    cases hbuilds
  | _ => cases hplan

theorem switch_inv (h : Follows (.switch p :: P) T q S full) :
    ∃ p' T' q' S', T = p' :: T' ∧ Passes q S q' S' ∧ Follows P (p :: T') q' S' false := by
  generalize hplan : Instruction.switch p :: P = plan at h
  induction h with
  | silent hsilent hmove _ ih =>
    obtain ⟨p', T', q', S', hT, hpass, hrest⟩ := ih hplan
    exact ⟨p', T', q', S', hT, .step hsilent hmove hpass, hrest⟩
  | switch hrest =>
    cases hplan
    exact ⟨_, _, _, _, rfl, .refl _ _, hrest⟩
  | build hbuilds _ =>
    cases hplan
    cases hbuilds
  | _ => cases hplan

/-- Where a token is wanted, the automaton comes to want it on the machine's stack. -/
theorem expect_inv (h : Follows (.expect p :: P) T q S full) :
    p.takesToken = true ∧ p ≠ .eof ∧ Passes q S p T ∧
      ∃ q' S', p.advance T = .reach q' S' ∧ Follows P T q' S' false := by
  generalize hplan : Instruction.expect p :: P = plan at h
  induction h with
  | silent hsilent hmove _ ih =>
    obtain ⟨htakes, hend, hpass, hrest⟩ := ih hplan
    exact ⟨htakes, hend, .step hsilent hmove hpass, hrest⟩
  | expect htakes hend hmove hrest =>
    cases hplan
    exact ⟨htakes, beq_eq_false_iff_ne.1 hend, .refl _ _, _, _, hmove, hrest⟩
  | build hbuilds _ =>
    cases hplan
    cases hbuilds
  | _ => cases hplan

/-- Where a choice is to be made, the automaton comes to it on the machine's stack. -/
theorem choose_inv (h : Follows (.choose b :: P) T q S full) :
    b.isChoice = true ∧ Passes q S b T ∧
      ((∃ q' S', b.exit T = .reach q' S' ∧ Follows P T q' S' (b == .expression)) ∨
        b = .topLevelNode ∧ P = [] ∧ T = [.compUnit]) := by
  generalize hplan : Instruction.choose b :: P = plan at h
  induction h with
  | silent hsilent hmove _ ih =>
    obtain ⟨hchoice, hpass, hrest⟩ := ih hplan
    exact ⟨hchoice, .step hsilent hmove hpass, hrest⟩
  | choose hchoice hexit hrest =>
    cases hplan
    exact ⟨hchoice, .refl _ _, .inl ⟨_, _, hexit, hrest⟩⟩
  | chooseTop =>
    cases hplan
    exact ⟨rfl, .refl _ _, .inr ⟨rfl, rfl, rfl⟩⟩
  | build hbuilds _ =>
    cases hplan
    cases hbuilds
  | _ => cases hplan

theorem build_inv {i : Instruction} (hbuilds : i.builds = true) (h : Follows (i :: P) T q S full) :
    ∃ q' S', Passes q S q' S' ∧ Follows P T q' S' full := by
  generalize hplan : i :: P = plan at h
  induction h with
  | silent hsilent hmove _ ih =>
    obtain ⟨q', S', hpass, hrest⟩ := ih hplan
    exact ⟨q', S', .step hsilent hmove hpass, hrest⟩
  | build _ hrest =>
    cases hplan
    exact ⟨_, _, .refl _ _, hrest⟩
  | _ => cases hplan <;> cases hbuilds

theorem optionalSuffix_inv (h : Follows (.optionalSuffix :: P) T q S full) :
    Passes q S .typeDescRhs T ∧ Follows P T .typeDescEnd T false := by
  generalize hplan : Instruction.optionalSuffix :: P = plan at h
  induction h with
  | silent hsilent hmove _ ih =>
    obtain ⟨hpass, hrest⟩ := ih hplan
    exact ⟨.step hsilent hmove hpass, hrest⟩
  | optionalSuffix hrest =>
    cases hplan
    exact ⟨.refl _ _, hrest⟩
  | build hbuilds _ =>
    cases hplan
    cases hbuilds
  | _ => cases hplan

theorem postfixes_inv (h : Follows (.postfixes :: P) T q S full) :
    Passes q S .expressionRhs T ∧ Follows P T .expressionRhs T true := by
  generalize hplan : Instruction.postfixes :: P = plan at h
  induction h with
  | silent hsilent hmove _ ih =>
    obtain ⟨hpass, hrest⟩ := ih hplan
    exact ⟨.step hsilent hmove hpass, hrest⟩
  | postfixes hrest =>
    cases hplan
    exact ⟨.refl _ _, hrest⟩
  | build hbuilds _ =>
    cases hplan
    cases hbuilds
  | _ => cases hplan

/-- Operators follow a complete operand. -/
theorem operators_inv {tightness : Nat} (h : Follows (.operators tightness :: P) T q S full) :
    full = true ∧ Passes q S .expressionRhs T ∧
      Follows (.operators tightness :: P) T .expressionRhs T true ∧
      (tightness = 0 ∧ Follows P T .expressionEnd T false ∨ Follows P T .expressionRhs T true) := by
  generalize hplan : Instruction.operators tightness :: P = plan at h
  induction h with
  | silent _ _ _ ih =>
    obtain ⟨hfull, _⟩ := ih hplan
    cases hfull
  | operators hrest =>
    cases hplan
    exact ⟨rfl, .refl _ _, .operators hrest, .inl ⟨rfl, hrest⟩⟩
  | tighter hrest =>
    cases hplan
    exact ⟨rfl, .refl _ _, .tighter hrest, .inr hrest⟩
  | build hbuilds _ =>
    cases hplan
    cases hbuilds
  | _ => cases hplan

theorem otherBranch_inv (h : Follows (.otherBranch :: P) T q S full) :
    Passes q S .elseOrEnd T ∧ ∃ P' T' q' S', P = .leave :: P' ∧ T = .ifBlock :: T' ∧
      Position.afterProduction T' = .reach q' S' ∧ Follows P' T' q' S' false := by
  generalize hplan : Instruction.otherBranch :: P = plan at h
  induction h with
  | silent hsilent hmove _ ih =>
    obtain ⟨hpass, hrest⟩ := ih hplan
    exact ⟨.step hsilent hmove hpass, hrest⟩
  | otherBranch hexit hrest =>
    cases hplan
    exact ⟨.refl _ _, _, _, _, _, rfl, rfl, hexit, hrest⟩
  | build hbuilds _ =>
    cases hplan
    cases hbuilds
  | _ => cases hplan

theorem drain_inv (h : Follows (.drain :: P) T q S full) :
    P = [.take, .leave] ∧ T = [.compUnit] ∧ Passes q S .eof [.compUnit] := by
  generalize hplan : Instruction.drain :: P = plan at h
  induction h with
  | silent hsilent hmove _ ih =>
    obtain ⟨hP, hT, hpass⟩ := ih hplan
    exact ⟨hP, hT, .step hsilent hmove hpass⟩
  | drain =>
    cases hplan
    exact ⟨rfl, rfl, .refl _ _⟩
  | build hbuilds _ =>
    cases hplan
    cases hbuilds
  | _ => cases hplan

theorem take_inv (h : Follows (.take :: P) T q S full) :
    P = [.leave] ∧ T = [.compUnit] ∧ Passes q S .eof [.compUnit] := by
  generalize hplan : Instruction.take :: P = plan at h
  induction h with
  | silent hsilent hmove _ ih =>
    obtain ⟨hP, hT, hpass⟩ := ih hplan
    exact ⟨hP, hT, .step hsilent hmove hpass⟩
  | take =>
    cases hplan
    exact ⟨rfl, rfl, .refl _ _⟩
  | build hbuilds _ =>
    cases hplan
    cases hbuilds
  | _ => cases hplan

end Follows

end Mend
