import Mend.Proofs.Machine.Ledger

/-!
# Drafts of the tree

What a plan does to the tree can be read off it in advance, up to what the tokens decide. A draft
says of every node that is open what is known of its children, and of the next token how tightly
it binds at most. `Plan.draft` follows a plan through drafts, and has no result where the plan
might complete an operation whose operands are not known to group. Of the children of anything but
an operation nothing needs to be known, so most instructions forget them.

Every way on from a branch point has the draft of the branch point (`draft_continuation`), and so
has what the machine decides on between operands (`draft_operation`, `draft_fieldAccess` and
`draft_call`): a plan that has a draft keeps one while it is done.
-/

namespace Mend

/-! ## Drafts -/

/-- What is known of a child. -/
inductive Trait where
  | any
  | word
  /-- A token that is an operator and binds just this tightly. -/
  | operator (precedence : Nat)
  /-- No operation. -/
  | primary
  /-- No operation with two operands. -/
  | operand
  /-- An operation with two operands, whose operator binds just this tightly. -/
  | operation (precedence : Nat)
  /-- No operation with two operands, or one whose operator binds at least this tightly. -/
  | bound (tightness : Nat)
  deriving DecidableEq

/-- Whether a child is known to hold together as an operand of an operator. -/
def Trait.binds (tightness : Nat) : Trait → Bool
  | primary | operand => true
  | operation precedence | bound precedence => decide (tightness ≤ precedence)
  | _ => false

/-- Whether a child is known to be no operation with two operands. -/
def Trait.isOperand : Trait → Bool
  | primary | operand => true
  | _ => false

/-- What is known of the children of a node. -/
structure Sketch where
  /-- The last children, most recent first. -/
  shown : List Trait
  /-- Whether there may be others before them. -/
  more : Bool

namespace Sketch

/-- No children. -/
def empty : Sketch := ⟨[], false⟩

/-- Any children. -/
def blank : Sketch := ⟨[], true⟩

/-- One more child; where nothing is known of it, the others are forgotten. -/
def push (sketch : Sketch) (trait : Trait) : Sketch :=
  if trait = .any then blank else ⟨trait :: sketch.shown, sketch.more⟩

/-- The last child alone. -/
def last (sketch : Sketch) : Sketch :=
  match sketch.shown with
  | [] => blank
  | trait :: _ => ⟨[trait], false⟩

/-- All but the last child. -/
def init (sketch : Sketch) : Sketch :=
  match sketch.shown with
  | [] => ⟨[], sketch.more⟩
  | _ :: shown => ⟨shown, sketch.more⟩

end Sketch

/-- What is known of how tightly the next token binds. -/
inductive Ahead where
  | unknown
  /-- If it is an operator it binds less tightly. -/
  | below (tightness : Nat)
  /-- It is an operator and binds just this tightly. -/
  | exactly (precedence : Nat)

/-- What is known of the node at hand, of those around it, innermost first, and of the next
token. -/
structure Draft where
  node : Sketch
  around : List Sketch
  ahead : Ahead

/-! ## Completed nodes -/

/-- Whether a node of a kind is an expression that is no operation, or an argument list. -/
def NodeKind.standsAlone : NodeKind → Bool
  | .literal | .nameRef | .bracedExpr | .listConstructor | .mappingConstructor | .newExpr
  | .queryExpr | .receiveExpr | .waitExpr | .templateExpr | .argList => true
  | _ => false

/-- What is known of a node of a kind with such children. Operations have it known that their
operands group. -/
def NodeKind.draft (kind : NodeKind) (children : Sketch) : Option Trait :=
  match kind with
  | .binaryExpr =>
    match children with
    | ⟨[right, .operator precedence, left], false⟩ =>
      if left.binds precedence && right.binds (precedence + 1) then some (.operation precedence)
      else none
    | _ => none
  | .unaryExpr =>
    match children with
    | ⟨[child, .word], false⟩ => if child.isOperand then some .operand else none
    | _ => none
  | .fieldAccess =>
    match children with
    | ⟨[.word, .word, .primary], false⟩ => some .primary
    | _ => none
  | .callExpr =>
    match children with
    | ⟨[_, .primary], false⟩ => some .primary
    | _ => none
  | kind => some (if kind.standsAlone then .primary else .any)

/-- Whether a position takes a token of an operation, other than the operator between operands. -/
def Position.isOperationWord : Position → Bool
  | .unaryOperator | .dot | .fieldAccessName => true
  | _ => false

theorem Position.isChoice_of_completes {b : Position} (h : b.completes = true) :
    b.isChoice = true := by
  simp only [completes, Bool.or_eq_true, beq_iff_eq] at h
  rcases h with (rfl | rfl) | rfl <;> rfl

/-! ## Following a plan -/

namespace Draft

/-- Any children of the node at hand. -/
def forget (draft : Draft) : Draft := ⟨.blank, draft.around, .unknown⟩

/-- One more child of the node at hand. -/
def push (draft : Draft) (trait : Trait) : Draft :=
  ⟨draft.node.push trait, draft.around, .unknown⟩

/-- The token that a position takes. -/
def expect (draft : Draft) (position : Position) : Option Draft :=
  match position with
  | .binaryOperator =>
    match draft.ahead with
    | .exactly precedence => some (draft.push (.operator precedence))
    | _ => none
  | position => some (if position.isOperationWord then draft.push .word else draft.forget)

/-- What comes of a choice. -/
def choose (draft : Draft) (branch : Position) : Option Draft :=
  match branch with
  | .expression => some (draft.push .operand)
  | branch =>
    if branch.completes then
      match draft.around with
      | [] => none
      | _ :: around => some ⟨.blank, around, .unknown⟩
    else if branch.isChoice then some draft.forget
    else none

/-- A new node, with the last child of the node at hand. -/
def adopt (draft : Draft) : Draft :=
  ⟨draft.node.last, draft.node.init :: draft.around, draft.ahead⟩

/-- The node at hand completed. Behind an operation the next token is the one it ended at. -/
def finish (draft : Draft) (kind : NodeKind) : Option Draft :=
  match draft.around with
  | [] => none
  | node :: around =>
    (kind.draft draft.node).map fun trait =>
      ⟨node.push trait, around, if kind = .binaryExpr then draft.ahead else .unknown⟩

/-- Accesses and calls behind what is no operation. -/
def postfixes (draft : Draft) : Option Draft :=
  match draft.node with
  | ⟨.primary :: shown, more⟩ => some ⟨⟨.operand :: shown, more⟩, draft.around, .unknown⟩
  | _ => none

/-- Operations behind an operand, or behind an operation that the next token does not bind more
tightly than. -/
def operators (draft : Draft) (tightness : Nat) : Option Draft :=
  match draft with
  | ⟨⟨.operand :: shown, more⟩, around, _⟩ =>
    some ⟨⟨.bound tightness :: shown, more⟩, around, .below tightness⟩
  | ⟨⟨.operation precedence :: shown, more⟩, around, .below limit⟩ =>
    if tightness ≤ precedence ∧ limit ≤ precedence + 1 then
      some ⟨⟨.bound tightness :: shown, more⟩, around, .below tightness⟩
    else none
  | _ => none

theorem isChoice_of_choose {draft draft' : Draft} {branch : Position}
    (h : draft.choose branch = some draft') : branch.isChoice = true := by
  unfold choose at h
  split at h
  · rfl
  · split at h
    · rename_i hcompletes
      exact Position.isChoice_of_completes hcompletes
    · split at h
      · assumption
      · cases h

/-- Of the positions that take a token only the operator between operands asks what is next. -/
theorem expect_of_ne {position : Position} (h : position ≠ .binaryOperator) (draft : Draft) :
    draft.expect position =
      some (if position.isOperationWord then draft.push .word else draft.forget) := by
  unfold expect
  split
  · exact absurd rfl h
  · rfl

theorem expect_binaryOperator_inv {draft draft' : Draft}
    (h : draft.expect .binaryOperator = some draft') :
    ∃ precedence, draft.ahead = .exactly precedence ∧
      draft' = draft.push (.operator precedence) := by
  unfold expect at h
  simp only at h
  split at h
  · rename_i precedence hahead
    cases h
    exact ⟨precedence, hahead, rfl⟩
  · cases h

/-- An operation is completed if its operands group. -/
theorem finish_binaryExpr {left right : Trait} {precedence : Nat} {node : Sketch}
    {around : List Sketch} {ahead : Ahead} (hleft : left.binds precedence = true)
    (hright : right.binds (precedence + 1) = true) :
    finish ⟨⟨[right, .operator precedence, left], false⟩, node :: around, ahead⟩ .binaryExpr =
      some ⟨node.push (.operation precedence), around, ahead⟩ := by
  simp only [finish, NodeKind.draft, hleft, hright, Bool.and_self, if_true, Option.map_some]

theorem postfixes_inv {draft draft' : Draft} (h : draft.postfixes = some draft') :
    ∃ shown more, draft.node = ⟨.primary :: shown, more⟩ ∧
      draft' = ⟨⟨.operand :: shown, more⟩, draft.around, .unknown⟩ := by
  unfold postfixes at h
  split at h
  · rename_i shown more hnode
    cases h
    exact ⟨shown, more, hnode, rfl⟩
  · cases h

/-- Operations follow an operand, or an operation that no more tightly binding operator can
follow. -/
theorem operators_inv {draft draft' : Draft} {tightness : Nat}
    (h : draft.operators tightness = some draft') :
    ∃ left shown more, draft.node = ⟨left :: shown, more⟩ ∧
      draft' = ⟨⟨.bound tightness :: shown, more⟩, draft.around, .below tightness⟩ ∧
      left.binds tightness = true ∧ (left = .operand ∨ ∃ precedence limit,
        left = .operation precedence ∧ draft.ahead = .below limit ∧ limit ≤ precedence + 1) := by
  unfold operators at h
  split at h
  · cases h
    exact ⟨_, _, _, rfl, rfl, rfl, .inl rfl⟩
  · split at h
    · rename_i hle
      cases h
      exact ⟨_, _, _, rfl, rfl, decide_eq_true hle.1, .inr ⟨_, _, rfl, rfl, hle.2⟩⟩
    · cases h
  · cases h

end Draft

/-- The draft behind an instruction, if it completes no operation whose operands are not known to
group. -/
def Instruction.draft (draft : Draft) : Instruction → Option Draft
  | .enter _ | .leave | .switch _ => some draft
  | .expect position => draft.expect position
  | .choose branch => draft.choose branch
  | .take | .optionalSuffix | .otherBranch => some draft.forget
  | .drain => some { draft with ahead := .unknown }
  | .begin => some ⟨.empty, draft.node :: draft.around, draft.ahead⟩
  | .adopt => some draft.adopt
  | .finish kind => draft.finish kind
  | .postfixes => draft.postfixes
  | .operators tightness => draft.operators tightness

namespace Plan

/-- The draft behind a plan. -/
def draft (d : Draft) : Plan → Option Draft
  | [] => some d
  | i :: P => (i.draft d).bind fun d => draft d P

theorem draft_append (d : Draft) (P Q : Plan) :
    draft d (P ++ Q) = (draft d P).bind fun d => draft d Q := by
  induction P generalizing d with
  | nil => rfl
  | cons i P ih => simp only [List.cons_append, draft, ih, Option.bind_assoc]

/-! ## Choices -/

private theorem draft_table (b : Position) (hb : b.isChoice = true) (hkeeps : b.completes = false)
    (d : Draft) : ∀ way ∈ b.ways, draft d (via b way) = d.choose b := by
  revert hb hkeeps
  cases b <;> first
    | exact fun hb => absurd hb (by decide)
    | exact fun _ hkeeps => absurd hkeeps (by decide)
    | intro _ _
      repeat' first
        | exact fun _ h => absurd h List.not_mem_nil
        | refine List.forall_mem_cons.2 ⟨rfl, ?_⟩

private theorem draft_completing_table (b : Position) (hb : b.completes = true)
    (inner node : Sketch) (around : List Sketch) (ahead : Ahead) :
    ∀ way ∈ b.ways, draft ⟨inner, node :: around, ahead⟩ (via b way) =
      Draft.choose ⟨inner, node :: around, ahead⟩ b := by
  revert hb
  cases b <;> first
    | exact fun hb => absurd hb (by decide)
    | intro _
      repeat' first
        | exact fun _ h => absurd h List.not_mem_nil
        | refine List.forall_mem_cons.2 ⟨rfl, ?_⟩

/-- Every way on from a branch point has the draft of the branch point. -/
theorem draft_continuation {d d' : Draft} {b : Position} {choice : Choice}
    (harises : choice.Arises b) (h : d.choose b = some d') :
    draft d (continuation b choice) = some d' := by
  have hb := Draft.isChoice_of_choose h
  obtain ⟨way, hway, heq⟩ := continuation_eq_via hb harises
  rw [heq, ← h]
  cases hcompletes : b.completes with
  | false => exact draft_table b hb hcompletes d way hway
  | true =>
    obtain ⟨inner, around, ahead⟩ := d
    cases around with
    | nil =>
      unfold Draft.choose at h
      split at h
      · cases hcompletes
      · rw [if_pos hcompletes] at h
        cases h
    | cons node around => exact draft_completing_table b hcompletes inner node around ahead way hway

/-! ## Decisions -/

/-- One more operation, behind an operand or behind an operation that the operator does not bind
more tightly than. -/
theorem draft_operation {left : Trait} {shown : List Trait} {more : Bool}
    {around : List Sketch} {tightness precedence : Nat} (hle : tightness ≤ precedence)
    (hleft : left.binds precedence = true) :
    draft ⟨⟨left :: shown, more⟩, around, .exactly precedence⟩
        [.adopt, .expect .binaryOperator, .choose .expression, .operators (precedence + 1),
          .finish .binaryExpr, .operators tightness] =
      some ⟨⟨.bound tightness :: shown, more⟩, around, .below tightness⟩ := by
  have hright : (Trait.bound (precedence + 1)).binds (precedence + 1) = true :=
    decide_eq_true (Nat.le_refl _)
  change (Draft.finish ⟨⟨[.bound (precedence + 1), .operator precedence, left], false⟩,
    ⟨shown, more⟩ :: around, .below (precedence + 1)⟩ .binaryExpr).bind
      (fun d => (d.operators tightness).bind some) = _
  rw [Draft.finish_binaryExpr hleft hright]
  change ((if tightness ≤ precedence ∧ precedence + 1 ≤ precedence + 1 then
    some (⟨⟨.bound tightness :: shown, more⟩, around, .below tightness⟩ : Draft)
    else none).bind some) = _
  rw [if_pos ⟨hle, Nat.le_refl _⟩]
  rfl

/-- The access to a field. -/
theorem draft_fieldAccess (shown : List Trait) (more : Bool) (around : List Sketch)
    (ahead : Ahead) :
    draft ⟨⟨.primary :: shown, more⟩, around, ahead⟩
        [.adopt, .expect .dot, .expect .fieldAccessName, .finish .fieldAccess, .postfixes] =
      some ⟨⟨.operand :: shown, more⟩, around, .unknown⟩ :=
  rfl

/-- A call. -/
theorem draft_call (shown : List Trait) (more : Bool) (around : List Sketch) (ahead : Ahead) :
    draft ⟨⟨.primary :: shown, more⟩, around, ahead⟩
        (.adopt :: argList ++ [.finish .callExpr, .postfixes]) =
      some ⟨⟨.operand :: shown, more⟩, around, .unknown⟩ :=
  rfl

theorem draft_optional (d : Draft) :
    draft d [.adopt, .expect .questionMark, .finish .optionalType] = some d.forget := rfl

theorem draft_elseClause (d : Draft) : draft d elseClause = some d.forget := rfl

end Plan

end Mend
