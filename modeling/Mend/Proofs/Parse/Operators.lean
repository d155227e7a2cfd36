import Mathlib.Data.List.Forall2
import Mend.Proofs.Machine.Frame
import Mend.Proofs.Parse.Conservation
import Mend.Proofs.Plan.Draft
import Mend.Proofs.Tree.Grouping

/-!
# Operators group as they bind

In every tree the operators group as tightly as they bind, whatever repair supplied or left out on
the way. The proof follows the machine with a draft of what remains of its plan: what the draft says
of the children of the open nodes and of the next token holds, and the draft lasts to the end of the
plan. One step keeps that (`Drafted.step`). A repair can change the next token, but not the nodes
that are open; and the two places where the draft knows something of the next token, behind an
operation and before its operator, ask for no repair.
-/

namespace Mend

/-! ## What a draft says -/

/-- A child is as a trait says. -/
def Trait.Holds : Trait → Tree → Prop
  | .any, _ => True
  | .word, tree => ∃ t, tree = .token t
  | .operator precedence, tree => ∃ t, tree = .token t ∧ t.kind.precedence? = some precedence
  | .primary, tree => tree.IsPrimary
  | .operand, tree => tree.kind? ≠ some .binaryExpr
  | .operation precedence, tree => tree.precedence? = some precedence
  | .bound tightness, tree => tree.Binds tightness

theorem Trait.Holds.binds {trait : Trait} {tree : Tree} {tightness : Nat} (h : trait.Holds tree)
    (hbinds : trait.binds tightness = true) : tree.Binds tightness := by
  cases trait with
  | primary => exact .of_ne h.notBinary tightness
  | operand => exact .of_ne h tightness
  | operation precedence => exact .of_precedence h (of_decide_eq_true hbinds)
  | bound limit =>
    intro hkind
    obtain ⟨precedence, hprecedence, hle⟩ := h hkind
    exact ⟨precedence, hprecedence, Nat.le_trans (of_decide_eq_true hbinds) hle⟩
  | _ => cases hbinds

theorem Trait.Holds.isOperand {trait : Trait} {tree : Tree} (h : trait.Holds tree)
    (hoperand : trait.isOperand = true) : tree.kind? ≠ some .binaryExpr := by
  cases trait with
  | primary => exact h.notBinary
  | operand => exact h
  | _ => cases hoperand

/-- The children of a node are as a sketch says, and each of them is grouped. -/
inductive Sketch.Holds : Sketch → List Tree → Prop
  | any {children : List Tree} (hgrouped : ∀ child ∈ children, child.Grouped) :
      Holds ⟨[], true⟩ children
  | none : Holds ⟨[], false⟩ []
  | cons {trait : Trait} {shown : List Trait} {more : Bool} {child : Tree} {children : List Tree}
      (htrait : trait.Holds child) (hgrouped : child.Grouped) (h : Holds ⟨shown, more⟩ children) :
      Holds ⟨trait :: shown, more⟩ (child :: children)

namespace Sketch.Holds

variable {sketch : Sketch} {trait : Trait} {shown : List Trait} {more : Bool} {child : Tree}
  {children : List Tree}

theorem grouped (h : sketch.Holds children) : ∀ child ∈ children, child.Grouped := by
  induction h with
  | any hgrouped => exact hgrouped
  | none => exact fun _ h => nomatch h
  | cons _ hgrouped _ ih => exact List.forall_mem_cons.2 ⟨hgrouped, ih⟩

theorem blank (h : sketch.Holds children) : Sketch.blank.Holds children := .any h.grouped

theorem push (h : sketch.Holds children) (htrait : trait.Holds child) (hgrouped : child.Grouped) :
    (sketch.push trait).Holds (child :: children) := by
  unfold Sketch.push
  split
  · exact .any (List.forall_mem_cons.2 ⟨hgrouped, h.grouped⟩)
  · exact .cons htrait hgrouped h

theorem last (h : sketch.Holds children) : sketch.last.Holds (children.take 1) := by
  cases h with
  | any hgrouped => exact .any fun child hmem => hgrouped child (List.mem_of_mem_take hmem)
  | none => exact .any fun _ hmem => nomatch hmem
  | cons htrait hgrouped _ => exact .cons htrait hgrouped .none

theorem init (h : sketch.Holds children) : sketch.init.Holds (children.drop 1) := by
  cases h with
  | any hgrouped => exact .any fun child hmem => hgrouped child (List.mem_of_mem_drop hmem)
  | none => exact .none
  | cons _ _ h => exact h

theorem weaken {trait' : Trait} (h : Holds ⟨trait :: shown, more⟩ children)
    (himp : ∀ tree, trait.Holds tree → trait'.Holds tree) :
    Holds ⟨trait' :: shown, more⟩ children := by
  cases h with
  | cons htrait hgrouped h => exact .cons (himp _ htrait) hgrouped h

theorem cons_inv (h : Holds ⟨trait :: shown, more⟩ children) :
    ∃ child rest, children = child :: rest ∧ trait.Holds child ∧ Holds ⟨shown, more⟩ rest := by
  cases h with
  | cons htrait _ h => exact ⟨_, _, rfl, htrait, h⟩

theorem nil_inv (h : Holds ⟨[], false⟩ children) : children = [] := by
  cases h
  rfl

/-! ### Completed nodes -/

theorem binaryExpr {left right : Trait} {precedence : Nat}
    (h : Holds ⟨[right, .operator precedence, left], false⟩ children)
    (hleft : left.binds precedence = true) (hright : right.binds (precedence + 1) = true) :
    NodeKind.binaryExpr.Groups children.reverse ∧
      (Tree.node .binaryExpr children.reverse).precedence? = some precedence := by
  obtain ⟨rightChild, _, rfl, hrightChild, h₂⟩ := h.cons_inv
  obtain ⟨_, _, rfl, ⟨operator, rfl, hprecedence⟩, h₁⟩ := h₂.cons_inv
  obtain ⟨leftChild, _, rfl, hleftChild, h₀⟩ := h₁.cons_inv
  obtain rfl := h₀.nil_inv
  exact ⟨⟨leftChild, operator, rightChild, precedence, rfl, hprecedence, hleftChild.binds hleft,
    hrightChild.binds hright⟩, hprecedence⟩

theorem unaryExpr (h : Holds ⟨[trait, .word], false⟩ children)
    (hoperand : trait.isOperand = true) : NodeKind.unaryExpr.Groups children.reverse := by
  obtain ⟨operand, _, rfl, hchild, h₁⟩ := h.cons_inv
  obtain ⟨_, _, rfl, ⟨operator, rfl⟩, h₀⟩ := h₁.cons_inv
  obtain rfl := h₀.nil_inv
  exact ⟨operator, operand, rfl, hchild.isOperand hoperand⟩

theorem fieldAccess (h : Holds ⟨[.word, .word, .primary], false⟩ children) :
    NodeKind.fieldAccess.Groups children.reverse := by
  obtain ⟨_, _, rfl, ⟨name, rfl⟩, h₂⟩ := h.cons_inv
  obtain ⟨_, _, rfl, ⟨dot, rfl⟩, h₁⟩ := h₂.cons_inv
  obtain ⟨base, _, rfl, hbase, h₀⟩ := h₁.cons_inv
  obtain rfl := h₀.nil_inv
  exact ⟨base, dot, name, rfl, hbase⟩

theorem callExpr (h : Holds ⟨[trait, .primary], false⟩ children) :
    NodeKind.callExpr.Groups children.reverse := by
  obtain ⟨arguments, _, rfl, _, h₁⟩ := h.cons_inv
  obtain ⟨base, _, rfl, hbase, h₀⟩ := h₁.cons_inv
  obtain rfl := h₀.nil_inv
  exact ⟨base, arguments, rfl, hbase⟩

/-- A node that is completed with a draft keeps the rule of its kind. -/
theorem node {kind : NodeKind} (hdraft : kind.draft sketch = some trait)
    (h : sketch.Holds children) :
    kind.Groups children.reverse ∧ trait.Holds (.node kind children.reverse) := by
  unfold NodeKind.draft at hdraft
  split at hdraft
  case h_1 =>
    split at hdraft <;> try cases hdraft
    split at hdraft <;> cases hdraft
    rename_i hbinds
    obtain ⟨hleft, hright⟩ := Bool.and_eq_true_iff.1 hbinds
    exact h.binaryExpr hleft hright
  case h_2 =>
    split at hdraft <;> try cases hdraft
    split at hdraft <;> cases hdraft
    rename_i hoperand
    exact ⟨h.unaryExpr hoperand, nofun⟩
  case h_3 =>
    split at hdraft <;> cases hdraft
    exact ⟨h.fieldAccess, nofun, nofun⟩
  case h_4 =>
    split at hdraft <;> cases hdraft
    exact ⟨h.callExpr, nofun, nofun⟩
  case h_5 hbinary hunary haccess hcall =>
    cases hdraft
    constructor
    · unfold NodeKind.Groups
      split
      · exact absurd rfl hbinary
      · exact absurd rfl hunary
      · exact absurd rfl haccess
      · exact absurd rfl hcall
      · trivial
    · split
      · exact ⟨fun h => hbinary (Option.some.inj h), fun h => hunary (Option.some.inj h)⟩
      · trivial

end Sketch.Holds

/-- What is known of the next token holds. -/
def Ahead.Holds : Ahead → Token → Prop
  | .unknown, _ => True
  | .below tightness, t => ∀ precedence, t.kind.precedence? = some precedence →
      precedence < tightness
  | .exactly precedence, t => t.kind.precedence? = some precedence

/-- What a draft says of the open nodes and of the next token holds. -/
structure Draft.Matches (draft : Draft) (m : Machine) : Prop where
  node : draft.node.Holds m.children
  around : List.Forall₂ Sketch.Holds draft.around m.outer
  ahead : draft.ahead.Holds m.next

namespace Machine

variable {m m' : Machine} {plan plan' : Plan} {p b : Position}

/-! ## Repairs and the open nodes -/

/-- The same nodes are open, with the same children. -/
structure SameNodes (m m' : Machine) : Prop where
  children : m'.children = m.children
  outer : m'.outer = m.outer

/-- No repair changes the open nodes. -/
theorem sameNodes_repair {r : Repair} (h : m.repair p = .ok (r, m')) : SameNodes m m' := by
  unfold repair at h
  simp only at h
  split at h
  · cases h
  · split at h <;>
      · cases h
        exact ⟨rfl, rfl⟩

/-- One try to take a token takes one behind the same open nodes, or leaves them as they are. -/
theorem expect_nodes (h : m.expect p plan = .ok (m', plan')) :
    (∃ m₁, SameNodes m m₁ ∧ m' = m₁.take ∧ plan' = plan) ∨
      SameNodes m m' ∧ plan' = .expect p :: plan := by
  unfold expect at h
  split at h
  · cases h
    exact .inl ⟨m, ⟨rfl, rfl⟩, rfl, rfl⟩
  · cases hrepair : m.repair p with
    | error error => simp [hrepair, bind, Except.bind] at h
    | ok result =>
      obtain ⟨r, m₁⟩ := result
      have hsame := sameNodes_repair hrepair
      simp only [hrepair, bind, Except.bind] at h
      split at h
      · cases h
        exact .inr ⟨hsame, rfl⟩
      · cases h
        exact .inl ⟨m₁, hsame, rfl, rfl⟩

/-- One try to resolve a branch point keeps the open nodes. -/
theorem choose_nodes (h : m.choose b plan = .ok (m', plan')) : SameNodes m m' := by
  unfold choose at h
  split at h
  · cases h
    exact ⟨rfl, rfl⟩
  · cases hrepair : m.repair b with
    | error error => simp [hrepair, bind, Except.bind] at h
    | ok result =>
      obtain ⟨r, m₁⟩ := result
      have hsame := sameNodes_repair hrepair
      simp only [hrepair, bind, Except.bind] at h
      split at h <;>
        · cases h
          exact hsame

end Machine

/-! ## Drafts and machines -/

namespace Draft.Matches

variable {d : Draft} {m m' : Machine} {trait : Trait}

/-- What is known of the next token can be forgotten, and must be where it has changed. -/
theorem unknown (h : d.Matches m) (hsame : m.SameNodes m') :
    Draft.Matches { d with ahead := .unknown } m' where
  node := hsame.children ▸ h.node
  around := hsame.outer ▸ h.around
  ahead := trivial

theorem forget (h : d.Matches m) : d.forget.Matches m := ⟨h.node.blank, h.around, trivial⟩

theorem take (h : d.Matches m) (htrait : trait.Holds (.token (m.next.precededBy m.leftOut))) :
    (d.push trait).Matches m.take where
  node := by
    rw [Machine.children_take]
    exact h.node.push htrait (Tree.grouped_token _)
  around := by
    rw [Machine.outer_take]
    exact h.around
  ahead := trivial

theorem take_word (h : d.Matches m) : (d.push .word).Matches m.take :=
  have hword : Trait.word.Holds (.token (m.next.precededBy m.leftOut)) := ⟨_, rfl⟩
  h.take hword

theorem take_any (h : d.Matches m) : d.forget.Matches m.take :=
  have hany : Trait.any.Holds (.token (m.next.precededBy m.leftOut)) := trivial
  h.take hany

theorem onStack (h : d.Matches m) (T : Stack) : d.Matches (m.onStack T) :=
  ⟨h.node, h.around, h.ahead⟩

theorem begin (h : d.Matches m) :
    Draft.Matches ⟨.empty, d.node :: d.around, d.ahead⟩ m.begin :=
  ⟨.none, .cons h.node h.around, h.ahead⟩

theorem adopt (h : d.Matches m) : d.adopt.Matches m.adopt :=
  ⟨h.node.last, .cons h.node.init h.around, h.ahead⟩

theorem finish {d' : Draft} {kind : NodeKind} (h : d.Matches m) (hdraft : d.finish kind = some d') :
    d'.Matches (m.finish kind) := by
  obtain ⟨inner, around, ahead⟩ := d
  obtain ⟨session, leftOut, supplied, children, outer⟩ := m
  cases h.around with
  | nil => cases hdraft
  | cons hnode haround =>
    obtain ⟨trait, htrait, rfl⟩ := Option.map_eq_some_iff.1 hdraft
    obtain ⟨hgroups, hholds⟩ := h.node.node htrait
    refine ⟨hnode.push hholds (Tree.grouped_node hgroups ?_), haround, ?_⟩
    · intro child hmem
      exact h.node.grouped child (List.mem_reverse.1 hmem)
    · dsimp only
      split
      · exact h.ahead
      · trivial

end Draft.Matches

namespace Machine

variable {m m' : Machine} {plan plan' : Plan} {p b : Position} {i : Instruction}

/-- Some draft of a machine lasts to the end of its plan. -/
def Drafted (m : Machine) (plan : Plan) : Prop :=
  ∃ d d' : Draft, d.Matches m ∧ Plan.draft d plan = some d'

namespace Drafted

variable {d d' last : Draft} {P : Plan} {tightness : Nat}

/-- A plan can go on with what has the draft of the instruction that is done. -/
theorem of_draft (h : d.Matches m) (hP : Plan.draft d P = some d')
    (hrest : Plan.draft d' plan = some last) : Drafted m (P ++ plan) :=
  ⟨d, last, h, by rw [Plan.draft_append, hP]; exact hrest⟩

theorem expect (h : d.Matches m) (hdraft : d.expect p = some d')
    (hrest : Plan.draft d' plan = some last) (hstep : m.expect p plan = .ok (m', plan')) :
    Drafted m' plan' := by
  by_cases hp : p = .binaryOperator
  · subst hp
    obtain ⟨precedence, hahead, rfl⟩ := Draft.expect_binaryOperator_inv hdraft
    have hnext : m.next.kind.precedence? = some precedence := by
      have hholds := h.ahead
      rwa [hahead] at hholds
    -- The operator is there, so that no repair comes before it.
    have haccepts : Position.accepts .binaryOperator m.next = true := by
      change m.next.kind.precedence?.isSome = true
      rw [hnext]
      rfl
    rw [Machine.expect, if_pos haccepts] at hstep
    cases hstep
    have htoken : (Trait.operator precedence).Holds (.token (m.next.precededBy m.leftOut)) :=
      ⟨_, rfl, hnext⟩
    exact ⟨_, last, h.take htoken, hrest⟩
  · rw [Draft.expect_of_ne hp] at hdraft
    cases hdraft
    rcases expect_nodes hstep with ⟨m₁, hsame, rfl, rfl⟩ | ⟨hsame, rfl⟩
    · refine ⟨_, last, ?_, hrest⟩
      split
      · exact (h.unknown hsame).take_word
      · exact (h.unknown hsame).take_any
    · refine ⟨_, last, h.unknown hsame, ?_⟩
      rw [Plan.draft, Instruction.draft, Draft.expect_of_ne hp]
      exact hrest

theorem choose (h : d.Matches m) (hdraft : d.choose b = some d')
    (hrest : Plan.draft d' plan = some last) (hstep : m.choose b plan = .ok (m', plan')) :
    Drafted m' plan' := by
  have hunknown := h.unknown (choose_nodes hstep)
  have hdraft' : Draft.choose { d with ahead := .unknown } b = some d' := hdraft
  rcases (choose_stack hstep).2 with rfl | ⟨choice, harises, rfl⟩
  · refine ⟨_, last, hunknown, ?_⟩
    rw [Plan.draft, Instruction.draft, hdraft']
    exact hrest
  · exact of_draft hunknown (Plan.draft_continuation harises hdraft') hrest

theorem operators (h : d.Matches m) (hdraft : d.operators tightness = some d')
    (hrest : Plan.draft d' plan = some last) : Drafted m (m.operators tightness ++ plan) := by
  obtain ⟨left, shown, more, hnode, rfl, hbinds, hleft⟩ := Draft.operators_inv hdraft
  obtain ⟨node, around, ahead⟩ := d
  subst hnode
  have hbound : Sketch.Holds ⟨.bound tightness :: shown, more⟩ m.children :=
    h.node.weaken fun _ htree => htree.binds hbinds
  unfold Machine.operators
  split
  · rename_i hnext
    refine ⟨⟨_, around, .below tightness⟩, last, ⟨hbound, h.around, fun _ hsome => ?_⟩, hrest⟩
    cases hnext.symm.trans hsome
  · rename_i precedence hnext
    split
    · rename_i hlt
      refine ⟨⟨_, around, .below tightness⟩, last, ⟨hbound, h.around, fun _ hsome => ?_⟩, hrest⟩
      cases hnext.symm.trans hsome
      exact hlt
    · rename_i hle
      have hleft' : left.binds precedence = true := by
        rcases hleft with rfl | ⟨p, limit, rfl, rfl, hlimit⟩
        · rfl
        · have hlt : precedence < limit := h.ahead precedence hnext
          exact decide_eq_true (Nat.le_of_lt_succ (Nat.lt_of_lt_of_le hlt hlimit))
      exact of_draft (d := ⟨_, _, .exactly precedence⟩) ⟨h.node, h.around, hnext⟩
        (Plan.draft_operation (Nat.le_of_not_lt hle) hleft') hrest

theorem postfixes (h : d.Matches m) (hdraft : d.postfixes = some d')
    (hrest : Plan.draft d' plan = some last) : Drafted m (m.postfixes ++ plan) := by
  obtain ⟨shown, more, hnode, rfl⟩ := Draft.postfixes_inv hdraft
  obtain ⟨node, around, ahead⟩ := d
  subst hnode
  unfold Machine.postfixes
  split
  · exact of_draft h (Plan.draft_fieldAccess ..) hrest
  · exact of_draft h (Plan.draft_call ..) hrest
  · have hoperand : Sketch.Holds ⟨.operand :: shown, more⟩ m.children :=
      h.node.weaken fun _ htree => htree.notBinary
    exact ⟨⟨_, around, .unknown⟩, last, ⟨hoperand, h.around, trivial⟩, hrest⟩

theorem optionalSuffix (h : d.Matches m) (hrest : Plan.draft d.forget plan = some last) :
    Drafted m (m.optionalSuffix ++ plan) := by
  unfold Machine.optionalSuffix
  split
  · exact of_draft h (Plan.draft_optional d) hrest
  · exact ⟨_, last, h.forget, hrest⟩

theorem otherBranch (h : d.Matches m) (hrest : Plan.draft d.forget plan = some last) :
    Drafted m (m.otherBranch ++ plan) := by
  unfold Machine.otherBranch
  split
  · exact of_draft h (Plan.draft_elseClause d) hrest
  · exact ⟨_, last, h.forget, hrest⟩

/-- Every step leaves a draft that lasts. -/
theorem step (h : Drafted m (i :: plan)) (hstep : m.step i plan = .ok (m', plan')) :
    Drafted m' plan' := by
  obtain ⟨d, last, hmatches, hdraft⟩ := h
  obtain ⟨d', hd', hrest⟩ := Option.bind_eq_some_iff.1 hdraft
  cases i with
  | enter p =>
    cases hd'
    cases hstep
    exact ⟨d, last, hmatches.onStack (p :: m.session.stack), hrest⟩
  | leave =>
    cases hd'
    obtain ⟨_, _, _, rfl, rfl⟩ := step_leave_inv hstep
    exact ⟨d, last, hmatches.onStack _, hrest⟩
  | switch p =>
    cases hd'
    obtain ⟨_, _, _, rfl, rfl⟩ := step_switch_inv hstep
    exact ⟨d, last, hmatches.onStack _, hrest⟩
  | expect p => exact expect hmatches hd' hrest hstep
  | choose b => exact choose hmatches hd' hrest hstep
  | take =>
    cases hd'
    cases hstep
    exact ⟨_, last, hmatches.take_any, hrest⟩
  | drain =>
    cases hd'
    cases hstep
    exact ⟨_, last, hmatches.unknown ⟨rfl, rfl⟩, hrest⟩
  | begin =>
    cases hd'
    cases hstep
    exact ⟨_, last, hmatches.begin, hrest⟩
  | adopt =>
    cases hd'
    cases hstep
    exact ⟨_, last, hmatches.adopt, hrest⟩
  | finish kind =>
    cases hstep
    exact ⟨d', last, hmatches.finish hd', hrest⟩
  | optionalSuffix =>
    cases hd'
    cases hstep
    exact optionalSuffix hmatches hrest
  | postfixes =>
    cases hstep
    exact postfixes hmatches hd' hrest
  | operators tightness =>
    cases hstep
    exact operators hmatches hd' hrest
  | otherBranch =>
    cases hd'
    cases hstep
    exact otherBranch hmatches hrest

theorem start (tokens : List Token) (limits : Limits) :
    Drafted (.start tokens limits) program :=
  ⟨⟨.empty, [], .unknown⟩, ⟨.blank, [], .unknown⟩, ⟨.none, .nil, trivial⟩, rfl⟩

/-- A run that ends ends with a draft of its machine. -/
theorem finishes (h : Drafted m plan) (hrun : Finishes m plan m') : Drafted m' [] := by
  induction hrun with
  | done => exact h
  | step hstep _ ih => exact ih (h.step hstep)

end Drafted

end Machine

/-! ## The tree -/

/-- In the tree of any tokens, whatever repair did to them, every operation groups as its operators
bind, and what a field is taken from or a call is made to is no operation. -/
theorem operators_group (tokens : List Token) (limits : Limits) (tree : Tree)
    (h : Tree.ofTokens tokens limits = .ok tree) : tree.Grouped := by
  obtain ⟨m, hrun, rfl⟩ := Machine.finishes_of_tree h
  obtain ⟨d, _, hmatches, _⟩ := (Machine.Drafted.start tokens limits).finishes hrun
  refine Tree.grouped_node trivial ?_
  intro child hmem
  exact hmatches.node.grouped child (List.mem_reverse.1 hmem)

/-- The operand that is missing at the end of `1 * 2 + 3 *` is one of the last operation, which is
one of the sum. -/
theorem unfinished_product_groups : ∃ tree,
    Tree.ofTokens
      [.plain .constKeyword "const" 1, .plain .identifier "C" 1, .plain .assign "=" 1,
        .plain .intLiteral "1" 1, .plain .asterisk "*" 1, .plain .intLiteral "2" 1,
        .plain .plus "+" 1, .plain .intLiteral "3" 1, .plain .asterisk "*" 1, .eof 1]
      .standard = .ok tree ∧ tree.count .binaryExpr = 3 ∧ tree.Grouped := by
  refine (Except.exists_of_any ?_).imp fun tree h =>
    ⟨h.1, h.2, operators_group _ _ tree h.1⟩
  decide +kernel

end Mend
