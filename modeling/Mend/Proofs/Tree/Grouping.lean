import Mend.Tree.Basic

/-!
# How operations group

The tree of an expression shows how its operators group: an operator that binds more tightly
stands further down, and of two that bind alike the first one does. `NodeKind.Groups` says so node
by node, and says it of the operand of a unary operator and of what a field is taken from or a call
is made to as well. A tree is grouped if each of its nodes is.
-/

namespace Mend

namespace Tree

/-- A tree is somewhere in another one. -/
inductive Has : Tree → Tree → Prop
  | self (tree : Tree) : Has tree tree
  | child {kind : NodeKind} {children : List Tree} {child found : Tree} (hmem : child ∈ children)
      (h : Has child found) : Has (.node kind children) found

/-- How tightly the operator between the operands of an operation binds. -/
def precedence? : Tree → Option Nat
  | .node .binaryExpr [_, .token operator, _] => operator.kind.precedence?
  | _ => none

/-- A tree holds together in the place of an operand: an operation does if its operator binds at
least this tightly, and everything else always does. -/
def Binds (tightness : Nat) (tree : Tree) : Prop :=
  tree.kind? = some .binaryExpr →
    ∃ precedence, tree.precedence? = some precedence ∧ tightness ≤ precedence

/-- A tree is no operation, with one operand or with two. -/
structure IsPrimary (tree : Tree) : Prop where
  notBinary : tree.kind? ≠ some .binaryExpr
  notUnary : tree.kind? ≠ some .unaryExpr

theorem Binds.of_ne {tree : Tree} (h : tree.kind? ≠ some .binaryExpr) (tightness : Nat) :
    tree.Binds tightness :=
  fun hkind => absurd hkind h

theorem Binds.of_precedence {tree : Tree} {tightness precedence : Nat}
    (h : tree.precedence? = some precedence) (hle : tightness ≤ precedence) :
    tree.Binds tightness :=
  fun _ => ⟨precedence, h, hle⟩

end Tree

/-- The rule that the children of a node keep. Operators group to the left: the left operand may
be an operation that binds as tightly as this one, the right operand only one that binds more
tightly. -/
def NodeKind.Groups (kind : NodeKind) (children : List Tree) : Prop :=
  match kind with
  | .binaryExpr => ∃ left operator right precedence,
      children = [left, .token operator, right] ∧ operator.kind.precedence? = some precedence ∧
        left.Binds precedence ∧ right.Binds (precedence + 1)
  | .unaryExpr => ∃ operator operand,
      children = [.token operator, operand] ∧ operand.kind? ≠ some .binaryExpr
  | .fieldAccess => ∃ base dot name,
      children = [base, .token dot, .token name] ∧ base.IsPrimary
  | .callExpr => ∃ base arguments, children = [base, arguments] ∧ base.IsPrimary
  | _ => True

namespace Tree

/-- Every node of a tree keeps the rule of its kind. -/
def Grouped (tree : Tree) : Prop :=
  ∀ kind children, tree.Has (.node kind children) → kind.Groups children

theorem grouped_token (t : Token) : Grouped (.token t) :=
  fun _ _ h => nomatch h

theorem grouped_node {kind : NodeKind} {children : List Tree} (h : kind.Groups children)
    (hall : ∀ child ∈ children, child.Grouped) : Grouped (.node kind children) := by
  intro kind' children' hhas
  cases hhas with
  | self => exact h
  | child hmem hhas => exact hall _ hmem kind' children' hhas

end Tree

end Mend
