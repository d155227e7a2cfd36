import Mend.Token.Basic
import Mend.Tree.Kind

/-!
# Syntax trees

A tree keeps every token of the input: the tokens it is made of in order, the supplied ones
among them, and the tokens that were left out riding on the token they stood before.
-/

namespace Mend

/-- A syntax tree. -/
inductive Tree where
  | token (token : Token)
  | node (kind : NodeKind) (children : List Tree)
  deriving Inhabited

namespace Tree

/-- The children of a node; a token has none. -/
def children : Tree → List Tree
  | token _ => []
  | node _ children => children

/-- The kind of a node. -/
def kind? : Tree → Option NodeKind
  | token _ => none
  | node kind _ => some kind

/-- A node that holds one token. -/
def leaf (kind : NodeKind) (t : Token) : Tree := node kind [token t]

/-- A node with more children before those it has. -/
def prepend (extra : List Tree) : Tree → Tree
  | token t => token t
  | node kind children => node kind (extra ++ children)

/-- The kinds of the children that are nodes. -/
def childKinds (tree : Tree) : List NodeKind := tree.children.filterMap kind?

mutual

/-- The tokens of a tree in order, without those left out. -/
def tokens : Tree → List Token
  | token t => [t]
  | node _ children => tokensOf children

/-- The tokens of some trees in order. -/
def tokensOf : List Tree → List Token
  | [] => []
  | tree :: rest => tokens tree ++ tokensOf rest

end

mutual

/-- The first node of a kind, a node before what it holds. -/
def find? (wanted : NodeKind) : Tree → Option Tree
  | token _ => none
  | node kind children =>
    if kind = wanted then some (node kind children) else findIn? wanted children

/-- The first node of a kind in some trees. -/
def findIn? (wanted : NodeKind) : List Tree → Option Tree
  | [] => none
  | tree :: rest =>
    match find? wanted tree with
    | some found => some found
    | none => findIn? wanted rest

end

mutual

/-- The number of nodes of a kind. -/
def count (wanted : NodeKind) : Tree → Nat
  | token _ => 0
  | node kind children => (if kind = wanted then 1 else 0) + countIn wanted children

/-- The number of nodes of a kind in some trees. -/
def countIn (wanted : NodeKind) : List Tree → Nat
  | [] => 0
  | tree :: rest => count wanted tree + countIn wanted rest

end

/-- The diagnostics of a token and of those left out before it, those first. -/
def tokenDiagnostics (t : Token) : List Diagnostic :=
  t.invalidLeading.flatMap (·.diagnostics) ++ t.diagnostics

/-- All diagnostics in order. -/
def diagnostics (tree : Tree) : List Diagnostic := tree.tokens.flatMap tokenDiagnostics

/-- The texts of the tokens that stand in the input, with one space between two of them. -/
def text (tree : Tree) : String :=
  String.intercalate " "
    ((tree.tokens.filter fun t => !t.missing && t.kind != .eof).map (·.text))

theorem tokensOf_eq_flatMap (trees : List Tree) : tokensOf trees = trees.flatMap tokens := by
  induction trees with
  | nil => rfl
  | cons tree rest ih => simp [tokensOf, ih]

theorem tokensOf_append (xs ys : List Tree) : tokensOf (xs ++ ys) = tokensOf xs ++ tokensOf ys := by
  simp [tokensOf_eq_flatMap]

end Tree

end Mend
