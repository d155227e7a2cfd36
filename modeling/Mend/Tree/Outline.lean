import Mend.Text.Quoted
import Mend.Tree.Basic

/-!
# Outlines of trees

An outline shows a tree with one node or token on a line, indented by two spaces for each level.
A token left out stands on a line of its own before the token it rides on.
-/

namespace Mend.Tree

/-- A line at a level. -/
def outlineLine (level : Nat) (content : String) : String :=
  String.ofList (List.replicate (2 * level) ' ') ++ content

/-- A kind of token and the quoted text. -/
def outlineText (t : Token) : String := t.kind.name ++ " " ++ Text.Quoted.encode t.text

/-- The lines of a token. -/
def outlineToken (level : Nat) (t : Token) : List String :=
  t.invalidLeading.map (fun leftOut => outlineLine level ("invalid " ++ outlineText leftOut)) ++
    [outlineLine level (if t.missing then "missing " ++ t.kind.name else outlineText t)]

mutual

/-- The lines of a tree at a level. -/
def outlineLines (level : Nat) : Tree → List String
  | token t => outlineToken level t
  | node kind children => outlineLine level kind.name :: outlineLinesOf (level + 1) children

/-- The lines of some trees at a level. -/
def outlineLinesOf (level : Nat) : List Tree → List String
  | [] => []
  | tree :: rest => outlineLines level tree ++ outlineLinesOf level rest

end

/-- The outline of a tree, each line with its end. -/
def outline (tree : Tree) : String := String.join ((outlineLines 0 tree).map (· ++ "\n"))

end Mend.Tree
