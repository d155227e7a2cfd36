import Mend.Command.Check
import Mend.Tree.Outline

/-!
# Showing a tree

The tree of one file, repairs included, as an outline or as JSON.
-/

namespace Mend.Command

/-- A tree in the form asked for. -/
def showTree (format : Format) (tree : Tree) : String :=
  match format with
  | .text => tree.outline
  | .json => tree.toJson.pretty ++ "\n"

/-- Show the tree of a file. -/
def display (source : Source) (limits : Limits) (style : Style) : Output :=
  match source.tree limits with
  | .ok tree => ⟨0, showTree style.format tree, ""⟩
  | .error complaint => ⟨2, "", style.complain complaint⟩

end Mend.Command
