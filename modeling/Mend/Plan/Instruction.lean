import Mend.Grammar.Terminal
import Mend.Tree.Kind

/-!
# Instructions

Parsing follows a plan: a list of instructions that are done one after the other. An instruction
takes a token, makes a choice, opens or leaves a production, or builds the tree. Making a choice
puts the plan of what was chosen in front of the instructions that remain.
-/

namespace Mend

/-- What a branch point has been resolved to. -/
inductive Choice where
  /-- To go on as with a token of this kind. -/
  | kind (kind : Kind)
  /-- To go on at this position. -/
  | path (position : Position)
  deriving DecidableEq, Repr

/-- Whether a choice is to go on at a position: it was named, or the kind is the one that starts
there. -/
def Choice.opens (choice : Choice) (position : Position) : Bool :=
  choice == .path position || choice == .kind position.leadingKind

/-- Whether a choice is a kind with a property. -/
def Choice.isKind (choice : Choice) (p : Kind → Bool) : Bool :=
  match choice with
  | .kind k => p k
  | .path _ => false

/-- One thing to do while parsing. -/
inductive Instruction where
  /-- Open a production. -/
  | enter (production : Position)
  /-- Leave the innermost production. -/
  | leave
  /-- Replace the innermost production. -/
  | switch (production : Position)
  /-- Take the token that a position wants, repairing until there is one. -/
  | expect (position : Position)
  /-- Resolve a branch point, repairing until it can be. -/
  | choose (position : Position)
  /-- Take the next token, whatever it is. -/
  | take
  /-- Leave out everything before the end of the input. -/
  | drain
  /-- Start a node without children. -/
  | begin
  /-- Start a node whose first child is the last child of the node at hand. -/
  | adopt
  /-- Complete the node at hand and make it a child of the one around it. -/
  | finish (kind : NodeKind)
  /-- Complete an optional type, if a question mark follows. -/
  | optionalSuffix
  /-- Complete field accesses and calls, as far as they follow. -/
  | postfixes
  /-- Complete operations whose operator binds at least this tightly, as far as they follow. -/
  | operators (tightness : Nat)
  /-- The other branch of a conditional, if it follows. -/
  | otherBranch
  deriving DecidableEq, Repr

/-- Instructions in the order in which they are done. -/
abbrev Plan := List Instruction

end Mend
