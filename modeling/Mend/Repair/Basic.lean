import Mend.Grammar.Terminal

/-!
# Repairs

A repair concerns one token: it supplies a missing one, leaves one out, or lets the next one
stand and says on which path to go on. Carried out, a repair also records the tokens it touched.
-/

namespace Mend

/-- What a repair does. -/
inductive Action where
  /-- Supply a token without reading one. -/
  | insert
  /-- Leave the next token out. -/
  | remove
  /-- Let the next token stand. -/
  | keep
  deriving DecidableEq, Repr, Inhabited

/-- The name under which an action is reported. -/
def Action.name : Action → String
  | insert => "INSERT"
  | remove => "REMOVE"
  | keep => "KEEP"

/-- A repair that concerns one token. -/
structure Repair where
  action : Action
  position : Position
  /-- The kind that is expected, or the kind of the token to leave out. -/
  kind : Kind
  /-- The name of the position, or the text of the token to leave out. -/
  text : String
  /-- The number of steps after which the search proposed the repair. -/
  depth : Nat
  /-- The token that was left out. -/
  removed : Option Token
  /-- The token that was supplied, or that follows the one left out. -/
  recovered : Option Token
  /-- The kind of the token that now stands at the position. -/
  resolved : Kind
  deriving Inhabited

namespace Repair

/-- A repair that has not been carried out. -/
def propose (action : Action) (position : Position) (kind : Kind) (text : String) : Repair :=
  ⟨action, position, kind, text, 0, none, none, kind⟩

/-- Supply a token of a kind at a position. -/
def insert (position : Position) (kind : Kind) : Repair :=
  propose .insert position kind position.name

/-- Leave a token out that stands at a position. -/
def remove (position : Position) (t : Token) : Repair := propose .remove position t.kind t.text

/-- Go on at a position that starts with a token of a kind. -/
def keep (position : Position) (kind : Kind) : Repair :=
  propose .keep position kind position.name

/-- The repair as proposed after a number of steps. -/
def atDepth (repair : Repair) (depth : Nat) : Repair := { repair with depth := depth }

/-- The repair in one line. -/
def render (repair : Repair) : String :=
  repair.action.name ++ " " ++ repair.kind.name ++ " in " ++ repair.position.name ++
    " (depth " ++ toString repair.depth ++ ")"

end Repair

end Mend
