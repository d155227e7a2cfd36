import Mend.Repair.Basic

/-!
# Outcomes of a search

A search that tries one way to go on is judged by how many tokens it could match, then by how few
it had to leave out, and last by what its first repair is. `better` makes that choice between two
outcomes; on a full tie the one found earlier stays.
-/

namespace Mend

/-- What one way to go on has come to. -/
structure Outcome where
  /-- The repairs, the one closest to the start first. -/
  fixes : List Repair
  /-- How many tokens were matched. -/
  matched : Nat
  /-- How many tokens were left out. -/
  removals : Nat
  /-- The repair to carry out. -/
  choice : Option Repair
  deriving Inhabited

namespace Outcome

/-- An outcome with matched tokens alone. -/
def ofMatched (matched : Nat) : Outcome := ⟨[], matched, 0, none⟩

/-- The outcome with one more repair before the others. -/
def push (o : Outcome) (fix : Repair) : Outcome := { o with fixes := fix :: o.fixes }

/-- The first repair, and the outcome without it. -/
def pop (o : Outcome) : Option Repair × Outcome :=
  (o.fixes.head?, { o with fixes := o.fixes.tail })

/-- The first repair. -/
def top? (o : Outcome) : Option Repair := o.fixes.head?

/-- The second repair. -/
def second? (o : Outcome) : Option Repair := o.fixes[1]?

/-- What the first repair does. -/
def topAction? (o : Outcome) : Option Action := o.top?.map (·.action)

/-- What the chosen repair does. -/
def choiceAction? (o : Outcome) : Option Action := o.choice.map (·.action)

/-- The outcome with more matched tokens before it. -/
def addMatched (o : Outcome) (n : Nat) : Outcome := { o with matched := o.matched + n }

/-- The outcome with another repair to carry out. -/
def choose (o : Outcome) (choice : Option Repair) : Outcome := { o with choice := choice }

/-- The better of two outcomes, the first of which was found earlier: more matched tokens, then
fewer tokens left out, then leaving a token out first rather than supplying one first. -/
def better (earlier later : Outcome) : Outcome :=
  if later.matched ≠ earlier.matched then
    if later.matched > earlier.matched then later else earlier
  else if later.removals ≠ earlier.removals then
    if later.removals < earlier.removals then later else earlier
  else if earlier.topAction? = some .insert ∧ later.topAction? = some .remove then later
  else earlier

/-- Whether no other way to go on can do better: all but one step matched, and the repair is not
to leave a token out. -/
def isDecisive (o : Outcome) (limit : Nat) : Bool :=
  o.matched == limit - 1 && o.choiceAction? != some .remove

/-- A decisive outcome of a path at a branch point. Supplying a token right at the start is the
repair itself; anything else is reported as the path to go on. -/
def settle (o : Outcome) (path : Position) (entry : Bool) : Outcome :=
  if entry && o.choiceAction? == some .insert then o
  else o.choose (some (.keep path path.expectedKind))

/-- Whether supplying a token is better than leaving the next one out, given what follows each.
On equal matches a name in the place of a reserved word is a misspelt word, and goes. -/
def prefersInsertion (position : Position) (next : Token) (insertion deletion : Outcome) : Bool :=
  if insertion.matched = 0 ∧ deletion.matched = 0 then true
  else if insertion.matched = deletion.matched then
    !(position.keyword?.isSome && next.kind == .identifier) &&
      decide (insertion.removals ≤ deletion.removals + 1)
  else decide (insertion.matched > deletion.matched)

/-- The outcome of leaving the next token out at a position. -/
def afterRemoval (o : Outcome) (position : Position) (next : Token) (depth : Nat) : Outcome :=
  { o with removals := o.removals + 1 }.push ((Repair.remove position next).atDepth depth)

/-- The outcome of supplying the expected token at a position. -/
def afterInsertion (o : Outcome) (position : Position) (depth : Nat) : Outcome :=
  o.push ((Repair.insert position position.expectedKind).atDepth depth)

/-- The better of leaving the next token out and supplying one, where that is possible. -/
def repairAt (position : Position) (next : Token) (depth : Nat) (deletion : Outcome)
    (insertion : Option Outcome) : Outcome :=
  match insertion with
  | none => deletion.afterRemoval position next depth
  | some insertion =>
    if prefersInsertion position next insertion deletion then
      insertion.afterInsertion position depth
    else deletion.afterRemoval position next depth

/-- The outcome with the choice that a repair at a position leads to: the repair itself where
the search started, and otherwise to go on there. -/
def chooseRepair (o : Outcome) (position : Position) (entry : Bool) : Outcome :=
  o.choose (if entry then o.top? else some (.keep position position.expectedKind))

/-- The outcome with its choice made good: documentation is never let stand where a token is
wanted, and a token is not supplied when the repair beneath is to leave the next one out. -/
def validate (o : Outcome) (position : Position) (next : Token) : Outcome :=
  match o.choiceAction? with
  | some .keep =>
    if next.kind = .documentationString then o.choose (some (.remove position next)) else o
  | some .insert =>
    match o.second? with
    | some second =>
      if second.action = .remove ∧ second.depth = 1 then o.choose (some second) else o
    | none => o
  | _ => o

end Outcome

end Mend
