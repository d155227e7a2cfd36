import Mend.Grammar.Weight
import Mend.Reader
import Mend.Repair.Outcome

/-!
# Searching for a repair

From a position and the stack there, the search follows the automaton over the tokens ahead. A
token that fits is matched; at one that does not, leaving it out and supplying the expected one
are both followed, and at a branch point every path is. Matches and repairs count as steps, and
the limit bounds their number. Documentation is looked over, except where it is what is wanted.

The search ends because each counted step leaves fewer to count, and because the moves between
two of them make the weight of the state smaller. Nothing is read: a search only looks ahead.
-/

namespace Mend.Search

/-- How many positions in a row may be passed in silence. -/
def silentLimit : Nat := 64

/-- The number of steps that a limit allows: at least one. -/
def steps (lookahead : Nat) : Nat := max lookahead 1

/-- Whether the token at a place ahead repeats the separator just before it. -/
def repeatsSeparator (reader : Reader) (place : Nat) : Bool :=
  let kind := (reader.peekN place).kind
  let before := if place > 1 then some (reader.peekN (place - 1)) else reader.previous?
  kind.isSeparator && before.any (·.kind == kind)

/-- Whether a token can be supplied at a position before the token at a place ahead. -/
def canInsert (reader : Reader) (position : Position) (place : Nat) : Bool :=
  position.expectedKind != .absent && !repeatsSeparator reader place

/-- The place at which a position looks. -/
def placeFor (reader : Reader) (position : Position) (place : Nat) : Nat :=
  if position = .docString then place else reader.skipDocumentation place

/-- The greatest weight among some positions. -/
def greatestWeight (paths : List Position) (stack : Stack) : Nat :=
  paths.foldr (fun path bound => max (path.weight stack) bound) 0

theorem greatestWeight_lt {paths : List Position} {stack : Stack} {bound : Nat}
    (hpos : 0 < bound) (h : ∀ path ∈ paths, path.weight stack < bound) :
    greatestWeight paths stack < bound := by
  induction paths with
  | nil => exact hpos
  | cons path rest ih =>
    have hpath := h path List.mem_cons_self
    have hrest := ih fun p hp => h p (List.mem_cons_of_mem _ hp)
    simp only [greatestWeight, List.foldr_cons] at hrest ⊢
    omega

theorem greatestWeight_paths_lt {position : Position} {paths : List Position} {stack : Stack}
    (h : position.role? = some (.branch paths)) :
    greatestWeight paths stack < position.weight stack := by
  unfold Position.role? at h
  split at h
  · rename_i hbranch
    simp only [Option.some.injEq, Role.branch.injEq] at h
    subst h
    refine greatestWeight_lt ?_ fun path hpath => Position.weight_lt_of_mem_paths hpath stack
    have htwo := Position.two_le_length_paths hbranch
    obtain ⟨path, hpath⟩ : ∃ path, path ∈ position.paths :=
      List.exists_mem_of_length_pos (by omega)
    have := Position.weight_lt_of_mem_paths hpath stack
    omega
  · split at h
    · simp at h
    · simp at h
    · split at h <;> simp at h

theorem isSilent_of_role? {position : Position} (h : position.role? = some .silent) :
    position.isSilent = true := by
  unfold Position.role? at h
  split at h
  · simp at h
  · split at h
    · simp at h
    · simp at h
    · split at h
      · assumption
      · simp at h

private theorem lex_of_le {a b c d : Nat} (hab : a ≤ b) (hcd : c < d) :
    Prod.Lex (· < ·) (· < ·) (a, c) (b, d) := by
  rcases Nat.lt_or_eq_of_le hab with hlt | rfl
  · exact Prod.Lex.left _ _ hlt
  · exact Prod.Lex.right _ hcd

mutual

/-- The best outcome from a position, looking at a place ahead after a number of steps. `entry`
says that nothing has been matched or repaired since the search began; `passed` counts the silent
positions since the last token or branch point. -/
def seek (limit : Nat) (reader : Reader) (position : Position) (place depth : Nat) (entry : Bool)
    (stack : Stack) (passed : Nat) : Except Breakdown Outcome :=
  if _hdepth : depth < limit then
    let here := placeFor reader position place
    let next := reader.peekN here
    match _hrole : position.role? with
    | none => .error (.noTransition position .neverSearched)
    | some (.branch paths) => seekPaths limit reader paths here depth entry stack none
    | some .silent =>
      if silentLimit ≤ passed then .error (.noTransition position .cycle)
      else
        match _hmove : position.advance stack with
        | .stuck error _ => .error error
        | .reach following stack' =>
          seek limit reader following here depth entry stack' (passed + 1)
    | some _ =>
      if position.accepts next then
        match position.advance stack with
        | .stuck error _ => .error error
        | .reach following stack' => do
          let rest ← seek limit reader following (here + 1) (depth + 1) false stack' 0
          return rest.addMatched 1
      else do
        let deletion ← seek limit reader position (here + 1) (depth + 1) false stack 0
        let insertion ←
          if canInsert reader position here then
            match position.advance stack with
            | .stuck error _ => .error error
            | .reach following stack' => do
              let rest ← seek limit reader following here (depth + 1) false stack' 0
              pure (some rest)
          else pure none
        let repaired := Outcome.repairAt position next (depth + 1) deletion insertion
        return repaired.chooseRepair position entry
  else .ok ((Outcome.ofMatched 0).choose (some (.keep position .absent)))
termination_by (limit - depth, position.weight stack, 0)
decreasing_by
  all_goals first
    | exact Prod.Lex.left _ _ (by omega)
    | exact Prod.Lex.right _ (Prod.Lex.left _ _ (greatestWeight_paths_lt _hrole))
    | exact Prod.Lex.right _ (Prod.Lex.left _ _
        (Position.weight_lt_of_advance (isSilent_of_role? _hrole) _hmove))

/-- The best outcome among some paths, given the best of those already tried. -/
def seekPaths (limit : Nat) (reader : Reader) (paths : List Position) (place depth : Nat)
    (entry : Bool) (stack : Stack) (best : Option Outcome) : Except Breakdown Outcome :=
  match paths with
  | [] =>
    match best with
    | some best => .ok best
    | none => .error (.noTransition .compUnit .noPaths)
  | path :: rest => do
    let found ← seek limit reader path place depth entry stack 0
    if found.isDecisive limit then return found.settle path entry
    else
      seekPaths limit reader rest place depth entry stack
        (some ((best.map (·.better found)).getD found))
termination_by (limit - depth, greatestWeight paths stack, 1 + paths.length)
decreasing_by
  · exact Prod.Lex.right _ (lex_of_le (Nat.le_max_left ..) (by omega))
  · exact Prod.Lex.right _ (lex_of_le (Nat.le_max_right ..) (by simp))

end

/-- The best outcome from a position at the next token. -/
def run (lookahead : Nat) (reader : Reader) (position : Position) (stack : Stack) :
    Except Breakdown Outcome :=
  seek (steps lookahead) reader position 1 0 true stack 0

end Mend.Search
