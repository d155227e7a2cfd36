import Mend.Proofs.Repair.Search

/-!
# The tables are closed

Whatever ways the automaton takes from the start of a program, and whether or not the tokens on
the way were really there, it comes only to states for which the tables have a rule. All of these
states are legal, and legal states are closed under every move; so a search may set out from any
of them, and comes back with a repair.
-/

namespace Mend

/-- The states that moves of the automaton lead to from the start of a program. A branch point
goes on at any of its ways; every other position moves on, with or without the token it takes. -/
inductive Reachable : Position → Stack → Prop
  | start : Reachable .compUnit []
  | way {p q : Position} {S : Stack} (h : Reachable p S) (hway : q ∈ p.ways) : Reachable q S
  | move {p q : Position} {S T : Stack} (h : Reachable p S) (hbranch : p.isBranch = false)
      (hmove : p.advance S = .reach q T) : Reachable q T

variable {p : Position} {S : Stack}

theorem Reachable.legal (h : Reachable p S) : Legal p S := by
  induction h with
  | start => exact legal_start
  | way _ hway ih => exact ih.way hway
  | move _ hbranch hmove ih => exact ih.reach hbranch hmove

/-- Every legal position plays a part. -/
theorem Legal.exists_role (h : Legal p S) : ∃ role, p.role = .ok role := by
  cases hrole : p.role? with
  | none => exact absurd (Position.role?_eq_none_iff.1 hrole) h.searched
  | some role => exact ⟨role, by rw [Position.role, hrole]⟩

/-- Every position that can be reached plays a part, moves on if it leaves no choice, and lets a
search with any lookahead and from any reader find a repair. -/
theorem tables_are_closed (h : Reachable p S) :
    (∃ role, p.role = .ok role) ∧
    (p.isBranch = false → ∃ q T, p.advance S = .reach q T) ∧
    ∀ lookahead reader, ∃ o repair, Search.run lookahead reader p S = .ok o ∧
      o.choice = some repair := by
  have hlegal := h.legal
  refine ⟨hlegal.exists_role, fun hbranch => ?_, fun lookahead reader => ?_⟩
  · obtain ⟨q, T, hmove, _⟩ := hlegal.advance hbranch
    exact ⟨q, T, hmove⟩
  · obtain ⟨o, repair, hok, hchoice, _⟩ := Search.run_answers lookahead reader hlegal
    exact ⟨o, repair, hok, hchoice⟩

/-- The name of a function is reached although none of the tokens before it was read, and a search
finds a repair there. -/
theorem search_at_function_name :
    Reachable .functionName [.funcDefinition, .compUnit] ∧
    ∀ lookahead reader, ∃ o repair,
      Search.run lookahead reader .functionName [.funcDefinition, .compUnit] = .ok o ∧
        o.choice = some repair := by
  have htop : Reachable .topLevelNode [.compUnit] := .move .start rfl rfl
  have hplain : Reachable .topLevelNodeWithoutMetadata [.compUnit] := htop.way (by decide)
  have hbare : Reachable .topLevelNodeWithoutModifier [.compUnit] := hplain.way (by decide)
  have hfunction : Reachable .funcDefinition [.compUnit] := hbare.way (by decide)
  have hword : Reachable .functionKeyword [.funcDefinition, .compUnit] := .move hfunction rfl rfl
  have hname : Reachable .functionName [.funcDefinition, .compUnit] := .move hword rfl rfl
  exact ⟨hname, (tables_are_closed hname).2.2⟩

end Mend
