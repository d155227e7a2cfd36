import Mend.Proofs.Plan.Ways

/-!
# How a plan ends

Until the end of the input is met every plan ends with the choice between declarations, and what a
step puts in front of a plan does not change how it ends. The choice itself either comes back or
leads to the end of the input, which is taken last.
-/

namespace Mend.Plan

variable {P : Plan} {i : Instruction} {b : Position}

/-- A plan that ends with the choice between declarations. -/
def Going (P : Plan) : Prop := P.getLast? = some (.choose .topLevelNode)

/-- The plan of the end of the input. -/
def closing : Plan := [.drain, .take, .leave]

/-- A plan before the end of the input, or just at it. -/
def Running (P : Plan) : Prop := Going P ∨ P = closing

namespace Going

theorem tail (h : Going (i :: P)) (hi : i ≠ .choose .topLevelNode) : Going P := by
  cases P with
  | nil => exact absurd (Option.some.inj h) hi
  | cons j P => exact List.getLast?_cons_cons.symm.trans h

theorem append (h : Going P) (more : Plan) : Going (more ++ P) := by
  rw [Going, List.getLast?_append, h, Option.some_or]

/-- A choice goes on, or comes to the end of the input. -/
theorem continuation {choice : Choice} (h : Going (.choose b :: P)) (hb : b.isChoice = true)
    (harises : choice.Arises b) :
    Running (continuation b choice ++ P) := by
  cases P with
  | cons j P => exact .inl (append (List.getLast?_cons_cons.symm.trans h) _)
  | nil =>
    obtain rfl : b = .topLevelNode := Instruction.choose.inj (Option.some.inj h)
    obtain ⟨way, hway, heq⟩ := continuation_eq_via hb harises
    have hway : way = .docString ∨ way = .eof ∨ way = .importDecl ∨
        way = .topLevelNodeWithoutMetadata := by
      simpa [Position.ways, Position.paths] using hway
    rw [heq, List.append_nil]
    rcases hway with rfl | rfl | rfl | rfl
    · exact .inl rfl
    · exact .inr rfl
    · exact .inl rfl
    · exact .inl rfl

end Going

/-- Only the plan of the end of the input does not go on. -/
theorem Running.going (h : Running (i :: P)) (hi : i ≠ .drain) : Going (i :: P) := by
  rcases h with h | h
  · exact h
  · cases h
    exact absurd rfl hi

/-- A plan at any moment of a run. -/
def Remaining (P : Plan) : Prop := Going P ∨ P <:+ closing

namespace Remaining

theorem of_running (h : Running P) : Remaining P := by
  rcases h with h | rfl
  · exact .inl h
  · exact .inr (List.suffix_refl closing)

theorem tail (h : Remaining (i :: P)) (hi : i ≠ .choose .topLevelNode) : Remaining P := by
  rcases h with h | h
  · exact .inl (h.tail hi)
  · exact .inr ((List.suffix_cons i P).trans h)

/-- The end of the input is not met before an instruction that it does not call for. -/
theorem going (h : Remaining (i :: P)) (hi : i ∉ closing) : Going (i :: P) :=
  h.resolve_right fun hsuffix => hi (hsuffix.subset List.mem_cons_self)

end Remaining

end Mend.Plan
