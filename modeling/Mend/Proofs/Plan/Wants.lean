import Mend.Proofs.Plan.Ways

/-!
# What a plan wants next

The kinds of tokens that a plan goes on with as it stands: those that its first position takes or
that resolve its first branch point. A kind that resolves a branch point is wanted by what the
branch point leads to, so a token that is wanted once is wanted until it is taken.
-/

namespace Mend

/-- Whether an instruction goes on with a kind of token, before a plan that does or does not. -/
def Instruction.wants (k : Kind) : Instruction → Bool → Bool
  | .expect p, _ => p.wants k
  | .choose b, _ => b.admits k
  | .take, _ | .drain, _ => k == .eof
  | .optionalSuffix, rest => k == .questionMark || rest
  | .postfixes, _ | .operators _, _ | .otherBranch, _ => false
  | _, rest => rest

namespace Plan

/-- Whether a plan goes on with a kind of token as it stands. -/
def wants (k : Kind) (P : Plan) : Bool := P.foldr (Instruction.wants k) false

variable {P Q : Plan} {b way : Position} {k : Kind}

theorem wants_cons (k : Kind) (i : Instruction) (P : Plan) :
    wants k (i :: P) = i.wants k (wants k P) :=
  rfl

theorem wants_append (h : wants k P = true) (Q : Plan) : wants k (P ++ Q) = true := by
  induction P with
  | nil => cases h
  | cons i P ih =>
    rw [List.cons_append, wants_cons]
    rw [wants_cons] at h
    cases i with
    | optionalSuffix =>
      rcases Bool.or_eq_true_iff.1 h with hmark | hrest
      · exact Bool.or_eq_true_iff.2 (.inl hmark)
      · exact Bool.or_eq_true_iff.2 (.inr (ih hrest))
    | enter | leave | switch | begin | adopt | finish => exact ih h
    | _ => exact h

/-- What the plans of branch points want, checked at once for all of them: what resolves a branch point,
what is supplied there, and what its ways start with. -/
private theorem wants_tables :
    (Position.all.all fun b => !b.isChoice || Kind.all.all fun k =>
      !b.admits k || wants k (continuation b (.kind k))) = true ∧
    (Position.all.all fun b => !b.isChoice || b.admits b.expectedKind) = true ∧
    (Position.all.all fun b => !b.isChoice || b.ways.all fun way =>
      !way.hangs && Kind.all.all fun k => !way.starts k ||
        continuation b (.kind k) == via b way || b == .statement && k == .identifier) = true := by
  decide +kernel

/-- What resolves a branch point is wanted next. -/
theorem wants_continuation (hb : b.isChoice = true) (hk : b.admits k = true) (P : Plan) :
    wants k (continuation b (.kind k) ++ P) = true := by
  have htable := Position.of_all wants_tables.1 b
  simp only [hb, Bool.not_true, Bool.false_or, List.all_eq_true, Bool.or_eq_true,
    Bool.not_eq_true'] at htable
  exact wants_append ((htable k k.mem_all).resolve_left (by simp [hk])) P

/-- The kind that is supplied at a branch point resolves it. -/
theorem admits_expectedKind (hb : b.isChoice = true) : b.admits b.expectedKind = true := by
  have htable := Position.of_all wants_tables.2.1 b
  simpa only [hb, Bool.not_true, Bool.false_or] using htable

/-- The first token that is read on a way decides for its plan. Only where a statement starts with
a name is there a choice left. -/
theorem continuation_of_starts (hb : b.isChoice = true) (hway : way ∈ b.ways)
    (hk : way.starts k = true) :
    continuation b (.kind k) = via b way ∨ b = .statement ∧ k = .identifier := by
  have htable := Position.of_all wants_tables.2.2 b
  simp only [hb, Bool.not_true, Bool.false_or, List.all_eq_true, Bool.or_eq_true,
    Bool.and_eq_true, Bool.not_eq_true', beq_iff_eq] at htable
  rcases (htable way hway).2 k k.mem_all with (hnot | heq) | hname
  · rw [hk] at hnot
    cases hnot
  · exact .inl heq
  · exact .inr hname

end Plan

end Mend
