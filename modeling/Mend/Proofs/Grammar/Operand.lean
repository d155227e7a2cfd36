import Mend.Proofs.Grammar.First

/-!
# What goes on and what stops

Behind an operand an expression goes on with an operator, an access or a call, or it ends; a type
goes on with a question mark, and a conditional with its other branch. What may come behind their
end is never one of these, so one token decides whether to go on.

There is one exception. The expression that a query selects ends the query with it, and a query is
an operand that may go on itself, so behind such an expression the automaton may go on inside or
outside. Inside is always possible too (`Reads.goesOn`): what is read inside an operand does not
depend on what lies below it on the stack, and where the operand ends the two ways meet.
-/

namespace Mend

/-- Whether a token of a kind goes on with an operand. -/
def Kind.goesOn (k : Kind) : Bool := k == .dot || k == .openParen || k.isBinaryOperator

namespace Position

/-- The positions that come behind an expression, where it does not end a query. -/
def endsExpression : Position → Bool
  | .semicolon | .argEnd | .closeParenthesis | .block | .openBrace | .closeBrace
  | .listConstructorEnd | .mappingFieldEnd | .queryClauseOrSelect =>
    true
  | _ => false

/-- The positions that come behind a type. -/
def endsType : Position → Bool
  | .parameterName | .block | .semicolon | .fieldName | .variableName | .bindingName => true
  | _ => false

/-- What comes behind an expression, a type and a conditional, checked at once for all positions. -/
private theorem ends_tables :
    (all.all fun q => !q.endsExpression ||
      !q.hangs && Kind.all.all fun k => !q.starts k || !k.goesOn) = true ∧
    (all.all fun q => !q.endsType || !q.hangs && !q.starts .questionMark) = true ∧
    (all.all fun p => p.resumption?.all fun q => !q.hangs && !q.starts .elseKeyword) = true := by
  decide +kernel

variable {q : Position} {T S : Stack}

/-- An expression that ends is followed by what closes it, or it ends a query. -/
theorem expressionEnd_inv (h : Legal .expressionEnd T)
    (hmove : advance .expressionEnd T = .reach q S) :
    q.endsExpression = true ∨
      T = .selectClause :: .queryExpr :: S ∧ q = .expressionRhs := by
  obtain ⟨production, rest, rfl, hmem⟩ := h.fits.exists_cons (by decide)
  change production ∈ expressionHosts at hmem
  simp only [expressionHosts, List.mem_cons, List.not_mem_nil, or_false] at hmem
  by_cases hselect : production = .selectClause
  · subst hselect
    obtain ⟨below, rfl⟩ := h.nested.1.sole (by decide) rfl
    cases hmove
    exact .inr ⟨rfl, rfl⟩
  · left
    rcases hmem with rfl | rfl | rfl | rfl | rfl | rfl | rfl | rfl | rfl | rfl | rfl | rfl | rfl |
      rfl | rfl | rfl | rfl <;> first | exact absurd rfl hselect | (cases hmove; rfl)

theorem typeDescEnd_inv (h : Legal .typeDescEnd T)
    (hmove : advance .typeDescEnd T = .reach q S) : q.endsType = true := by
  obtain ⟨production, rest, rfl, hmem⟩ := h.fits.exists_cons (by decide)
  change production ∈ typeHosts at hmem
  simp only [typeHosts, List.mem_cons, List.not_mem_nil, or_false] at hmem
  rcases hmem with rfl | rfl | rfl | rfl | rfl | rfl | rfl | rfl | rfl | rfl | rfl <;>
    · cases hmove
      rfl

theorem afterProduction_inv (hmove : afterProduction S = .reach q T) :
    ∃ p : Position, p.resumption? = some q := by
  induction S with
  | nil => cases hmove
  | cons production rest ih =>
    unfold afterProduction at hmove
    split at hmove
    · cases hmove
    · rename_i heq
      cases heq
      exact ih hmove
    · rename_i heq
      cases heq
      split at hmove
      · rename_i next hnext
        cases hmove
        exact ⟨production, hnext⟩
      · cases hmove

end Position

/-! ## What comes behind an end -/

namespace Reads

variable {T : Stack} {t : Token} {ts : List Token}

/-- What is read behind an expression does not go on with it, unless it ends a query. -/
theorem after_expression (hlegal : Legal .expressionEnd T) (ht : t.Unreserved)
    (h : Reads .expressionEnd T (t :: ts)) :
    t.kind.goesOn = false ∨ ∃ T', T = .selectClause :: .queryExpr :: T' ∧
      Legal .expressionRhs T' ∧ Reads .expressionRhs T' (t :: ts) := by
  obtain ⟨q, S, hmove, hnext⟩ := hlegal.advance rfl
  have hreads := h.silent rfl hmove
  rcases Position.expressionEnd_inv hlegal hmove with hends | ⟨hT, rfl⟩
  · have htable := Position.of_all Position.ends_tables.1 q
    simp only [hends, Bool.not_true, Bool.false_or, Bool.and_eq_true, Bool.not_eq_true',
      List.all_eq_true, Bool.or_eq_true] at htable
    have hstarts := hreads.starts ht htable.1
    exact .inl ((htable.2 t.kind t.kind.mem_all).resolve_left (by simp [hstarts]))
  · exact .inr ⟨S, hT, hnext, hreads⟩

/-- What is read behind a type is no question mark. -/
theorem after_type (hlegal : Legal .typeDescEnd T) (ht : t.Unreserved)
    (h : Reads .typeDescEnd T (t :: ts)) : t.kind ≠ .questionMark := by
  obtain ⟨q, S, hmove, _⟩ := hlegal.advance rfl
  have hreads := h.silent rfl hmove
  have htable := Position.of_all Position.ends_tables.2.1 q
  simp only [Position.typeDescEnd_inv hlegal hmove, Bool.not_true, Bool.false_or,
    Bool.and_eq_true, Bool.not_eq_true'] at htable
  have hstarts := hreads.starts ht htable.1
  intro hkind
  rw [hkind, htable.2] at hstarts
  cases hstarts

/-- What is read behind a conditional is no other branch of it. -/
theorem after_if (hlegal : Legal .ifEnd T) (ht : t.Unreserved) (h : Reads .ifEnd T (t :: ts)) :
    t.kind ≠ .elseKeyword := by
  obtain ⟨q, S, hmove, _⟩ := hlegal.advance rfl
  have hreads := h.silent rfl hmove
  obtain ⟨below, rfl⟩ := hlegal.fits.sole (by decide) rfl
  obtain ⟨p, hp⟩ := Position.afterProduction_inv (S := below) hmove
  have htable := Position.of_all Position.ends_tables.2.2 p
  simp only [hp, Option.all_some, Bool.and_eq_true, Bool.not_eq_true'] at htable
  have hstarts := hreads.starts ht htable.1
  intro hkind
  rw [hkind, htable.2] at hstarts
  cases hstarts

end Reads

/-! ## Inside an operand -/

/-- Whether a production is an operand, or the arguments of a call. -/
def Position.isOperand : Position → Bool
  | .bracedExpr | .listConstructor | .mappingConstructor | .newExpr | .queryExpr | .receiveExpr
  | .waitExpr | .templateExpr | .argList =>
    true
  | _ => false

/-- Whether a position is where an expression is made of operands, which does not look at the
stack before the expression ends. -/
def Position.isLevel : Position → Bool
  | .expression | .variableRef | .basicLiteral | .unaryOperator | .binaryOperator | .dot
  | .fieldAccessName | .expressionRhs =>
    true
  | p => p.isOperand

/-- Two stacks that agree down to some operand and go on with given ones below it. -/
inductive Over (below below' : Stack) : Stack → Stack → Prop
  | operand {p : Position} (hp : p.isOperand = true) :
      Over below below' (p :: below) (p :: below')
  | cons (p : Position) {S S' : Stack} (h : Over below below' S S') :
      Over below below' (p :: S) (p :: S')

/-- Two states that agree down to an operand, or to where an expression is made of operands. -/
def Matched (below below' : Stack) (q : Position) (S S' : Stack) : Prop :=
  Over below below' S S' ∨ q.isLevel = true ∧ S = below ∧ S' = below'

namespace Over

open Position

variable {below below' S S' T : Stack} {p q : Position}

/-- A production that is no operand lies on stacks that agree below it. -/
theorem tail (h : Over below below' (p :: S) S') (hp : p.isOperand = false) :
    ∃ R, S' = p :: R ∧ Over below below' S R := by
  cases h with
  | operand hoperand =>
    rw [hp] at hoperand
    cases hoperand
  | cons _ h => exact ⟨_, rfl, h⟩

/-- Where a production ends, an operand goes on. -/
theorem matched_tail (h : Over below below' (p :: S) S') :
    ∃ R, S' = p :: R ∧ Matched below below' .expressionRhs S R := by
  cases h with
  | operand _ => exact ⟨_, rfl, .inr ⟨rfl, rfl, rfl⟩⟩
  | cons _ h => exact ⟨_, rfl, .inl h⟩

/-- A move on one stack that the other one can make too. -/
def Lifts (below below' : Stack) (f : Stack → Step) (S S' : Stack) : Prop :=
  ∀ {q T}, f S = .reach q T → ∃ T', f S' = .reach q T' ∧ Matched below below' q T T'

theorem head (h : Over below below' (p :: S) S') : ∃ R, S' = p :: R := by
  cases h with
  | operand _ => exact ⟨_, rfl⟩
  | cons _ _ => exact ⟨_, rfl⟩

theorem lifts_stay (h : Over below below' S S') : Lifts below below' p.stay S S' := by
  intro q T hmove
  cases S with
  | nil => cases h
  | cons production rest =>
    obtain ⟨R, rfl⟩ := h.head
    rw [stay] at hmove ⊢
    split at hmove
    · cases hmove
      exact ⟨_, rfl, .inl h⟩
    · cases hmove

theorem lifts_afterProduction (h : Over below below' S S') :
    Lifts below below' afterProduction S S' := by
  induction h with
  | operand hp =>
    intro q T hmove
    rename_i p
    cases p <;> first | (cases hmove; done) | exact absurd hp (by decide)
  | @cons p S S' h ih =>
    intro q T hmove
    by_cases helse : p = .elseBlock
    · subst helse
      exact ih hmove
    · rw [afterProduction] at hmove ⊢
      · split at hmove
        · cases hmove
          exact ⟨_, rfl, .inl (.cons p h)⟩
        · cases hmove
      · exact helse
      · exact helse

theorem lifts_afterPattern (h : Over below below' S S') (hfits : Position.matchPattern.Fits S) :
    Lifts below below' afterPattern S S' := by
  intro q T hmove
  obtain ⟨production, rest, rfl, hmem⟩ := hfits.exists_cons (by decide)
  change production ∈ patternHosts at hmem
  simp only [patternHosts, List.mem_cons, List.not_mem_nil, or_false] at hmem
  rcases hmem with rfl | rfl | rfl <;>
    · obtain ⟨R, rfl, hrest⟩ := h.tail rfl
      cases hmove
      first
        | exact ⟨_, rfl, .inl h⟩
        | exact ⟨_, rfl, .inl hrest⟩

theorem lifts_afterExpression (h : Over below below' S S') (hfits : Position.expressionEnd.Fits S)
    (hnested : Stack.Nested S) : Lifts below below' afterExpression S S' := by
  intro q T hmove
  obtain ⟨production, rest, rfl, hmem⟩ := hfits.exists_cons (by decide)
  obtain ⟨R, rfl⟩ := h.head
  change production ∈ expressionHosts at hmem
  simp only [expressionHosts, List.mem_cons, List.not_mem_nil, or_false] at hmem
  by_cases hselect : production = .selectClause
  · subst hselect
    obtain ⟨inner, rfl⟩ := hnested.1.sole (by decide) rfl
    obtain ⟨_, heq, hrest⟩ := h.tail rfl
    cases heq
    obtain ⟨R, rfl, hinner⟩ := hrest.matched_tail
    cases hmove
    exact ⟨_, rfl, hinner⟩
  · rcases hmem with rfl | rfl | rfl | rfl | rfl | rfl | rfl | rfl | rfl | rfl | rfl | rfl | rfl |
      rfl | rfl | rfl | rfl
    all_goals first
      | exact absurd rfl hselect
      | exact lifts_stay (p := .expressionEnd) h hmove
      | (obtain ⟨_, heq, hrest⟩ := h.tail rfl
         cases heq
         cases hmove
         exact ⟨_, rfl, .inl hrest⟩)

theorem lifts_afterBinding (h : Over below below' S S') (hfits : Position.bindingName.Fits S)
    (hnested : Stack.Nested S) : Lifts below below' afterBinding S S' := by
  intro q T hmove
  obtain ⟨production, rest, rfl, hmem⟩ := hfits.exists_cons (by decide)
  change production ∈ [_, _, _] at hmem
  simp only [List.mem_cons, List.not_mem_nil, or_false] at hmem
  rcases hmem with rfl | rfl | rfl <;> obtain ⟨R, rfl, hrest⟩ := h.tail rfl
  · exact lifts_stay (p := .bindingName) h hmove
  · exact lifts_stay (p := .bindingName) h hmove
  · exact hrest.lifts_afterPattern (hnested.1.mono (by decide) (List.Subset.refl _)) hmove

theorem lifts_afterPeer (h : Over below below' S S') (hfits : Position.peerWorker.Fits S) :
    Lifts below below' afterPeer S S' := by
  intro q T hmove
  obtain ⟨production, rest, rfl, hmem⟩ := hfits.exists_cons (by decide)
  obtain ⟨R, rfl, hrest⟩ := h.matched_tail
  change production ∈ [_, _, _] at hmem
  simp only [List.mem_cons, List.not_mem_nil, or_false] at hmem
  rcases hmem with rfl | rfl | rfl
  · exact lifts_stay (p := .peerWorker) h hmove
  · cases hmove
    exact ⟨_, rfl, hrest⟩
  · cases hmove
    exact ⟨_, rfl, hrest⟩

theorem afterArguments_cons (hcall : p ≠ .callStmt) (hnew : p ≠ .newExpr) (S : Stack) :
    afterArguments (p :: S) = .reach .expressionRhs (p :: S) := by
  unfold afterArguments
  split
  · rename_i heq
    cases heq
    exact absurd rfl hcall
  · rename_i heq
    cases heq
    exact absurd rfl hnew
  · rfl

/-- Behind the arguments of a call the expression goes on, in the operand or around it. -/
theorem lifts_afterArguments (h : Matched below below' .expressionRhs S S')
    (hbelow : Legal .expressionRhs below) (hbelow' : Legal .expressionRhs below')
    (hfits : Position.argList.Fits S) : Lifts below below' afterArguments S S' := by
  intro q T hmove
  rcases h with h | ⟨_, rfl, rfl⟩
  · obtain ⟨production, rest, rfl, _⟩ := hfits.exists_cons (by decide)
    obtain ⟨R, rfl, hrest⟩ := h.matched_tail
    by_cases hcall : production = .callStmt
    · subst hcall
      cases hmove
      exact ⟨_, rfl, .inl h⟩
    · by_cases hnew : production = .newExpr
      · subst hnew
        cases hmove
        exact ⟨_, rfl, hrest⟩
      · rw [afterArguments_cons hcall hnew] at hmove
        cases hmove
        exact ⟨_, afterArguments_cons hcall hnew R, .inl h⟩
  · rw [hbelow.afterArguments] at hmove
    cases hmove
    exact ⟨_, hbelow'.afterArguments, .inr ⟨rfl, rfl, rfl⟩⟩

theorem lifts_afterParameters (h : Over below below' S S') (hfits : Position.paramList.Fits S) :
    Lifts below below' afterParameters S S' := by
  intro q T hmove
  obtain ⟨production, rest, rfl, hmem⟩ := hfits.exists_cons (by decide)
  obtain ⟨R, rfl⟩ := h.head
  change production ∈ [_, _] at hmem
  simp only [List.mem_cons, List.not_mem_nil, or_false] at hmem
  rcases hmem with rfl | rfl <;>
    · cases hmove
      exact ⟨_, rfl, .inl h⟩

theorem lifts_afterParenthesis (h : Over below below' S S') (hbelow : Legal .expressionRhs below)
    (hbelow' : Legal .expressionRhs below') (hfits : Position.closeParenthesis.Fits S)
    (hnested : Stack.Nested S) : Lifts below below' afterParenthesis S S' := by
  intro q T hmove
  obtain ⟨production, rest, rfl, hmem⟩ := hfits.exists_cons (by decide)
  change production ∈ [_, _, _] at hmem
  simp only [List.mem_cons, List.not_mem_nil, or_false] at hmem
  rcases hmem with rfl | rfl | rfl
  · obtain ⟨R, rfl, hrest⟩ := h.tail rfl
    exact hrest.lifts_afterParameters hnested.1 hmove
  · obtain ⟨R, rfl, hrest⟩ := h.matched_tail
    exact lifts_afterArguments hrest hbelow hbelow' hnested.1 hmove
  · obtain ⟨R, rfl, hrest⟩ := h.matched_tail
    cases hmove
    exact ⟨_, rfl, hrest⟩

theorem lifts_afterBlock (h : Over below below' S S') (hfits : Position.block.Fits S) :
    Lifts below below' afterBlock S S' := by
  intro q T hmove
  obtain ⟨production, rest, rfl, hmem⟩ := hfits.exists_cons (by decide)
  change production ∈ blockHosts at hmem
  simp only [blockHosts, List.mem_cons, List.not_mem_nil, or_false] at hmem
  rcases hmem with rfl | rfl | rfl | rfl | rfl | rfl | rfl | rfl | rfl <;>
    obtain ⟨R, rfl, hrest⟩ := h.tail rfl
  case inr.inr.inr.inr.inr.inr.inl =>
    cases hmove
    exact ⟨_, rfl, .inl hrest⟩
  all_goals first
    | exact hrest.lifts_afterProduction hmove
    | (cases hmove
       exact ⟨_, rfl, .inl h⟩)

theorem lifts_afterBrace (h : Over below below' S S') (hfits : Position.closeBrace.Fits S)
    (hnested : Stack.Nested S) : Lifts below below' afterBrace S S' := by
  intro q T hmove
  obtain ⟨production, rest, rfl, hmem⟩ := hfits.exists_cons (by decide)
  change production ∈ [_, _, _, _, _, _, _, _] at hmem
  simp only [List.mem_cons, List.not_mem_nil, or_false] at hmem
  by_cases hmapping : production = .mappingConstructor
  · subst hmapping
    obtain ⟨R, rfl, hrest⟩ := h.matched_tail
    cases hmove
    exact ⟨_, rfl, hrest⟩
  · rcases hmem with rfl | rfl | rfl | rfl | rfl | rfl | rfl | rfl
    case inr.inr.inr.inl => exact absurd rfl hmapping
    all_goals obtain ⟨R, rfl, hrest⟩ := h.tail rfl
    · exact hrest.lifts_afterBlock hnested.1 hmove
    · cases hmove
      exact ⟨_, rfl, .inl hrest⟩
    · cases hmove
      exact ⟨_, rfl, .inl hrest⟩
    · exact hrest.lifts_afterProduction hmove
    · exact hrest.lifts_afterPattern (hnested.1.mono (by decide) (List.Subset.refl _)) hmove
    · exact hrest.lifts_afterProduction hmove
    · cases hmove
      exact ⟨_, rfl, .inl hrest⟩

theorem lifts_afterBracket (h : Over below below' S S') (hfits : Position.closeBracket.Fits S)
    (hnested : Stack.Nested S) : Lifts below below' afterBracket S S' := by
  intro q T hmove
  obtain ⟨production, rest, rfl, hmem⟩ := hfits.exists_cons (by decide)
  change production ∈ [_, _] at hmem
  simp only [List.mem_cons, List.not_mem_nil, or_false] at hmem
  rcases hmem with rfl | rfl
  · obtain ⟨R, rfl, hrest⟩ := h.matched_tail
    cases hmove
    exact ⟨_, rfl, hrest⟩
  · obtain ⟨R, rfl, hrest⟩ := h.tail rfl
    exact hrest.lifts_afterPattern (hnested.1.mono (by decide) (List.Subset.refl _)) hmove

theorem lifts_afterSemicolon (h : Over below below' S S') (hfits : Position.semicolon.Fits S) :
    Lifts below below' afterSemicolon S S' := by
  intro q T hmove
  obtain ⟨production, rest, rfl, hmem⟩ := hfits.exists_cons (by decide)
  have hends : ∀ production ∈ Position.semicolon.hosts,
      production.endsAtSemicolon = true ∧ production.isOperand = false := by
    decide
  obtain ⟨hsemicolon, hoperand⟩ := hends production hmem
  obtain ⟨R, rfl, hrest⟩ := h.tail hoperand
  rw [afterSemicolon, if_pos hsemicolon] at hmove ⊢
  exact hrest.lifts_afterProduction hmove

/-- The moves that depend on the enclosing productions stay inside the operand, or end it. -/
theorem lifts_resume (h : Over below below' S S') (hbelow : Legal .expressionRhs below)
    (hbelow' : Legal .expressionRhs below') (hlegal : Legal p S) :
    Lifts below below' p.resume S S' := by
  intro q T hmove
  have hfits := hlegal.fits
  have hnested := hlegal.nested
  have hkinds : ∀ p : Position, p.stays = true ∨ p ∈ [Position.expressionEnd, .bindingName,
      .peerWorker, .patternName, .constPattern, .closeParenthesis, .closeBrace, .closeBracket,
      .semicolon, .elseKeyword, .ifEnd, .closeBacktick] ∨
      ∀ S, p.resume S = .stuck (.noTransition p .noSuccessor) S := by
    intro p
    cases p <;> first
      | exact .inl rfl
      | exact .inr (.inl (by decide))
      | exact .inr (.inr fun _ => rfl)
  rcases hkinds p with hstays | hmem | hstuck
  · rw [resume_of_stays hstays] at hmove ⊢
    exact h.lifts_stay hmove
  · simp only [List.mem_cons, List.not_mem_nil, or_false] at hmem
    rcases hmem with rfl | rfl | rfl | rfl | rfl | rfl | rfl | rfl | rfl | rfl | rfl | rfl
    · exact h.lifts_afterExpression hfits hnested hmove
    · exact h.lifts_afterBinding hfits hnested hmove
    · exact h.lifts_afterPeer hfits hmove
    · exact h.lifts_afterPattern (hfits.mono (by decide) (List.Subset.refl _)) hmove
    · exact h.lifts_afterPattern (hfits.mono (by decide) (List.Subset.refl _)) hmove
    · exact h.lifts_afterParenthesis hbelow hbelow' hfits hnested hmove
    · exact h.lifts_afterBrace hfits hnested hmove
    · exact h.lifts_afterBracket hfits hnested hmove
    · exact h.lifts_afterSemicolon hfits hmove
    · obtain ⟨rest, rfl⟩ := hfits.sole (by decide) rfl
      obtain ⟨R, rfl, hrest⟩ := h.tail rfl
      cases hmove
      exact ⟨_, rfl, .inl (.cons _ hrest)⟩
    · obtain ⟨rest, rfl⟩ := hfits.sole (by decide) rfl
      obtain ⟨R, rfl, hrest⟩ := h.tail rfl
      exact hrest.lifts_afterProduction hmove
    · obtain ⟨rest, rfl⟩ := hfits.sole (by decide) rfl
      obtain ⟨R, rfl, hrest⟩ := h.matched_tail
      cases hmove
      exact ⟨_, rfl, hrest⟩
  · rw [hstuck] at hmove
    cases hmove

theorem lifts_advance (h : Over below below' S S') (hbelow : Legal .expressionRhs below)
    (hbelow' : Legal .expressionRhs below') (hlegal : Legal p S) :
    Lifts below below' p.advance S S' := by
  intro q T hmove
  unfold Position.advance at hmove ⊢
  split at hmove
  · cases hmove
    exact ⟨_, rfl, .inl (.cons _ h)⟩
  · split at hmove
    · cases hmove
      exact ⟨_, rfl, .inl h⟩
    · exact h.lifts_resume hbelow hbelow' hlegal hmove

end Over

namespace Matched

open Position

variable {below below' S S' T : Stack} {p q : Position}

private theorem level_table : all.all (fun p => !p.isLevel ||
    p.opening?.all (·.1.isOperand) && p.successor?.all isLevel &&
      (p.isBranch || p.opening?.isSome || p.successor?.isSome)) = true := by
  decide +kernel

private theorem levelWays_table : all.all (fun p => !p.isLevel || p.ways.all fun q =>
    q.isLevel || q == .expressionEnd && p == .expressionRhs) = true := by
  decide +kernel

/-- Every move of a matched state is matched. -/
theorem advance (h : Matched below below' p S S') (hbelow : Legal .expressionRhs below)
    (hbelow' : Legal .expressionRhs below') (hlegal : Legal p S) (hbranch : p.isBranch = false) :
    Over.Lifts below below' p.advance S S' := by
  rcases h with h | ⟨hlevel, rfl, rfl⟩
  · exact h.lifts_advance hbelow hbelow' hlegal
  · intro q T hmove
    have htable := of_all level_table p
    simp only [hlevel, Bool.not_true, Bool.false_or, hbranch, Bool.and_eq_true,
      Bool.or_eq_true] at htable
    obtain ⟨⟨hopening, hsuccessor⟩, hmoves⟩ := htable
    unfold Position.advance at hmove ⊢
    split at hmove
    · rename_i heq
      rw [heq] at hopening
      cases hmove
      exact ⟨_, rfl, .inl (.operand hopening)⟩
    · rename_i hnone
      split at hmove
      · rename_i heq
        rw [heq] at hsuccessor
        cases hmove
        exact ⟨_, rfl, .inr ⟨hsuccessor, rfl, rfl⟩⟩
      · rename_i hnone'
        simp [hnone, hnone'] at hmoves

/-- Every way on from a matched state is matched, or the expression ends. -/
theorem way (h : Matched below below' p S S') (hway : q ∈ p.ways) :
    Matched below below' q S S' ∨
      q = .expressionEnd ∧ p = .expressionRhs ∧ S = below ∧ S' = below' := by
  rcases h with h | ⟨hlevel, rfl, rfl⟩
  · exact .inl (.inl h)
  · have htable := of_all levelWays_table p
    simp only [hlevel, Bool.not_true, Bool.false_or, List.all_eq_true, Bool.or_eq_true,
      Bool.and_eq_true, beq_iff_eq] at htable
    rcases htable q hway with hq | ⟨rfl, rfl⟩
    · exact .inl (.inr ⟨hq, rfl, rfl⟩)
    · exact .inr ⟨rfl, rfl, rfl, rfl⟩

/-- What is read from a matched state is read from the other one, if that goes for what is read
behind the operand. -/
theorem reads {ts : List Token} (h : Matched below below' p S S') (hlegal : Legal p S)
    (hbelow : Legal .expressionRhs below) (hbelow' : Legal .expressionRhs below')
    (hend : ∀ ts, Reads .expressionEnd below ts → Reads .expressionRhs below' ts)
    (hreads : Reads p S ts) : Reads p S' ts := by
  obtain ⟨body, last, outer, rfl, hrun, hlast⟩ := hreads
  generalize hfinal : Position.eof = final at hrun
  induction hrun generalizing S' with
  | refl p S =>
    subst hfinal
    rcases h with h | ⟨hlevel, _⟩
    · obtain ⟨rest, rfl⟩ := hlegal.fits.sole (by decide) rfl
      obtain ⟨R, rfl, hrest⟩ := h.tail rfl
      cases rest with
      | nil => cases hrest
      | cons outer rest => exact absurd hlegal.nested.1 List.not_mem_nil
    · cases hlevel
  | branch hway hrest ih =>
    rcases h.way hway with h | ⟨rfl, rfl, rfl, rfl⟩
    · exact (ih h (hlegal.way hway) hfinal).of_way hway
    · exact hend _ ⟨_, last, _, rfl, hfinal ▸ hrest, hlast⟩
  | silent hsilent hmove _ ih =>
    have hbranch := isBranch_of_isSilent hsilent
    obtain ⟨T', hmove', h'⟩ := h.advance hbelow hbelow' hlegal hbranch hmove
    exact (ih h' (hlegal.reach hbranch hmove) hfinal).of_silent hsilent hmove'
  | read haccepts hmove _ ih =>
    have hbranch := isBranch_of_accepts haccepts
    obtain ⟨T', hmove', h'⟩ := h.advance hbelow hbelow' hlegal hbranch hmove
    exact (ih h' (hlegal.reach hbranch hmove) hfinal).of_read haccepts hmove'

end Matched

/-! ## Going on inside -/

namespace Reads

variable {way : Position} {T : Stack} {t : Token} {ts : List Token}

/-- A query can go on inside the expression that it selects. -/
theorem inside_query (hbelow : Legal .expressionRhs T)
    (hbelow' : Legal .expressionRhs (.selectClause :: .queryExpr :: T)) (hlegal : Legal way T)
    (hlevel : way.isLevel = true) (h : Reads way T ts) :
    Reads way (.selectClause :: .queryExpr :: T) ts := by
  refine Matched.reads (.inr ⟨hlevel, rfl, rfl⟩) hlegal hbelow hbelow' (fun ts hends => ?_) h
  have hhere : Reads .expressionRhs T ts := hends.of_way (by decide)
  have hquery : Reads .expressionEnd (.selectClause :: .queryExpr :: T) ts :=
    hhere.of_silent rfl rfl
  exact hquery.of_way (by decide)

private theorem goesOn_table : Position.expressionRhs.ways.all (fun way =>
    way == .expressionEnd || way.isLevel && !way.hangs && Kind.all.all fun k =>
      !way.starts k || k.goesOn && Position.expressionRhs.ways.all fun other =>
        other == .expressionEnd || !other.starts k || other == way) = true := by
  decide +kernel

/-- Where a token goes on with an operand, the operand can go on with it. -/
theorem goesOn (hlegal : Legal .expressionRhs T) (ht : t.Unreserved)
    (hway : way ∈ Position.expressionRhs.ways) (hend : way ≠ .expressionEnd)
    (hstarts : way.starts t.kind = true) (h : Reads .expressionRhs T (t :: ts)) :
    Reads way T (t :: ts) := by
  have htable := List.all_eq_true.1 goesOn_table
  simp only [Bool.or_eq_true, beq_iff_eq, Bool.and_eq_true, Bool.not_eq_true',
    List.all_eq_true] at htable
  obtain ⟨⟨hlevel, _⟩, hkinds⟩ := (htable way hway).resolve_left hend
  obtain ⟨hgoes, hsole⟩ := (hkinds t.kind t.kind.mem_all).resolve_left (by simp [hstarts])
  -- The number of queries that the expression may end is bounded by the stack.
  induction hdepth : T.length using Nat.strongRecOn generalizing T with
  | ind depth ih =>
    obtain ⟨q, hq, hreads⟩ := h.way rfl
    by_cases hqend : q = .expressionEnd
    · subst hqend
      rcases hreads.after_expression (hlegal.way hq) ht with hstop | ⟨T', rfl, hlegal', hreads'⟩
      · rw [hgoes] at hstop
        cases hstop
      · have hshorter : T'.length < depth := by
          rw [← hdepth]
          exact Nat.lt_succ_of_lt (Nat.lt_succ_self _)
        have hinner := ih T'.length hshorter hlegal' hreads' rfl
        exact hinner.inside_query hlegal' hlegal (hlegal'.way hway) hlevel
    · have hhangs := ((htable q hq).resolve_left hqend).1.2
      have hqstarts := hreads.starts ht hhangs
      rcases hsole q hq with (hqend' | hqstarts') | rfl
      · exact absurd hqend' hqend
      · rw [hqstarts'] at hqstarts
        cases hqstarts
      · exact hreads

/-- Where a token does not go on with an operand, the expression ends before it. -/
theorem stops (ht : t.Unreserved) (hstop : t.kind.goesOn = false)
    (h : Reads .expressionRhs T (t :: ts)) : Reads .expressionEnd T (t :: ts) := by
  have htable := List.all_eq_true.1 goesOn_table
  simp only [Bool.or_eq_true, beq_iff_eq, Bool.and_eq_true, Bool.not_eq_true',
    List.all_eq_true] at htable
  obtain ⟨way, hway, hreads⟩ := h.way rfl
  rcases htable way hway with rfl | ⟨⟨_, hhangs⟩, hkinds⟩
  · exact hreads
  · have hgoes := ((hkinds t.kind t.kind.mem_all).resolve_left
      (by simp [hreads.starts ht hhangs])).1
    rw [hstop] at hgoes
    cases hgoes

end Reads

end Mend
