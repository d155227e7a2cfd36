import Mend.Proofs.Repair.Closing
import Mend.Repair.Session

/-!
# Repair at the end of the input

At the end of the input nothing can be left out, so a token is supplied: the one that the way out
asks for first. The way out always asks for one (`Legal.exists_comesTo`), and what it asks for is
never nothing. But the session follows it for a bounded number of moves, and an expression may end
several clauses around it without a token: each `select` that ends with it takes two moves. Behind
the bound the session falls back on a table that knows no stack, and at the end of an expression
that table has nothing to supply. `recover_supplies_at_end` says which token is supplied on either
side of the bound, and `nested_selects_supply_nothing` is a state behind it.
-/

namespace Mend

/-- The way out of a state leads in a number of moves to the first position that takes a token. -/
inductive ComesTo : Position → Stack → Nat → Position → Stack → Prop
  | here {p : Position} (htakes : p.takesToken = true) (S : Stack) : ComesTo p S 0 p S
  | move {p q r : Position} {S T U : Stack} {n : Nat} (htakes : p.takesToken = false)
      (hmove : p.closingMove S = .reach q T) (hrest : ComesTo q T n r U) : ComesTo p S (n + 1) r U

variable {p q : Position} {S T : Stack} {n : Nat}

namespace Position

/-- The way out moves on without a token from branch points and silent positions only. -/
theorem isSilent_of_closingMove (htakes : p.takesToken = false)
    (hmove : p.closingMove S = .reach q T) (hpath : p.shortest? = none) : p.isSilent = true := by
  have hkinds : ∀ p : Position, p.takesToken = true ∨ p.shortest?.isSome = true ∨
      p.isSilent = true ∨ p = .elseBlock := by
    intro p
    cases p <;> decide
  rcases hkinds p with hloud | hbranch | hsilent | rfl
  · rw [htakes] at hloud
    cases hloud
  · rw [hpath] at hbranch
    cases hbranch
  · exact hsilent
  · cases hmove

/-- A move on the way out that takes no token makes the weight of the state smaller. -/
theorem weight_lt_of_closingMove (htakes : p.takesToken = false)
    (hmove : p.closingMove S = .reach q T) : q.weight T < p.weight S := by
  cases hpath : p.shortest? with
  | some path =>
    simp only [closingMove, hpath, Step.reach.injEq] at hmove
    obtain ⟨rfl, rfl⟩ := hmove
    exact weight_lt_of_mem_paths (mem_paths_of_shortest? hpath) S
  | none =>
    have hsilent := isSilent_of_closingMove htakes hmove hpath
    simp only [closingMove, hpath] at hmove
    exact weight_lt_of_advance hsilent hmove

end Position

/-- From a legal state the way out comes to a position that takes a token. -/
theorem Legal.exists_comesTo (h : Legal p S) : ∃ n q T, ComesTo p S n q T := by
  induction hweight : p.weight S using Nat.strongRecOn generalizing p S with
  | ind weight ih =>
    cases htakes : p.takesToken with
    | true => exact ⟨0, p, S, .here htakes S⟩
    | false =>
      obtain ⟨q, T, hmove, hlegal⟩ := h.closingMove
      have hlt := Position.weight_lt_of_closingMove htakes hmove
      obtain ⟨n, r, U, hrest⟩ := ih _ (hweight ▸ hlt) hlegal rfl
      exact ⟨n + 1, r, U, .move htakes hmove hrest⟩

namespace ComesTo

theorem takesToken (h : ComesTo p S n q T) : q.takesToken = true := by
  induction h with
  | here htakes => exact htakes
  | move _ _ _ ih => exact ih

theorem le_weight (h : ComesTo p S n q T) : n ≤ p.weight S := by
  induction h with
  | here => exact Nat.zero_le _
  | move htakes hmove _ ih =>
    have hlt := Position.weight_lt_of_closingMove htakes hmove
    omega

/-- The way out never leads to documentation. -/
theorem ne_docString (h : ComesTo p S n q T) (hdoc : p ≠ .docString) : q ≠ .docString := by
  induction h with
  | here => exact hdoc
  | @move p _ _ S _ _ _ htakes hmove _ ih =>
    have hend : p ≠ .eof := by
      rintro rfl
      cases htakes
    have hbelow := Position.closingMove_below hend S
    rw [hmove] at hbelow
    exact ih hbelow.1

end ComesTo

namespace Session

theorem shortestKind?_succ (moves : Nat) (p : Position) (S : Stack) :
    shortestKind? (moves + 1) p S =
      if p.takesToken then
        if p.expectedKind = .absent ∨ p.expectedKind = .eof then none else some p.expectedKind
      else
        match p.closingMove S with
        | .reach q T => shortestKind? moves q T
        | .stuck _ _ => none := by
  cases p <;> rfl

/-- What the bounded walk finds: the kind that the first position which takes a token asks for, if
the bound lets it get there. -/
theorem shortestKind?_of_comesTo {moves : Nat} (h : ComesTo p S n q T) :
    shortestKind? moves p S =
      if n < moves ∧ q.expectedKind ≠ .absent ∧ q.expectedKind ≠ .eof then some q.expectedKind
      else none := by
  induction h generalizing moves with
  | @here p htakes S =>
    cases moves with
    | zero => rfl
    | succ moves =>
      rw [shortestKind?_succ, if_pos htakes]
      by_cases hkind : p.expectedKind = .absent ∨ p.expectedKind = .eof
      · rw [if_pos hkind, if_neg fun h => hkind.elim h.2.1 h.2.2]
      · rw [if_neg hkind, if_pos ⟨Nat.succ_pos _, not_or.1 hkind⟩]
  | move htakes hmove _ ih =>
    cases moves with
    | zero => rfl
    | succ moves =>
      rw [shortestKind?_succ, htakes, if_neg (by decide), hmove]
      simpa only [Nat.succ_lt_succ_iff] using ih

end Session

/-! ## The end of the input itself -/

/-- Whether a position stands at the top of a program with nothing begun there. -/
def Position.isTop (position : Position) : Bool :=
  position == .compUnit || position == .topLevelNode || position == .eof

theorem Position.not_isTop_of_stay (h : p.stay S = .reach q T) : q.isTop = false := by
  have htable : ∀ production, p.inside? production = some q → q.isTop = false := by
    intro production hinside
    unfold inside? at hinside
    split at hinside <;> cases hinside <;> rfl
  cases S with
  | nil => cases h
  | cons production rest =>
    rw [stay] at h
    cases hnext : p.inside? production with
    | none =>
      rw [hnext] at h
      cases h
    | some next =>
      rw [hnext] at h
      cases h
      exact htable production hnext

theorem Position.not_isTop_of_afterExpression (h : afterExpression S = .reach q T) :
    q.isTop = false := by
  fun_cases afterExpression S with
  | case7 stack => exact not_isTop_of_stay (by simpa only [afterExpression] using h)
  | _ => cases h <;> rfl

/-- What ends inside a block, or in the `else` of one, goes on there. -/
theorem Legal.afterProduction_eq {production : Position} (hfits : production.Fits S)
    (hhosts : production.hosts = [.block, .elseBlock]) (hnested : Stack.Nested S) :
    ∃ rest, Position.afterProduction S = .reach .statementsOrEnd (.block :: rest) := by
  induction S generalizing production with
  | nil =>
    have hprogram : production = .compUnit := hfits
    rw [hprogram] at hhosts
    cases hhosts
  | cons outer rest ih =>
    have hmem : outer ∈ production.hosts := hfits
    simp only [hhosts, List.mem_cons, List.not_mem_nil, or_false] at hmem
    rcases hmem with rfl | rfl
    · exact ⟨rest, rfl⟩
    · exact ih hnested.1 rfl hnested.2

/-- The top of a program is entered without a token from the top of a program only. -/
theorem Legal.isTop_of_closingMove (h : Legal p S) (htakes : p.takesToken = false)
    (hmove : p.closingMove S = .reach q T) (htop : q.isTop = true) : p.isTop = true := by
  cases hpath : p.shortest? with
  | some path =>
    simp only [Position.closingMove, hpath, Step.reach.injEq] at hmove
    obtain ⟨rfl, rfl⟩ := hmove
    cases p <;> cases hpath <;> first | rfl | cases htop
  | none =>
    have hsilent := Position.isSilent_of_closingMove htakes hmove hpath
    simp only [Position.closingMove, hpath] at hmove
    cases hopening : p.opening? with
    | some entered =>
      simp only [Position.advance, hopening, Step.reach.injEq] at hmove
      obtain ⟨rfl, rfl⟩ := hmove
      cases p <;> cases hopening <;> first | rfl | cases htop
    | none =>
      have hkinds : ∀ p : Position, p.isSilent = true → p.opening?.isSome = true ∨
          p = .parameter ∨ p = .typeDescEnd ∨ p = .expressionEnd ∨ p = .ifEnd := by
        intro p
        cases p <;> decide
      rcases hkinds p hsilent with hsome | rfl | rfl | rfl | rfl
      · rw [hopening] at hsome
        cases hsome
      · cases hmove
        cases htop
      · exact absurd htop (by rw [Position.not_isTop_of_stay hmove]; decide)
      · exact absurd htop (by rw [Position.not_isTop_of_afterExpression hmove]; decide)
      · obtain ⟨rest, rfl⟩ := h.fits.sole (by decide) rfl
        obtain ⟨outer, hnext⟩ := Legal.afterProduction_eq h.nested.1 rfl h.nested.2
        have hstep : Position.afterProduction rest = .reach q T := hmove
        rw [hnext] at hstep
        cases hstep
        cases htop

/-- Where the way out comes to the end of the input without a token, nothing has been begun. -/
theorem ComesTo.isTop_of_eof (h : ComesTo p S n .eof T) (hlegal : Legal p S) : p.isTop = true := by
  generalize hq : Position.eof = q at h
  induction h with
  | here => rw [← hq]; rfl
  | @move p r _ S U _ _ htakes hmove _ ih =>
    obtain ⟨r', U', hmove', hlegal'⟩ := hlegal.closingMove
    rw [hmove, Step.reach.injEq] at hmove'
    obtain ⟨rfl, rfl⟩ := hmove'
    exact hlegal.isTop_of_closingMove htakes hmove (ih hlegal' hq)

/-! ## What is supplied -/

/-- A position that takes a token wants one of some kind, unless it wants documentation. -/
theorem Position.expectedKind_ne_absent (htakes : p.takesToken = true) (hdoc : p ≠ .docString) :
    p.expectedKind ≠ .absent := by
  revert htakes hdoc
  cases p <;> decide

theorem Position.eq_eof_of_expectedKind (htakes : p.takesToken = true)
    (hkind : p.expectedKind = .eof) : p = .eof := by
  revert htakes hkind
  cases p <;> decide

theorem Position.expectedKind_of_isTop (htop : p.isTop = true) (hprogram : p ≠ .compUnit) :
    p.expectedKind = .eof := by
  revert htop hprogram
  cases p <;> decide

theorem Position.expectedKind_of_isTail (htail : p.isTail = true) : p.expectedKind = .absent := by
  revert htail
  cases p <;> decide

theorem Position.rank_le (p : Position) : p.rank ≤ 9 := by
  cases p <;> decide

theorem Position.weight_le (p : Position) (S : Stack) :
    p.weight S ≤ max 9 (4 + 2 * S.length) := by
  have hrank := p.rank_le
  unfold weight
  split <;> omega

namespace ComesTo

/-- Only the end of an expression leads further than the silence that a session puts up with. -/
theorem isTail_of_le (h : ComesTo p S n q T) (hlong : Search.silentLimit ≤ n) :
    p.isTail = true := by
  cases htail : p.isTail with
  | true => rfl
  | false =>
    have hweight := h.le_weight
    rw [Position.weight_eq_rank htail] at hweight
    have hrank := p.rank_le
    have hlimit : Search.silentLimit = 64 := rfl
    omega

/-- And it does so only below many productions. -/
theorem lt_silentLimit (h : ComesTo p S n q T) (hdepth : S.length < 30) :
    n < Search.silentLimit := by
  have hweight := h.le_weight
  have hbound := p.weight_le S
  have hlimit : Search.silentLimit = 64 := rfl
  omega

end ComesTo

namespace Session

variable {s : Session} {next : Token}

/-- The kind that is supplied at the end of the input at a legal state. -/
theorem recoverAtEnd_kind (h : Legal p s.stack) (hprogram : p ≠ .compUnit)
    (hdoc : p ≠ .docString) (hcomes : ComesTo p s.stack n q T) :
    s.recoverAtEnd p =
      s.apply (.insert p (if n < Search.silentLimit then q.expectedKind else .absent)) := by
  unfold recoverAtEnd shortestInsertion?
  rw [shortestKind?_of_comesTo hcomes]
  have habsent := Position.expectedKind_ne_absent hcomes.takesToken (hcomes.ne_docString hdoc)
  by_cases hlong : n < Search.silentLimit
  · by_cases heof : q.expectedKind = .eof
    · -- the table that is fallen back on knows the end of the input as well
      have hq := Position.eq_eof_of_expectedKind hcomes.takesToken heof
      subst hq
      rw [if_neg (fun hkind => hkind.2.2 heof), if_pos hlong, heof,
        ← Position.expectedKind_of_isTop (hcomes.isTop_of_eof h) hprogram]
      rfl
    · rw [if_pos ⟨hlong, habsent, heof⟩, if_pos hlong]
      rfl
  · have htail := hcomes.isTail_of_le (Nat.le_of_not_lt hlong)
    rw [if_neg (fun hkind => hlong hkind.1), if_neg hlong,
      ← Position.expectedKind_of_isTail htail]
    rfl

/-- At the end of the input a token is supplied for every position that can be reached: the one
that the way out asks for first, which is never none, as long as the way there is not longer than
the silence that a session puts up with. Behind that bound none is supplied. A state in fewer than
thirty productions is always before it. -/
theorem recover_supplies_at_end (h : Reachable p s.stack) (hprogram : p ≠ .compUnit)
    (hdoc : p ≠ .docString) (hend : next.kind = .eof) (completing : Bool) :
    (∃ n q T, ComesTo p s.stack n q T) ∧
    ∀ n q T, ComesTo p s.stack n q T →
      q.expectedKind ≠ .absent ∧ (s.stack.length < 30 → n < Search.silentLimit) ∧
      ∃ r, s.recover p next completing = (.ok r, s) ∧ r.action = .insert ∧ r.position = p ∧
        r.kind = if n < Search.silentLimit then q.expectedKind else .absent := by
  refine ⟨h.legal.exists_comesTo, fun n q T hcomes => ⟨?_, hcomes.lt_silentLimit, ?_⟩⟩
  · exact Position.expectedKind_ne_absent hcomes.takesToken (hcomes.ne_docString hdoc)
  · refine ⟨(s.apply (.insert p (if n < Search.silentLimit then q.expectedKind else .absent))).1,
      ?_, rfl, rfl, rfl⟩
    rw [recover, if_pos hend, recoverAtEnd_kind h.legal hprogram hdoc hcomes]
    rfl

end Session

/-! ## Expressions that end together -/

/-- The productions around an expression in a declaration, inside a number of nested `select`
clauses that all end with it. -/
def nestedSelects : Nat → Stack
  | 0 => [.constDecl, .compUnit]
  | depth + 1 => .selectClause :: .queryExpr :: nestedSelects depth

/-- An expression may be a query, and the `select` of that query holds an expression. -/
theorem Reachable.select (h : Reachable .expression S) :
    Reachable .expression (.selectClause :: .queryExpr :: S) := by
  have hquery : Reachable .fromClause (.queryExpr :: S) :=
    .move (h.way (q := .queryExpr) (by decide)) rfl rfl
  have hfrom : Reachable .varDeclTypeStart (.fromClause :: .queryExpr :: S) :=
    .move (.move hquery rfl rfl) rfl rfl
  have hname : Reachable .bindingName (.fromClause :: .queryExpr :: S) :=
    .move (hfrom.way (q := .varKeyword) (by decide)) rfl rfl
  have hsource : Reachable .expression (.fromClause :: .queryExpr :: S) :=
    .move (.move hname rfl rfl) rfl rfl
  have htail : Reachable .expressionRhs (.fromClause :: .queryExpr :: S) :=
    .move (hsource.way (q := .variableRef) (by decide)) rfl rfl
  have hclause : Reachable .queryClauseOrSelect (.queryExpr :: S) :=
    .move (htail.way (q := .expressionEnd) (by decide)) rfl rfl
  have hselect : Reachable .selectKeyword (.selectClause :: .queryExpr :: S) :=
    .move (hclause.way (q := .selectClause) (by decide)) rfl rfl
  exact .move hselect rfl rfl

theorem reachable_nestedSelects (depth : Nat) : Reachable .expression (nestedSelects depth) := by
  induction depth with
  | zero =>
    have htop : Reachable .topLevelNodeWithoutMetadata [.compUnit] :=
      .way (.move .start rfl rfl) (by decide)
    have hplain : Reachable .topLevelNodeWithoutModifier [.compUnit] := htop.way (by decide)
    have hconst : Reachable .constKeyword [.constDecl, .compUnit] :=
      .move (hplain.way (q := .constDecl) (by decide)) rfl rfl
    have hname : Reachable .constName [.constDecl, .compUnit] := .move hconst rfl rfl
    exact .move (.move hname rfl rfl) rfl rfl
  | succ depth ih => exact ih.select

/-- Behind the innermost expression of nested `select` clauses. -/
theorem reachable_behind_nestedSelects (depth : Nat) :
    Reachable .expressionRhs (nestedSelects depth) :=
  .move ((reachable_nestedSelects depth).way (q := .variableRef) (by decide)) rfl rfl

/-- Every `select` clause that ends takes two moves, and only then a semicolon is wanted. -/
theorem comesTo_nestedSelects (depth : Nat) :
    ComesTo .expressionRhs (nestedSelects depth) (2 * depth + 2) .semicolon
      [.constDecl, .compUnit] := by
  induction depth with
  | zero => exact .move rfl rfl (.move rfl rfl (.here rfl _))
  | succ depth ih => exact .move rfl rfl (.move rfl rfl ih)

/-- A session at the end of the input, behind an expression in nested `select` clauses. -/
def Session.inSelects (depth : Nat) : Session :=
  { Session.start ⟨[], [], .eof 1⟩ .standard with stack := nestedSelects depth }

/-- Thirty nested clauses are closed: the semicolon behind all of them is supplied. -/
theorem semicolon_behind_thirty_selects :
    Reachable .expressionRhs (Session.inSelects 30).stack ∧
    ∃ r, (Session.inSelects 30).recover .expressionRhs (.eof 1) false =
      (.ok r, Session.inSelects 30) ∧ r.kind = .semicolon := by
  have hreachable : Reachable .expressionRhs (Session.inSelects 30).stack :=
    reachable_behind_nestedSelects 30
  have hall := (Session.recover_supplies_at_end hreachable (by decide) (by decide)
    (show (Token.eof 1).kind = .eof from rfl) false).2
  obtain ⟨_, _, r, hr, _, _, hkind⟩ := hall _ _ _ (comesTo_nestedSelects 30)
  exact ⟨hreachable, r, hr, hkind⟩

/-- One clause more and nothing is supplied, although it is the semicolon that is wanted. -/
theorem nested_selects_supply_nothing :
    Reachable .expressionRhs (Session.inSelects 31).stack ∧
    ComesTo .expressionRhs (Session.inSelects 31).stack 64 .semicolon [.constDecl, .compUnit] ∧
    ∃ r, (Session.inSelects 31).recover .expressionRhs (.eof 1) false =
      (.ok r, Session.inSelects 31) ∧ r.action = .insert ∧ r.kind = .absent ∧
        Position.expectedKind .semicolon = .semicolon := by
  refine ⟨reachable_behind_nestedSelects 31, comesTo_nestedSelects 31, _, rfl, rfl, rfl, rfl⟩

end Mend
