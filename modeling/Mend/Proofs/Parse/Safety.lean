import Mend.Proofs.Machine.Bound

/-!
# Parsing never lacks a rule

Whatever the tokens and the limits, a parse gives a tree or repair gives up at some token: neither
the machine, nor the search, nor the automaton ever comes to a position and a stack for which the
tables have no rule, and the bound on the steps is never used up.
-/

namespace Mend

namespace Machine

variable {tokens : List Token} {limits : Limits} {m : Machine} {plan : Plan}

/-- Wherever a parse asks for a token or makes a choice, the state is legal. -/
theorem Reached.legal {p : Position}
    (h : Reached tokens limits m (.expect p :: plan) ∨
      Reached tokens limits m (.choose p :: plan)) : Legal p m.session.stack := by
  rcases h with h | h
  · exact h.sound.tracks.expect.2.2.1
  · exact h.sound.tracks.legal_choose.2

end Machine

/-- A state for which the tables have a rule: the position plays a part, and it leaves a choice or
moves on. -/
def HasRule (q : Position) (S : Stack) : Prop :=
  q.role?.isSome = true ∧ (q.isBranch = true ∨ ∃ q' S', q.advance S = .reach q' S')

theorem Legal.hasRule {q : Position} {S : Stack} (h : Legal q S) : HasRule q S := by
  constructor
  · rw [← Option.ne_none_iff_isSome, ne_eq, Position.role?_eq_none_iff]
    exact h.searched
  · cases hbranch : q.isBranch with
    | true => exact .inl rfl
    | false =>
      obtain ⟨q', S', hmove, _⟩ := h.advance hbranch
      exact .inr ⟨q', S', hmove⟩

/-- The parse of some tokens gives a tree or gives up at a token. -/
def Tree.Parses (result : Except Abort Tree) : Prop :=
  (∃ tree, result = .ok tree) ∨
    ∃ p index count, result = .error (.breakdown (.exhausted p index count))

theorem Tree.parses_ofTokens (tokens : List Token) (limits : Limits) :
    Parses (Tree.ofTokens tokens limits) := by
  have hended := Machine.run_start_ended tokens limits
  unfold Tree.ofTokens
  generalize Machine.run (Machine.stepBound tokens limits) (.start tokens limits)
    Machine.program = result at hended
  cases hended with
  | done m => exact .inl ⟨_, rfl⟩
  | exhausted p index count => exact .inr ⟨p, index, count, rfl⟩

/-- No input makes the tables lack a rule. A parse of tokens ends in a tree or gives up; a parse
of a text may also fail to be split into tokens. From wherever a parse asks for a token or makes a
choice, the search comes to an answer over any input, and every state that the automaton can come
to has a rule. -/
theorem parsing_never_lacks_a_rule :
    (∀ tokens limits, Tree.Parses (Tree.ofTokens tokens limits)) ∧
    (∀ text limits, (∃ error, Tree.ofText text limits = .error (.lexical error)) ∨
      Tree.Parses (Tree.ofText text limits)) ∧
    ∀ tokens limits m p plan, Machine.Reached tokens limits m (.expect p :: plan) ∨
        Machine.Reached tokens limits m (.choose p :: plan) →
      (∀ lookahead reader, ∃ o, Search.run lookahead reader p m.session.stack = .ok o) ∧
      ∀ ts q S, Run p m.session.stack ts q S → HasRule q S := by
  refine ⟨Tree.parses_ofTokens, fun text limits => ?_, ?_⟩
  · unfold Tree.ofText
    cases Token.scan text with
    | ok tokens => exact .inr (Tree.parses_ofTokens tokens limits)
    | error error => exact .inl ⟨error, rfl⟩
  · intro tokens limits m p plan hreached
    have hlegal := Machine.Reached.legal hreached
    refine ⟨fun lookahead reader => ?_, fun ts q S hrun => (hrun.legal hlegal).hasRule⟩
    obtain ⟨o, _, hok, _⟩ := Search.run_answers lookahead reader hlegal
    exact ⟨o, hok⟩

/-- The parameters of a function are not closed before the input ends. Once a parenthesis is supplied
for them, the search has an answer inside the parameters, and the automaton has a rule for the
statements of the body that may follow. -/
theorem hasRule_behind_supplied_parenthesis :
    ∃ m plan, Machine.Reached [.plain .functionKeyword "function" 1, .plain .identifier "f" 1,
        .plain .openParen "(" 1, .eof 1] .standard m (.expect .closeParenthesis :: plan) ∧
      m.session.stack = [.paramList, .funcDefinition, .compUnit] ∧
      m.supplied = some (.missingOf .closeParen .closeParenthesis 1) ∧
      (∃ o, Search.run 4 m.session.reader .closeParenthesis m.session.stack = .ok o) ∧
      Run .closeParenthesis m.session.stack [.plain .closeParen ")" 1, .plain .openBrace "\x7b" 1]
        .statementsOrEnd [.block, .funcDefinition, .compUnit] ∧
      HasRule .statementsOrEnd [.block, .funcDefinition, .compUnit] := by
  have hsteps : ∃ m plan, Machine.Reached [.plain .functionKeyword "function" 1,
        .plain .identifier "f" 1, .plain .openParen "(" 1, .eof 1] .standard m
        (.expect .closeParenthesis :: plan) ∧
      m.session.stack = [.paramList, .funcDefinition, .compUnit] ∧
      m.supplied = some (.missingOf .closeParen .closeParenthesis 1) :=
    ⟨_, _, .step (.step (.step (.step (.step (.step (.step (.step (.step (.step (.step (.step .start
      rfl) rfl) rfl) rfl) rfl) rfl) rfl) rfl) rfl) rfl) rfl) rfl, rfl, rfl⟩
  obtain ⟨m, plan, hreached, hstack, hsupplied⟩ := hsteps
  obtain ⟨hsearch, hrule⟩ := parsing_never_lacks_a_rule.2.2 _ _ m _ plan (.inl hreached)
  have hrun : Run .closeParenthesis m.session.stack
      [.plain .closeParen ")" 1, .plain .openBrace "\x7b" 1]
      .statementsOrEnd [.block, .funcDefinition, .compUnit] := by
    rw [hstack]
    exact .read rfl rfl <| .branch (q := .block) (by decide) <| .silent rfl rfl <|
      .read rfl rfl (.refl _ _)
  exact ⟨m, plan, hreached, hstack, hsupplied, hsearch 4 _, hrun, hrule _ _ _ hrun⟩

end Mend
