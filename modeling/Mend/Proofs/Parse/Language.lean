import Mend.Proofs.Machine.Reports
import Mend.Proofs.Machine.Smooth
import Mend.Proofs.Parse.Conservation

/-!
# The language of the machine

A parse reports nothing exactly when the automaton accepts the tokens. If the automaton accepts
them, the parse is smooth. If nothing is reported, then nothing was supplied and nothing left out,
since every repair leaves a report on the token that it supplies or leaves out; so the tokens of
the tree are those of the input, and the tokens of a tree are always accepted.
-/

namespace Mend

section

variable {tokens : List Token} {limits : Limits} {tree : Tree}

/-- The tokens of a tree have the reports due on them. -/
theorem Tree.reported_ofTokens (hinput : Token.IsInput tokens) (hwords : ∀ t ∈ tokens, t.Unreserved)
    (h : Tree.ofTokens tokens limits = .ok tree) : ∀ t ∈ tree.tokens, t.Reported := by
  obtain ⟨m, hrun, rfl⟩ := Machine.finishes_of_tree h
  have hreports := (hrun.yields hwords).carried Machine.Reports.carried
    (Machine.reports_start hinput.isPlain limits)
  rw [(Machine.Reached.start.of_finishes hrun).tokens_tree]
  exact hreports.taken

/-- A tree without reports has the tokens of the input and no others. -/
theorem Tree.tokens_eq_of_silent (hinput : Token.IsInput tokens)
    (hwords : ∀ t ∈ tokens, t.Unreserved) (h : Tree.ofTokens tokens limits = .ok tree)
    (hsilent : tree.diagnostics = []) : tree.tokens = tokens := by
  have hreported := Tree.reported_ofTokens hinput hwords h
  have hplain : ∀ t ∈ tree.tokens, t.IsPlain := fun t ht => by
    refine (hreported t ht).isPlain ?_
    rw [← (hreported t ht).diagnostics_eq]
    exact List.flatMap_eq_nil_iff.1 hsilent t ht
  rw [← Tree.source_ofTokens hinput h, Tree.source,
    List.flatMap_congr fun t ht => (hplain t ht).source_eq, List.flatMap_singleton']

theorem Tree.tokens_of_silent (hinput : Token.IsInput tokens) (hwords : ∀ t ∈ tokens, t.Unreserved)
    (h : Tree.ofTokens tokens limits = .ok tree) (hsilent : tree.diagnostics = []) :
    tree.tokens.map Token.clean = tokens := by
  rw [tokens_eq_of_silent hinput hwords h hsilent, hinput.map_clean]

end

/-- The machine and the automaton have the same language: under any limits a parse gives a tree
without reports if and only if the automaton accepts the tokens. -/
theorem silent_parse_iff_accepted (tokens : List Token) (limits : Limits)
    (hinput : Token.IsInput tokens) (hwords : ∀ t ∈ tokens, t.Unreserved) :
    (∃ tree, Tree.ofTokens tokens limits = .ok tree ∧ tree.diagnostics = []) ↔ Accepted tokens := by
  constructor
  · -- The tokens of a tree are accepted, and without a report they are those of the input.
    rintro ⟨tree, htree, hsilent⟩
    obtain ⟨m, hrun, rfl⟩ := Machine.finishes_of_tree htree
    have haccepted := hrun.accepted hwords
    rwa [Tree.tokens_of_silent hinput hwords htree hsilent] at haccepted
  · intro haccepted
    have hsmooth := Machine.smooth_start limits hinput hwords haccepted
    obtain ⟨m, hrun, huntouched⟩ := hsmooth.run (Machine.run_start_ended tokens limits)
    refine ⟨m.tree, ?_, ?_⟩
    · rw [Tree.ofTokens, hrun]
    · have htokens := (Machine.Reached.start.of_finishes (.of_run hrun)).tokens_tree
      rw [Tree.diagnostics, htokens]
      exact huntouched.silent

/-- The declaration of a constant is parsed without a report, so the automaton accepts it. -/
theorem const_declaration_accepted :
    Accepted [.plain .constKeyword "const" 1, .plain .identifier "x" 1, .plain .assign "=" 1,
      .plain .intLiteral "1" 1, .plain .semicolon ";" 1, .eof 1] := by
  refine (silent_parse_iff_accepted _ .standard ⟨[_, _, _, _, _], _, rfl, rfl, ?_, ?_⟩ ?_).1 ?_
  · simp [Token.plain]
  · simp [Token.eof, Token.isPlain_plain]
  · simp [Token.Unreserved, Token.plain, Token.eof]
    decide
  · exact Except.exists_of_any (by decide +kernel)

end Mend
