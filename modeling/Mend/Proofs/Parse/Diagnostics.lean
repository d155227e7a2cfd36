import Mathlib.Data.List.Flatten
import Mend.Proofs.Parse.Language
import Mend.Proofs.Token.Line

/-!
# Diagnostics are the repairs

The diagnostics of the tree of a text are the reports due on its tokens, in order: one for each token
that is missing and one for each that was left out. They are on lines that never decrease, since the
tokens of the text are, and there are none exactly if the tokens of the tree are those of the text.
-/

namespace Mend

namespace Tree

variable {tokens : List Token} {limits : Limits} {tree : Tree}

theorem diagnostics_eq_due (h : ∀ t ∈ tree.tokens, t.Reported) :
    tree.diagnostics = tree.tokens.flatMap Token.due :=
  List.flatMap_congr fun t ht => (h t ht).diagnostics_eq

/-- Over tokens on lines that never decrease, neither do the lines of what is reported. -/
theorem lines_ofTokens (hinput : Token.IsInput tokens) (hwords : ∀ t ∈ tokens, t.Unreserved)
    (hlines : Lexer.Ascending tokens) (h : ofTokens tokens limits = .ok tree) :
    (tree.diagnostics.map (·.line)).Pairwise (· ≤ ·) := by
  obtain ⟨m, hrun, rfl⟩ := Machine.finishes_of_tree h
  have hstart : Machine.Ordered (.start tokens limits) := by
    refine ⟨Machine.reports_start hinput.isPlain limits, ?_⟩
    obtain ⟨body, last, rfl, hlast, _, _⟩ := hinput
    change ((Reader.ofTokens (body ++ [last])).linesAhead).Pairwise (· ≤ ·)
    rw [Reader.ofTokens_append hlast]
    exact hlines
  have hordered := (hrun.yields hwords).carried Machine.Ordered.carried hstart
  have htokens := (Machine.Reached.start.of_finishes hrun).tokens_tree
  rw [diagnostics_eq_due (htokens ▸ hordered.taken), htokens, List.map_flatMap]
  refine hordered.lines.sublist ?_
  have hdue : (m.taken.flatMap fun t => t.due.map (·.line)).Sublist
      (m.taken.flatMap Token.lines) :=
    List.Sublist.flatMap_right _ fun t _ => t.due_lines
  unfold Machine.timeline
  rw [List.append_assoc, List.append_assoc]
  exact hdue.trans (List.sublist_append_left ..)

end Tree

/-- The diagnostics of a text are its repairs: one report for each token of its tree that is missing
and one for each that was left out, in the order of the tree, and nothing else. What was left out and
what was kept are the tokens of the text. Unless there are more newlines than line numbers, the lines
never decrease; and there is nothing to report exactly if the tokens of the tree are those of the
text. -/
theorem diagnostics_are_the_repairs (text : String) (limits : Limits) (tree : Tree)
    (h : Tree.ofText text limits = .ok tree) :
    tree.diagnostics = tree.tokens.flatMap Token.due ∧
    (∀ t ∈ tree.tokens, (t.missing = false → t.diagnostics = []) ∧
      ∀ u ∈ t.invalidLeading, u.Rejected) ∧
    (text.toList.count '\n' < UInt32.size - 1 → (tree.diagnostics.map (·.line)).Pairwise (· ≤ ·)) ∧
    ∃ tokens, Token.scan text = .ok tokens ∧ tree.source = tokens ∧
      (tree.diagnostics = [] ↔ tree.tokens = tokens) := by
  unfold Tree.ofText at h
  split at h
  · rename_i tokens hscan
    have hinput := Token.isInput_of_scan hscan
    have hwords := Token.unreserved_of_scan hscan
    have hreported := Tree.reported_ofTokens hinput hwords h
    have hdue := Tree.diagnostics_eq_due hreported
    refine ⟨hdue, fun t ht => ⟨fun hpresent => ?_, (hreported t ht).leading⟩, fun hnewlines => ?_,
      tokens, hscan, Tree.source_ofTokens hinput h, fun hsilent => ?_, fun htokens => ?_⟩
    · rw [(hreported t ht).own, hpresent]
      rfl
    · exact Tree.lines_ofTokens hinput hwords (Token.ascending_of_scan hscan hnewlines) h
    · exact Tree.tokens_eq_of_silent hinput hwords h hsilent
    · rw [hdue, List.flatMap_eq_nil_iff]
      intro t ht
      exact (hinput.isPlain t (htokens ▸ ht)).due_eq
  · cases h

/-- A declaration that breaks off has its reports in order. -/
theorem broken_declaration_reported :
    ∃ tree, Tree.ofText "const" .standard = .ok tree ∧
      tree.diagnostics = tree.tokens.flatMap Token.due ∧
      (∀ t ∈ tree.tokens, (t.missing = false → t.diagnostics = []) ∧
        ∀ u ∈ t.invalidLeading, u.Rejected) ∧
      (tree.diagnostics.map (·.line)).Pairwise (· ≤ ·) ∧
      ∃ tokens, Token.scan "const" = .ok tokens ∧ tree.source = tokens ∧
        (tree.diagnostics = [] ↔ tree.tokens = tokens) := by
  obtain ⟨tree, htext⟩ := Tree.exists_ofText_const
  obtain ⟨hdue, hkept, hlines, htokens⟩ :=
    diagnostics_are_the_repairs "const" .standard tree htext
  exact ⟨tree, htext, hdue, hkept, hlines (by decide), htokens⟩

end Mend
