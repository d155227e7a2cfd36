import Mend.Proofs.Machine.Bound
import Mend.Proofs.Machine.Replay
import Mend.Proofs.Parse.Conservation

/-!
# What repair has made needs no repair

The tokens of a repaired tree, with the supplied ones among them and without those left out, are a
program of their own. Parsing it under any limits gives the same tree, with nothing to report.
-/

namespace Mend

variable {tokens : List Token} {limits : Limits} {tree : Tree}

/-- The tokens that the automaton accepts end with the end of the input. -/
theorem Accepted.exists_last {ts : List Token} (h : Accepted ts)
    (hwords : ∀ t ∈ ts, t.Unreserved) :
    ∃ body last, ts = body ++ [last] ∧ last.kind = .eof := by
  obtain ⟨body, last, _, rfl, _, hlast⟩ := h
  have hword := hwords last (List.mem_append_right body List.mem_cons_self)
  exact ⟨body, last, rfl, beq_iff_eq.1 (Position.wants_of_accepts hword hlast)⟩

/-- Tokens that do not pass for reserved words are repaired once and for all. -/
theorem Tree.ofTokens_clean (hwords : ∀ t ∈ tokens, t.Unreserved)
    (h : Tree.ofTokens tokens limits = .ok tree) (limits' : Limits) :
    Tree.ofTokens (tree.tokens.map Token.clean) limits' = .ok tree.clean := by
  obtain ⟨m, hrun, rfl⟩ := Machine.finishes_of_tree h
  have hyields := hrun.yields hwords
  obtain ⟨body, last, heq, hlast⟩ := (hrun.accepted hwords).exists_last hyields.unreserved
  generalize m.tree.tokens.map Token.clean = ts at hyields heq
  have hawaits : (Machine.start ts limits').Awaits ts := by
    intro _
    rw [heq]
    change (Reader.ofTokens (body ++ [last])).ahead ++ [(Reader.ofTokens (body ++ [last])).last] = _
    rw [Reader.ofTokens_append hlast]
  have hstart : Machine.Mirrors (.start tokens limits) (.start ts limits') :=
    ⟨rfl, rfl, rfl, rfl, rfl⟩
  obtain ⟨c, hfinishes, hend⟩ := hyields.replay (.inl rfl) hstart hawaits
  have htree : c.tree = m.tree.clean := by
    simp only [Machine.tree, Tree.clean, hend.children, Tree.cleanAll_eq_map, List.map_reverse]
  rw [hfinishes.tree, htree]

/-- The tree that repair has made of a text is the parse of its own tokens, under any limits and
with nothing to report. -/
theorem repaired_tree_needs_no_repair (text : String) (limits : Limits) (tree : Tree)
    (h : Tree.ofText text limits = .ok tree) (limits' : Limits) :
    ∃ tree', Tree.ofTokens (tree.tokens.map Token.clean) limits' = .ok tree' ∧
      tree'.diagnostics = [] ∧ tree'.clean = tree.clean := by
  unfold Tree.ofText at h
  split at h
  · rename_i tokens hscan
    have hclean := Tree.ofTokens_clean (Token.unreserved_of_scan hscan) h limits'
    exact ⟨tree.clean, hclean, tree.diagnostics_clean, tree.clean_clean⟩
  · cases h

/-- A declaration that breaks off after its first word is completed once and for all. -/
theorem broken_declaration_needs_no_repair :
    ∃ tree, Tree.ofText "const" .standard = .ok tree ∧
      ∃ tree', Tree.ofTokens (tree.tokens.map Token.clean) .standard = .ok tree' ∧
        tree'.diagnostics = [] ∧ tree'.clean = tree.clean := by
  obtain ⟨tree, htext⟩ := Tree.exists_ofText_const
  exact ⟨tree, htext, repaired_tree_needs_no_repair "const" .standard tree htext .standard⟩

end Mend
