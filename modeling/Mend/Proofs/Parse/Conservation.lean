import Mend.Proofs.Machine.Ledger

/-!
# A tree loses nothing

Whatever repair does to some tokens, the tree holds every one of them once and in order: by
itself, or among those left out before another one. What it holds besides was supplied.
-/

namespace Mend

theorem Except.exists_of_any {ε α : Type} {result : Except ε α} {p : α → Prop} [DecidablePred p]
    (h : (result.toOption.any fun a => decide (p a)) = true) : ∃ a, result = .ok a ∧ p a := by
  cases result with
  | ok a => exact ⟨a, rfl, of_decide_eq_true h⟩
  | error e => cases h

namespace Machine.Reached

variable {tokens : List Token} {limits : Limits} {m : Machine} {plan : Plan}

/-- The tokens are on the ledger of every machine that is reached. -/
theorem stage {body : List Token} {last : Token} (htokens : tokens = body ++ [last])
    (hlast : last.kind = .eof) (hbody : ∀ t ∈ body, t.kind ≠ .eof)
    (hplain : ∀ t ∈ tokens, t.IsPlain) (h : Reached tokens limits m plan) :
    Stage body last m plan := by
  induction h with
  | start =>
    have hreader : (Machine.start tokens limits).session.reader = ⟨[], body, last⟩ := by
      simp [Machine.start, Session.start, Reader.ofTokens, htokens, hlast]
    refine .going rfl ⟨?_, fun t ht => ?_, ?_, hlast, fun t ht => nomatch ht⟩
    · rw [ledger, hreader]
      rfl
    · rw [hreader] at ht
      exact ⟨hplain t (by simp [htokens, ht]), hbody t ht⟩
    · rw [hreader]
  | step h hstep ih => exact ih.step h.sound (hplain last (by simp [htokens])) hstep

end Machine.Reached

theorem Tree.source_ofTokens {tokens : List Token} {limits : Limits} {tree : Tree}
    (hinput : Token.IsInput tokens) (h : Tree.ofTokens tokens limits = .ok tree) :
    tree.source = tokens := by
  obtain ⟨body, last, htokens, hlast, hbody, hplain⟩ := hinput
  obtain ⟨m, hrun, rfl⟩ := Machine.finishes_of_tree h
  have hreached := Machine.Reached.start.of_finishes hrun
  rw [source, hreached.tokens_tree]
  generalize hplan : ([] : Plan) = plan at hreached
  cases hreached.stage htokens hlast hbody hplain with
  | going hgoing _ =>
    subst hplan
    cases hgoing
  | ended _ h => rw [h, htokens]
  | _ => cases hplan

/-- The tree of some tokens holds each of them once and in order, and so does the tree of a text
with the tokens of the text. -/
theorem parsing_loses_no_token :
    (∀ tokens limits tree, Token.IsInput tokens → Tree.ofTokens tokens limits = .ok tree →
      tree.source = tokens) ∧
    ∀ text limits tree, Tree.ofText text limits = .ok tree →
      ∃ tokens, Token.scan text = .ok tokens ∧ tree.source = tokens := by
  refine ⟨fun tokens limits tree => Tree.source_ofTokens, fun text limits tree h => ?_⟩
  unfold Tree.ofText at h
  split at h
  · rename_i tokens hscan
    exact ⟨tokens, hscan, Tree.source_ofTokens (Token.isInput_of_scan hscan) h⟩
  · cases h

/-- A declaration may break off after its first word. A name, a sign, an expression and a semicolon
are missing then. -/
theorem Tree.exists_ofTokens_const : ∃ tree,
    Tree.ofTokens [.plain .constKeyword "const" 1, .eof 1] .standard = .ok tree ∧
      tree.diagnostics = [.missing .identifier 1, .missing .assign 1, .missing .identifier 1,
        .missing .semicolon 1] :=
  Except.exists_of_any (by decide +kernel)

theorem Tree.exists_ofText_const : ∃ tree, Tree.ofText "const" .standard = .ok tree := by
  rw [Tree.ofText, Token.scan_const]
  exact Tree.exists_ofTokens_const.imp fun _ h => h.1

/-- What the tree of such a declaration holds besides that word and the end of the input stands for
nothing. -/
theorem source_of_broken_declaration :
    ∃ tree, Tree.ofTokens [.plain .constKeyword "const" 1, .eof 1] .standard = .ok tree ∧
      tree.source = [.plain .constKeyword "const" 1, .eof 1] := by
  obtain ⟨tree, htree, -⟩ := Tree.exists_ofTokens_const
  refine ⟨tree, htree, parsing_loses_no_token.1 _ _ _ ⟨[_], _, rfl, rfl, ?_, ?_⟩ htree⟩
  · simp [Token.plain]
  · simp [Token.eof, Token.isPlain_plain]

end Mend
