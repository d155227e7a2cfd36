import Mathlib.Data.List.Permutation
import Mend.Proofs.Parse.Diagnostics
import Mend.Proofs.Parse.Operators
import Mend.Proofs.Text.Lines
import Mend.Proofs.Token.Documentation
import Mend.Proofs.Token.Pieces

/-!
# Diagnostics on lines

A diagnostic is written on one line, unless it reports a token left out whose text has a newline. Only
string literals, the text of templates and documentation have such texts (`kind_of_newline_of_scan`),
but all three can be left out. So a report has one line for each diagnostic and one more for each
newline in the texts that were left out, and it can be cut into its diagnostics when there is none
(`report_lines`).
-/

namespace Mend

namespace Lexer

variable {passed text rest cs : List Char} {pieces : List Piece} {cursor : Cursor}

/-- The kinds of tokens whose texts may have newlines. -/
def multiline : List Kind := [.stringLiteral, .templateString, .documentationString]

theorem Lexeme.kind_of_newline {inside : Bool} {kind : Kind}
    (h : Lexeme inside passed (some (kind, text)) rest) (hline : '\n' ∈ text) :
    kind ∈ multiline := by
  cases h with
  | documentation | string | text => decide
  | integer hdigits => exact absurd hline (not_newline_of_all (by decide) hdigits)
  | @decimal c whole d decimals _ hwhole hdecimals =>
    have hleft := not_newline_of_all (by decide) hwhole
    have hright := not_newline_of_all (by decide) hdecimals
    simp_all
  | word hbare _ htail =>
    rcases List.mem_cons.1 hline with heq | htl
    · exact absurd heq hbare.not_newline
    · exact absurd htl (not_newline_of_all (by decide) htail)
  | pair hpair =>
    obtain ⟨_, _, _, hnone, _⟩ := ofPair?_table hpair
    exact absurd hline hnone
  | symbol hbare => exact absurd (List.mem_singleton.1 hline) hbare.not_newline
  | templateEnd | interpolation => exact absurd hline (by decide)

theorem Scans.kind_of_newline (h : Scans text pieces cursor) :
    ∀ t ∈ tokensIn pieces, '\n' ∈ t.text.toList → t.kind ∈ multiline := by
  induction h using Scans.induct with
  | hstart => exact fun t ht => nomatch ht
  | @hread pieces cursor passed found rest _ hlexeme _ ih =>
    intro t ht hline
    rw [tokensIn_append, tokensIn_single] at ht
    rcases List.mem_append.1 ht with hbefore | hnew
    · exact ih t hbefore hline
    · obtain ⟨⟨kind, chars⟩, rfl, rfl⟩ := Option.map_eq_some_iff.1 (Option.mem_toList.1 hnew)
      exact hlexeme.kind_of_newline (by simpa [Token.plain] using hline)

/-- Joining changes no tokens but documentation. -/
theorem mem_or_documentation_of_mem_join {tokens : List Token} {t : Token}
    (h : t ∈ joinDocumentation tokens) : t ∈ tokens ∨ t.kind = .documentationString := by
  induction tokens with
  | nil => cases h
  | cons u rest ih =>
    have hlater (h : t ∈ joinDocumentation rest) : t ∈ u :: rest ∨ t.kind = .documentationString :=
      (ih h).imp_left (List.mem_cons_of_mem u)
    rw [joinDocumentation_cons] at h
    rcases attach_cases u (joinDocumentation rest) with ⟨next, more, hnext, hboth, heq⟩ | ⟨heq, _⟩
    · rw [heq] at h
      rcases List.mem_cons.1 h with rfl | hmore
      · exact .inr hboth.1
      · exact hlater (hnext ▸ List.mem_cons_of_mem next hmore)
    · rw [heq] at h
      rcases List.mem_cons.1 h with rfl | hmore
      · exact .inl List.mem_cons_self
      · exact hlater hmore

/-- Tokens of a text with a newline are string literals, template text or documentation. -/
theorem kind_of_newline_of_scan {text : String} {tokens : List Token}
    (h : Token.scan text = .ok tokens) :
    ∀ t ∈ tokens, '\n' ∈ t.text.toList → t.kind ∈ multiline := by
  obtain ⟨found, hscan, rfl⟩ := Except.map_eq_ok h
  obtain ⟨pieces, cursor, hends, -, rfl⟩ := ends_of_scan hscan
  intro t ht hline
  rcases mem_or_documentation_of_mem_join ht with hfound | hkind
  · rcases List.mem_append.1 hfound with hpiece | hlast
    · exact hends.scans.kind_of_newline t hpiece hline
    · rw [List.mem_singleton.1 hlast] at hline
      cases hline
  · rw [hkind]
    decide

end Lexer

/-! ## One diagnostic -/

/-- The newlines in the text of a token that a fault reports. -/
def Fault.newlines : Fault → Nat
  | missing _ => 0
  | invalid text => text.toList.count '\n'

theorem newline_notMem_toDigits (n : Nat) : '\n' ∉ Nat.toDigits 10 n :=
  fun h => absurd (Nat.isDigit_of_mem_toDigits (by decide) (by decide) h) (by decide)

theorem Fault.newline_notMem_code (fault : Fault) : '\n' ∉ fault.code.toList := by
  cases fault with
  | missing kind => exact (by decide : '\n' ∉ "missing_token".toList)
  | invalid text => exact (by decide : '\n' ∉ "invalid_token".toList)

theorem Kind.newline_notMem (kind : Kind) :
    '\n' ∉ kind.text.toList ∧ '\n' ∉ (Fault.describe kind).toList := by
  have htable : ∀ kind ∈ all, '\n' ∉ kind.text.toList ∧ '\n' ∉ (Fault.describe kind).toList := by
    decide +kernel
  exact htable kind (mem_all kind)

/-- The wording of a fault has no newline but those of a text that it reports. -/
theorem Fault.count_message (fault : Fault) : fault.message.toList.count '\n' = fault.newlines := by
  cases fault with
  | missing kind =>
    obtain ⟨htext, hname⟩ := kind.newline_notMem
    have hmessage : message (missing kind) =
        if kind.text = "" then "missing " ++ describe kind else "missing '" ++ kind.text ++ "'" := rfl
    rw [hmessage, newlines, List.count_eq_zero]
    split <;> simp [htext, hname]
  | invalid text =>
    have hopen : "invalid token '".toList.count '\n' = 0 := rfl
    have hclose : "'".toList.count '\n' = 0 := rfl
    have hmessage : message (invalid text) = "invalid token '" ++ text ++ "'" := rfl
    rw [hmessage, String.toList_append, String.toList_append, List.count_append, List.count_append,
      hopen, hclose, newlines, Nat.zero_add, Nat.add_zero]

theorem Diagnostic.count_render (d : Diagnostic) :
    d.render.toList.count '\n' = d.fault.newlines := by
  have hline := List.count_eq_zero.2 (newline_notMem_toDigits d.line.toNat)
  have hcode := List.count_eq_zero.2 d.fault.newline_notMem_code
  simp [render, code, message, List.count_append, hline, hcode, d.fault.count_message]

/-- The line of a diagnostic is broken just if it reports a text with a newline. -/
theorem Diagnostic.newline_mem_render_iff (d : Diagnostic) :
    '\n' ∈ d.render.toList ↔ ∃ text, d.fault = .invalid text ∧ '\n' ∈ text.toList := by
  rw [← List.count_pos_iff, d.count_render]
  cases hfault : d.fault with
  | missing kind => simp [Fault.newlines]
  | invalid text => simp [Fault.newlines, List.count_pos_iff]

/-! ## All diagnostics of a tree -/

namespace Tree

/-- The tokens of a tree that were left out, in order. -/
def leftOut (tree : Tree) : List Token := tree.tokens.flatMap (·.invalidLeading)

/-- The report on a tree, each diagnostic with the end of its line. -/
def report (tree : Tree) : String := String.join (tree.diagnostics.map fun d => d.render ++ "\n")

variable {text : String} {limits : Limits} {tree : Tree}

/-- The newlines in the reports on tokens are those of the texts left out before them. -/
theorem count_render_due (t : Token) :
    (t.due.flatMap (·.render.toList)).count '\n' =
      (t.invalidLeading.flatMap (·.text.toList)).count '\n' := by
  have hown : ((if t.missing then [Diagnostic.missing t.kind t.line] else []).flatMap
      (·.render.toList)).count '\n' = 0 := by
    split
    · rw [List.flatMap_singleton]
      exact Diagnostic.count_render _
    · rfl
  have hleading : ((t.invalidLeading.map fun u => Diagnostic.invalid u.text u.line).flatMap
      (·.render.toList)).count '\n' = (t.invalidLeading.flatMap (·.text.toList)).count '\n' := by
    rw [List.flatMap_map]
    exact Text.count_flatMap_congr fun u _ => Diagnostic.count_render _
  rw [Token.due, List.flatMap_append, List.count_append, hown, hleading, Nat.add_zero]

theorem count_render_flatMap_due (ts : List Token) :
    ((ts.flatMap Token.due).flatMap (·.render.toList)).count '\n' =
      ((ts.flatMap (·.invalidLeading)).flatMap (·.text.toList)).count '\n' := by
  rw [List.flatMap_assoc, List.flatMap_assoc]
  exact Text.count_flatMap_congr fun t _ => count_render_due t

/-- A reported token that has a newline was left out. -/
theorem mem_due_of_newline {t : Token} {d : Diagnostic} (hd : d ∈ t.due)
    (hline : '\n' ∈ d.render.toList) :
    ∃ u ∈ t.invalidLeading, d = .invalid u.text u.line ∧ '\n' ∈ u.text.toList := by
  obtain ⟨text, hfault, htext⟩ := d.newline_mem_render_iff.1 hline
  rcases List.mem_append.1 hd with hleading | hown
  · obtain ⟨u, hu, rfl⟩ := List.mem_map.1 hleading
    cases hfault
    exact ⟨u, hu, rfl, htext⟩
  · split at hown
    · rw [List.mem_singleton.1 hown] at hfault
      cases hfault
    · cases hown

theorem ofText_of_scan {tokens : List Token} (h : Token.scan text = .ok tokens) (limits : Limits) :
    ofText text limits = ofTokens tokens limits := by
  rw [ofText, h]

/-- A text that has a tree has tokens. -/
theorem exists_scan_of_ofText (h : ofText text limits = .ok tree) :
    ∃ tokens, Token.scan text = .ok tokens ∧ ofTokens tokens limits = .ok tree := by
  unfold ofText at h
  split at h
  · exact ⟨_, ‹_›, h⟩
  · cases h

/-- A token left out is a token of the text, with its report. -/
theorem bare_mem_source {u : Token} (h : u ∈ tree.leftOut) : u.bare ∈ tree.source := by
  obtain ⟨t, ht, hu⟩ := List.mem_flatMap.1 h
  exact List.mem_flatMap.2 ⟨t, ht, List.mem_map_of_mem (List.mem_append_left _ hu)⟩

/-- The lines of a report. The line of a diagnostic is broken just if it reports a token left out with
a newline in its text, and only string literals, the text of templates and documentation are such
tokens. So the report has as many lines as there are diagnostics, and one more for each of these
newlines; without them it is cut into the diagnostics by cutting it into lines. -/
theorem report_lines (text : String) (limits : Limits) (tree : Tree)
    (h : ofText text limits = .ok tree) :
    (∀ d ∈ tree.diagnostics, '\n' ∈ d.render.toList ↔
      ∃ u ∈ tree.leftOut, d = .invalid u.text u.line ∧ '\n' ∈ u.text.toList) ∧
    (∀ u ∈ tree.leftOut, '\n' ∈ u.text.toList → u.kind ∈ Lexer.multiline) ∧
    tree.report.toList.count '\n' =
      tree.diagnostics.length + (tree.leftOut.flatMap (·.text.toList)).count '\n' ∧
    ((∀ u ∈ tree.leftOut, '\n' ∉ u.text.toList) →
      tree.report.toList.splitOn '\n' = tree.diagnostics.map (·.render.toList) ++ [[]]) := by
  obtain ⟨tokens, hscan, hparse⟩ := exists_scan_of_ofText h
  have hinput := Token.isInput_of_scan hscan
  have hsource := source_ofTokens hinput hparse
  have hdue := diagnostics_eq_due
    (reported_ofTokens hinput (Token.unreserved_of_scan hscan) hparse)
  have hreport : tree.report = String.join ((tree.diagnostics.map (·.render)).map (· ++ "\n")) := by
    rw [report, List.map_map]
    rfl
  have hbroken : ∀ d ∈ tree.diagnostics, '\n' ∈ d.render.toList →
      ∃ u ∈ tree.leftOut, d = .invalid u.text u.line ∧ '\n' ∈ u.text.toList := by
    intro d hd hline
    rw [hdue] at hd
    obtain ⟨t, ht, hd⟩ := List.mem_flatMap.1 hd
    obtain ⟨u, hu, heq⟩ := mem_due_of_newline hd hline
    exact ⟨u, List.mem_flatMap.2 ⟨t, ht, hu⟩, heq⟩
  refine ⟨fun d hd => ⟨hbroken d hd, ?_⟩, fun u hu hline => ?_, ?_, fun hnone => ?_⟩
  -- a report on a token left out has the newlines of its text
  · rintro ⟨u, -, rfl, hline⟩
    exact (Diagnostic.newline_mem_render_iff _).2 ⟨u.text, rfl, hline⟩
  -- a token left out is one that was scanned, so the scanner tells its kind
  · exact Lexer.kind_of_newline_of_scan hscan u.bare (hsource ▸ bare_mem_source hu) hline
  · have hcount : (tree.diagnostics.flatMap (·.render.toList)).count '\n' =
        (tree.leftOut.flatMap (·.text.toList)).count '\n' := by
      rw [hdue, count_render_flatMap_due, leftOut]
    rw [hreport, Text.count_join_lines, List.length_map, List.flatMap_map, hcount]
  · have hlines : ∀ line ∈ tree.diagnostics.map (·.render), '\n' ∉ line.toList := by
      intro line hline hnewline
      obtain ⟨d, hd, rfl⟩ := List.mem_map.1 hline
      obtain ⟨u, hu, -, htext⟩ := hbroken d hd hnewline
      exact hnone u hu htext
    rw [hreport, Text.splitOn_join_lines hlines, List.map_map]
    rfl

/-- A string literal with a newline in its value, and nothing else. -/
theorem scan_literal_with_newline :
    Token.scan "\"a\\nb\"" = .ok [.plain .stringLiteral "a\nb" 1, .eof 1] := by
  have hscan : Lexer.scan (.start "\"a\\nb\"".toList) [] =
      .ok [.plain .stringLiteral "a\nb" 1, .eof 1] :=
    (Lexer.scan_next rfl []).trans (Lexer.scan_end rfl)
  exact congrArg (Except.map Lexer.joinDocumentation) hscan

/-- The literal is left out, and that is the only report. -/
theorem exists_ofText_literal : ∃ tree, ofText "\"a\\nb\"" .standard = .ok tree ∧
    tree.diagnostics = [.invalid "a\nb" 1] := by
  obtain ⟨tree, htree, hdiagnostics⟩ : ∃ tree,
      ofTokens [.plain .stringLiteral "a\nb" 1, .eof 1] .standard = .ok tree ∧
        tree.diagnostics = [.invalid "a\nb" 1] := Except.exists_of_any (by cbv)
  exact ⟨tree, (ofText_of_scan scan_literal_with_newline _).trans htree, hdiagnostics⟩

/-- The report on it takes two lines, and nothing tells that they are one diagnostic. -/
theorem literal_reported_on_two_lines : ∃ tree, ofText "\"a\\nb\"" .standard = .ok tree ∧
    tree.diagnostics.length = 1 ∧
    tree.report.toList.count '\n' =
      tree.diagnostics.length + (tree.leftOut.flatMap (·.text.toList)).count '\n' := by
  obtain ⟨tree, htree, hdiagnostics⟩ := exists_ofText_literal
  exact ⟨tree, htree, by rw [hdiagnostics]; rfl, (report_lines _ _ _ htree).2.2.1⟩

/-- The line of a diagnostic is not always whole. -/
theorem literal_breaks_its_line : ∃ tree, ofText "\"a\\nb\"" .standard = .ok tree ∧
    ∃ d ∈ tree.diagnostics, '\n' ∈ d.render.toList := by
  obtain ⟨tree, htree, hdiagnostics⟩ := exists_ofText_literal
  refine ⟨tree, htree, .invalid "a\nb" 1, ?_, ?_⟩
  · rw [hdiagnostics]
    exact List.mem_singleton_self _
  · exact (Diagnostic.newline_mem_render_iff _).2 ⟨"a\nb", rfl, by decide⟩

end Tree

end Mend
