import Mend.Proofs.Token.Documentation
import Mend.Proofs.Token.Pieces

/-!
# Line numbers count newlines

The line on which the scanner is, is one more than the newlines it has passed over, save for those in
string literals. A string literal ends at its line, unless a backslash stands before the newline; then
the newline belongs to the literal, and it is not counted.
-/

namespace Mend.Lexer

/-- A piece in which a string literal was found. -/
def Piece.isString (piece : Piece) : Bool := piece.found.any (·.kind == .stringLiteral)

/-- How many newlines the string literals among some pieces hold. -/
def hidden (pieces : List Piece) : Nat := (consumed (pieces.filter Piece.isString)).count '\n'

variable {text passed rest : List Char} {pieces : List Piece} {cursor : Cursor} {line : UInt32}
  {found : Option (Kind × List Char)} {tokens : List Token}

@[simp] theorem hidden_append (before after : List Piece) :
    hidden (before ++ after) = hidden before + hidden after := by
  simp [hidden, List.filter_append]

/-- A newline is counted or hidden. -/
theorem count_counted (line : UInt32) (passed : List Char) (found : Option (Kind × List Char)) :
    (counted passed found).count '\n' + hidden [⟨passed, tokenOf line found⟩] =
      passed.count '\n' := by
  unfold counted
  split
  · simp [hidden, Piece.isString, tokenOf, Token.plain]
  · rename_i hfound
    have hpiece : Piece.isString ⟨passed, tokenOf line found⟩ = false := by
      cases found with
      | none => rfl
      | some token =>
        obtain ⟨kind, chars⟩ := token
        exact beq_eq_false_iff_ne.2 fun hkind => hfound chars (by rw [← hkind]; rfl)
    simp [hidden, hpiece]

/-- The line is right but for the newlines that string literals hide. -/
theorem Scans.line_eq (h : Scans text pieces cursor) (hlines : text.count '\n' < UInt32.size - 1) :
    cursor.line.toNat + hidden pieces = 1 + (consumed pieces).count '\n' := by
  induction h using Scans.induct with
  | hstart => rfl
  | @hread pieces cursor passed found rest hscans _ hrest ih =>
    have htext := congrArg (List.count '\n') hscans.text_eq
    have hcount := count_counted cursor.line passed found
    simp only [hrest, List.count_append] at htext
    have hroom : Room cursor.line (counted passed found) := by
      unfold Room
      omega
    have hline := toNat_addLines hroom
    simp only [cursorBehind, hidden_append, consumed_append, consumed_single, List.count_append]
    omega

/-- A token is on the line of the scanner where its first character is next. -/
theorem Scans.line_of_found {before after : List Piece} {piece : Piece} {t : Token}
    (h : Scans text pieces cursor) (hlines : text.count '\n' < UInt32.size - 1)
    (hpieces : pieces = before ++ piece :: after) (hfound : piece.found = some t) :
    t.line.toNat + hidden before = 1 + (consumed before).count '\n' := by
  induction h using Scans.induct generalizing after with
  | hstart => exact absurd hpieces (by simp)
  | @hread pieces cursor passed found rest hscans _ _ ih =>
    rcases List.eq_nil_or_concat after with rfl | ⟨init, last, rfl⟩
    · obtain ⟨rfl, hlast⟩ := List.append_inj' hpieces rfl
      cases hlast
      obtain ⟨token, -, rfl⟩ := Option.map_eq_some_iff.1 hfound
      exact hscans.line_eq hlines
    · rw [List.concat_eq_append, ← List.cons_append, ← List.append_assoc] at hpieces
      exact ih (List.append_inj' hpieces rfl).1

/-- No line number is greater than there are lines. -/
theorem line_le_of_scan {text : String} (h : Token.scan text = .ok tokens)
    (hlines : text.toList.count '\n' < UInt32.size - 1) :
    ∀ t ∈ tokens, t.line.toNat ≤ 1 + text.toList.count '\n' := by
  obtain ⟨found, hscan, rfl⟩ := Except.map_eq_ok h
  obtain ⟨pieces, cursor, hends, -, rfl⟩ := ends_of_scan hscan
  have htext := hends.consumed_eq
  intro t ht
  rw [joinDocumentation_eof] at ht
  rcases List.mem_append.1 ht with hbody | hlast
  · obtain ⟨first, hfirst, -, hline⟩ := exists_of_mem_joinDocumentation hbody
    obtain ⟨piece, hpiece, hfound⟩ := List.mem_filterMap.1 hfirst
    obtain ⟨before, after, rfl⟩ := List.append_of_mem hpiece
    have hcount := hends.scans.line_of_found hlines rfl hfound
    rw [consumed_append] at htext
    rw [hline, ← htext, List.count_append]
    omega
  · have hcount := hends.scans.line_eq hlines
    rw [htext] at hcount
    rw [List.mem_singleton.1 hlast]
    change cursor.line.toNat ≤ _
    omega

/-! ## Newlines in string literals -/

end Mend.Lexer
