import Mend.Proofs.Token.Lexeme

/-!
# The pieces of a text

The steps of a scan cut a text into pieces. `Scans` relates a text to the states that its scan passes
through, each with the pieces before it. A scan ends where nothing is left, or in a step that fails
(`Scans.ends`), so what holds of all these states by induction holds of the whole scan.
-/

namespace Mend.Lexer

/-- The characters that one step passed over, and the token it found there. -/
structure Piece where
  passed : List Char
  found : Option Token

/-- The characters of some pieces. -/
def consumed (pieces : List Piece) : List Char := pieces.flatMap (·.passed)

/-- The tokens of some pieces. -/
def tokensIn (pieces : List Piece) : List Token := pieces.filterMap (·.found)

/-- The states of the scanner in a text, with the pieces of the text before them. -/
inductive Scans (text : List Char) : List Piece → Cursor → Prop
  | start : Scans text [] (.start text)
  | step {pieces cursor c cs found next passed} (before : Scans text pieces cursor)
      (hrest : cursor.rest = c :: cs)
      (hstep : step c cs cursor.line cursor.modes = .ok (found, next))
      (hpassed : c :: cs = passed ++ next.rest) :
      Scans text (pieces ++ [⟨passed, found⟩]) next

/-- The end of a text, behind all its pieces. -/
structure Ends (text : List Char) (pieces : List Piece) (cursor : Cursor) : Prop where
  scans : Scans text pieces cursor
  rest : cursor.rest = []

variable {text : List Char} {pieces : List Piece} {cursor : Cursor} {tokens : List Token}

@[simp] theorem consumed_nil : consumed [] = [] := rfl

@[simp] theorem consumed_append (before after : List Piece) :
    consumed (before ++ after) = consumed before ++ consumed after :=
  List.flatMap_append

@[simp] theorem consumed_single (passed : List Char) (found : Option Token) :
    consumed [⟨passed, found⟩] = passed :=
  List.append_nil passed

@[simp] theorem tokensIn_nil : tokensIn [] = [] := rfl

@[simp] theorem tokensIn_append (before after : List Piece) :
    tokensIn (before ++ after) = tokensIn before ++ tokensIn after :=
  List.filterMap_append

@[simp] theorem tokensIn_single (passed : List Char) (found : Option Token) :
    tokensIn [⟨passed, found⟩] = found.toList := by
  cases found <;> rfl

namespace Scans

/-- Pieces and the rest are the text. -/
theorem text_eq (h : Scans text pieces cursor) : consumed pieces ++ cursor.rest = text := by
  induction h with
  | start => rfl
  | step before hrest hstep hpassed ih =>
    rw [consumed_append, consumed_single, List.append_assoc, ← hpassed, ← hrest, ih]

/-- The scan goes on from each of its states. -/
theorem scan_eq (h : Scans text pieces cursor) :
    scan (.start text) [] = scan cursor (tokensIn pieces).reverse := by
  induction h with
  | start => rfl
  | @step pieces cursor c cs found next passed before hrest hstep hpassed ih =>
    rw [ih, scan_step hrest, hstep, tokensIn_append, tokensIn_single, List.reverse_append]
    cases found <;> rfl

/-- One more lexeme is read. -/
theorem read {passed rest : List Char} {found : Option (Kind × List Char)}
    (h : Scans text pieces cursor) (hlexeme : Lexeme (inText cursor.modes) passed found rest)
    (hrest : cursor.rest = passed ++ rest) :
    Scans text (pieces ++ [⟨passed, tokenOf cursor.line found⟩])
      (cursorBehind cursor.line cursor.modes passed found rest) := by
  obtain ⟨c, cs, hcs, hstep⟩ := hlexeme.step cursor.line
  exact h.step (hrest.trans hcs) hstep hcs.symm

/-- What holds at the start of a text and behind every lexeme holds of all states. -/
@[elab_as_elim] theorem induct
    {motive : (pieces : List Piece) → (cursor : Cursor) → Scans text pieces cursor → Prop}
    (hstart : motive [] (.start text) .start)
    (hread : ∀ {pieces cursor passed found rest} (h : Scans text pieces cursor)
      (hlexeme : Lexeme (inText cursor.modes) passed found rest)
      (hrest : cursor.rest = passed ++ rest),
      motive pieces cursor h → motive _ _ (h.read hlexeme hrest))
    (h : Scans text pieces cursor) : motive pieces cursor h := by
  induction h with
  | start => exact hstart
  | step before hrest hstep hpassed ih =>
    obtain ⟨passed, found, rest, hlexeme, hcs, rfl, rfl⟩ := step_lexeme hstep
    obtain rfl : _ = passed := List.append_cancel_right (hpassed.symm.trans hcs)
    exact hread before hlexeme (hrest.trans hcs) ih

/-- From each of its states a scan gets to the end of the text, or to a step that fails. -/
theorem ends (h : Scans text pieces cursor) :
    (∃ pieces cursor, Ends text pieces cursor) ∨
      ∃ pieces cursor c cs e, Scans text pieces cursor ∧ cursor.rest = c :: cs ∧
        Lexer.step c cs cursor.line cursor.modes = .error e := by
  induction hlength : cursor.rest.length using Nat.strongRecOn generalizing pieces cursor with
  | ind n ih =>
    cases hrest : cursor.rest with
    | nil => exact .inl ⟨pieces, cursor, h, hrest⟩
    | cons c cs =>
      cases hstep : Lexer.step c cs cursor.line cursor.modes with
      | error e => exact .inr ⟨pieces, cursor, c, cs, e, h, hrest, hstep⟩
      | ok result =>
        obtain ⟨found, next⟩ := result
        have hshorter : next.rest.length < n := hlength ▸ hrest ▸ step_shorter hstep
        obtain ⟨passed, kind, rest, _, hcs, _, hnext⟩ := step_lexeme hstep
        have hpassed : c :: cs = passed ++ next.rest := by rw [hcs, hnext, cursorBehind]
        exact ih _ hshorter (h.step hrest hstep hpassed) rfl

end Scans

theorem Ends.consumed_eq (h : Ends text pieces cursor) : consumed pieces = text := by
  rw [← h.scans.text_eq, h.rest, List.append_nil]

/-- Whether a text has tokens is decided at its end. -/
theorem Ends.scan_eq (h : Ends text pieces cursor) :
    scan (.start text) [] = match openTemplate? cursor.modes with
      | some line => .error ⟨line, .stringTemplate⟩
      | none => .ok (tokensIn pieces ++ [.eof cursor.line]) := by
  rw [h.scans.scan_eq, scan_end h.rest]
  cases openTemplate? cursor.modes with
  | some line => rfl
  | none =>
    refine congrArg Except.ok ?_
    rw [List.reverse_cons, List.reverse_reverse]

/-- The scan goes on behind a step. -/
theorem scan_next {c : Char} {cs : List Char} {line : UInt32} {modes : List Mode}
    {found : Option Token} {next : Cursor} (h : step c cs line modes = .ok (found, next))
    (before : List Token) :
    scan ⟨c :: cs, line, modes⟩ before = scan next (found.toList ++ before) := by
  rw [scan_step rfl]
  simp only [h]

theorem scan_eq_error {c : Char} {cs : List Char} {e : LexError} (h : Scans text pieces cursor)
    (hrest : cursor.rest = c :: cs) (hstep : step c cs cursor.line cursor.modes = .error e) :
    scan (.start text) [] = .error e := by
  rw [h.scan_eq, scan_step hrest, hstep]

/-- A text that has tokens is scanned to its end. -/
theorem ends_of_scan (h : scan (.start text) [] = .ok tokens) :
    ∃ pieces cursor, Ends text pieces cursor ∧ openTemplate? cursor.modes = none ∧
      tokens = tokensIn pieces ++ [.eof cursor.line] := by
  rcases (Scans.start : Scans text [] _).ends with ⟨pieces, cursor, hends⟩ | hfails
  · rw [hends.scan_eq] at h
    cases hopen : openTemplate? cursor.modes with
    | some line =>
      rw [hopen] at h
      cases h
    | none =>
      rw [hopen] at h
      exact ⟨pieces, cursor, hends, hopen, (Except.ok.inj h).symm⟩
  · obtain ⟨pieces, cursor, c, cs, e, hscans, hrest, hstep⟩ := hfails
    rw [scan_eq_error hscans hrest hstep] at h
    cases h

end Mend.Lexer
