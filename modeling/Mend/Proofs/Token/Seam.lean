import Mend.Proofs.Token.Moved
import Mend.Proofs.Token.Nesting
import Mend.Proofs.Token.Newline

/-!
# Texts one behind the other

Between lines a text can be cut: the tokens of two texts with a newline between them are the tokens of
the one and, on later lines, those of the other. What is read of the first text does not depend on what
stands behind the newline (`Scans.before_newline`), at its end nothing is open, and from there on the
scan is that of the second text but for the lines (`Scans.later`). Only documentation is joined across
the newline.
-/

namespace Mend.Lexer

/-- A piece some lines further on. -/
def Piece.later (lines : UInt32) (piece : Piece) : Piece :=
  { piece with found := piece.found.map (moved (lines + ·)) }

variable {a b text passed rest : List Char} {found : Option (Kind × List Char)} {modes : List Mode}
  {before pieces : List Piece} {cursor : Cursor} {tokens : List Token} {lines line : UInt32}

/-! ## The first text -/

/-- A lexeme is read as before with a newline behind its text, if it is not text of a template that the
text ends with. -/
theorem Lexeme.before_newline (h : Lexeme (inText modes) passed found rest)
    (hlast : rest ≠ [] ∨ inText ((tokenOf line found).elim modes (modesBehind modes)) = false)
    (b : List Char) : Lexeme (inText modes) passed found (rest ++ '\n' :: b) := by
  cases hmodes : inText modes with
  | false =>
    rw [hmodes, ← List.append_nil rest] at h
    exact h.cut b
  | true =>
    rw [hmodes] at h
    refine h.follow fun chars hfound => ?_
    subst hfound
    obtain ⟨-, -, -, hends⟩ := h.literal_inv
    refine hends.append (hlast.resolve_right fun hcode => ?_) _
    have hbehind := modesBehind_literal hmodes
      (t := .plain .templateString (String.ofList chars) line) rfl
    rw [tokenOf, Option.map_some, Option.elim_some, hbehind, hmodes] at hcode
    cases hcode

/-- What is read of a text is read of it with a newline behind it, if the text of a template does not
go on there. -/
theorem Scans.before_newline (h : Scans a pieces cursor)
    (hlast : cursor.rest ≠ [] ∨ inText cursor.modes = false) (b : List Char) :
    Scans (a ++ '\n' :: b) pieces { cursor with rest := cursor.rest ++ '\n' :: b } := by
  induction h using Scans.induct with
  | hstart => exact .start
  | @hread pieces cursor passed found rest hscans hlexeme hrest ih =>
    have hmore : cursor.rest ≠ [] := by
      obtain ⟨c, cs, hcs, -⟩ := hlexeme.step cursor.line
      rw [hrest, hcs]
      exact List.cons_ne_nil c cs
    refine (ih (.inl hmore)).read (hlexeme.before_newline hlast b) ?_
    simp only [hrest, List.append_assoc]
    rfl

/-! ## The second text -/

theorem cursorBehind_later (lines line : UInt32) (modes : List Mode) (passed : List Char)
    (found : Option (Kind × List Char)) (rest : List Char) :
    cursorBehind (lines + line) (modes.map (Mode.moved (lines + ·))) passed found rest =
      ⟨rest, lines + (cursorBehind line modes passed found rest).line,
        (cursorBehind line modes passed found rest).modes.map (Mode.moved (lines + ·))⟩ := by
  have hline : addLines (lines + line) (counted passed found) =
      lines + addLines line (counted passed found) := UInt32.add_assoc ..
  rw [cursorBehind, hline, tokenOf_moved (f := (lines + ·))]
  cases found with
  | none => rfl
  | some token => exact congrArg (Cursor.mk _ _) (modesBehind_moved ..)

/-- What is read of a text at its start is read of it wherever nothing is open, on later lines. -/
theorem Scans.later (h : Scans b pieces cursor) (hbefore : Scans text before ⟨b, lines + 1, []⟩) :
    Scans text (before ++ pieces.map (Piece.later lines))
      ⟨cursor.rest, lines + cursor.line, cursor.modes.map (Mode.moved (lines + ·))⟩ := by
  induction h using Scans.induct with
  | hstart =>
    rw [List.map_nil, List.append_nil]
    exact hbefore
  | @hread pieces cursor passed found rest hscans hlexeme hrest ih =>
    have hread := ih.read (by rwa [inText_moved]) hrest
    rw [cursorBehind_later, tokenOf_moved (f := (lines + ·)), List.append_assoc] at hread
    rw [List.map_append]
    exact hread

theorem tokensIn_later (lines : UInt32) (pieces : List Piece) :
    tokensIn (pieces.map (Piece.later lines)) = (tokensIn pieces).map (moved (lines + ·)) := by
  unfold tokensIn
  rw [List.filterMap_map, List.map_filterMap]
  rfl

/-! ## Both texts -/

/-- A text in which nothing is open at the end, a newline and a second text. -/
theorem Ends.append {after : List Piece} {lineA : UInt32} {last : Cursor}
    (ha : Ends a before ⟨[], lineA, []⟩) (hb : Ends b after last) :
    Ends (a ++ '\n' :: b) (before ++ [⟨['\n'], none⟩] ++ after.map (Piece.later lineA))
      ⟨[], lineA + last.line, last.modes.map (Mode.moved (lineA + ·))⟩ := by
  have hnewline := ha.scans.before_newline (.inr rfl) b
  have hstart : Scans (a ++ '\n' :: b) (before ++ [⟨['\n'], none⟩]) ⟨b, lineA + 1, []⟩ :=
    hnewline.read (.blank (by decide)) rfl
  have hlast := hb.scans.later hstart
  rw [hb.rest] at hlast
  exact ⟨hlast, rfl⟩

theorem joinDocumentation_seam {as bs : List Token}
    (hseam : ∀ s ∈ (joinDocumentation as).getLast?, ∀ t ∈ (joinDocumentation bs).head?,
      ¬ BothDocument s t) :
    joinDocumentation (as ++ bs.map (moved (line + ·))) =
      joinDocumentation as ++ (joinDocumentation bs).map (moved (line + ·)) := by
  rw [joinDocumentation_append, joinDocumentation_moved]
  rintro s hs u hu ⟨hkind, hkind'⟩
  rw [List.head?_map] at hu
  obtain ⟨t, ht, rfl⟩ := Option.map_eq_some_iff.1 hu
  -- Joining keeps the kinds on both sides of the seam.
  have hlast := getLast?_joinDocumentation as
  have hfirst := head?_joinDocumentation bs
  rw [Option.mem_def.1 hs] at hlast
  rw [ht] at hfirst
  obtain ⟨s', hs', hlast⟩ := Option.map_eq_some_iff.1 hlast
  obtain ⟨t', ht', hfirst⟩ := Option.map_eq_some_iff.1 hfirst
  exact hseam s' hs' t' ht' ⟨hlast.trans hkind, hfirst.trans hkind'⟩

/-- The tokens of two texts with a newline between them, where documentation does not meet
documentation: those of the first text without its end, and those of the second text, the line on which
the first text ends added to each of theirs. No line number wraps around if there is one for each line. -/
theorem scan_append (a b : String) {ta tb : List Token} (ha : Token.scan a = .ok ta)
    (hb : Token.scan b = .ok tb)
    (hseam : ∀ s ∈ ta.dropLast.getLast?, ∀ t ∈ tb.head?, ¬ BothDocument s t) :
    ∃ body line, ta = body ++ [.eof line] ∧
      Token.scan (a ++ "\n" ++ b) = .ok (body ++ tb.map (moved (line + ·))) ∧
      ((a ++ "\n" ++ b).toList.count '\n' < UInt32.size - 1 →
        ∀ t ∈ tb, (line + t.line).toNat = line.toNat + t.line.toNat) := by
  have hlist : (a ++ "\n" ++ b).toList = a.toList ++ '\n' :: b.toList := by simp
  have hlineA := line_le_of_scan ha
  have hlineB := line_le_of_scan hb
  obtain ⟨foundA, hscanA, rfl⟩ := Except.map_eq_ok ha
  obtain ⟨foundB, hscanB, rfl⟩ := Except.map_eq_ok hb
  obtain ⟨piecesA, ⟨_, line, modesA⟩, ⟨hscansA, rfl⟩, hnoneA, rfl⟩ := ends_of_scan hscanA
  obtain ⟨piecesB, cursorB, hendsB, hnoneB, rfl⟩ := ends_of_scan hscanB
  obtain rfl : modesA = [] := hscansA.opened.openTemplate?_eq_none hnoneA
  have hmodesB := hendsB.scans.opened.openTemplate?_eq_none hnoneB
  rw [joinDocumentation_eof, List.dropLast_concat] at hseam
  rw [joinDocumentation_eof] at hlineA
  refine ⟨_, line, joinDocumentation_eof .., ?_, fun hlines t ht => ?_⟩
  · have hscan := (Ends.append ⟨hscansA, rfl⟩ hendsB).scan_eq
    rw [hmodesB, tokensIn_append, tokensIn_append, tokensIn_single, tokensIn_later,
      Option.toList_none, List.append_nil] at hscan
    rw [Token.scan, hlist, hscan, ← joinDocumentation_seam hseam, List.map_append,
      ← List.append_assoc]
    rfl
  · rw [hlist, List.count_append, List.count_cons_self] at hlines
    have hline := hlineA (by omega) (.eof line) (List.mem_append_right _ List.mem_cons_self)
    have hlater := hlineB (by omega) t ht
    change line.toNat ≤ _ at hline
    rw [UInt32.toNat_add, Nat.mod_eq_of_lt]
    change _ < UInt32.size
    omega

/-- Two slashes with a newline between them do not start a comment. -/
theorem scan_append_slashes :
    Token.scan "a /" = .ok [.plain .identifier "a" 1, .plain .slash "/" 1, .eof 1] ∧
    Token.scan "/ b" = .ok [.plain .slash "/" 1, .plain .identifier "b" 1, .eof 1] ∧
    Token.scan ("a /" ++ "\n" ++ "/ b") = .ok [.plain .identifier "a" 1, .plain .slash "/" 1,
      .plain .slash "/" 2, .plain .identifier "b" 2, .eof 2] := by
  have ha : Token.scan "a /" =
      .ok ([.plain .identifier "a" 1, .plain .slash "/" 1] ++ [.eof 1]) := by
    have hscan : scan (.start "a /".toList) [] = _ :=
      calc scan (.start "a /".toList) []
        _ = scan ⟨[' ', '/'], 1, []⟩ _ := scan_next rfl []
        _ = scan ⟨['/'], 1, []⟩ _ := scan_next rfl _
        _ = scan ⟨[], 1, []⟩ _ := scan_next rfl _
        _ = _ := scan_end rfl
    rw [Token.scan, hscan]
    rfl
  have hb : Token.scan "/ b" =
      .ok [.plain .slash "/" 1, .plain .identifier "b" 1, .eof 1] := by
    have hscan : scan (.start "/ b".toList) [] = _ :=
      calc scan (.start "/ b".toList) []
        _ = scan ⟨[' ', 'b'], 1, []⟩ _ := scan_next rfl []
        _ = scan ⟨['b'], 1, []⟩ _ := scan_next rfl _
        _ = scan ⟨[], 1, []⟩ _ := scan_next rfl _
        _ = _ := scan_end rfl
    rw [Token.scan, hscan]
    rfl
  have hslash : ¬ BothDocument (.plain .slash "/" 1) (.plain .slash "/" 1) :=
    fun hboth => Kind.noConfusion hboth.1
  refine ⟨ha, hb, ?_⟩
  obtain ⟨body, line, htokens, hscan, -⟩ := scan_append _ _ ha hb (by
    rintro s ⟨⟩ t ⟨⟩
    exact hslash)
  obtain ⟨rfl, heof⟩ := List.append_inj' htokens rfl
  cases heof
  exact hscan

end Mend.Lexer
