import Mathlib.Data.List.DropRight
import Mend.Proofs.Token.Moved
import Mend.Proofs.Token.Nesting

/-!
# The canonical text of some tokens

Tokens can be written so that they are found again. In code a token gets a line of its own, except that
nothing stands between a template and what is in it: there a character more would be text.
-/

namespace Mend.Lexer

/-- How a character is written in a string literal. -/
def escaped : Char → List Char
  | '\\' => ['\\', '\\']
  | '"' => ['\\', '"']
  | '\n' => ['\\', 'n']
  | '\t' => ['\\', 't']
  | c => [c]

/-- How a character is written in documentation, of which each line starts with a hash. -/
def hashed (c : Char) : List Char := if c = '\n' then ['\n', '#'] else [c]

/-- How a token is written. -/
def spelled (t : Token) : List Char :=
  match t.kind with
  | .stringLiteral => '"' :: (t.text.toList.flatMap escaped ++ ['"'])
  | .documentationString => '#' :: t.text.toList.flatMap hashed
  | .eof => []
  | _ => t.text.toList

/-- Whether a newline is written behind a token: not at the end, and not where it would be text of a
template, or between a template and the code in it. -/
def hasLine (modes : List Mode) (t : Token) : Bool :=
  !inText (modesBehind modes t) && t.kind != .interpolationStart && t.kind != .eof

/-- Some tokens as they are written one behind the other. -/
def written (modes : List Mode) : List Token → List Char
  | [] => []
  | t :: rest =>
    spelled t ++ ((if hasLine modes t then ['\n'] else []) ++ written (modesBehind modes t) rest)

/-- The canonical text of some tokens. -/
def canonical (tokens : List Token) : String := String.ofList (written [] tokens)

variable {text passed chars rest more : List Char} {found : Option (Kind × List Char)}
  {modes modes' : List Mode} {pieces : List Piece} {cursor : Cursor} {kind : Kind}
  {ts us : List Token} {t : Token} {line : UInt32}

/-! ## Strings and documentation -/

/-- A character is read as it was, however it is written. -/
theorem stringText_escaped_append (c : Char) (cs : List Char) :
    stringText (escaped c ++ cs) = (stringText cs).map fun (inside, rest) => (c :: inside, rest) := by
  unfold escaped
  split
  · rfl
  · rfl
  · rfl
  · rfl
  · rename_i hescape hquote hline htab
    exact stringText_cons hquote hline hescape

theorem stringText_escaped (text rest : List Char) :
    stringText (text.flatMap escaped ++ '"' :: rest) = .ok (text, rest) := by
  induction text with
  | nil => rfl
  | cons c text ih =>
    rw [List.flatMap_cons, List.append_assoc, stringText_escaped_append, ih]
    rfl

/-- What is trimmed at one end is trimmed at the other without losing that. -/
theorem trim_trim (cs : List Char) : Text.trim (Text.trim cs) = Text.trim cs := by
  have hends : ((cs.dropWhile Text.isBlank).rdropWhile Text.isBlank).dropWhile Text.isBlank =
      (cs.dropWhile Text.isBlank).rdropWhile Text.isBlank := by
    obtain ⟨after, hafter⟩ := List.rdropWhile_prefix (l := cs.dropWhile Text.isBlank) Text.isBlank
    cases hkept : (cs.dropWhile Text.isBlank).rdropWhile Text.isBlank with
    | nil => rfl
    | cons c kept =>
      have hfirst := (spanOf_spec Text.isBlank cs).2.2 c
      rw [spanOf, ← hafter, hkept] at hfirst
      exact List.dropWhile_cons_of_neg (by simp [hfirst rfl])
  change (((cs.dropWhile Text.isBlank).rdropWhile Text.isBlank).dropWhile Text.isBlank).rdropWhile
    Text.isBlank = (cs.dropWhile Text.isBlank).rdropWhile Text.isBlank
  rw [hends, List.rdropWhile_idempotent]

theorem trim_sublist (cs : List Char) : (Text.trim cs).Sublist cs :=
  (List.rdropWhile_prefix (l := cs.dropWhile Text.isBlank) Text.isBlank).sublist.trans
    (List.dropWhile_sublist _)

theorem hashed_eq_self (h : '\n' ∉ text) : text.flatMap hashed = text := by
  induction text with
  | nil => rfl
  | cons c text ih =>
    have hc : c ≠ '\n' := fun hc => h (hc ▸ List.mem_cons_self)
    rw [List.flatMap_cons, ih fun hmem => h (List.mem_cons_of_mem c hmem), hashed, if_neg hc]
    rfl

/-! ## Tokens one behind the other -/

theorem written_append (hts : through modes ts = some modes') :
    written modes (ts ++ us) = written modes ts ++ written modes' us := by
  induction ts generalizing modes with
  | nil =>
    cases hts
    rfl
  | cons t rest ih =>
    rw [through] at hts
    split at hts
    · rw [List.cons_append, written, written, ih hts, List.append_assoc, List.append_assoc]
    · cases hts

theorem written_documentation (hcode : inText modes = false) (ht : t.kind = .documentationString)
    (rest : List Token) : written modes (t :: rest) =
      '#' :: (t.text.toList.flatMap hashed ++ '\n' :: written modes rest) := by
  have hline : hasLine modes t = true := by
    rw [hasLine, modesBehind_documentation hcode ht, hcode, ht]
    rfl
  rw [written, modesBehind_documentation hcode ht, hline, spelled, ht]
  rfl

/-- Joined documentation is written like the lines it is joined from. -/
theorem written_joinDocumentation (hts : through modes ts = some modes') :
    written modes (joinDocumentation ts) = written modes ts := by
  induction ts generalizing modes with
  | nil => rfl
  | cons t rest ih =>
    rw [through] at hts
    split at hts
    · rename_i hbelongs
      rw [joinDocumentation_cons]
      rcases attach_cases t (joinDocumentation rest) with ⟨next, more, hnext, hboth, heq⟩ | ⟨heq, -⟩
      · have hcode : inText modes = false := by
          cases htext : inText modes with
          | false => rfl
          | true =>
            rw [htext, hboth.1] at hbelongs
            cases hbelongs
        rw [modesBehind_documentation hcode hboth.1] at hts
        have hjoined := written_documentation (t := { t with text := t.text ++ "\n" ++ next.text })
          hcode hboth.1 more
        rw [heq, hjoined, written_documentation hcode hboth.1, ← ih hts, hnext,
          written_documentation hcode hboth.2]
        simp [hashed]
      · rw [heq, written, written, ih hts]
    · cases hts

/-! ## Reading what is written -/

/-- All but documentation and string literals is written as it reads. -/
theorem spelled_plain (hkind : kind ∉ [Kind.documentationString, .stringLiteral, .eof])
    (chars : List Char) :
    spelled (.plain kind (String.ofList chars) line) = chars := by
  obtain ⟨hdoc, hstring, heof⟩ :
      kind ≠ .documentationString ∧ kind ≠ .stringLiteral ∧ kind ≠ .eof := by simpa using hkind
  unfold spelled
  split
  · exact absurd ‹_› hstring
  · exact absurd ‹_› hdoc
  · exact absurd ‹_› heof
  · exact String.toList_ofList ..

theorem joins_brace {c : Char} (hc : Kind.ofSymbol c = .backtick ∨ Kind.ofSymbol c = .closeBrace)
    (d : Char) : joins c d = false := by
  obtain rfl | rfl : c = '`' ∨ c = '\x7d' := by
    unfold Kind.ofSymbol at hc
    split at hc <;> simp at hc ⊢
  · rw [joins, Kind.ofPair?]
    · rfl
    all_goals simp
  · rw [joins, Kind.ofPair?]
    · rfl
    all_goals simp

/-- A backtick or a closing brace is found in code whatever follows. -/
theorem Lexeme.brace (h : Lexeme false passed (some (kind, chars)) rest)
    (hkind : kind = .backtick ∨ kind = .closeBrace) (more : List Char) :
    passed = chars ∧ Lexeme false passed (some (kind, chars)) more := by
  cases h with
  | documentation | string | integer | decimal => rcases hkind with hkind | hkind <;> cases hkind
  | @word c tail =>
    obtain ⟨hback, -, hclose⟩ := keyword_ne (String.ofList (c :: tail))
    exact absurd hkind (not_or.2 ⟨hback, hclose⟩)
  | pair hpair =>
    obtain ⟨-, -, -, -, hback, -, hclose⟩ := ofPair?_table hpair
    exact absurd hkind (not_or.2 ⟨hback, hclose⟩)
  | symbol hbare hname _ => exact ⟨rfl, .symbol hbare hname fun d _ => joins_brace hkind d⟩

/-- A token of code is found where it is written. -/
theorem Lexeme.rewrite (h : Lexeme false passed (some (kind, chars)) rest) (line : UInt32)
    (more : List Char) :
    Lexeme false (spelled (.plain kind (String.ofList chars) line)) (some (kind, chars))
      ('\n' :: more) := by
  rcases h.code_cases with ⟨inside, hinside, rfl, rfl, rfl⟩ | ⟨-, -, rfl, -⟩ | ⟨rfl, hkind⟩
  · have hline : '\n' ∉ Text.trim inside := fun hmem => hinside ((trim_sublist inside).mem hmem)
    have hlexeme : Lexeme false ('#' :: Text.trim inside)
        (some (.documentationString, Text.trim (Text.trim inside))) ('\n' :: more) :=
      .documentation hline (by rintro d ⟨⟩; rfl)
    rw [trim_trim] at hlexeme
    simpa [spelled, Token.plain, hashed_eq_self hline] using hlexeme
  · have hlexeme : Lexeme false ('"' :: (chars.flatMap escaped ++ ['"']))
        (some (.stringLiteral, chars)) ('\n' :: more) :=
      .string fun more => by
        rw [List.append_assoc]
        exact stringText_escaped chars more
    simpa [spelled, Token.plain] using hlexeme
  · have hsublist : [Kind.documentationString, .stringLiteral, .eof].Sublist rewritten := by decide
    have hcut : Lexeme false passed (some (kind, passed)) ([] ++ rest) := h
    rw [spelled_plain fun hmem => hkind (hsublist.mem hmem)]
    exact hcut.cut more

theorem brace_of_inText (hcode : inText modes = false)
    (h : inText (modesAfter line kind modes) = true) : kind = .backtick ∨ kind = .closeBrace := by
  by_contra hkind
  obtain ⟨hback, hclose⟩ := not_or.1 hkind
  have hsame : inText (modesAfter line kind modes) = inText modes := by
    by_cases hopen : kind = .openBrace
    · rw [hopen]
      rcases modes with - | ⟨- | depth, outer⟩ <;> rfl
    · rw [modesAfter_of_ne hback hopen hclose]
  rw [hsame, hcode] at h
  cases h

/-- A token is found where it is written. -/
theorem Lexeme.reread (h : Lexeme (inText modes) passed (some (kind, chars)) rest)
    (ht : t = .plain kind (String.ofList chars) line) (hmore : kind = .templateString → EndsText more) :
    Lexeme (inText modes) (spelled t) (some (kind, chars))
      ((if hasLine modes t then ['\n'] else []) ++ more) := by
  subst ht
  cases htext : inText modes with
  | true =>
    rw [htext] at h
    obtain ⟨kind', hkind, hfound⟩ := h.template_cases
    cases hfound
    have hverbatim : ∀ kind ∈ [Kind.backtick, .interpolationStart, .templateString],
        kind ∉ [Kind.documentationString, .stringLiteral, .eof] := by decide
    rw [spelled_plain (hverbatim kind hkind)]
    refine h.follow fun chars hliteral => ?_
    cases hliteral
    have hline : hasLine modes (.plain .templateString (String.ofList passed) line) = false := by
      rw [hasLine, modesBehind_literal htext rfl, htext]
      rfl
    rw [hline]
    exact hmore rfl
  | false =>
    rw [htext] at h
    split
    · exact h.rewrite line more
    · rename_i hline
      obtain ⟨-, hinterpolation, heof⟩ : kind ≠ .templateString ∧ kind ≠ .interpolationStart ∧
          kind ≠ .eof := by simpa [belongs] using belongs_of_lexeme h
      have hbehind : inText (modesAfter line kind modes) = true := by
        by_contra hcode
        rw [hasLine, modesBehind_of_code htext] at hline
        simp [Token.plain, Bool.eq_false_iff.2 hcode, hinterpolation, heof] at hline
      have hkind := brace_of_inText htext hbehind
      obtain ⟨rfl, hbrace⟩ := h.brace hkind more
      rw [spelled_plain (by rcases hkind with rfl | rfl <;> decide)]
      exact hbrace

/-- Text of a template goes on where the next token is written, whatever stands behind that. -/
theorem Scans.endsText_spelled (h : Scans text pieces cursor)
    (hlexeme : Lexeme (inText cursor.modes) passed (some (kind, chars)) rest)
    (hrest : cursor.rest = passed ++ rest) (more : List Char) :
    ∀ last ∈ (tokensIn pieces).getLast?, last.kind = .templateString →
      EndsText (spelled (.plain kind (String.ofList chars) cursor.line) ++ more) := by
  intro last hlast hkind
  obtain ⟨htext, hends⟩ := h.endsText last hlast hkind
  rw [hrest] at hends
  rw [htext] at hlexeme
  cases hlexeme with
  | templateEnd =>
    rw [spelled_plain (by decide)]
    exact .inr (.inl rfl)
  | interpolation =>
    rw [spelled_plain (by decide)]
    exact .inr (.inr ⟨more, rfl⟩)
  | text hne hback hopen hliteral =>
    exact absurd hends (IsLiteral.not_endsText ⟨hne, hback, hopen⟩ hliteral)

/-- No token is found where a newline is written in code. -/
theorem Scans.newline {written : Bool}
    (h : Scans text pieces ⟨(if written then ['\n'] else []) ++ more, line, modes⟩)
    (hcode : written = true → inText modes = false) :
    ∃ pieces' line', Scans text pieces' ⟨more, line', modes⟩ ∧ tokensIn pieces' = tokensIn pieces := by
  cases written with
  | false => exact ⟨pieces, line, h, rfl⟩
  | true =>
    have hblank : Lexeme (inText modes) ['\n'] none more := hcode rfl ▸ .blank (by decide)
    refine ⟨_, _, h.read hblank rfl, ?_⟩
    rw [tokensIn_append, tokensIn_single]
    exact List.append_nil _

/-- Where a token is written behind others it is found, if the modes there are alike but for lines. -/
theorem Scans.spelled {t' : Token}
    (h : Scans text pieces ⟨Lexer.spelled t ++ ((if hasLine modes t then ['\n'] else []) ++ more),
      line, modes'⟩)
    (hlexeme : Lexeme (inText modes) (Lexer.spelled t) (some (kind, chars))
      ((if hasLine modes t then ['\n'] else []) ++ more))
    (ht : tokenOf line (some (kind, chars)) = some t')
    (hbehind : inText (modesBehind modes' t') = inText (modesBehind modes t))
    (hmodes : inText modes' = inText modes) :
    ∃ pieces' line', Scans text pieces' ⟨more, line', modesBehind modes' t'⟩ ∧
      tokensIn pieces' = tokensIn pieces ++ [t'] := by
  rw [← hmodes] at hlexeme
  have hread := h.read hlexeme rfl
  rw [cursorBehind, ht] at hread
  obtain ⟨pieces', line', hscans, htokens⟩ := hread.newline fun hline => by
    rw [hasLine, Bool.and_eq_true, Bool.and_eq_true] at hline
    exact hbehind.trans (by simpa using hline.1.1)
  refine ⟨pieces', line', hscans, ?_⟩
  rw [htokens, tokensIn_append, tokensIn_single]
  rfl

/-- The tokens found in a text are found where they are written. -/
theorem Scans.reread (h : Scans text pieces cursor)
    (hmore : ∀ last ∈ (tokensIn pieces).getLast?, last.kind = .templateString → EndsText more) :
    ∃ pieces' line modes', Scans (written [] (tokensIn pieces) ++ more) pieces' ⟨more, line, modes'⟩ ∧
      modes'.map (Mode.moved anyLine) = cursor.modes.map (Mode.moved anyLine) ∧
      (tokensIn pieces').map (moved anyLine) = (tokensIn pieces).map (moved anyLine) := by
  induction h using Scans.induct generalizing more with
  | hstart => exact ⟨[], 1, [], .start, rfl, rfl⟩
  | @hread pieces cursor passed found rest hscans hlexeme hrest ih =>
    rw [tokensIn_append, tokensIn_single] at hmore ⊢
    cases found with
    | none =>
      rw [tokenOf, Option.map_none, Option.toList_none, List.append_nil] at hmore ⊢
      exact ih hmore
    | some token =>
      obtain ⟨kind, chars⟩ := token
      rw [tokenOf, Option.map_some, Option.toList_some, List.getLast?_concat] at hmore
      have hreread := hlexeme.reread
        (t := .plain kind (String.ofList chars) cursor.line) rfl (hmore _ rfl)
      obtain ⟨pieces', line, modes', hscans', hmodes, htokens⟩ :=
        ih (hscans.endsText_spelled hlexeme hrest _)
      have hbehind : (modesBehind modes' (.plain kind (String.ofList chars) line)).map _ = _ :=
        modesBehind_alike hmodes (t := .plain kind (String.ofList chars) cursor.line) rfl
      obtain ⟨pieces'', line', hlast, hfound⟩ :=
        hscans'.spelled hreread rfl (inText_alike hbehind) (inText_alike hmodes)
      refine ⟨pieces'', line', _, ?_, hbehind, ?_⟩
      · change Scans (written [] (tokensIn pieces ++ [_]) ++ more) _ _
        rw [written_append hscans.through_eq, written, written, List.append_nil, List.append_assoc,
          List.append_assoc]
        exact hlast
      · rw [hfound, List.map_append, List.map_append, htokens]
        rfl

/-- The tokens of a text are found again in their canonical text, with the same kinds and texts. -/
theorem scan_canonical {text : String} {tokens : List Token} (h : Token.scan text = .ok tokens) :
    ∃ again, Token.scan (canonical tokens) = .ok again ∧
      again.map (fun t => (t.kind, t.text)) = tokens.map (fun t => (t.kind, t.text)) := by
  obtain ⟨found, hscan, rfl⟩ := Except.map_eq_ok h
  obtain ⟨pieces, cursor, hends, hnone, rfl⟩ := ends_of_scan hscan
  have hmodes := hends.scans.opened.openTemplate?_eq_none hnone
  have hthrough := hends.scans.through_eq
  have hjoined : through [] (joinDocumentation (tokensIn pieces)) = some cursor.modes := by
    rw [through_joinDocumentation, hthrough]
  have hcanonical : (canonical (joinDocumentation (tokensIn pieces ++ [.eof cursor.line]))).toList =
      written [] (tokensIn pieces) := by
    rw [canonical, String.toList_ofList, joinDocumentation_eof, written_append hjoined,
      written_joinDocumentation hthrough, hmodes]
    exact List.append_nil _
  have hnil : EndsText [] := .inl rfl
  obtain ⟨pieces', line, modes', hscans, hmodes', htokens⟩ :=
    hends.scans.reread fun _ _ _ => hnil
  rw [List.append_nil, ← hcanonical] at hscans
  rw [hmodes, List.map_nil, List.map_eq_nil_iff] at hmodes'
  have hends' : Ends _ pieces' ⟨[], line, modes'⟩ := ⟨hscans, rfl⟩
  have hscan' := hends'.scan_eq
  rw [hmodes'] at hscan'
  refine ⟨joinDocumentation (tokensIn pieces' ++ [.eof line]), by rw [Token.scan, hscan']; rfl, ?_⟩
  have halike : (joinDocumentation (tokensIn pieces' ++ [.eof line])).map (moved anyLine) =
      (joinDocumentation (tokensIn pieces ++ [.eof cursor.line])).map (moved anyLine) := by
    rw [← joinDocumentation_moved, ← joinDocumentation_moved, List.map_append, List.map_append,
      htokens]
    rfl
  have hkinds := congrArg (List.map fun t => (t.kind, t.text)) halike
  rw [List.map_map, List.map_map] at hkinds
  exact hkinds

/-- A string literal in a template, with documentation before it. -/
theorem scan_canonical_template :
    ∃ tokens again, Token.scan "#  a\n`\"$\x7b\"b\"\x7d`" = .ok tokens ∧
      canonical tokens = "#a\n`\"$\x7b\"b\"\n\x7d`\n" ∧
      Token.scan (canonical tokens) = .ok again ∧
      again.map (fun t => (t.kind, t.text)) = tokens.map (fun t => (t.kind, t.text)) := by
  have hscan : scan (.start "#  a\n`\"$\x7b\"b\"\x7d`".toList) [] = _ :=
    calc scan (.start "#  a\n`\"$\x7b\"b\"\x7d`".toList) []
      _ = scan ⟨['\n', '`', '"', '$', '\x7b', '"', 'b', '"', '\x7d', '`'], 1, []⟩ _ :=
        scan_next rfl []
      _ = scan ⟨['`', '"', '$', '\x7b', '"', 'b', '"', '\x7d', '`'], 2, []⟩ _ := scan_next rfl _
      _ = scan ⟨['"', '$', '\x7b', '"', 'b', '"', '\x7d', '`'], 2, [.template 2]⟩ _ :=
        scan_next rfl _
      _ = scan ⟨['$', '\x7b', '"', 'b', '"', '\x7d', '`'], 2, [.template 2]⟩ _ := scan_next rfl _
      _ = scan ⟨['"', 'b', '"', '\x7d', '`'], 2, [.interpolation 0, .template 2]⟩ _ :=
        scan_next rfl _
      _ = scan ⟨['\x7d', '`'], 2, [.interpolation 0, .template 2]⟩ _ := scan_next rfl _
      _ = scan ⟨['`'], 2, [.template 2]⟩ _ := scan_next rfl _
      _ = scan ⟨[], 2, []⟩ _ := scan_next rfl _
      _ = _ := scan_end rfl
  have htokens : Token.scan "#  a\n`\"$\x7b\"b\"\x7d`" = .ok [.plain .documentationString "a" 1,
      .plain .backtick "`" 2, .plain .templateString "\"" 2, .plain .interpolationStart "$\x7b" 2,
      .plain .stringLiteral "b" 2, .plain .closeBrace "\x7d" 2, .plain .backtick "`" 2, .eof 2] := by
    rw [Token.scan, hscan]
    rfl
  obtain ⟨again, hagain, hkinds⟩ := scan_canonical htokens
  exact ⟨_, again, htokens, by rfl, hagain, hkinds⟩

end Mend.Lexer
