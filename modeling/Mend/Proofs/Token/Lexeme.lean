import Mend.Proofs.Token.Line

/-!
# Lexemes

A step of the scanner reads one lexeme: a blank, a comment, a token of code or a part of a template.
`Lexeme` lists them, each with what it asks of the characters that follow. Steps and lexemes are the
same (`step_lexeme`, `Lexeme.step`), so what a step does is said here once: which characters it passes
over, what it finds in them, and which newlines it counts. Those in a string literal are not counted.

No lexeme of code reaches over a newline behind it. What is read stays the same when the text is cut
anywhere behind a lexeme and a newline is put there (`Lexeme.cut`).
-/

namespace Mend.Lexer

/-- Whether the scanner is in the text of a template, and not in code. -/
def inText : List Mode → Bool
  | .template _ :: _ => true
  | _ => false

/-- The modes behind a token. -/
def modesBehind (modes : List Mode) (t : Token) : List Mode :=
  match modes, t.kind with
  | .template _ :: outer, .backtick => outer
  | .template line :: outer, .interpolationStart => .interpolation 0 :: .template line :: outer
  | .template line :: outer, _ => .template line :: outer
  | modes, kind => modesAfter t.line kind modes

/-- The line ends here. -/
def EndsLine (rest : List Char) : Prop := ∀ c ∈ rest.head?, c = '\n'

/-- The text of a template ends here. -/
def EndsText (rest : List Char) : Prop :=
  rest = [] ∨ rest.head? = some '`' ∨ ['$', '\x7b'] <+: rest

/-- A character that starts no blank, documentation, string or number. -/
structure Bare (c : Char) : Prop where
  blank : Text.isBlank c = false
  documentation : c ≠ '#'
  quote : c ≠ '"'
  digit : c.isDigit = false

/-- Whether two characters are a symbol, or start a comment. -/
def joins (c d : Char) : Bool := (Kind.ofPair? c d).isSome || c == '/' && (d == '/' || d == '*')

/-- A lexeme of a template's text or of code: the characters passed over, what is found in them, and
the characters that follow. -/
inductive Lexeme : Bool → List Char → Option (Kind × List Char) → List Char → Prop
  | blank {c rest} (hblank : Text.isBlank c = true) : Lexeme false [c] none rest
  | lineComment {inside rest} (hinside : '\n' ∉ inside) (hrest : EndsLine rest) :
      Lexeme false ('/' :: '/' :: inside) none rest
  | blockComment {inside rest}
      (hinside : ∀ more, commentText? (inside ++ '*' :: '/' :: more) = some (inside, more)) :
      Lexeme false ('/' :: '*' :: (inside ++ ['*', '/'])) none rest
  | documentation {inside rest} (hinside : '\n' ∉ inside) (hrest : EndsLine rest) :
      Lexeme false ('#' :: inside) (some (.documentationString, Text.trim inside)) rest
  | string {written text rest} (hwritten : ∀ more, stringText (written ++ more) = .ok (text, more)) :
      Lexeme false ('"' :: written) (some (.stringLiteral, text)) rest
  | integer {c digits rest} (hdigits : ∀ d ∈ c :: digits, d.isDigit = true)
      (hrest : ∀ d ∈ rest.head?, d.isDigit = false)
      (hpoint : ∀ d more, rest = '.' :: d :: more → d.isDigit = false) :
      Lexeme false (c :: digits) (some (.intLiteral, c :: digits)) rest
  | decimal {c whole d decimals rest} (hwhole : ∀ e ∈ c :: whole, e.isDigit = true)
      (hdecimals : ∀ e ∈ d :: decimals, e.isDigit = true)
      (hrest : ∀ e ∈ rest.head?, e.isDigit = false) :
      Lexeme false (c :: (whole ++ '.' :: d :: decimals))
        (some (.floatLiteral, c :: (whole ++ '.' :: d :: decimals))) rest
  | word {c tail rest} (hbare : Bare c) (hname : startsName c = true)
      (htail : ∀ d ∈ tail, continuesName d = true)
      (hrest : ∀ d ∈ rest.head?, continuesName d = false) :
      Lexeme false (c :: tail)
        (some ((Kind.keyword? (String.ofList (c :: tail))).getD .identifier, c :: tail)) rest
  | pair {c d kind rest} (hpair : Kind.ofPair? c d = some kind) :
      Lexeme false [c, d] (some (kind, [c, d])) rest
  | symbol {c rest} (hbare : Bare c) (hname : startsName c = false)
      (hrest : ∀ d ∈ rest.head?, joins c d = false) :
      Lexeme false [c] (some (Kind.ofSymbol c, [c])) rest
  | templateEnd {rest} : Lexeme true ['`'] (some (.backtick, ['`'])) rest
  | interpolation {rest} : Lexeme true ['$', '\x7b'] (some (.interpolationStart, ['$', '\x7b'])) rest
  | text {inside rest} (hne : inside ≠ []) (hback : '`' ∉ inside)
      (hopen : ¬ ['$', '\x7b'] <:+: inside) (hrest : EndsText rest) :
      Lexeme true inside (some (.templateString, inside)) rest

/-- The token found on a line. -/
def tokenOf (line : UInt32) (found : Option (Kind × List Char)) : Option Token :=
  found.map fun (kind, text) => .plain kind (String.ofList text) line

/-- The characters whose newlines are counted: not those of a string literal. -/
def counted (passed : List Char) : Option (Kind × List Char) → List Char
  | some (.stringLiteral, _) => []
  | _ => passed

/-- The state of the scanner behind a lexeme. -/
def cursorBehind (line : UInt32) (modes : List Mode) (passed : List Char)
    (found : Option (Kind × List Char)) (rest : List Char) : Cursor :=
  ⟨rest, addLines line (counted passed found),
    (tokenOf line found).elim modes (modesBehind modes)⟩

/-! ## Parts of a text -/

variable {p : Char → Bool} {c : Char} {cs passed inside text rest more : List Char} {line : UInt32}
  {modes : List Mode} {found : Option (Kind × List Char)}

theorem spanOf_append (hpassed : ∀ c ∈ passed, p c = true) (hrest : ∀ c ∈ rest.head?, p c = false) :
    spanOf p (passed ++ rest) = (passed, rest) := by
  have hstop : rest.takeWhile p = [] ∧ rest.dropWhile p = rest := by
    cases rest with
    | nil => exact ⟨rfl, rfl⟩
    | cons d more => simp [hrest d rfl]
  rw [spanOf, List.takeWhile_append_of_pos hpassed, List.dropWhile_append_of_pos hpassed, hstop.1,
    hstop.2, List.append_nil]

theorem spanOf_spec (p : Char → Bool) (cs : List Char) :
    cs = (spanOf p cs).1 ++ (spanOf p cs).2 ∧ (∀ c ∈ (spanOf p cs).1, p c = true) ∧
      ∀ c ∈ (spanOf p cs).2.head?, p c = false := by
  refine ⟨List.takeWhile_append_dropWhile.symm, List.all_eq_true.1 List.all_takeWhile, ?_⟩
  intro c hc
  have hstop := List.head?_dropWhile_not p cs
  rw [show cs.dropWhile p = (spanOf p cs).2 from rfl, Option.mem_def.1 hc] at hstop
  exact hstop

/-- A comment ends where it ends, whatever follows. -/
theorem commentText?_local (h : commentText? cs = some (inside, rest)) (more : List Char) :
    commentText? (inside ++ '*' :: '/' :: more) = some (inside, more) := by
  fun_induction commentText? cs generalizing inside with
  | case1 => cases h
  | case2 =>
    cases h
    rfl
  | case3 c cs hopen ih =>
    obtain ⟨⟨inside', rest'⟩, hsome, heq⟩ := Option.map_eq_some_iff.1 h
    cases heq
    rw [List.cons_append, commentText?, ih hsome]
    · rfl
    · intro tail hc htail
      -- The character behind the first one is the same as in the text that was read.
      have hcs := commentText?_append hsome
      cases inside' with
      | nil => cases htail
      | cons d inside' =>
        cases htail
        exact hopen _ hc hcs

/-- A character without a meaning of its own stands for itself in a string. -/
theorem stringText_cons (hquote : c ≠ '"') (hline : c ≠ '\n') (hescape : c ≠ '\\') :
    stringText (c :: cs) = (stringText cs).map fun (inside, rest) => (c :: inside, rest) := by
  rw [stringText]
  · exact hquote
  · exact hline
  · exact fun h _ => hescape h
  · exact fun _ _ h _ => hescape h

/-- A string literal ends where it ends, whatever follows. -/
theorem stringText_local (h : stringText cs = .ok (text, rest)) :
    ∃ written, cs = written ++ rest ∧ ∀ more, stringText (written ++ more) = .ok (text, more) := by
  fun_induction stringText cs generalizing text with
  | case1 | case3 | case4 => cases h
  | case2 =>
    cases h
    exact ⟨['"'], rfl, fun more => rfl⟩
  | case5 d cs ih =>
    obtain ⟨⟨text', rest'⟩, hrest, heq⟩ := Except.map_eq_ok h
    cases heq
    obtain ⟨written, rfl, hwritten⟩ := ih hrest
    refine ⟨'\\' :: d :: written, rfl, fun more => ?_⟩
    rw [List.cons_append, List.cons_append, stringText, hwritten]
    rfl
  | case6 d cs hquote hline hlast hpair ih =>
    obtain ⟨⟨text', rest'⟩, hrest, heq⟩ := Except.map_eq_ok h
    cases heq
    have hescape : d ≠ '\\' := by
      cases cs with
      | nil => exact fun hd => hlast hd rfl
      | cons e cs => exact fun hd => hpair e cs hd rfl
    obtain ⟨written, rfl, hwritten⟩ := ih hrest
    refine ⟨d :: written, rfl, fun more => ?_⟩
    rw [List.cons_append, stringText_cons hquote hline hescape, hwritten]
    rfl

/-- Literal text stops where the text of the template ends or a backtick or an interpolation is. -/
theorem templateText_eq (hback : '`' ∉ inside) (hopen : ¬ ['$', '\x7b'] <:+: inside)
    (hrest : EndsText rest) : templateText (inside ++ rest) = (inside, rest) := by
  induction inside with
  | nil =>
    rcases hrest with rfl | hrest | ⟨more, rfl⟩
    · rfl
    · cases rest with
      | nil => cases hrest
      | cons d more =>
        cases hrest
        rfl
    · rfl
  | cons d inside ih =>
    have htail := ih (fun h => hback (List.mem_cons_of_mem d h))
      fun h => hopen (h.trans (List.suffix_cons d inside).isInfix)
    rw [List.cons_append, templateText, htail]
    · rintro rfl
      exact hback List.mem_cons_self
    · rintro more rfl heq
      cases inside with
      | nil =>
        rcases hrest with rfl | hrest | ⟨after, rfl⟩
        · cases heq
        · rw [show rest = _ from heq] at hrest
          cases hrest
        · cases heq
      | cons e inside =>
        cases heq
        exact hopen ⟨[], inside, rfl⟩

theorem templateText_spec (cs : List Char) :
    cs = (templateText cs).1 ++ (templateText cs).2 ∧ '`' ∉ (templateText cs).1 ∧
      ¬ ['$', '\x7b'] <:+: (templateText cs).1 ∧ EndsText (templateText cs).2 := by
  have hnone : ¬ ['$', '\x7b'] <:+: ([] : List Char) := by
    rintro ⟨before, after, h⟩
    simp at h
  fun_induction templateText cs with
  | case1 => exact ⟨rfl, List.not_mem_nil, hnone, .inl rfl⟩
  | case2 cs => exact ⟨rfl, List.not_mem_nil, hnone, .inr (.inl rfl)⟩
  | case3 cs => exact ⟨rfl, List.not_mem_nil, hnone, .inr (.inr ⟨cs, rfl⟩)⟩
  | case4 c cs hback hopen ih =>
    obtain ⟨heq, hback', hopen', hrest⟩ := ih
    refine ⟨congrArg (c :: ·) heq, ?_, ?_, hrest⟩
    · intro h
      rcases List.mem_cons.1 h with h | h
      · exact hback h.symm
      · exact hback' h
    · rintro ⟨before, after, h⟩
      cases before with
      | nil =>
        obtain ⟨rfl, htail⟩ := List.cons.inj h
        exact hopen _ rfl (heq.trans (congrArg (· ++ (templateText cs).2) htail.symm))
      | cons d before =>
        obtain ⟨-, htail⟩ := List.cons.inj h
        exact hopen' ⟨before, after, htail⟩

theorem number_integer (hdigits : ∀ d ∈ passed, d.isDigit = true)
    (hrest : ∀ d ∈ rest.head?, d.isDigit = false)
    (hpoint : ∀ d more, rest = '.' :: d :: more → d.isDigit = false) :
    number (passed ++ rest) = (.intLiteral, passed, rest) := by
  unfold number
  rw [spanOf_append hdigits hrest]
  dsimp only
  split
  · rename_i d more
    rw [if_neg (Bool.eq_false_iff.1 (hpoint d more rfl))]
  · rfl

theorem number_decimal {whole decimals : List Char} {d : Char}
    (hwhole : ∀ e ∈ whole, e.isDigit = true) (hdecimals : ∀ e ∈ d :: decimals, e.isDigit = true)
    (hrest : ∀ e ∈ rest.head?, e.isDigit = false) :
    number (whole ++ '.' :: d :: decimals ++ rest) =
      (.floatLiteral, whole ++ '.' :: d :: decimals, rest) := by
  have hpoint : ∀ e ∈ ('.' :: d :: (decimals ++ rest)).head?, e.isDigit = false := by
    rintro e ⟨⟩
    rfl
  have hspan := spanOf_append hdecimals hrest
  unfold number
  rw [List.append_assoc, List.cons_append, List.cons_append, spanOf_append hwhole hpoint]
  rw [List.cons_append] at hspan
  simp only [if_pos (hdecimals d List.mem_cons_self), hspan]

/-! ## What a step reads -/

theorem addLines_of_not_mem (h : '\n' ∉ passed) : addLines line passed = line := by
  rw [addLines, List.count_eq_zero.2 h]
  exact UInt32.add_zero line

theorem not_newline_of_all (hline : p '\n' = false) (h : ∀ d ∈ passed, p d = true) :
    '\n' ∉ passed := by
  intro hmem
  rw [h _ hmem] at hline
  cases hline

theorem isBlank_of_isDigit (h : c.isDigit = true) : Text.isBlank c = false := by
  obtain ⟨hlow, hhigh⟩ : 48 ≤ c.toNat ∧ c.toNat ≤ 57 := by
    simpa [Char.isDigit, UInt32.le_iff_toNat_le] using h
  have hranges : ∀ range ∈ Text.blankRanges, range.2 < 48 ∨ 57 < range.1 := by decide
  refine Bool.eq_false_iff.2 fun hblank => ?_
  obtain ⟨range, hmem, hfrom, hto⟩ := Text.Ranges.exists_mem_of_contains hblank
  rcases hranges range hmem with hbelow | habove
  · omega
  · omega

theorem Bare.not_newline (h : Bare c) : '\n' ≠ c := by
  rintro rfl
  exact absurd h.blank (by decide)

/-- Only a comment takes a slash away from the tokens. -/
theorem codeStep_eq_tokenStep (h : ∀ d ∈ cs.head?, c = '/' → d ≠ '/' ∧ d ≠ '*') :
    codeStep c cs line modes = tokenStep c cs line modes := by
  unfold codeStep
  split
  · exact absurd rfl (h '/' rfl rfl).1
  · exact absurd rfl (h '*' rfl rfl).2
  · rfl

theorem codeStep_of_ne (h : c ≠ '/') : codeStep c cs line modes = tokenStep c cs line modes :=
  codeStep_eq_tokenStep fun _ _ hc => absurd hc h

theorem tokenStep_bare (h : Bare c) :
    tokenStep c cs line modes =
      if startsName c then
        .ok (some (.plain ((Kind.keyword? (String.ofList (c :: (spanOf continuesName cs).1))).getD
          .identifier) (String.ofList (c :: (spanOf continuesName cs).1)) line),
          ⟨(spanOf continuesName cs).2, line, modes⟩)
      else .ok (some (symbolStep c cs line modes).1, (symbolStep c cs line modes).2) := by
  rw [tokenStep, if_neg (Bool.eq_false_iff.1 h.blank), if_neg h.documentation, if_neg h.quote,
    if_neg (Bool.eq_false_iff.1 h.digit)]

theorem tokenStep_digit (h : c.isDigit = true) (cs : List Char) :
    c ≠ '/' ∧ tokenStep c cs line modes =
      .ok (some (.plain (number (c :: cs)).1 (String.ofList (number (c :: cs)).2.1) line),
        ⟨(number (c :: cs)).2.2, line, modes⟩) := by
  have hne {d : Char} (hd : d.isDigit = false) : c ≠ d := by
    rintro rfl
    rw [h] at hd
    cases hd
  refine ⟨hne rfl, ?_⟩
  rw [tokenStep, if_neg (Bool.eq_false_iff.1 (isBlank_of_isDigit h)), if_neg (hne rfl),
    if_neg (hne rfl), if_pos h]

theorem symbolStep_single (h : ∀ d ∈ cs.head?, Kind.ofPair? c d = none) :
    symbolStep c cs line modes = (.plain (Kind.ofSymbol c) (String.ofList [c]) line,
      ⟨cs, line, modesAfter line (Kind.ofSymbol c) modes⟩) := by
  unfold symbolStep
  rw [String.singleton_eq_ofList]
  cases cs with
  | nil => rfl
  | cons d rest => simp only [h d rfl]

/-- Only braces and backticks change the modes. -/
theorem modesAfter_of_ne {kind : Kind} (hback : kind ≠ .backtick) (hopen : kind ≠ .openBrace)
    (hclose : kind ≠ .closeBrace) : modesAfter line kind modes = modes := by
  unfold modesAfter
  split <;> first | rfl | contradiction

theorem modesBehind_of_code (hmodes : inText modes = false) (t : Token) :
    modesBehind modes t = modesAfter t.line t.kind modes := by
  unfold modesBehind
  split <;> first | rfl | cases hmodes

theorem spanOf_line (hinside : '\n' ∉ inside) (hrest : EndsLine rest) :
    spanOf (· != '\n') (inside ++ rest) = (inside, rest) := by
  refine spanOf_append (fun c hc => ?_) fun c hc => ?_
  · exact bne_iff_ne.2 fun h => hinside (h ▸ hc)
  · rw [hrest c hc]
    rfl

theorem not_mem_counted (h : '\n' ∉ passed) : '\n' ∉ counted passed found := by
  unfold counted
  split
  · exact List.not_mem_nil
  · exact h

/-- Behind a token of code in which no newline is counted. -/
theorem cursorBehind_code {kind : Kind} (hmodes : inText modes = false)
    (hline : '\n' ∉ counted passed (some (kind, text))) :
    cursorBehind line modes passed (some (kind, text)) rest =
      ⟨rest, line, modesAfter line kind modes⟩ := by
  rw [cursorBehind, addLines_of_not_mem hline]
  exact congrArg (Cursor.mk rest line) (modesBehind_of_code hmodes _)

theorem keyword_ne (word : String) :
    (Kind.keyword? word).getD .identifier ≠ .backtick ∧
      (Kind.keyword? word).getD .identifier ≠ .openBrace ∧
      (Kind.keyword? word).getD .identifier ≠ .closeBrace := by
  cases hword : Kind.keyword? word with
  | none => decide
  | some kind =>
    have hkeyword := Kind.isKeyword_of_keyword? hword
    refine ⟨?_, ?_, ?_⟩ <;>
      · rintro rfl
        exact absurd hkeyword (by decide)

theorem ofPair?_table {c d : Char} {kind : Kind} (h : Kind.ofPair? c d = some kind) :
    Bare c ∧ startsName c = false ∧ c ≠ '/' ∧ '\n' ∉ [c, d] ∧
      kind ≠ .backtick ∧ kind ≠ .openBrace ∧ kind ≠ .closeBrace := by
  unfold Kind.ofPair? at h
  split at h
  all_goals first | cases h; done | skip
  all_goals
    cases h
    exact ⟨⟨by decide, by decide, by decide, by decide⟩, by decide⟩

/-- A step in code reads a lexeme that stands before it. -/
theorem Lexeme.codeStep (h : Lexeme false passed found rest) (hmodes : inText modes = false) :
    ∃ c cs, passed ++ rest = c :: cs ∧ Lexer.codeStep c cs line modes =
      .ok (tokenOf line found, cursorBehind line modes passed found rest) := by
  cases h with
  | @blank c rest hblank =>
    have hslash : c ≠ '/' := by
      rintro rfl
      exact absurd hblank (by decide)
    refine ⟨c, rest, rfl, ?_⟩
    rw [codeStep_of_ne hslash, tokenStep, if_pos hblank]
    rfl
  | @lineComment inside rest hinside hrest =>
    have hline : addLines line ('/' :: '/' :: inside) = line :=
      addLines_of_not_mem (by simpa using hinside)
    refine ⟨'/', '/' :: (inside ++ rest), rfl, ?_⟩
    change Except.ok (none, (⟨(spanOf (· != '\n') (inside ++ rest)).2, line, modes⟩ : Cursor)) =
      .ok (none, ⟨rest, addLines line ('/' :: '/' :: inside), modes⟩)
    rw [spanOf_line hinside hrest, hline]
  | @blockComment inside rest hinside =>
    have hline : addLines line ('/' :: '*' :: (inside ++ ['*', '/'])) = addLines line inside := by
      unfold addLines
      simp
    refine ⟨'/', '*' :: (inside ++ '*' :: '/' :: rest), by simp, ?_⟩
    change _ = Except.ok (none, (⟨rest, addLines line ('/' :: '*' :: (inside ++ ['*', '/'])),
      modes⟩ : Cursor))
    rw [Lexer.codeStep, hinside rest, hline]
  | @documentation inside rest hinside hrest =>
    refine ⟨'#', inside ++ rest, rfl, ?_⟩
    rw [codeStep_of_ne (by decide), tokenStep, if_neg (by decide), if_pos rfl,
      spanOf_line hinside hrest, cursorBehind_code hmodes (not_mem_counted (by simpa using hinside))]
    rfl
  | @string written text rest hwritten =>
    refine ⟨'"', written ++ rest, rfl, ?_⟩
    rw [codeStep_of_ne (by decide), tokenStep, if_neg (by decide), if_neg (by decide), if_pos rfl,
      hwritten rest, cursorBehind_code hmodes List.not_mem_nil]
    rfl
  | @integer c digits rest hdigits hrest hpoint =>
    obtain ⟨hslash, htoken⟩ := tokenStep_digit (hdigits c List.mem_cons_self) (digits ++ rest)
    refine ⟨c, digits ++ rest, rfl, ?_⟩
    rw [codeStep_of_ne hslash, htoken, ← List.cons_append, number_integer hdigits hrest hpoint,
      cursorBehind_code hmodes (not_mem_counted (not_newline_of_all rfl hdigits))]
    rfl
  | @decimal c whole d decimals rest hwhole hdecimals hrest =>
    obtain ⟨hslash, htoken⟩ := tokenStep_digit (hwhole c List.mem_cons_self)
      (whole ++ '.' :: d :: decimals ++ rest)
    have hline : '\n' ∉ c :: (whole ++ '.' :: d :: decimals) := by
      rw [← List.cons_append]
      intro hmem
      rcases List.mem_append.1 hmem with hwhole' | hpoint
      · exact not_newline_of_all rfl hwhole hwhole'
      · rcases List.mem_cons.1 hpoint with hpoint | hdecimals'
        · cases hpoint
        · exact not_newline_of_all rfl hdecimals hdecimals'
    refine ⟨c, whole ++ '.' :: d :: decimals ++ rest, rfl, ?_⟩
    have hnumber := number_decimal hwhole hdecimals hrest
    simp only [List.cons_append] at hnumber
    rw [codeStep_of_ne hslash, htoken, hnumber, cursorBehind_code hmodes (not_mem_counted hline)]
    rfl
  | @word c tail rest hbare hname htail hrest =>
    obtain ⟨hback, hopen, hclose⟩ := keyword_ne (String.ofList (c :: tail))
    have hline : '\n' ∉ c :: tail := by
      rw [List.mem_cons, not_or]
      exact ⟨hbare.not_newline, not_newline_of_all (by decide) htail⟩
    have hslash : c ≠ '/' := by
      rintro rfl
      exact absurd hname (by decide)
    refine ⟨c, tail ++ rest, rfl, ?_⟩
    rw [codeStep_of_ne hslash, tokenStep_bare hbare, if_pos hname, spanOf_append htail hrest,
      cursorBehind_code hmodes (not_mem_counted hline), modesAfter_of_ne hback hopen hclose]
    rfl
  | @pair c d kind rest hpair =>
    obtain ⟨hbare, hname, hslash, hline, hback, hopen, hclose⟩ := ofPair?_table hpair
    refine ⟨c, d :: rest, rfl, ?_⟩
    rw [codeStep_of_ne hslash, tokenStep_bare hbare, hname, cursorBehind_code hmodes (not_mem_counted hline),
      modesAfter_of_ne hback hopen hclose, symbolStep]
    simp only [hpair]
    rw [Kind.text_of_ofPair? hpair]
    rfl
  | @symbol c rest hbare hname hrest =>
    have hline : '\n' ∉ [c] := by simpa using hbare.not_newline
    have hnext (d : Char) (hd : d ∈ rest.head?) :
        Kind.ofPair? c d = none ∧ (c = '/' → d ≠ '/' ∧ d ≠ '*') := by
      simpa [joins] using hrest d hd
    refine ⟨c, rest, rfl, ?_⟩
    rw [codeStep_eq_tokenStep fun d hd => (hnext d hd).2, tokenStep_bare hbare, hname,
      cursorBehind_code hmodes (not_mem_counted hline), symbolStep_single fun d hd => (hnext d hd).1]
    rfl

/-- A step in a template reads a lexeme that stands before it. -/
theorem Lexeme.templateStep (h : Lexeme true passed found rest) (hmodes : inText modes = true) :
    ∃ c cs, passed ++ rest = c :: cs ∧ Lexer.step c cs line modes =
      .ok (tokenOf line found, cursorBehind line modes passed found rest) := by
  obtain ⟨opened, outer, rfl⟩ : ∃ opened outer, modes = .template opened :: outer := by
    unfold inText at hmodes
    split at hmodes
    · exact ⟨_, _, rfl⟩
    · cases hmodes
  have hbehind {text : List Char} {kind : Kind} (hline : '\n' ∉ text) :
      cursorBehind line (.template opened :: outer) text (some (kind, text)) rest =
        ⟨rest, line, modesBehind (.template opened :: outer)
          (.plain kind (String.ofList text) line)⟩ := by
    rw [cursorBehind, addLines_of_not_mem (not_mem_counted hline)]
    rfl
  cases h with
  | templateEnd =>
    refine ⟨'`', rest, rfl, ?_⟩
    rw [hbehind (by decide)]
    rfl
  | interpolation =>
    refine ⟨'$', '\x7b' :: rest, rfl, ?_⟩
    rw [hbehind (by decide)]
    rfl
  | text hne hback hopen hrest =>
    have htext := templateText_eq hback hopen hrest
    cases passed with
    | nil => exact absurd rfl hne
    | cons c tail =>
      refine ⟨c, tail ++ rest, rfl, ?_⟩
      rw [List.cons_append] at htext
      simp only [Lexer.step, Lexer.templateStep]
      split
      · rename_i heq
        rw [heq] at htext
        cases htext
      · rename_i heq
        rw [heq] at htext
        cases htext
      · rw [htext]
        rfl

/-- A step reads a lexeme that stands before it. -/
theorem Lexeme.step (h : Lexeme (inText modes) passed found rest) (line : UInt32) :
    ∃ c cs, passed ++ rest = c :: cs ∧ Lexer.step c cs line modes =
      .ok (tokenOf line found, cursorBehind line modes passed found rest) := by
  cases hmodes : inText modes with
  | true => exact (hmodes ▸ h).templateStep hmodes
  | false =>
    obtain ⟨c, cs, hpassed, hstep⟩ := (hmodes ▸ h).codeStep hmodes
    refine ⟨c, cs, hpassed, ?_⟩
    rw [← hstep]
    unfold Lexer.step
    split
    · cases hmodes
    · rfl

/-- A lexeme that some characters begin with. -/
def Begins (inside : Bool) (cs : List Char) : Prop :=
  ∃ passed found rest, Lexeme inside passed found rest ∧ cs = passed ++ rest

theorem begins_number (hc : c.isDigit = true) : Begins false (c :: cs) := by
  obtain ⟨hcs, hdigits, hrest⟩ := spanOf_spec Char.isDigit cs
  have hwhole : ∀ e ∈ c :: (spanOf Char.isDigit cs).1, e.isDigit = true :=
    List.forall_mem_cons.2 ⟨hc, hdigits⟩
  by_cases hpoint : ∃ d more, (spanOf Char.isDigit cs).2 = '.' :: d :: more ∧ d.isDigit = true
  · obtain ⟨d, more, heq, hd⟩ := hpoint
    obtain ⟨hmore, hdecimals, hrest⟩ := spanOf_spec Char.isDigit more
    refine ⟨_, _, _, .decimal hwhole (List.forall_mem_cons.2 ⟨hd, hdecimals⟩) hrest, ?_⟩
    rw [heq] at hcs
    rw [List.cons_append, List.append_assoc, List.cons_append, List.cons_append, ← hmore, ← hcs]
  · refine ⟨_, _, _, .integer hwhole hrest fun d more heq => ?_, congrArg (c :: ·) hcs⟩
    exact Bool.eq_false_iff.2 fun hd => hpoint ⟨d, more, heq, hd⟩

theorem begins_symbol (hbare : Bare c) (hname : startsName c = false)
    (hslash : ∀ d ∈ cs.head?, c = '/' → d ≠ '/' ∧ d ≠ '*') : Begins false (c :: cs) := by
  by_cases hpair : ∃ d more kind, cs = d :: more ∧ Kind.ofPair? c d = some kind
  · obtain ⟨d, more, kind, rfl, hkind⟩ := hpair
    exact ⟨_, _, more, .pair hkind, rfl⟩
  · refine ⟨_, _, cs, .symbol hbare hname fun d hd => ?_, rfl⟩
    have hnone : Kind.ofPair? c d = none := by
      rw [Option.eq_none_iff_forall_ne_some]
      intro kind hkind
      obtain ⟨more, rfl⟩ := List.head?_eq_some_iff.1 hd
      exact hpair ⟨d, more, kind, rfl, hkind⟩
    simpa [joins, hnone] using hslash d hd

theorem begins_token {next : Option Token × Cursor} (h : tokenStep c cs line modes = .ok next)
    (hslash : ∀ d ∈ cs.head?, c = '/' → d ≠ '/' ∧ d ≠ '*') : Begins false (c :: cs) := by
  unfold tokenStep at h
  split at h
  · rename_i hblank
    exact ⟨_, _, cs, .blank hblank, rfl⟩
  · rename_i hblank
    split at h
    · rename_i hdoc
      obtain ⟨hcs, hinside, hrest⟩ := spanOf_spec (· != '\n') cs
      subst hdoc
      exact ⟨_, _, _, .documentation (not_newline_of_all rfl hinside)
        fun d hd => by simpa using hrest d hd, congrArg ('#' :: ·) hcs⟩
    · rename_i hdoc
      split at h
      · rename_i hquote
        split at h
        · rename_i text rest hstring
          obtain ⟨written, rfl, hwritten⟩ := stringText_local hstring
          subst hquote
          exact ⟨_, _, rest, .string hwritten, rfl⟩
        · cases h
      · rename_i hquote
        split at h
        · rename_i hdigit
          exact begins_number hdigit
        · rename_i hdigit
          have hbare : Bare c :=
            ⟨Bool.eq_false_iff.2 hblank, hdoc, hquote, Bool.eq_false_iff.2 hdigit⟩
          split at h
          · rename_i hname
            obtain ⟨hcs, htail, hrest⟩ := spanOf_spec continuesName cs
            exact ⟨_, _, _, .word hbare hname htail hrest, congrArg (c :: ·) hcs⟩
          · rename_i hname
            exact begins_symbol hbare (Bool.eq_false_iff.2 hname) hslash

theorem begins_code {next : Option Token × Cursor} (h : codeStep c cs line modes = .ok next) :
    Begins false (c :: cs) := by
  unfold codeStep at h
  split at h
  · rename_i rest
    obtain ⟨hcs, hinside, hrest⟩ := spanOf_spec (· != '\n') rest
    exact ⟨_, _, _, .lineComment (not_newline_of_all rfl hinside)
      fun d hd => by simpa using hrest d hd, congrArg ('/' :: '/' :: ·) hcs⟩
  · split at h
    · rename_i rest _ inside rest' hcomment
      refine ⟨_, _, rest', .blockComment (commentText?_local hcomment), ?_⟩
      rw [commentText?_append hcomment]
      simp
    · cases h
  · rename_i hline hblock
    refine begins_token h ?_
    rintro d hd rfl
    obtain ⟨more, rfl⟩ := List.head?_eq_some_iff.1 hd
    exact ⟨fun hd => hline more rfl (by rw [hd]), fun hd => hblock more rfl (by rw [hd])⟩

theorem begins_template (c : Char) (cs : List Char) : Begins true (c :: cs) := by
  obtain ⟨hcs, hback, hopen, hrest⟩ := templateText_spec (c :: cs)
  by_cases hne : (templateText (c :: cs)).1 = []
  · -- Nothing is literal text only before a backtick or an interpolation.
    rw [hne, List.nil_append] at hcs
    rw [← hcs] at hrest
    rcases hrest with hrest | hrest | ⟨more, hrest⟩
    · cases hrest
    · cases hrest
      exact ⟨_, _, cs, .templateEnd, rfl⟩
    · rw [← hrest]
      exact ⟨_, _, more, .interpolation, rfl⟩
  · exact ⟨_, _, _, .text hne hback hopen hrest, hcs⟩

/-- Where a step succeeds a lexeme stands, and reading it is the step. -/
theorem step_lexeme {token : Option Token} {next : Cursor}
    (h : step c cs line modes = .ok (token, next)) :
    ∃ passed found rest, Lexeme (inText modes) passed found rest ∧ c :: cs = passed ++ rest ∧
      token = tokenOf line found ∧ next = cursorBehind line modes passed found rest := by
  have hbegins : Begins (inText modes) (c :: cs) := by
    unfold step at h
    split at h
    · exact begins_template c cs
    · rename_i hmodes
      have hcode : inText modes = false := by
        unfold inText
        split
        · exact absurd rfl (hmodes _ _)
        · rfl
      exact hcode ▸ begins_code h
  obtain ⟨passed, found, rest, hlexeme, hcs⟩ := hbegins
  obtain ⟨c', cs', hcs', hstep⟩ := hlexeme.step line
  obtain ⟨rfl, rfl⟩ := List.cons.inj (hcs.trans hcs')
  obtain ⟨rfl, rfl⟩ := Prod.mk.inj (Except.ok.inj (h.symm.trans hstep))
  exact ⟨passed, found, rest, hlexeme, hcs, rfl, rfl⟩

/-! ## What is found -/

/-- The kinds of tokens that are not found in code, or are not written as they read. -/
def rewritten : List Kind :=
  [.documentationString, .stringLiteral, .templateString, .interpolationStart, .eof]

theorem word_not_rewritten (word : String) :
    (Kind.keyword? word).getD .identifier ∉ rewritten := by
  cases hword : Kind.keyword? word with
  | none => decide
  | some kind =>
    have hkeyword := Kind.isKeyword_of_keyword? hword
    have htable : Kind.reserved.all (fun kind => !rewritten.contains kind) = true := by decide
    have hkind := List.all_eq_true.1 htable kind (List.contains_iff_mem.1 hkeyword)
    simpa using hkind

/-- In code documentation, a string literal or a token that is written as it reads is found. -/
theorem Lexeme.code_cases {kind : Kind} (h : Lexeme false passed (some (kind, text)) rest) :
    (∃ inside, '\n' ∉ inside ∧ passed = '#' :: inside ∧ kind = .documentationString ∧
      text = Text.trim inside) ∨
    (∃ written, passed = '"' :: written ∧ kind = .stringLiteral ∧
      ∀ more, stringText (written ++ more) = .ok (text, more)) ∨
    (passed = text ∧ kind ∉ rewritten) := by
  cases h with
  | documentation hinside _ => exact .inl ⟨_, hinside, rfl, rfl, rfl⟩
  | string hwritten => exact .inr (.inl ⟨_, rfl, rfl, hwritten⟩)
  | integer | decimal => exact .inr (.inr ⟨rfl, by decide⟩)
  | word => exact .inr (.inr ⟨rfl, word_not_rewritten _⟩)
  | pair hpair =>
    refine .inr (.inr ⟨rfl, ?_⟩)
    unfold Kind.ofPair? at hpair
    split at hpair <;> first | cases hpair; done | (cases hpair; decide)
  | symbol =>
    refine .inr (.inr ⟨rfl, ?_⟩)
    unfold Kind.ofSymbol
    split <;> decide

/-- In a template every token is written as it reads. -/
theorem Lexeme.template_cases (h : Lexeme true passed found rest) :
    ∃ kind ∈ [Kind.backtick, .interpolationStart, .templateString],
      found = some (kind, passed) := by
  cases h with
  | templateEnd => exact ⟨.backtick, by decide, rfl⟩
  | interpolation => exact ⟨.interpolationStart, by decide, rfl⟩
  | text => exact ⟨.templateString, by decide, rfl⟩

theorem joins_newline (c : Char) : joins c '\n' = false := by
  have hpair : Kind.ofPair? c '\n' = none := by
    unfold Kind.ofPair?
    split <;> first | rfl | contradiction
  rw [joins, hpair]
  simp

/-- No lexeme of code reaches over a newline: after a cut behind it that ends the line, it is read as
before. -/
theorem Lexeme.cut {skipped : List Char} (h : Lexeme false passed found (rest ++ skipped))
    (more : List Char) : Lexeme false passed found (rest ++ '\n' :: more) := by
  have hhead {q : Char → Prop} (hq : ∀ d ∈ (rest ++ skipped).head?, q d) (hnewline : q '\n') :
      ∀ d ∈ (rest ++ '\n' :: more).head?, q d := by
    cases rest with
    | nil =>
      rintro d ⟨⟩
      exact hnewline
    | cons e rest => exact hq
  generalize hfollow : rest ++ skipped = follow at h hhead
  cases h with
  | blank hblank => exact .blank hblank
  | lineComment hinside hrest => exact .lineComment hinside (hhead hrest rfl)
  | blockComment hinside => exact .blockComment hinside
  | documentation hinside hrest => exact .documentation hinside (hhead hrest rfl)
  | string hwritten => exact .string hwritten
  | integer hdigits hrest hpoint =>
    refine .integer hdigits (hhead hrest rfl) fun d after heq => ?_
    match rest, hfollow, heq with
    | [], _, heq => cases heq
    | [_], _, heq =>
      cases heq
      rfl
    | _ :: _ :: _, hfollow, heq =>
      cases heq
      exact hpoint d _ hfollow.symm
  | decimal hwhole hdecimals hrest => exact .decimal hwhole hdecimals (hhead hrest rfl)
  | word hbare hname htail hrest => exact .word hbare hname htail (hhead hrest (by decide))
  | pair hpair => exact .pair hpair
  | symbol hbare hname hrest => exact .symbol hbare hname (hhead hrest (joins_newline _))

/-- In a template only text is decided by what follows it. -/
theorem Lexeme.follow (h : Lexeme true passed found rest)
    (hmore : ∀ chars, found = some (.templateString, chars) → EndsText more) :
    Lexeme true passed found more := by
  cases h with
  | templateEnd => exact .templateEnd
  | interpolation => exact .interpolation
  | text hne hback hopen _ => exact .text hne hback hopen (hmore _ rfl)

theorem EndsText.append (h : EndsText rest) (hrest : rest ≠ []) (more : List Char) :
    EndsText (rest ++ more) := by
  rcases h with hnil | hback | hopen
  · exact absurd hnil hrest
  · exact .inr (.inl (by rw [List.head?_append, hback]; rfl))
  · exact .inr (.inr (hopen.trans (List.prefix_append ..)))

end Mend.Lexer
