import Mend.Text.Blank
import Mend.Text.Letter
import Mend.Text.Numeric
import Mend.Token.Basic
import Mend.Token.Symbol

/-!
# From text to tokens

The scanner walks the characters once, counting lines, and keeps a list of the string templates
and interpolations it is inside of. Inside a template everything up to the closing backtick or to
the next interpolation is text; inside an interpolation the text is code again, with its own
braces counted so that the brace that closes the interpolation is known.

A character that starts no token becomes a token of kind `invalid`. Only a string, a template or
a block comment that never ends is an error. Each step of the scanner leaves fewer characters
(`step_shorter`), which is why scanning ends.
-/

namespace Mend

/-- What can make a text unreadable as tokens. -/
inductive LexFault where
  | blockComment
  | stringLiteral
  | stringEscape
  | stringTemplate
  deriving DecidableEq, Repr, Inhabited

/-- The wording of a lexical fault. -/
def LexFault.message : LexFault → String
  | blockComment => "unterminated block comment"
  | stringLiteral => "unterminated string literal"
  | stringEscape => "unterminated escape in string"
  | stringTemplate => "unterminated string template"

/-- A lexical fault and the line on which the unfinished thing begins. -/
structure LexError where
  line : UInt32
  fault : LexFault
  deriving DecidableEq, Repr, Inhabited

/-- The error as it is reported. -/
def LexError.message (e : LexError) : String :=
  "line " ++ toString e.line.toNat ++ ": " ++ e.fault.message

namespace Lexer

/-- What the scanner is inside of. -/
inductive Mode where
  /-- The text of a string template that opened on this line. -/
  | template (line : UInt32)
  /-- An interpolation, with the number of braces open in it. -/
  | interpolation (depth : Nat)
  deriving DecidableEq, Repr

/-- The state of the scanner between two tokens; the modes are innermost first. -/
structure Cursor where
  rest : List Char
  line : UInt32
  modes : List Mode
  deriving Repr

/-- Where scanning begins. -/
def Cursor.start (text : List Char) : Cursor := ⟨text, 1, []⟩

/-- A line number some newlines further on. -/
def addLines (line : UInt32) (passed : List Char) : UInt32 :=
  line + UInt32.ofNat (passed.count '\n')

/-! ## The parts of a text -/

/-- The longest run of characters with a property, and what follows it. -/
def spanOf (p : Char → Bool) (cs : List Char) : List Char × List Char :=
  (cs.takeWhile p, cs.dropWhile p)

/-- Literal text of a template, and what follows it: a backtick, an interpolation or the end. -/
def templateText : List Char → List Char × List Char
  | [] => ([], [])
  | '`' :: cs => ([], '`' :: cs)
  | '$' :: '\x7b' :: cs => ([], '$' :: '\x7b' :: cs)
  | c :: cs => (c :: (templateText cs).1, (templateText cs).2)

/-- What a block comment holds, and what follows its end. -/
def commentText? : List Char → Option (List Char × List Char)
  | [] => none
  | '*' :: '/' :: cs => some ([], cs)
  | c :: cs => (commentText? cs).map fun (inside, rest) => (c :: inside, rest)

/-- The character that a backslash and a letter stand for in a string; an unknown pair stands
for itself. -/
def unescape : Char → List Char
  | '"' => ['"']
  | '\\' => ['\\']
  | 'n' => ['\n']
  | 't' => ['\t']
  | c => ['\\', c]

/-- What a string literal stands for, and what follows its closing quote. -/
def stringText : List Char → Except LexFault (List Char × List Char)
  | [] => .error .stringLiteral
  | '"' :: cs => .ok ([], cs)
  | '\n' :: _ => .error .stringLiteral
  | ['\\'] => .error .stringEscape
  | '\\' :: c :: cs => (stringText cs).map fun (inside, rest) => (unescape c ++ inside, rest)
  | c :: cs => (stringText cs).map fun (inside, rest) => (c :: inside, rest)

/-- The digits of a number that starts here, its kind, and what follows it: a point belongs to
the number only if a digit stands behind it. -/
def number (cs : List Char) : Kind × List Char × List Char :=
  let (whole, rest) := spanOf Char.isDigit cs
  match rest with
  | '.' :: d :: more =>
    if d.isDigit then
      let (decimals, rest) := spanOf Char.isDigit (d :: more)
      (.floatLiteral, whole ++ '.' :: decimals, rest)
    else (.intLiteral, whole, rest)
  | _ => (.intLiteral, whole, rest)

/-- Whether a character can start a name. -/
def startsName (c : Char) : Bool := Text.isLetter c || c == '_'

/-- Whether a character can continue a name. -/
def continuesName (c : Char) : Bool := Text.isLetter c || Text.isNumeric c || c == '_'

/-- The modes after a symbol in code that stands on the given line. -/
def modesAfter (line : UInt32) : Kind → List Mode → List Mode
  | .backtick, modes => .template line :: modes
  | .openBrace, .interpolation depth :: modes => .interpolation (depth + 1) :: modes
  | .closeBrace, .interpolation 0 :: modes => modes
  | .closeBrace, .interpolation (depth + 1) :: modes => .interpolation depth :: modes
  | _, modes => modes

/-! ## One step -/

/-- One step inside the text of a template, which is not at its end. -/
def templateStep (cs : List Char) (line : UInt32) (modes : List Mode) : Token × Cursor :=
  match cs with
  | '`' :: rest => (.plain .backtick "`" line, ⟨rest, line, modes.drop 1⟩)
  | '$' :: '\x7b' :: rest =>
    (.plain .interpolationStart "$\x7b" line, ⟨rest, line, .interpolation 0 :: modes⟩)
  | _ =>
    let (inside, rest) := templateText cs
    (.plain .templateString (String.ofList inside) line, ⟨rest, addLines line inside, modes⟩)

/-- One step in code at a character that starts a token of its own: a symbol of two characters,
or of one. -/
def symbolStep (c : Char) (cs : List Char) (line : UInt32) (modes : List Mode) :
    Token × Cursor :=
  let single := (.plain (Kind.ofSymbol c) (String.singleton c) line,
    ⟨cs, line, modesAfter line (Kind.ofSymbol c) modes⟩)
  match cs with
  | [] => single
  | d :: rest =>
    match Kind.ofPair? c d with
    | some kind => (.plain kind kind.text line, ⟨rest, line, modes⟩)
    | none => single

/-- One step in code at a character that is not part of a comment. -/
def tokenStep (c : Char) (cs : List Char) (line : UInt32) (modes : List Mode) :
    Except LexError (Option Token × Cursor) :=
  if Text.isBlank c then
    .ok (none, ⟨cs, addLines line [c], modes⟩)
  else if c = '#' then
    let (text, rest) := spanOf (· != '\n') cs
    .ok (some (.plain .documentationString (String.ofList (Text.trim text)) line),
      ⟨rest, line, modes⟩)
  else if c = '"' then
    match stringText cs with
    | .ok (text, rest) =>
      .ok (some (.plain .stringLiteral (String.ofList text) line), ⟨rest, line, modes⟩)
    | .error fault => .error ⟨line, fault⟩
  else if c.isDigit then
    let (kind, text, rest) := number (c :: cs)
    .ok (some (.plain kind (String.ofList text) line), ⟨rest, line, modes⟩)
  else if startsName c then
    let (tail, rest) := spanOf continuesName cs
    let word := String.ofList (c :: tail)
    .ok (some (.plain ((Kind.keyword? word).getD .identifier) word line), ⟨rest, line, modes⟩)
  else
    let (token, next) := symbolStep c cs line modes
    .ok (some token, next)

/-- One step in code. -/
def codeStep (c : Char) (cs : List Char) (line : UInt32) (modes : List Mode) :
    Except LexError (Option Token × Cursor) :=
  match c, cs with
  | '/', '/' :: rest => .ok (none, ⟨rest.dropWhile (· != '\n'), line, modes⟩)
  | '/', '*' :: rest =>
    match commentText? rest with
    | some (inside, rest) => .ok (none, ⟨rest, addLines line inside, modes⟩)
    | none => .error ⟨line, .blockComment⟩
  | _, _ => tokenStep c cs line modes

/-- One step at a character: at most one token, and the state after it. -/
def step (c : Char) (cs : List Char) (line : UInt32) (modes : List Mode) :
    Except LexError (Option Token × Cursor) :=
  match modes with
  | .template _ :: _ =>
    let (token, next) := templateStep (c :: cs) line modes
    .ok (some token, next)
  | _ => codeStep c cs line modes

/-! ## Each step leaves fewer characters -/

theorem length_spanOf_le (p : Char → Bool) (cs : List Char) :
    (spanOf p cs).2.length ≤ cs.length := by
  simpa [spanOf] using (List.dropWhile_suffix p).length_le

theorem length_templateText_le (cs : List Char) : (templateText cs).2.length ≤ cs.length := by
  fun_induction templateText cs with
  | case1 | case2 | case3 => exact Nat.le_refl _
  | case4 c cs _ _ ih => exact Nat.le_succ_of_le ih

theorem templateText_cons_shorter (c : Char) (cs : List Char) (hback : c ≠ '`')
    (hopen : ∀ rest, c = '$' → cs ≠ '\x7b' :: rest) :
    (templateText (c :: cs)).2.length < (c :: cs).length := by
  have hle := length_templateText_le cs
  rw [templateText]
  · exact Nat.lt_succ_of_le hle
  · exact hback
  · exact hopen

theorem length_commentText?_le {cs inside rest : List Char}
    (h : commentText? cs = some (inside, rest)) : rest.length ≤ cs.length := by
  fun_induction commentText? cs generalizing inside with
  | case1 => simp at h
  | case2 =>
    simp only [Option.some.injEq, Prod.mk.injEq] at h
    rw [← h.2]
    exact Nat.le_succ_of_le (Nat.le_succ _)
  | case3 c cs _ ih =>
    obtain ⟨⟨inside', rest'⟩, hsome, heq⟩ := Option.map_eq_some_iff.1 h
    simp only [Prod.mk.injEq] at heq
    obtain ⟨-, rfl⟩ := heq
    exact Nat.le_succ_of_le (ih hsome)

theorem length_stringText_le {cs inside rest : List Char}
    (h : stringText cs = .ok (inside, rest)) : rest.length ≤ cs.length := by
  fun_induction stringText cs generalizing inside with
  | case1 => simp at h
  | case2 => simp_all
  | case3 => simp at h
  | case4 => simp at h
  | case5 c cs ih | case6 c cs _ _ _ _ ih =>
    cases hrest : stringText cs with
    | error fault => simp [hrest, Except.map] at h
    | ok found =>
      obtain ⟨inside', rest'⟩ := found
      simp only [hrest, Except.map, Except.ok.injEq, Prod.mk.injEq] at h
      obtain ⟨-, rfl⟩ := h
      have := ih hrest
      simp only [List.length_cons]
      omega

theorem number_shorter (c : Char) (cs : List Char) (hc : c.isDigit = true) :
    (number (c :: cs)).2.2.length < (c :: cs).length := by
  have hspan : (spanOf Char.isDigit (c :: cs)).2 = (spanOf Char.isDigit cs).2 := by
    simp [spanOf, hc]
  have hle := length_spanOf_le Char.isDigit cs
  unfold number
  rw [show spanOf Char.isDigit (c :: cs) = ((spanOf Char.isDigit (c :: cs)).1,
    (spanOf Char.isDigit cs).2) from by rw [← hspan]]
  simp only
  split
  · rename_i d more hrest
    have hmore := length_spanOf_le Char.isDigit (d :: more)
    have hlong : more.length + 2 ≤ cs.length := by rwa [hrest] at hle
    split
    · change (spanOf Char.isDigit (d :: more)).2.length < cs.length + 1
      simp only [List.length_cons] at hmore
      omega
    · exact Nat.lt_succ_of_le hle
  · exact Nat.lt_succ_of_le hle

theorem symbolStep_shorter (c : Char) (cs : List Char) (line : UInt32) (modes : List Mode) :
    (symbolStep c cs line modes).2.rest.length < (c :: cs).length := by
  unfold symbolStep
  split
  · exact Nat.lt_succ_self _
  · split
    · exact Nat.lt_succ_of_lt (Nat.lt_succ_self _)
    · exact Nat.lt_succ_self _

theorem tokenStep_shorter {c : Char} {cs : List Char} {line : UInt32} {modes : List Mode}
    {token : Option Token} {next : Cursor}
    (h : tokenStep c cs line modes = .ok (token, next)) :
    next.rest.length < (c :: cs).length := by
  unfold tokenStep at h
  split at h
  · simp only [Except.ok.injEq, Prod.mk.injEq] at h
    obtain ⟨-, rfl⟩ := h
    simp
  · split at h
    · have := length_spanOf_le (· != '\n') cs
      simp only [Except.ok.injEq, Prod.mk.injEq] at h
      obtain ⟨-, rfl⟩ := h
      exact Nat.lt_succ_of_le this
    · split at h
      · split at h
        · rename_i text rest hstring
          have := length_stringText_le hstring
          simp only [Except.ok.injEq, Prod.mk.injEq] at h
          obtain ⟨-, rfl⟩ := h
          exact Nat.lt_succ_of_le this
        · simp at h
      · split at h
        · rename_i hdigit
          have := number_shorter c cs hdigit
          simp only [Except.ok.injEq, Prod.mk.injEq] at h
          obtain ⟨-, rfl⟩ := h
          simpa using this
        · split at h
          · have := length_spanOf_le continuesName cs
            simp only [Except.ok.injEq, Prod.mk.injEq] at h
            obtain ⟨-, rfl⟩ := h
            exact Nat.lt_succ_of_le this
          · have := symbolStep_shorter c cs line modes
            simp only [Except.ok.injEq, Prod.mk.injEq] at h
            obtain ⟨-, rfl⟩ := h
            exact this

theorem codeStep_shorter {c : Char} {cs : List Char} {line : UInt32} {modes : List Mode}
    {token : Option Token} {next : Cursor}
    (h : codeStep c cs line modes = .ok (token, next)) :
    next.rest.length < (c :: cs).length := by
  unfold codeStep at h
  split at h
  · rename_i rest
    have := (List.dropWhile_suffix (l := rest) (· != '\n')).length_le
    simp only [Except.ok.injEq, Prod.mk.injEq] at h
    obtain ⟨-, rfl⟩ := h
    exact Nat.lt_succ_of_lt (Nat.lt_succ_of_le this)
  · split at h
    · rename_i inside rest' hcomment
      have := length_commentText?_le hcomment
      simp only [Except.ok.injEq, Prod.mk.injEq] at h
      obtain ⟨-, rfl⟩ := h
      exact Nat.lt_succ_of_lt (Nat.lt_succ_of_le this)
    · simp at h
  · exact tokenStep_shorter h

theorem templateStep_shorter (c : Char) (cs : List Char) (line : UInt32) (modes : List Mode) :
    (templateStep (c :: cs) line modes).2.rest.length < (c :: cs).length := by
  unfold templateStep
  split
  · rename_i heq
    cases heq
    exact Nat.lt_succ_self _
  · rename_i heq
    cases heq
    exact Nat.lt_succ_of_lt (Nat.lt_succ_self _)
  · rename_i hback hopen
    refine templateText_cons_shorter c cs (fun h => hback cs (by rw [h])) ?_
    intro rest hc hcs
    exact hopen rest (by rw [hc, hcs])

/-- A step leaves fewer characters than it found. -/
theorem step_shorter {c : Char} {cs : List Char} {line : UInt32} {modes : List Mode}
    {token : Option Token} {next : Cursor} (h : step c cs line modes = .ok (token, next)) :
    next.rest.length < (c :: cs).length := by
  unfold step at h
  split at h
  · rename_i opened outer
    have := templateStep_shorter c cs line (.template opened :: outer)
    simp only [Except.ok.injEq, Prod.mk.injEq] at h
    obtain ⟨-, rfl⟩ := h
    exact this
  · exact codeStep_shorter h

/-! ## All steps -/

/-- The line of the outermost string template that is still open. -/
def openTemplate? (modes : List Mode) : Option UInt32 :=
  modes.reverse.findSome? fun
    | .template line => some line
    | .interpolation _ => none

/-- The tokens found so far, most recent first, and all that follow. -/
def scan (cursor : Cursor) (found : List Token) : Except LexError (List Token) :=
  match _hrest : cursor.rest with
  | [] =>
    match openTemplate? cursor.modes with
    | some line => .error ⟨line, .stringTemplate⟩
    | none => .ok (Token.eof cursor.line :: found).reverse
  | c :: cs =>
    match _hstep : step c cs cursor.line cursor.modes with
    | .error e => .error e
    | .ok (token, next) => scan next (token.toList ++ found)
termination_by cursor.rest.length
decreasing_by
  rw [_hrest]
  exact step_shorter _hstep

/-- Documentation lines that follow each other become one token. -/
def joinDocumentation : List Token → List Token
  | [] => []
  | t :: rest =>
    match joinDocumentation rest with
    | [] => [t]
    | next :: more =>
      if t.kind = .documentationString && next.kind = .documentationString then
        { t with text := t.text ++ "\n" ++ next.text } :: more
      else t :: next :: more

end Lexer

/-- The tokens of a text, the last of them the end of the input. -/
def Token.scan (text : String) : Except LexError (List Token) :=
  (Lexer.scan (.start text.toList) []).map Lexer.joinDocumentation

end Mend
