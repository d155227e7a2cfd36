import Mend.Proofs.Grammar.First
import Mend.Token.Lexer

/-!
# What the scanner finds

Every token of a text is as it stands in the text: nothing is supplied, left out or reported yet.
The end of the input is the last of them and no other, and no name among them is spelled like a
reserved word, since the scanner looks every word up. These are the tokens a parse is meant for.
-/

namespace Mend

namespace Token

/-- A token as it stands in the input. -/
structure IsPlain (t : Token) : Prop where
  present : t.missing = false
  leading : t.invalidLeading = []
  diagnostics : t.diagnostics = []

theorem isPlain_plain (kind : Kind) (text : String) (line : UInt32) :
    (plain kind text line).IsPlain :=
  ⟨rfl, rfl, rfl⟩

/-- Plain tokens of which the last one, and no other, is the end of the input. -/
def IsInput (tokens : List Token) : Prop :=
  ∃ body last, tokens = body ++ [last] ∧ last.kind = .eof ∧ (∀ t ∈ body, t.kind ≠ .eof) ∧
    ∀ t ∈ tokens, t.IsPlain

theorem IsInput.isPlain {tokens : List Token} (h : IsInput tokens) : ∀ t ∈ tokens, t.IsPlain := by
  obtain ⟨_, _, _, _, _, hplain⟩ := h
  exact hplain

/-- A token that the scanner finds inside a text. -/
structure Scanned (t : Token) : Prop where
  isPlain : t.IsPlain
  kind_ne_eof : t.kind ≠ .eof
  unreserved : t.Unreserved

namespace Scanned

theorem plain {kind : Kind} {text : String} {line : UInt32} (hend : kind ≠ .eof)
    (hname : kind ≠ .identifier) : (Token.plain kind text line).Scanned :=
  ⟨isPlain_plain .., hend, fun h => absurd h hname⟩

/-- A word is a reserved one or a name. -/
theorem word (word : String) (line : UInt32) :
    (Token.plain ((Kind.keyword? word).getD .identifier) word line).Scanned := by
  cases hword : Kind.keyword? word with
  | none => exact ⟨isPlain_plain .., (nomatch ·), fun _ => hword⟩
  | some kind =>
    have hkeyword := Kind.isKeyword_of_keyword? hword
    refine plain (fun h => ?_) (fun h => ?_) <;>
      · rw [show kind = _ from h] at hkeyword
        exact absurd hkeyword (by decide)

theorem of_text {t : Token} (h : t.Scanned) (hname : t.kind ≠ .identifier) (text : String) :
    { t with text := text }.Scanned :=
  ⟨⟨h.isPlain.present, h.isPlain.leading, h.isPlain.diagnostics⟩, h.kind_ne_eof,
    fun hkind => absurd hkind hname⟩

end Scanned

end Token

namespace Lexer

open Token (Scanned)

/-! ## One step -/

theorem number_scanned (cs : List Char) (text : String) (line : UInt32) :
    (Token.plain (number cs).1 text line).Scanned := by
  have hkind : (number cs).1 = .intLiteral ∨ (number cs).1 = .floatLiteral := by
    unfold number
    simp only
    split
    · split
      · exact .inr rfl
      · exact .inl rfl
    · exact .inl rfl
  rcases hkind with hkind | hkind <;>
    · rw [hkind]
      exact .plain (by decide) (by decide)

theorem ofSymbol_ne (c : Char) : Kind.ofSymbol c ≠ .eof ∧ Kind.ofSymbol c ≠ .identifier := by
  unfold Kind.ofSymbol
  split <;> decide

theorem ofPair?_ne {c d : Char} {kind : Kind} (h : Kind.ofPair? c d = some kind) :
    kind ≠ .eof ∧ kind ≠ .identifier := by
  unfold Kind.ofPair? at h
  split at h <;> first | (cases h; done) | (cases h; decide)

theorem symbolStep_scanned (c : Char) (cs : List Char) (line : UInt32) (modes : List Mode) :
    (symbolStep c cs line modes).1.Scanned := by
  have hsingle := ofSymbol_ne c
  unfold symbolStep
  split
  · exact .plain hsingle.1 hsingle.2
  · split
    · rename_i hpair
      exact .plain (ofPair?_ne hpair).1 (ofPair?_ne hpair).2
    · exact .plain hsingle.1 hsingle.2

theorem templateStep_scanned (cs : List Char) (line : UInt32) (modes : List Mode) :
    (templateStep cs line modes).1.Scanned := by
  unfold templateStep
  split <;> exact .plain (by decide) (by decide)

variable {c : Char} {cs : List Char} {line : UInt32} {modes : List Mode} {found : Option Token}
  {next : Cursor}

theorem tokenStep_scanned (h : tokenStep c cs line modes = .ok (found, next)) :
    ∀ t ∈ found, t.Scanned := by
  unfold tokenStep at h
  split at h
  · cases h
    exact fun t ht => nomatch ht
  · split at h
    · cases h
      rintro t ⟨⟩
      exact .plain (by decide) (by decide)
    · split at h
      · split at h
        · cases h
          rintro t ⟨⟩
          exact .plain (by decide) (by decide)
        · cases h
      · split at h
        · cases h
          rintro t ⟨⟩
          exact number_scanned ..
        · split at h
          · cases h
            rintro t ⟨⟩
            exact .word ..
          · cases h
            rintro t ⟨⟩
            exact symbolStep_scanned ..

theorem codeStep_scanned (h : codeStep c cs line modes = .ok (found, next)) :
    ∀ t ∈ found, t.Scanned := by
  unfold codeStep at h
  split at h
  · cases h
    exact fun t ht => nomatch ht
  · split at h
    · cases h
      exact fun t ht => nomatch ht
    · cases h
  · exact tokenStep_scanned h

theorem step_scanned (h : step c cs line modes = .ok (found, next)) : ∀ t ∈ found, t.Scanned := by
  unfold step at h
  split at h
  · cases h
    rintro t ⟨⟩
    exact templateStep_scanned ..
  · exact codeStep_scanned h

/-! ## All steps -/

theorem scan_end {cursor : Cursor} {before : List Token} (h : cursor.rest = []) :
    scan cursor before = match openTemplate? cursor.modes with
      | some line => .error ⟨line, .stringTemplate⟩
      | none => .ok (Token.eof cursor.line :: before).reverse := by
  rw [scan.eq_def]
  split
  · rfl
  · rename_i hrest
    rw [h] at hrest
    cases hrest

theorem scan_step {cursor : Cursor} {before : List Token} (h : cursor.rest = c :: cs) :
    scan cursor before = match step c cs cursor.line cursor.modes with
      | .error e => .error e
      | .ok (token, next) => scan next (token.toList ++ before) := by
  rw [scan.eq_def]
  split
  · rename_i hrest
    rw [h] at hrest
    cases hrest
  · rename_i hrest
    rw [h] at hrest
    cases hrest
    split <;> rename_i hstep <;> rw [hstep]

/-- Tokens found in a text, and the end of the input behind them. -/
def Finds (tokens : List Token) : Prop :=
  ∃ body line, tokens = body ++ [Token.eof line] ∧ ∀ t ∈ body, t.Scanned

theorem scan_finds {cursor : Cursor} {before tokens : List Token}
    (h : scan cursor before = .ok tokens) (hbefore : ∀ t ∈ before, t.Scanned) : Finds tokens := by
  induction cursor, before using scan.induct with
  | case1 cursor before hrest line hopen =>
    rw [scan_end hrest, hopen] at h
    cases h
  | case2 cursor before hrest hopen =>
    rw [scan_end hrest, hopen, List.reverse_cons] at h
    cases h
    exact ⟨before.reverse, cursor.line, rfl, fun t ht => hbefore t (List.mem_reverse.1 ht)⟩
  | case3 cursor before c cs hrest e hstep =>
    rw [scan_step hrest, hstep] at h
    cases h
  | case4 cursor before c cs hrest found next hstep ih =>
    rw [scan_step hrest, hstep] at h
    refine ih h fun t ht => ?_
    rcases List.mem_append.1 ht with hnew | hold
    · exact step_scanned hstep t (Option.mem_toList.1 hnew)
    · exact hbefore t hold

theorem joinDocumentation_finds {tokens : List Token} (h : Finds tokens) :
    Finds (joinDocumentation tokens) := by
  obtain ⟨body, line, rfl, hbody⟩ := h
  induction body with
  | nil => exact ⟨[], line, rfl, hbody⟩
  | cons t rest ih =>
    have ht := hbody t List.mem_cons_self
    obtain ⟨joined, line', heq, hjoined⟩ := ih fun u hu => hbody u (List.mem_cons_of_mem t hu)
    rw [List.cons_append, joinDocumentation, heq]
    cases joined with
    | nil => exact ⟨[t], line', by simp [Token.eof, Token.plain], by simpa using ht⟩
    | cons next more =>
      have hmore : ∀ u ∈ more, u.Scanned := fun u hu => hjoined u (List.mem_cons_of_mem next hu)
      simp only [List.cons_append]
      split
      · rename_i hdoc
        have hdoc : t.kind = .documentationString := by simp_all
        exact ⟨_ :: more, line', rfl,
          List.forall_mem_cons.2 ⟨ht.of_text (by rw [hdoc]; decide) _, hmore⟩⟩
      · exact ⟨t :: next :: more, line', rfl,
          List.forall_mem_cons.2 ⟨ht, List.forall_mem_cons.2 ⟨hjoined _ List.mem_cons_self, hmore⟩⟩⟩

/-- A single reserved word, wherever it stands. -/
theorem scan_const (line : UInt32) :
    scan ⟨"const".toList, line, []⟩ [] = .ok [.plain .constKeyword "const" line, .eof line] := by
  have hstep : step 'c' ['o', 'n', 's', 't'] line [] =
      .ok (some (.plain .constKeyword "const" line), ⟨[], line, []⟩) := rfl
  have hrest : (⟨"const".toList, line, []⟩ : Cursor).rest = ['c', 'o', 'n', 's', 't'] := rfl
  rw [scan_step hrest]
  simp only [hstep]
  rw [scan_end rfl]
  rfl

end Lexer

theorem Except.map_eq_ok {ε α β : Type} {x : Except ε α} {f : α → β} {b : β}
    (h : x.map f = .ok b) : ∃ a, x = .ok a ∧ f a = b := by
  cases x with
  | error e => cases h
  | ok a => exact ⟨a, rfl, Except.ok.inj h⟩

namespace Token

variable {text : String} {tokens : List Token}

theorem finds_of_scan (h : scan text = .ok tokens) : Lexer.Finds tokens := by
  obtain ⟨found, hscan, rfl⟩ := Except.map_eq_ok h
  exact Lexer.joinDocumentation_finds (Lexer.scan_finds hscan fun t ht => nomatch ht)

/-- The tokens of a text are what a parse is meant for. -/
theorem isInput_of_scan (h : scan text = .ok tokens) : IsInput tokens := by
  obtain ⟨body, line, rfl, hbody⟩ := finds_of_scan h
  refine ⟨body, .eof line, rfl, rfl, fun t ht => (hbody t ht).kind_ne_eof, fun t ht => ?_⟩
  rcases List.mem_append.1 ht with hin | hlast
  · exact (hbody t hin).isPlain
  · rw [List.mem_singleton.1 hlast]
    exact isPlain_plain ..

theorem unreserved_of_scan (h : scan text = .ok tokens) : ∀ t ∈ tokens, t.Unreserved := by
  obtain ⟨body, line, rfl, hbody⟩ := finds_of_scan h
  intro t ht
  rcases List.mem_append.1 ht with hin | hlast
  · exact (hbody t hin).unreserved
  · rw [List.mem_singleton.1 hlast]
    exact fun hname => nomatch hname

theorem scan_const : scan "const" = .ok [.plain .constKeyword "const" 1, .eof 1] := by
  rw [scan, Lexer.Cursor.start, Lexer.scan_const]
  rfl

end Token

end Mend
