import Mathlib.Data.List.Chain
import Mend.Proofs.Token.Documentation
import Mend.Proofs.Token.Pieces

/-!
# Templates nest

The tokens of a text derive from a grammar: code holds templates, a template holds text and
interpolations, and an interpolation holds code in which the braces match. The scanner does not build
derivations. It keeps the modes, and these are what is still open behind the tokens found so far:
`Opened` says so with derivations of what is closed, `through` by going over the tokens one by one, and
both are the same (`through_eq_some_iff`). So each state of the scanner has the modes that its tokens
determine (`Scans.through`), which settles how a text can end.
-/

namespace Mend.Lexer

/-! ## The grammar -/

/-- No brace is closed that is neither one of the open ones nor opened before. -/
def Covered (depth : Nat) (kinds : List Kind) : Prop :=
  ∀ before, before <+: kinds → before.count .closeBrace ≤ depth + before.count .openBrace

/-- How many braces are open behind some kinds. -/
def braceDepth (depth : Nat) (kinds : List Kind) : Nat :=
  depth + kinds.count .openBrace - kinds.count .closeBrace

/-- No prefix closes more braces than it opens, and in the end all are closed. -/
structure Closed (kinds : List Kind) : Prop where
  covered : Covered 0 kinds
  count : kinds.count .closeBrace = kinds.count .openBrace

/-- The parts of a list of tokens. Code comes with the kinds of its tokens outside of templates. -/
inductive Part where
  | code (outside : List Kind)
  | template
  | content
  | interpolation

/-- The tokens that a part derives. -/
inductive Derives : Part → List Token → Prop
  | nothing : Derives (.code []) []
  | token {outside ts t} (hts : Derives (.code outside) ts)
      (ht : t.kind ∉ [Kind.backtick, .templateString, .interpolationStart, .eof]) :
      Derives (.code (outside ++ [t.kind])) (ts ++ [t])
  | nested {outside ts us} (hts : Derives (.code outside) ts) (hus : Derives .template us) :
      Derives (.code outside) (ts ++ us)
  | template {first last ts} (hfirst : first.kind = .backtick) (hts : Derives .content ts)
      (hlast : last.kind = .backtick) : Derives .template (first :: ts ++ [last])
  | empty : Derives .content []
  | literal {ts t} (hts : Derives .content ts) (ht : t.kind = .templateString) :
      Derives .content (ts ++ [t])
  | interpolated {ts us} (hts : Derives .content ts) (hus : Derives .interpolation us) :
      Derives .content (ts ++ us)
  | interpolation {outside first last ts} (hfirst : first.kind = .interpolationStart)
      (hts : Derives (.code outside) ts) (hclosed : Closed outside)
      (hlast : last.kind = .closeBrace) : Derives .interpolation (first :: ts ++ [last])

/-- What is open behind some tokens: the templates and interpolations that started and did not end, the
innermost first. A template is known by the line of its backtick, an interpolation by the number of
braces open in it. -/
inductive Opened : List Mode → List Token → Prop
  | code {outside ts} (hts : Derives (.code outside) ts) : Opened [] ts
  | template {modes before first ts} (hbefore : Opened modes before) (hcode : inText modes = false)
      (hfirst : first.kind = .backtick) (hts : Derives .content ts) :
      Opened (.template first.line :: modes) (before ++ first :: ts)
  | interpolation {line modes before first outside ts}
      (hbefore : Opened (.template line :: modes) before)
      (hfirst : first.kind = .interpolationStart) (hts : Derives (.code outside) ts)
      (hcovered : Covered 0 outside) :
      Opened (.interpolation (braceDepth 0 outside) :: .template line :: modes)
        (before ++ first :: ts)

/-- Whether a kind belongs to the text of a template, or to code. -/
def belongs (inside : Bool) (kind : Kind) : Bool :=
  if inside then [Kind.backtick, .interpolationStart, .templateString].contains kind
  else !([Kind.templateString, .interpolationStart, .eof].contains kind)

/-- The modes behind some tokens, if each of them belongs where it stands. -/
def through (modes : List Mode) : List Token → Option (List Mode)
  | [] => some modes
  | t :: rest =>
    if belongs (inText modes) t.kind then through (modesBehind modes t) rest else none

variable {modes outer : List Mode} {ts us before : List Token} {t first last : Token}
  {outside kinds : List Kind} {kind : Kind} {part : Part} {depth : Nat} {line : UInt32}

/-! ## Braces -/

theorem covered_nil : Covered depth [] := by
  intro before hbefore
  rw [List.prefix_nil.1 hbefore]
  exact Nat.zero_le _

theorem Covered.of_append (h : Covered depth (outside ++ kinds)) : Covered depth outside :=
  fun before hbefore => h before (hbefore.trans (List.prefix_append ..))

/-- One more brace is covered, unless it closes one that is not open. -/
theorem Covered.concat (h : Covered depth kinds) (kind : Kind) :
    Covered depth (kinds ++ [kind]) ∨
      kind = .closeBrace ∧ kinds.count .closeBrace = depth + kinds.count .openBrace := by
  have hlast := h kinds (List.prefix_refl kinds)
  by_cases hkind : kind = .closeBrace ∧ kinds.count .closeBrace = depth + kinds.count .openBrace
  · exact .inr hkind
  · refine .inl fun before hbefore => ?_
    rcases List.prefix_concat_iff.1 hbefore with rfl | hbefore
    · simp only [List.count_append, List.count_singleton]
      by_cases hclose : kind = .closeBrace
      · have hne : kinds.count .closeBrace ≠ depth + kinds.count .openBrace :=
          fun heq => hkind ⟨hclose, heq⟩
        simp only [hclose, BEq.rfl, if_true]
        omega
      · rw [if_neg (by simpa using hclose)]
        omega
    · exact h before hbefore

theorem braceDepth_open (h : Covered depth kinds) :
    braceDepth depth (kinds ++ [.openBrace]) = braceDepth depth kinds + 1 := by
  have hkinds := h kinds (List.prefix_refl kinds)
  have hopens : (kinds ++ [Kind.openBrace]).count .openBrace = kinds.count .openBrace + 1 := by simp
  have hcloses : (kinds ++ [Kind.openBrace]).count .closeBrace = kinds.count .closeBrace := by simp
  unfold braceDepth
  omega

theorem braceDepth_close (h : Covered depth (kinds ++ [.closeBrace])) :
    braceDepth depth kinds = braceDepth depth (kinds ++ [.closeBrace]) + 1 := by
  have hkinds := h _ (List.prefix_refl _)
  have hopens : (kinds ++ [Kind.closeBrace]).count .openBrace = kinds.count .openBrace := by simp
  have hcloses : (kinds ++ [Kind.closeBrace]).count .closeBrace = kinds.count .closeBrace + 1 := by
    simp
  unfold braceDepth
  omega

theorem braceDepth_of_ne (hopen : kind ≠ .openBrace) (hclose : kind ≠ .closeBrace) :
    braceDepth depth (kinds ++ [kind]) = braceDepth depth kinds := by
  simp [braceDepth, List.count_append, hopen, hclose]

/-- In an interpolation the braces are counted as long as they are covered. -/
theorem modesAfter_of_covered (hkind : kind ≠ .backtick) (h : Covered depth (kinds ++ [kind])) :
    modesAfter line kind (.interpolation (braceDepth depth kinds) :: outer) =
      .interpolation (braceDepth depth (kinds ++ [kind])) :: outer := by
  by_cases hopen : kind = .openBrace
  · rw [hopen, braceDepth_open h.of_append, modesAfter]
  · by_cases hclose : kind = .closeBrace
    · subst hclose
      rw [braceDepth_close h, modesAfter]
    · rw [modesAfter_of_ne hkind hopen hclose, braceDepth_of_ne hopen hclose]

/-! ## From the grammar to the modes -/

theorem through_append (modes : List Mode) (ts us : List Token) :
    through modes (ts ++ us) = (through modes ts).bind (through · us) := by
  induction ts generalizing modes with
  | nil => rfl
  | cons t rest ih =>
    rw [List.cons_append, through, through]
    split
    · exact ih _
    · rfl

theorem through_single (h : belongs (inText modes) t.kind = true) :
    through modes [t] = some (modesBehind modes t) := by
  rw [through, if_pos h, through]

theorem modesBehind_open (hcode : inText modes = false) (ht : t.kind = .backtick) :
    modesBehind modes t = .template t.line :: modes := by
  rw [modesBehind_of_code hcode, ht, modesAfter]

theorem modesBehind_close (ht : t.kind = .backtick) :
    modesBehind (.template line :: outer) t = outer := by
  simp [modesBehind, ht]

theorem modesBehind_literal (htext : inText modes = true) (ht : t.kind = .templateString) :
    modesBehind modes t = modes := by
  unfold inText at htext
  split at htext
  · simp [modesBehind, ht]
  · cases htext

theorem modesBehind_interpolation (ht : t.kind = .interpolationStart) :
    modesBehind (.template line :: outer) t = .interpolation 0 :: .template line :: outer := by
  simp [modesBehind, ht]

theorem modesAfter_nil (hkind : kind ≠ .backtick) : modesAfter line kind [] = [] := by
  unfold modesAfter
  split <;> first | rfl | contradiction

theorem belongs_code (hcode : inText modes = false) :
    belongs (inText modes) kind = true ↔
      kind ∉ [Kind.templateString, .interpolationStart, .eof] := by
  simp [belongs, hcode]

/-- What the tokens of a part do to the modes. -/
def Keeps : Part → List Token → Prop
  | .code outside, ts => through [] ts = some [] ∧ ∀ depth outer, Covered depth outside →
      through (.interpolation depth :: outer) ts =
        some (.interpolation (braceDepth depth outside) :: outer)
  | .template, ts => ∀ modes, inText modes = false → through modes ts = some modes
  | .content, ts | .interpolation, ts => ∀ line outer,
      through (.template line :: outer) ts = some (.template line :: outer)

theorem Derives.keeps (h : Derives part ts) : Keeps part ts := by
  induction h with
  | nothing => exact ⟨rfl, fun depth outer _ => rfl⟩
  | token hts ht ih =>
    obtain ⟨hback, hbelongs⟩ := List.ne_and_not_mem_of_not_mem_cons ht
    refine ⟨?_, fun depth outer hcovered => ?_⟩
    · rw [through_append, ih.1, Option.bind_some, through_single ((belongs_code rfl).2 hbelongs),
        modesBehind_of_code rfl, modesAfter_nil hback]
    · rw [through_append, ih.2 depth outer hcovered.of_append, Option.bind_some,
        through_single ((belongs_code rfl).2 hbelongs), modesBehind_of_code rfl,
        modesAfter_of_covered hback hcovered]
  | nested hts hus ihts ihus =>
    refine ⟨?_, fun depth outer hcovered => ?_⟩
    · rw [through_append, ihts.1, Option.bind_some, ihus [] rfl]
    · rw [through_append, ihts.2 depth outer hcovered, Option.bind_some, ihus _ rfl]
  | @template first last ts hfirst hts hlast ih =>
    intro modes hcode
    rw [List.cons_append, through, hcode, if_pos (by rw [hfirst]; rfl), modesBehind_open hcode hfirst,
      through_append, ih, Option.bind_some, through_single (by rw [hlast]; rfl),
      modesBehind_close hlast]
  | empty => exact fun line outer => rfl
  | literal hts ht ih =>
    intro line outer
    rw [through_append, ih, Option.bind_some, through_single (by rw [ht]; rfl),
      modesBehind_literal rfl ht]
  | interpolated hts hus ihts ihus =>
    intro line outer
    rw [through_append, ihts, Option.bind_some, ihus]
  | @interpolation outside first last ts hfirst hts hclosed hlast ih =>
    intro line outer
    have hdepth : braceDepth 0 outside = 0 := by
      rw [braceDepth, hclosed.count]
      omega
    rw [List.cons_append, through, if_pos (by rw [hfirst]; rfl), modesBehind_interpolation hfirst,
      through_append, ih.2 0 _ hclosed.covered, hdepth, Option.bind_some,
      through_single (by rw [hlast]; rfl), modesBehind_of_code rfl, hlast, modesAfter]

theorem Opened.through_eq (h : Opened modes ts) : through [] ts = some modes := by
  induction h with
  | code hts => exact hts.keeps.1
  | template hbefore hcode hfirst hts ih =>
    rw [through_append, ih, Option.bind_some, through, hcode, if_pos (by rw [hfirst]; rfl),
      modesBehind_open hcode hfirst, hts.keeps]
  | interpolation hbefore hfirst hts hcovered ih =>
    rw [through_append, ih, Option.bind_some, through, if_pos (by rw [hfirst]; rfl),
      modesBehind_interpolation hfirst, hts.keeps.2 0 _ hcovered]

/-! ## From the modes to the grammar -/

/-- Code goes on behind a template. -/
theorem Opened.nested (h : Opened modes before) (hcode : inText modes = false)
    (hus : Derives .template us) : Opened modes (before ++ us) := by
  cases h with
  | code hts => exact .code (.nested hts hus)
  | template => cases hcode
  | interpolation hbefore hfirst hts hcovered =>
    rw [List.append_assoc, List.cons_append]
    exact .interpolation hbefore hfirst (.nested hts hus) hcovered

/-- The text of a template goes on behind an interpolation. -/
theorem Opened.interpolated (h : Opened (.template line :: outer) before)
    (hus : Derives .interpolation us) : Opened (.template line :: outer) (before ++ us) := by
  cases h with
  | template hbefore hcode hfirst hts =>
    rw [List.append_assoc, List.cons_append]
    exact .template hbefore hcode hfirst (.interpolated hts hus)

/-- What is open behind one more token. -/
theorem Opened.next (h : Opened modes ts) (ht : belongs (inText modes) t.kind = true) :
    Opened (modesBehind modes t) (ts ++ [t]) := by
  cases h with
  | code hts =>
    by_cases hback : t.kind = .backtick
    · rw [modesBehind_open rfl hback]
      exact .template (.code hts) rfl hback .empty
    · rw [modesBehind_of_code rfl, modesAfter_nil hback]
      exact .code (.token hts (List.not_mem_cons_of_ne_of_not_mem hback ((belongs_code rfl).1 ht)))
  | @template modes before first ts hbefore hcode hfirst hts =>
    rw [List.append_assoc, List.cons_append]
    have hkind : t.kind = .backtick ∨ t.kind = .interpolationStart ∨ t.kind = .templateString := by
      simpa [belongs, inText] using ht
    rcases hkind with hback | hinterpolation | hliteral
    · rw [modesBehind_close hback]
      exact hbefore.nested hcode (.template hfirst hts hback)
    · rw [modesBehind_interpolation hinterpolation, ← List.cons_append, ← List.append_assoc]
      exact .interpolation (.template hbefore hcode hfirst hts) hinterpolation .nothing covered_nil
    · rw [modesBehind_literal rfl hliteral]
      exact .template hbefore hcode hfirst (.literal hts hliteral)
  | @interpolation line modes before first outside ts hbefore hfirst hts hcovered =>
    by_cases hback : t.kind = .backtick
    · rw [modesBehind_open rfl hback]
      exact .template (.interpolation hbefore hfirst hts hcovered) rfl hback .empty
    rw [modesBehind_of_code rfl, List.append_assoc, List.cons_append]
    rcases hcovered.concat t.kind with hconcat | ⟨hclose, hcount⟩
    · rw [modesAfter_of_covered hback hconcat]
      exact .interpolation hbefore hfirst
        (.token hts (List.not_mem_cons_of_ne_of_not_mem hback ((belongs_code rfl).1 ht))) hconcat
    · -- The brace closes the interpolation.
      rw [Nat.zero_add] at hcount
      rw [hclose, braceDepth, hcount, Nat.zero_add, Nat.sub_self, modesAfter]
      exact hbefore.interpolated (.interpolation hfirst hts ⟨hcovered, hcount⟩ hclose)

/-- The modes that the tokens lead to are what is open behind them. -/
theorem through_eq_some_iff : through [] ts = some modes ↔ Opened modes ts := by
  refine ⟨fun h => ?_, Opened.through_eq⟩
  induction ts using List.reverseRecOn generalizing modes with
  | nil =>
    cases h
    exact .code .nothing
  | append_singleton ts t ih =>
    rw [through_append] at h
    obtain ⟨behind, hts, ht⟩ := Option.bind_eq_some_iff.1 h
    rw [through] at ht
    split at ht
    · rename_i hbelongs
      cases ht
      exact (ih hts).next hbelongs
    · cases ht

/-- The outermost thing that is open is a template. -/
theorem Opened.outermost (h : Opened modes ts) :
    modes = [] ∨ ∃ inner line, modes = inner ++ [.template line] := by
  induction h with
  | code => exact .inl rfl
  | @template modes before first ts _ _ _ _ ih =>
    rcases ih with rfl | ⟨inner, line, rfl⟩
    · exact .inr ⟨[], first.line, rfl⟩
    · exact .inr ⟨.template first.line :: inner, line, rfl⟩
  | @interpolation line modes before first outside ts _ _ _ _ ih =>
    obtain ⟨inner, line', heq⟩ := ih.resolve_left (List.cons_ne_nil _ _)
    exact .inr ⟨.interpolation (braceDepth 0 outside) :: inner, line', congrArg (_ :: ·) heq⟩

theorem openTemplate?_append (inner : List Mode) (line : UInt32) :
    openTemplate? (inner ++ [.template line]) = some line := by
  simp [openTemplate?]

theorem Opened.openTemplate?_eq_none (h : Opened modes ts) (hnone : openTemplate? modes = none) :
    modes = [] := by
  rcases h.outermost with rfl | ⟨inner, line, rfl⟩
  · rfl
  · rw [openTemplate?_append] at hnone
    cases hnone

/-! ## Literal text -/

/-- What the text of a template token is. -/
structure IsLiteral (text : List Char) : Prop where
  ne_nil : text ≠ []
  backtick : '`' ∉ text
  interpolation : ¬ ['$', '\x7b'] <:+: text

/-- Two tokens that are not both text of a template. -/
def Apart (s t : Token) : Prop := ¬ (s.kind = .templateString ∧ t.kind = .templateString)

variable {text passed chars rest : List Char} {found : Option (Kind × List Char)}
  {pieces : List Piece} {cursor : Cursor} {inside : Bool}

theorem Lexeme.literal_inv (h : Lexeme inside passed (some (.templateString, chars)) rest) :
    inside = true ∧ passed = chars ∧ IsLiteral chars ∧ EndsText rest := by
  cases inside with
  | true =>
    cases h with
    | text hne hback hopen hrest => exact ⟨rfl, rfl, ⟨hne, hback, hopen⟩, hrest⟩
  | false =>
    rcases h.code_cases with ⟨_, _, _, hkind, _⟩ | ⟨_, _, hkind, _⟩ | ⟨_, hkind⟩
    · cases hkind
    · cases hkind
    · exact absurd (by decide) hkind

/-- Where the text of a template ends there is no more of it. -/
theorem IsLiteral.not_endsText (h : IsLiteral passed) (hrest : EndsText rest) :
    ¬ EndsText (passed ++ rest) := by
  intro hends
  have hnone : ¬ ['$', '\x7b'] <:+: ([] : List Char) := fun h => nomatch List.infix_nil.1 h
  have hnil := templateText_eq List.not_mem_nil hnone hends
  have hall := templateText_eq h.backtick h.interpolation hrest
  rw [List.nil_append, hall] at hnil
  exact h.ne_nil (Prod.mk.inj hnil).1

theorem belongs_of_lexeme (h : Lexeme inside passed (some (kind, chars)) rest) :
    belongs inside kind = true := by
  cases inside with
  | true =>
    obtain ⟨kind', hkind, heq⟩ := h.template_cases
    cases heq
    simpa [belongs] using hkind
  | false =>
    rcases h.code_cases with ⟨_, _, _, rfl, _⟩ | ⟨_, _, rfl, _⟩ | ⟨_, hkind⟩
    · rfl
    · rfl
    · simp [rewritten] at hkind
      simp [belongs, hkind]

/-! ## The scanner -/

namespace Scans

/-- The modes of the scanner are what its tokens leave open. -/
theorem through_eq (h : Scans text pieces cursor) :
    through [] (tokensIn pieces) = some cursor.modes := by
  induction h using Scans.induct with
  | hstart => rfl
  | @hread pieces cursor passed found rest hscans hlexeme hrest ih =>
    rw [tokensIn_append, tokensIn_single, through_append, ih, Option.bind_some]
    cases found with
    | none => rfl
    | some token => exact through_single (belongs_of_lexeme hlexeme)

theorem opened (h : Scans text pieces cursor) : Opened cursor.modes (tokensIn pieces) :=
  through_eq_some_iff.1 h.through_eq

/-- Text of a template is literal. -/
theorem isLiteral (h : Scans text pieces cursor) :
    ∀ t ∈ tokensIn pieces, t.kind = .templateString → IsLiteral t.text.toList := by
  induction h using Scans.induct with
  | hstart => exact fun t ht => nomatch ht
  | @hread pieces cursor passed found rest hscans hlexeme hrest ih =>
    intro t ht hkind
    rw [tokensIn_append, tokensIn_single] at ht
    rcases List.mem_append.1 ht with hbefore | hlast
    · exact ih t hbefore hkind
    · obtain ⟨⟨kind, chars⟩, rfl, rfl⟩ := Option.map_eq_some_iff.1 (Option.mem_toList.1 hlast)
      obtain rfl : kind = .templateString := hkind
      simpa [Token.plain] using hlexeme.literal_inv.2.2.1

/-- Behind text of a template the text of the template ends. -/
theorem endsText (h : Scans text pieces cursor) :
    ∀ last ∈ (tokensIn pieces).getLast?, last.kind = .templateString →
      inText cursor.modes = true ∧ EndsText cursor.rest := by
  induction h using Scans.induct with
  | hstart => exact fun t ht => nomatch ht
  | @hread pieces cursor passed found rest hscans hlexeme hrest ih =>
    intro last hlast hkind
    rw [tokensIn_append, tokensIn_single] at hlast
    cases found with
    | none =>
      obtain ⟨htext, -⟩ := ih last (by simpa [tokenOf] using hlast) hkind
      obtain ⟨_, _, hfound⟩ := (htext ▸ hlexeme).template_cases
      cases hfound
    | some token =>
      obtain ⟨kind, chars⟩ := token
      obtain rfl : Token.plain kind (String.ofList chars) cursor.line = last := by
        simpa [tokenOf] using hlast
      obtain rfl : kind = .templateString := hkind
      obtain ⟨htext, -, -, hends⟩ := hlexeme.literal_inv
      have hmodes := modesBehind_literal htext
        (t := .plain .templateString (String.ofList chars) cursor.line) rfl
      exact ⟨(congrArg inText hmodes).trans htext, hends⟩

/-- There is no text of a template right behind text of a template. -/
theorem isChain (h : Scans text pieces cursor) : (tokensIn pieces).IsChain Apart := by
  induction h using Scans.induct with
  | hstart => exact List.isChain_nil
  | @hread pieces cursor passed found rest hscans hlexeme hrest ih =>
    rw [tokensIn_append, tokensIn_single, List.isChain_append]
    refine ⟨ih, by cases found <;> simp [tokenOf], ?_⟩
    rintro last hlast t ht ⟨hkind, hkind'⟩
    have hfound := Option.mem_toList.1 (List.mem_of_mem_head? ht)
    obtain ⟨⟨kind, chars⟩, rfl, rfl⟩ := Option.map_eq_some_iff.1 hfound
    obtain rfl : kind = .templateString := hkind'
    obtain ⟨-, rfl, hliteral, hends⟩ := hlexeme.literal_inv
    exact hliteral.not_endsText hends (hrest ▸ (hscans.endsText last hlast hkind).2)

end Scans

/-! ## Joined tokens -/

theorem modesBehind_documentation (hcode : inText modes = false)
    (ht : t.kind = .documentationString) : modesBehind modes t = modes := by
  rw [modesBehind_of_code hcode, ht, modesAfter_of_ne (by decide) (by decide) (by decide)]

/-- Documentation belongs to code, and leaves the modes alone. -/
theorem through_documentation (ht : t.kind = .documentationString) (modes : List Mode)
    (rest : List Token) :
    through modes (t :: rest) = if inText modes then none else through modes rest := by
  rw [through, ht]
  cases hcode : inText modes with
  | true => rfl
  | false =>
    rw [modesBehind_documentation hcode ht]
    rfl

theorem through_joinDocumentation (modes : List Mode) (ts : List Token) :
    through modes (joinDocumentation ts) = through modes ts := by
  induction ts generalizing modes with
  | nil => rfl
  | cons t rest ih =>
    rw [joinDocumentation_cons]
    rcases attach_cases t (joinDocumentation rest) with ⟨next, more, hnext, hboth, heq⟩ | ⟨heq, -⟩
    · have hjoined : through modes ({ t with text := t.text ++ "\n" ++ next.text } :: more) =
          if inText modes then none else through modes more :=
        through_documentation hboth.1 modes more
      rw [heq, hjoined, through_documentation hboth.1, ← ih, hnext, through_documentation hboth.2]
      split <;> rfl
    · rw [heq, through, through, ih]

/-- Joining makes no token but documentation. -/
theorem mem_of_mem_joinDocumentation (h : t ∈ joinDocumentation ts)
    (hkind : t.kind ≠ .documentationString) : t ∈ ts := by
  induction ts with
  | nil => exact h
  | cons u rest ih =>
    rw [joinDocumentation_cons] at h
    rcases attach_cases u (joinDocumentation rest) with ⟨next, more, hnext, hboth, heq⟩ | ⟨heq, -⟩
    · rw [heq] at h
      rcases List.mem_cons.1 h with rfl | hmore
      · exact absurd hboth.1 hkind
      · exact List.mem_cons_of_mem u (ih (hnext ▸ List.mem_cons_of_mem next hmore))
    · rw [heq] at h
      rcases List.mem_cons.1 h with rfl | hrest
      · exact List.mem_cons_self
      · exact List.mem_cons_of_mem u (ih hrest)

theorem isChain_joinDocumentation (h : ts.IsChain Apart) : (joinDocumentation ts).IsChain Apart := by
  induction ts with
  | nil => exact h
  | cons t rest ih =>
    obtain ⟨hhead, hrest⟩ := List.isChain_cons.1 h
    have hjoined := ih hrest
    rw [joinDocumentation_cons]
    rcases attach_cases t (joinDocumentation rest) with ⟨next, more, hnext, hboth, heq⟩ | ⟨heq, -⟩
    · rw [hnext] at hjoined
      rw [heq]
      refine List.isChain_cons.2 ⟨fun u hu hapart => ?_, hjoined.tail⟩
      cases hboth.1.symm.trans hapart.1
    · rw [heq]
      refine List.isChain_cons.2 ⟨fun u hu hapart => ?_, hjoined⟩
      have hkinds := head?_joinDocumentation rest
      rw [Option.mem_def.1 hu] at hkinds
      obtain ⟨first, hfirst, hkind⟩ := Option.map_eq_some_iff.1 hkinds.symm
      exact hhead first hfirst ⟨hapart.1, hkind.trans hapart.2⟩

/-! ## Errors -/

theorem stringText_fault {cs : List Char} {fault : LexFault} (h : stringText cs = .error fault) :
    fault ≠ .stringTemplate := by
  fun_induction stringText cs with
  | case1 | case3 | case4 =>
    cases h
    decide
  | case2 => cases h
  | case5 c cs ih | case6 c cs _ _ _ _ ih =>
    cases hrest : stringText cs with
    | error fault' =>
      rw [hrest] at h ih
      cases h
      exact ih rfl
    | ok result =>
      rw [hrest] at h
      cases h

/-- No step fails because of a template. -/
theorem step_fault {c : Char} {cs : List Char} {e : LexError} (h : step c cs line modes = .error e) :
    e.fault ≠ .stringTemplate := by
  unfold step at h
  split at h
  · cases h
  · unfold codeStep at h
    split at h
    · cases h
    · split at h
      · cases h
      · cases h
        exact (by decide : LexFault.blockComment ≠ .stringTemplate)
    · unfold tokenStep at h
      split at h
      · cases h
      · split at h
        · cases h
        · split at h
          · split at h
            · cases h
            · rename_i hfault
              cases h
              exact stringText_fault hfault
          · split at h
            · cases h
            · split at h <;> cases h

/-! ## Whole texts -/

/-- A text fails because of a template just if it is read to its end and the tokens leave one open. -/
theorem scan_eq_stringTemplate {text : String} :
    Token.scan text = .error ⟨line, .stringTemplate⟩ ↔ ∃ pieces cursor inner,
      Ends text.toList pieces cursor ∧ Opened (inner ++ [.template line]) (tokensIn pieces) := by
  constructor
  · intro h
    have hscan : scan (.start text.toList) [] = .error ⟨line, .stringTemplate⟩ := by
      unfold Token.scan at h
      cases hscan : scan (.start text.toList) [] with
      | error e =>
        rw [hscan] at h
        exact congrArg _ (Except.error.inj h)
      | ok tokens =>
        rw [hscan] at h
        cases h
    rcases (Scans.start : Scans text.toList [] _).ends with ⟨pieces, cursor, hends⟩ | hfails
    · have hopened := hends.scans.opened
      rw [hends.scan_eq] at hscan
      rcases hopened.outermost with hnil | ⟨inner, line', hmodes⟩
      · rw [hnil] at hscan
        cases hscan
      · rw [hmodes, openTemplate?_append] at hscan
        cases hscan
        exact ⟨pieces, cursor, inner, hends, hmodes ▸ hopened⟩
    · obtain ⟨pieces, cursor, c, cs, e, hscans, hrest, hstep⟩ := hfails
      rw [scan_eq_error hscans hrest hstep] at hscan
      cases hscan
      exact absurd rfl (step_fault hstep)
  · rintro ⟨pieces, cursor, inner, hends, hopened⟩
    have hmodes := hends.scans.through_eq.symm.trans hopened.through_eq
    rw [Token.scan, hends.scan_eq, Option.some.inj hmodes, openTemplate?_append]
    rfl

/-- The tokens of a text nest. They derive from the grammar, with the end of the input behind them;
text of a template is literal, and there is none right behind it. A text that can be read to its end
fails there if the tokens leave a template open, with the line of the outermost one. -/
theorem templates_nest (text : String) :
    (∀ tokens, Token.scan text = .ok tokens → ∃ body line outside, tokens = body ++ [.eof line] ∧
      (∀ t ∈ body, t.kind ≠ .eof) ∧ Derives (.code outside) body ∧ body.IsChain Apart ∧
      ∀ t ∈ body, t.kind = .templateString → IsLiteral t.text.toList) ∧
    ∀ line, Token.scan text = .error ⟨line, .stringTemplate⟩ ↔ ∃ pieces cursor inner,
      Ends text.toList pieces cursor ∧ Opened (inner ++ [.template line]) (tokensIn pieces) := by
  refine ⟨fun tokens h => ?_, fun line => scan_eq_stringTemplate⟩
  obtain ⟨body', line', heq, hscanned⟩ := Token.finds_of_scan h
  obtain ⟨found, hscan, rfl⟩ := Except.map_eq_ok h
  obtain ⟨pieces, cursor, hends, hnone, rfl⟩ := ends_of_scan hscan
  have hmodes : cursor.modes = [] := hends.scans.opened.openTemplate?_eq_none hnone
  have hbody : through [] (joinDocumentation (tokensIn pieces)) = some [] := by
    rw [through_joinDocumentation, hends.scans.through_eq, hmodes]
  rw [joinDocumentation_eof] at heq ⊢
  obtain ⟨rfl, -⟩ := List.append_inj' heq rfl
  cases through_eq_some_iff.1 hbody with
  | @code outside ts hts =>
    refine ⟨_, cursor.line, outside, rfl, fun t ht => (hscanned t ht).kind_ne_eof, hts,
      isChain_joinDocumentation hends.scans.isChain, fun t ht hkind => ?_⟩
    refine hends.scans.isLiteral t (mem_of_mem_joinDocumentation ht ?_) hkind
    rw [hkind]
    decide

/-- A template with an interpolation, and one that a template in its interpolation leaves open. -/
theorem templates_nest_twice :
    (∃ outside, Derives (.code outside) [.plain .backtick "`" 1, .plain .templateString "a" 1,
      .plain .interpolationStart "$\x7b" 1, .plain .identifier "b" 1, .plain .closeBrace "\x7d" 1,
      .plain .backtick "`" 1]) ∧
    ∃ pieces cursor inner, Ends "`\n$\x7b`".toList pieces cursor ∧
      Opened (inner ++ [.template 1]) (tokensIn pieces) := by
  have hclosed : Token.scan "`a$\x7bb\x7d`" = .ok ([.plain .backtick "`" 1,
      .plain .templateString "a" 1, .plain .interpolationStart "$\x7b" 1,
      .plain .identifier "b" 1, .plain .closeBrace "\x7d" 1, .plain .backtick "`" 1] ++ [.eof 1]) := by
    have hscan : scan (.start "`a$\x7bb\x7d`".toList) [] = _ :=
      calc scan (.start "`a$\x7bb\x7d`".toList) []
        _ = scan ⟨['a', '$', '\x7b', 'b', '\x7d', '`'], 1, [.template 1]⟩ _ := scan_next rfl []
        _ = scan ⟨['$', '\x7b', 'b', '\x7d', '`'], 1, [.template 1]⟩ _ := scan_next rfl _
        _ = scan ⟨['b', '\x7d', '`'], 1, [.interpolation 0, .template 1]⟩ _ := scan_next rfl _
        _ = scan ⟨['\x7d', '`'], 1, [.interpolation 0, .template 1]⟩ _ := scan_next rfl _
        _ = scan ⟨['`'], 1, [.template 1]⟩ _ := scan_next rfl _
        _ = scan ⟨[], 1, []⟩ _ := scan_next rfl _
        _ = _ := scan_end rfl
    rw [Token.scan, hscan]
    rfl
  have hopen : Token.scan "`\n$\x7b`" = .error ⟨1, .stringTemplate⟩ := by
    have hscan : scan (.start "`\n$\x7b`".toList) [] = _ :=
      calc scan (.start "`\n$\x7b`".toList) []
        _ = scan ⟨['\n', '$', '\x7b', '`'], 1, [.template 1]⟩ _ := scan_next rfl []
        _ = scan ⟨['$', '\x7b', '`'], 2, [.template 1]⟩ _ := scan_next rfl _
        _ = scan ⟨['`'], 2, [.interpolation 0, .template 1]⟩ _ := scan_next rfl _
        _ = scan ⟨[], 2, [.template 2, .interpolation 0, .template 1]⟩ _ := scan_next rfl _
        _ = _ := scan_end rfl
    rw [Token.scan, hscan]
    rfl
  obtain ⟨body, line, outside, heq, -, hbody, -⟩ := (templates_nest _).1 _ hclosed
  obtain ⟨rfl, -⟩ := List.append_inj' heq rfl
  exact ⟨⟨outside, hbody⟩, ((templates_nest _).2 1).1 hopen⟩

end Mend.Lexer
