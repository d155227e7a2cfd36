import Mend.Plan.Admission
import Mend.Proofs.Grammar.Legal

/-!
# The first token read from a position

Which token is read first from a position is for most positions a matter of its kind alone, and
the kinds that resolve a branch point are exactly those. Where an expression, a type or a
conditional may end, what comes first depends on the productions around it; those positions hang
on the stack, and are treated by what may follow them.

A name that is spelled like a reserved word passes for that word, so kinds tell what is read only
of tokens that are no such names.
-/

namespace Mend

/-- A token that does not pass for a reserved word. -/
def Token.Unreserved (t : Token) : Prop := t.kind = .identifier → Kind.keyword? t.text = none

namespace Position

/-- Whether a position takes tokens of a kind, whatever their text. -/
def wants (p : Position) (k : Kind) : Bool :=
  match p.keyword? with
  | some word => k == word
  | none => p.tokenClass?.any (·.contains k)

theorem accepts_of_wants {p : Position} {t : Token} (h : p.wants t.kind = true) :
    p.accepts t = true := by
  unfold wants at h
  unfold accepts
  cases hword : p.keyword? with
  | some word =>
    simp only [hword, beq_iff_eq] at h
    simp [Token.isWord, h]
  | none =>
    rw [hword] at h
    exact h

theorem reserved_of_keyword? {p : Position} {word : Kind} (h : p.keyword? = some word) :
    Kind.keyword? word.text ≠ none := by
  revert h
  cases p <;> simp only [keyword?, reduceCtorEq, false_implies, Option.some.injEq]
  all_goals
    rintro rfl
    decide

theorem wants_of_accepts {p : Position} {t : Token} (ht : t.Unreserved)
    (h : p.accepts t = true) : p.wants t.kind = true := by
  unfold accepts at h
  unfold wants
  cases hword : p.keyword? with
  | some word =>
    simp only [hword, Token.isWord, Bool.or_eq_true, Bool.and_eq_true, beq_iff_eq] at h
    rcases h with hkind | ⟨hname, htext⟩
    · simp [hkind]
    · exact absurd (htext ▸ ht hname) (reserved_of_keyword? hword)
  | none =>
    rw [hword] at h
    exact h

theorem takesToken_of_wants {p : Position} {k : Kind} (h : p.wants k = true) :
    p.takesToken = true := by
  have haccepts : p.accepts (.plain k "" 0) = true := accepts_of_wants h
  exact takesToken_of_accepts haccepts

/-- The kind that is supplied at a position is one it takes. -/
theorem wants_expectedKind {p : Position} (h : p.takesToken = true)
    (hkind : p.expectedKind ≠ .absent) : p.wants p.expectedKind = true := by
  revert h hkind
  cases p <;> decide

theorem expectedKind_ne_documentation (p : Position) : p.expectedKind ≠ .documentationString := by
  cases p <;> decide

/-- Documentation is never supplied. -/
theorem kind_ne_documentation_of_canSupply {p : Position} {S : Stack} {k : Kind}
    (h : CanSupply p S k) : k ≠ .documentationString := by
  obtain ⟨q, T, _, _, rfl, _⟩ := h
  exact q.expectedKind_ne_documentation

/-- Only the end of the input ends it. -/
theorem kind_ne_eof_of_accepts {p : Position} {t : Token} (h : p.accepts t = true)
    (hp : p ≠ .eof) : t.kind ≠ .eof := by
  intro hkind
  have hends : ∀ p : Position, p.wants .eof = true → p = .eof := by
    intro p
    cases p <;> decide
  have hwants := wants_of_accepts (fun hname => by rw [hkind] at hname; cases hname) h
  rw [hkind] at hwants
  exact hp (hends p hwants)

theorem accepts_of_canRead {p : Position} {S : Stack} {t : Token} (hp : p.takesToken = true)
    (h : CanRead p S t) : p.accepts t = true := by
  obtain ⟨q, T, hrun, haccepts⟩ := h
  rw [hrun.eq_of_takesToken hp] at haccepts
  exact haccepts

theorem wants_of_canSupply {p : Position} {S : Stack} {k : Kind} (hp : p.takesToken = true)
    (h : CanSupply p S k) : p.wants k = true := by
  obtain ⟨q, T, hrun, htakes, rfl, hkind⟩ := h
  rw [hrun.eq_of_takesToken hp] at htakes hkind ⊢
  exact wants_expectedKind htakes hkind

/-! ## First kinds -/

/-- Whether what is read first from a position depends on the productions around it. -/
def hangs : Position → Bool
  | .expressionRhs | .expressionEnd | .typeDescRhs | .typeDescEnd | .elseOrEnd | .ifEnd => true
  | _ => false

/-- The position at which a production reads or leaves a choice first. -/
def lead : Position → Position
  | .callStmt | .argList => .openParenthesis
  | .queryExpr | .fromClause => .fromKeyword
  | .parameter => .typeDescriptor
  | p => (p.opening?.map (·.2)).getD p

/-- Whether a token of a kind can be read first from a position. The end of a type counts as one
inside the declaration of a variable. -/
def starts (p : Position) (k : Kind) : Bool :=
  match p with
  | .typeDescEnd => k == .identifier
  | .typeDescRhs | .varDeclAfterTypeRef => k == .questionMark || k == .identifier
  | p => p.lead.wants k || p.lead.admits k

/-- What a computation finds of every position holds of each. -/
theorem of_all {f : Position → Bool} (h : all.all f = true) (p : Position) : f p = true :=
  List.all_eq_true.1 h p p.mem_all

private theorem ways_table : all.all (fun p => p.hangs || p.ways.all fun q =>
    !q.hangs && Kind.all.all fun k => !q.starts k || p.starts k) = true := by
  decide +kernel

private theorem opening_table : all.all (fun p =>
    p.hangs || p == .varDeclAfterTypeRef || p.opening?.all fun entered =>
      !entered.2.hangs && Kind.all.all fun k => !entered.2.starts k || p.starts k) = true := by
  decide +kernel

theorem starts_of_wants {p : Position} {k : Kind} (h : p.wants k = true) : p.starts k = true := by
  have htakes := takesToken_of_wants h
  have hstarts : p.starts k = (p.wants k || p.admits k) := by
    revert htakes
    cases p <;> first | exact fun _ => rfl | exact fun h => absurd h (by decide)
  rw [hstarts, h, Bool.true_or]

end Position

/-! ## Runs that read nothing -/

/-- A position whose first kinds are its own, or the type in the declaration of a variable. -/
def Anchored (p : Position) (S : Stack) : Prop :=
  p.hangs = false ∨ (p = .typeDescRhs ∨ p = .typeDescEnd) ∧ S.head? = some .varDecl

namespace Anchored

variable {p q : Position} {S S' T : Stack} {k : Kind}

/-- Every way on from an anchored position is anchored and starts with fewer kinds. -/
theorem way (h : Anchored p S) (hway : q ∈ p.ways) :
    Anchored q S ∧ (q.starts k = true → p.starts k = true) := by
  rcases h with hp | ⟨rfl | rfl, htop⟩
  · have htable := Position.of_all Position.ways_table p
    simp only [hp, Bool.false_or, List.all_eq_true, Bool.and_eq_true, Bool.not_eq_true',
      Bool.or_eq_true] at htable
    obtain ⟨hq, hkinds⟩ := htable q hway
    exact ⟨.inl hq, fun hk => (hkinds k k.mem_all).resolve_left (by simp [hk])⟩
  · change q ∈ [.questionMark, .typeDescEnd] at hway
    simp only [List.mem_cons, List.not_mem_nil, or_false] at hway
    rcases hway with rfl | rfl
    · refine ⟨.inl rfl, fun hk => ?_⟩
      revert hk
      cases k <;> decide
    · exact ⟨.inr ⟨.inr rfl, htop⟩, fun hk => by simp_all [Position.starts]⟩
  · exact absurd hway List.not_mem_nil

/-- Passing an anchored silent position leads to one that starts with fewer kinds. -/
theorem silent (h : Anchored p S) (hsilent : p.isSilent = true)
    (hmove : p.advance S = .reach q S') :
    Anchored q S' ∧ (q.starts k = true → p.starts k = true) := by
  have hkinds : ∀ p : Position, p.isSilent = true → p.hangs = true ∨
      p.opening?.isSome = true ∨ p = .parameter := by
    intro p
    cases p <;> decide
  rcases h with hp | ⟨rfl | rfl, htop⟩
  · rcases hkinds p hsilent with hhangs | hsome | rfl
    · rw [hp] at hhangs
      cases hhangs
    · obtain ⟨⟨production, first⟩, hopening⟩ := Option.isSome_iff_exists.1 hsome
      have htable := Position.of_all Position.opening_table p
      unfold Position.advance at hmove
      rw [hopening] at htable hmove
      obtain ⟨rfl, rfl⟩ := Step.reach.inj hmove
      simp only [hp, Bool.false_or, Bool.or_eq_true, beq_iff_eq, Option.all_some,
        Bool.and_eq_true, Bool.not_eq_true', List.all_eq_true] at htable
      rcases htable with rfl | ⟨hfirst, hstarts⟩
      · obtain ⟨rfl, rfl⟩ := Prod.mk.inj (Option.some.inj hopening)
        exact ⟨.inr ⟨.inl rfl, rfl⟩, id⟩
      · exact ⟨.inl hfirst, fun hk => (hstarts k k.mem_all).resolve_left (by simp [hk])⟩
    · obtain ⟨rfl, rfl⟩ := Step.reach.inj hmove
      exact ⟨.inl rfl, id⟩
  · cases hsilent
  · cases S with
    | nil => cases htop
    | cons production rest =>
      rw [List.head?_cons, Option.some.injEq] at htop
      subst htop
      obtain ⟨rfl, rfl⟩ := Step.reach.inj hmove
      refine ⟨.inl rfl, fun hk => ?_⟩
      revert hk
      cases k <;> decide

/-- What is reached without reading starts with kinds of the position. -/
theorem starts_of_run {ts : List Token} (h : Anchored p S) (hrun : Run p S ts q T)
    (hts : ts = []) (hk : q.starts k = true) : p.starts k = true := by
  induction hrun with
  | refl => exact hk
  | branch hway _ ih => exact (h.way hway).2 (ih (h.way (k := k) hway).1 hts hk)
  | silent hsilent hmove _ ih =>
    exact (h.silent hsilent hmove).2 (ih (h.silent (k := k) hsilent hmove).1 hts hk)
  | read => cases hts

/-- A token that can be read from an anchored position starts it. -/
theorem starts_of_canRead {t : Token} (h : Anchored p S) (ht : t.Unreserved)
    (hread : CanRead p S t) : p.starts t.kind = true := by
  obtain ⟨q, T, hrun, haccepts⟩ := hread
  exact h.starts_of_run hrun rfl (Position.starts_of_wants (Position.wants_of_accepts ht haccepts))

/-- A kind of token that can be supplied at an anchored position starts it. -/
theorem starts_of_canSupply (h : Anchored p S) (hsupply : CanSupply p S k) :
    p.starts k = true := by
  obtain ⟨q, T, hrun, htakes, rfl, hkind⟩ := hsupply
  exact h.starts_of_run hrun rfl
    (Position.starts_of_wants (Position.wants_expectedKind htakes hkind))

end Anchored

/-- What is read first from a position starts it, unless it hangs on the stack. -/
theorem Reads.starts {p : Position} {S : Stack} {t : Token} {ts : List Token}
    (h : Reads p S (t :: ts)) (ht : t.Unreserved) (hp : p.hangs = false) :
    p.starts t.kind = true :=
  Anchored.starts_of_canRead (.inl hp) ht h.canRead

/-! ## Branch points that one token resolves -/

namespace Position

/-- Whether a position leaves a choice that one token decides, whatever encloses it. -/
def isChoice (p : Position) : Bool := p.isBranch && !p.hangs

theorem isBranch_of_isChoice {p : Position} (h : p.isChoice = true) : p.isBranch = true := by
  simp only [isChoice, Bool.and_eq_true] at h
  exact h.1

theorem anchored_of_isChoice {p : Position} {S : Stack} (h : p.isChoice = true) :
    Anchored p S := by
  simp only [isChoice, Bool.and_eq_true, Bool.not_eq_true'] at h
  exact .inl h.2

theorem starts_of_isChoice {p : Position} {k : Kind} (h : p.isChoice = true) :
    p.starts k = p.admits k := by
  revert h
  cases p <;> first | exact fun _ => rfl | exact fun h => absurd h (by decide)

variable {b : Position} {S : Stack}

/-- A token that can be read from a branch point resolves it. -/
theorem admits_of_canRead {t : Token} (hb : b.isChoice = true) (ht : t.Unreserved)
    (h : CanRead b S t) : b.admits t.kind = true := by
  rw [← starts_of_isChoice hb]
  exact (anchored_of_isChoice hb).starts_of_canRead ht h

/-- A kind of token that can be supplied at a branch point resolves it. -/
theorem admits_of_canSupply {k : Kind} (hb : b.isChoice = true) (h : CanSupply b S k) :
    b.admits k = true := by
  rw [← starts_of_isChoice hb]
  exact (anchored_of_isChoice hb).starts_of_canSupply h

end Position

/-! ## The token that is read first -/

namespace Reads

variable {p b : Position} {S : Stack} {t : Token} {ts : List Token}

/-- A position that takes a token wants the one that is read there. -/
theorem wants (h : Reads p S (t :: ts)) (ht : t.Unreserved) (hp : p.takesToken = true) :
    p.wants t.kind = true :=
  Position.wants_of_accepts ht (Position.accepts_of_canRead hp h.canRead)

/-- At a branch point the first token decides, and one of the ways starts with it. -/
theorem choice (h : Reads b S (t :: ts)) (ht : t.Unreserved) (hb : b.isChoice = true) :
    b.admits t.kind = true ∧
      ∃ way ∈ b.ways, way.starts t.kind = true ∧ Reads way S (t :: ts) := by
  obtain ⟨way, hway, hreads⟩ := h.way (Position.isBranch_of_isChoice hb)
  have hanchored : Anchored way S := ((Position.anchored_of_isChoice hb).way (k := t.kind) hway).1
  exact ⟨Position.admits_of_canRead hb ht h.canRead, way, hway,
    hanchored.starts_of_canRead ht hreads.canRead, hreads⟩

end Reads

end Mend
