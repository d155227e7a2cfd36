import Mend.Proofs.Token.Scan

/-!
# Joined documentation

Documentation lines that follow each other are one token. Joining goes from the end, so each token is
attached to what has been joined behind it: it becomes part of documentation that starts there, or it
stands for itself (`attach_cases`).
-/

namespace Mend.Lexer

/-- A token before tokens that are joined already. -/
def attach (t : Token) : List Token → List Token
  | [] => [t]
  | next :: more =>
    if t.kind = .documentationString && next.kind = .documentationString then
      { t with text := t.text ++ "\n" ++ next.text } :: more
    else t :: next :: more

variable {t : Token} {tokens as bs : List Token}

theorem joinDocumentation_cons (t : Token) (rest : List Token) :
    joinDocumentation (t :: rest) = attach t (joinDocumentation rest) := by
  rw [joinDocumentation]
  cases joinDocumentation rest <;> rfl

/-- Whether two tokens are documentation. -/
def BothDocument (s t : Token) : Prop :=
  s.kind = .documentationString ∧ t.kind = .documentationString

theorem attach_cases (t : Token) (joined : List Token) :
    (∃ next more, joined = next :: more ∧ BothDocument t next ∧
      attach t joined = { t with text := t.text ++ "\n" ++ next.text } :: more) ∨
    (attach t joined = t :: joined ∧ ∀ next ∈ joined.head?, ¬ BothDocument t next) := by
  cases joined with
  | nil => exact .inr ⟨rfl, nofun⟩
  | cons next more =>
    by_cases h : BothDocument t next
    · refine .inl ⟨next, more, rfl, h, ?_⟩
      simp [attach, h.1, h.2]
    · refine .inr ⟨?_, by simpa using h⟩
      rw [attach, if_neg (by simpa [BothDocument] using h)]

/-- Joining keeps the kind of the first token. -/
theorem head?_joinDocumentation (tokens : List Token) :
    (joinDocumentation tokens).head?.map (·.kind) = tokens.head?.map (·.kind) := by
  cases tokens with
  | nil => rfl
  | cons t rest =>
    rw [joinDocumentation_cons]
    rcases attach_cases t (joinDocumentation rest) with ⟨next, more, _, _, h⟩ | ⟨h, _⟩ <;> rw [h] <;> rfl

theorem joinDocumentation_eq_nil (h : joinDocumentation tokens = []) : tokens = [] := by
  have hhead := head?_joinDocumentation tokens
  rw [h] at hhead
  cases tokens with
  | nil => rfl
  | cons t rest => cases hhead

/-- Joining keeps the kind of the last token. -/
theorem getLast?_joinDocumentation (tokens : List Token) :
    (joinDocumentation tokens).getLast?.map (·.kind) = tokens.getLast?.map (·.kind) := by
  induction tokens with
  | nil => rfl
  | cons t rest ih =>
    rw [joinDocumentation_cons]
    cases rest with
    | nil => rfl
    | cons u rest =>
      rw [List.getLast?_cons_cons, ← ih]
      rcases attach_cases t (joinDocumentation (u :: rest)) with
        ⟨next, more, hnext, hboth, h⟩ | ⟨h, _⟩
      · rw [h, hnext]
        cases more with
        | nil => exact congrArg some (hboth.1.trans hboth.2.symm)
        | cons last more => rfl
      · rw [h]
        cases hjoined : joinDocumentation (u :: rest) with
        | nil => exact absurd (joinDocumentation_eq_nil hjoined) (List.cons_ne_nil u rest)
        | cons next more => rfl

/-- Two texts are joined one by one unless documentation meets documentation between them. -/
theorem joinDocumentation_append
    (hseam : ∀ s ∈ as.getLast?, ∀ t ∈ bs.head?, ¬ BothDocument s t) :
    joinDocumentation (as ++ bs) = joinDocumentation as ++ joinDocumentation bs := by
  induction as with
  | nil => rfl
  | cons t rest ih =>
    rw [List.cons_append, joinDocumentation_cons, joinDocumentation_cons]
    cases rest with
    | nil =>
      rcases attach_cases t (joinDocumentation bs) with ⟨next, more, hnext, hboth, -⟩ | ⟨h, -⟩
      · have hhead := head?_joinDocumentation bs
        rw [hnext] at hhead
        obtain ⟨first, hfirst, hkind⟩ := Option.map_eq_some_iff.1 hhead.symm
        exact absurd ⟨hboth.1, hkind.trans hboth.2⟩ (hseam t rfl first hfirst)
      · exact h
    | cons u rest =>
      rw [ih (by simpa using hseam)]
      cases hjoined : joinDocumentation (u :: rest) with
      | nil => exact absurd (joinDocumentation_eq_nil hjoined) (List.cons_ne_nil u rest)
      | cons next more =>
        rw [List.cons_append, attach, attach]
        split <;> rfl

/-- Joining leaves the end of the input alone. -/
theorem joinDocumentation_eof (tokens : List Token) (line : UInt32) :
    joinDocumentation (tokens ++ [.eof line]) = joinDocumentation tokens ++ [.eof line] := by
  refine joinDocumentation_append fun s _ t ht hboth => ?_
  cases ht
  cases (show Kind.eof = .documentationString from hboth.2)

/-- A joined token starts with a token of the same kind on the same line. -/
theorem exists_of_mem_joinDocumentation (h : t ∈ joinDocumentation tokens) :
    ∃ first ∈ tokens, t.kind = first.kind ∧ t.line = first.line := by
  induction tokens with
  | nil => cases h
  | cons u rest ih =>
    have hlater (h : t ∈ joinDocumentation rest) :
        ∃ first ∈ u :: rest, t.kind = first.kind ∧ t.line = first.line := by
      obtain ⟨first, hfirst, hkind⟩ := ih h
      exact ⟨first, List.mem_cons_of_mem u hfirst, hkind⟩
    rw [joinDocumentation_cons] at h
    rcases attach_cases u (joinDocumentation rest) with ⟨next, more, hnext, _, heq⟩ | ⟨heq, _⟩
    · rw [heq] at h
      rcases List.mem_cons.1 h with rfl | hmore
      · exact ⟨u, List.mem_cons_self, rfl, rfl⟩
      · exact hlater (hnext ▸ List.mem_cons_of_mem next hmore)
    · rw [heq] at h
      rcases List.mem_cons.1 h with rfl | hmore
      · exact ⟨t, List.mem_cons_self, rfl, rfl⟩
      · exact hlater hmore

end Mend.Lexer
