import Mend.Proofs.Parse.Safety
import Mend.Proofs.Repair.Progress
import Mend.Proofs.Token.Scan

/-!
# Where a parse gives up

If fewer attempts may search than may complete, a parse gives up at a closing brace only. Only a
closing brace can be completed, so at any other token an attempt is one to search. As soon as the
attempts to search are used up the token is left out, and at that time they are too few for giving
up.

The invariant is about sessions, so it is carried along a parse by what the machine does with its
session: it changes the stack, reads, asks for repair, or leaves out the rest (`Session.Kept`).
-/

namespace Mend

/-! ## What the machine does with its session -/

/-- A property of sessions that nothing changes which the machine does with its session. -/
structure Session.Kept (P : Session → Prop) : Prop where
  onStack : ∀ {s} T, P s → P { s with stack := T }
  read : ∀ {s}, P s → P { s with reader := s.reader.read.2 }
  drain : ∀ {s}, P s → P { s with reader := (Machine.drainReader s.reader).2 }
  recover : ∀ {s s' p r}, P s →
    s.recover p s.reader.peek (Machine.completes s.reader.peek s.stack) = (.ok r, s') → P s'

namespace Machine

variable {m m' : Machine} {plan plan' : Plan} {i : Instruction} {p : Position}
  {P : Session → Prop} {tokens : List Token} {limits : Limits}

/-- What a repair does to the session. -/
theorem recover_of_repair {r : Repair} (h : m.repair p = .ok (r, m')) :
    m.session.recover p m.session.reader.peek
      (completes m.session.reader.peek m.session.stack) = (.ok r, m'.session) := by
  unfold repair at h
  dsimp only at h
  split at h
  · cases h
  · rename_i hrecover
    rw [hrecover]
    split at h <;>
      · cases h
        rfl

theorem recover_of_repair_error {error : Breakdown} (h : m.repair p = .error error) :
    ∃ s, m.session.recover p m.session.reader.peek
      (completes m.session.reader.peek m.session.stack) = (.error error, s) := by
  unfold repair at h
  dsimp only at h
  split at h
  · rename_i hrecover
    cases h
    exact ⟨_, hrecover⟩
  · split at h <;> cases h

theorem session_take (hP : Session.Kept P) (h : P m.session) : P m.take.session := by
  unfold take
  split
  · exact h
  · exact hP.read h

theorem session_repair (hP : Session.Kept P) (h : P m.session) {r : Repair}
    (hrepair : m.repair p = .ok (r, m')) : P m'.session :=
  hP.recover h (recover_of_repair hrepair)

theorem session_expect (hP : Session.Kept P) (h : P m.session)
    (hstep : m.expect p plan = .ok (m', plan')) : P m'.session := by
  unfold expect at hstep
  split at hstep
  · cases hstep
    exact session_take hP h
  · obtain ⟨⟨r, m₁⟩, hrepair, hstep⟩ := Except.bind_eq_ok hstep
    have h₁ := session_repair hP h hrepair
    dsimp only at hstep
    split at hstep
    · cases hstep
      exact h₁
    · cases hstep
      exact session_take hP h₁

theorem session_choose (hP : Session.Kept P) (h : P m.session)
    (hstep : m.choose p plan = .ok (m', plan')) : P m'.session := by
  unfold choose at hstep
  split at hstep
  · cases hstep
    exact h
  · obtain ⟨⟨r, m₁⟩, hrepair, hstep⟩ := Except.bind_eq_ok hstep
    have h₁ := session_repair hP h hrepair
    dsimp only at hstep
    split at hstep <;>
      · cases hstep
        exact h₁

theorem session_step (hP : Session.Kept P) (h : P m.session)
    (hstep : m.step i plan = .ok (m', plan')) : P m'.session := by
  cases i with
  | expect p => exact session_expect hP h hstep
  | choose b => exact session_choose hP h hstep
  | leave =>
    obtain ⟨p, T, _, rfl, rfl⟩ := step_leave_inv hstep
    exact hP.onStack T h
  | switch p =>
    obtain ⟨p', T, _, rfl, rfl⟩ := step_switch_inv hstep
    exact hP.onStack (p :: T) h
  | enter p =>
    cases hstep
    exact hP.onStack (p :: m.session.stack) h
  | take =>
    cases hstep
    exact session_take hP h
  | drain =>
    cases hstep
    exact hP.drain h
  | _ =>
    cases hstep
    exact h

/-- What holds of the session at the start of a parse, and is kept, holds all along. -/
theorem Reached.session (hP : Session.Kept P) (hstart : P (Machine.start tokens limits).session)
    (h : Reached tokens limits m plan) : P m.session := by
  induction h with
  | start => exact hstart
  | step _ hstep ih => exact session_step hP ih hstep

/-! ## How a step fails -/

theorem repair_of_expect {error : Breakdown} (h : m.expect p plan = .error error) :
    m.repair p = .error error := by
  unfold expect at h
  split at h
  · cases h
  · cases hrepair : m.repair p with
    | error _ =>
      rw [hrepair] at h
      cases h
      rfl
    | ok result =>
      simp only [hrepair, bind, Except.bind] at h
      split at h <;> cases h

theorem repair_of_choose {error : Breakdown} (h : m.choose p plan = .error error) :
    m.repair p = .error error := by
  unfold choose at h
  split at h
  · cases h
  · cases hrepair : m.repair p with
    | error _ =>
      rw [hrepair] at h
      cases h
      rfl
    | ok result =>
      simp only [hrepair, bind, Except.bind] at h
      split at h <;> cases h

/-- A step that fails for another reason than the tables fails in a repair. -/
theorem repair_of_step {error : Breakdown} (htables : error.ofTables = false)
    (h : m.step i plan = .error error) : ∃ q, m.repair q = .error error := by
  cases i with
  | expect q => exact ⟨q, repair_of_expect h⟩
  | choose b => exact ⟨b, repair_of_choose h⟩
  | leave =>
    unfold step at h
    cases hstack : m.session.stack <;> rw [hstack] at h <;> cases h
    cases htables
  | switch q =>
    unfold step at h
    cases hstack : m.session.stack <;> rw [hstack] at h <;> cases h
    cases htables
  | _ => cases h

/-- A step gives up only where repair was asked for too often at the next token. -/
theorem tries_of_exhausted {index count : Nat}
    (h : m.step i plan = .error (.exhausted p index count)) :
    m.session.reader.peek.kind ≠ .eof ∧ index = m.session.reader.index ∧
      m.session.tries = m.session.limits.completion := by
  obtain ⟨q, hrepair⟩ := repair_of_step rfl h
  obtain ⟨s, hrecover⟩ := recover_of_repair_error hrepair
  by_cases hnext : m.session.reader.peek.kind = .eof
  · rw [Session.recover, if_pos hnext] at hrecover
    cases hrecover
  · cases Session.Answered.of_recover hnext hrecover with
    | broken htables _ => cases htables
    | exhausted hcount => exact ⟨hnext, rfl, hcount⟩

/-- A parse that fails does so at a step of a machine that is reached. -/
theorem Reached.of_failed {error : Breakdown} {fuel : Nat} (h : Reached tokens limits m plan)
    (hrun : run fuel m plan = .failed error) :
    ∃ m' i plan', Reached tokens limits m' (i :: plan') ∧ m'.step i plan' = .error error := by
  induction fuel generalizing m plan with
  | zero => cases plan <;> cases hrun
  | succ fuel ih =>
    cases plan with
    | nil => cases hrun
    | cons i plan =>
      rw [run] at hrun
      split at hrun
      · rename_i hstep
        cases hrun
        exact ⟨m, i, plan, h, hstep⟩
      · rename_i hstep
        exact ih (h.step hstep) hrun

end Machine

/-! ## Tokens that cannot be completed -/

namespace Session

variable {s s' : Session}

/-- Repair has not been asked for beyond the reader, nor more often than attempts may search at a
token that cannot be completed. -/
structure Patient (s : Session) : Prop where
  last : s.reader.last.kind = .eof
  asked : ∀ index count, s.attempts = some (index, count) → index ≤ s.reader.index
  tries : s.reader.peek.kind ≠ .closeBrace → s.tries ≤ s.limits.resolution

/-- At a token behind those that repair was asked for it has not been asked for yet. -/
theorem tries_of_lt
    (h : ∀ index count, s.attempts = some (index, count) → index < s.reader.index) :
    s.tries = 0 := by
  unfold tries
  cases hattempts : s.attempts with
  | none => rfl
  | some attempt => exact if_neg (Nat.ne_of_lt (h _ _ hattempts))

namespace Patient

theorem of_lt (hlast : s.reader.last.kind = .eof)
    (h : ∀ index count, s.attempts = some (index, count) → index < s.reader.index) :
    Patient s where
  last := hlast
  asked index count hattempts := Nat.le_of_lt (h index count hattempts)
  tries _ := by
    rw [tries_of_lt h]
    exact Nat.zero_le _

/-- Moving on by some tokens, or by none. -/
theorem move (h : Patient s) {reader : Reader} (hlast : reader.last = s.reader.last)
    (hreader : reader = s.reader ∨ s.reader.index < reader.index) :
    Patient { s with reader := reader } := by
  rcases hreader with rfl | hlt
  · exact h
  · refine of_lt (hlast ▸ h.last) fun index count hattempts => ?_
    exact Nat.lt_of_le_of_lt (h.asked index count hattempts) hlt

theorem read (h : Patient s) : Patient { s with reader := s.reader.read.2 } := by
  refine h.move (Machine.Keeps.last_read _) ?_
  unfold Reader.read
  split
  · exact .inl rfl
  · exact .inr (Nat.lt_succ_self _)

theorem drain (h : Patient s) :
    Patient { s with reader := (Machine.drainReader s.reader).2 } := by
  refine h.move rfl ?_
  unfold Machine.drainReader
  cases s.reader.ahead.takeWhile (·.kind != .eof) with
  | nil => exact .inl rfl
  | cons t rest =>
    right
    simp only [Reader.index, List.length_append, List.length_reverse, List.length_cons]
    omega

/-- A call that is answered keeps patience: at a token that cannot be completed it is answered
without leaving the token out only while attempts may search. -/
theorem recover {p : Position} {r : Repair} (h : Patient s)
    (hcall : s.recover p s.reader.peek (Machine.completes s.reader.peek s.stack) = (.ok r, s')) :
    Patient s' := by
  by_cases hnext : s.reader.peek.kind = .eof
  · have hsame := recover_at_end s p (Machine.completes s.reader.peek s.stack) hnext
    rw [hcall] at hsame
    cases hsame
    exact h
  · have hspec := Answered.of_recover hnext hcall
    have hproceeds := hspec.proceeds h.last hnext
    have hlast : s'.reader.last.kind = .eof := hspec.last ▸ h.last
    cases hspec with
    | stayed haction hallows =>
      refine ⟨hlast, fun index count hattempts => ?_, fun hbrace => ?_⟩
      · rw [attempts_recordAttempt] at hattempts
        cases hattempts
        exact Nat.le_refl _
      · rw [tries_recordAttempt]
        rcases hallows with ⟨hcompletes, _⟩ | hsearches
        · simp only [Machine.completes, Bool.and_eq_true, beq_iff_eq] at hcompletes
          exact absurd hcompletes.1 hbrace
        · exact hsearches
    | removed haction =>
      refine of_lt hlast fun index count hattempts => ?_
      have hmoved := hproceeds.removed (by simp [Call.removes, haction])
      change s.recordAttempt.attempts = _ at hattempts
      rw [attempts_recordAttempt] at hattempts
      cases hattempts
      exact Nat.lt_of_lt_of_eq (Nat.lt_succ_self _) hmoved.symm

theorem kept : Kept Patient where
  onStack _ h := ⟨h.last, h.asked, h.tries⟩
  read h := h.read
  drain h := h.drain
  recover h hcall := h.recover hcall

end Patient

/-- What an answered call can do to a session. -/
theorem recover_cases {p : Position} {next : Token} {completing : Bool} {r : Repair}
    (hcall : s.recover p next completing = (.ok r, s')) :
    s' = s ∨ s' = s.recordAttempt ∨ s' = { s.recordAttempt with reader := s.reader.read.2 } := by
  by_cases hnext : next.kind = .eof
  · have hsame := recover_at_end s p completing hnext
    rw [hcall] at hsame
    exact .inl hsame
  · cases Answered.of_recover hnext hcall with
    | stayed _ _ => exact .inr (.inl rfl)
    | removed _ => exact .inr (.inr rfl)

/-- The limits and the tokens before the end, read or not. -/
structure Holds (limits : Limits) (body : List Token) (s : Session) : Prop where
  limits : s.limits = limits
  tokens : s.reader.consumed.reverse ++ s.reader.ahead = body

namespace Holds

variable {limits : Limits} {body : List Token}

theorem read (h : Holds limits body s) :
    Holds limits body { s with reader := s.reader.read.2 } := by
  refine ⟨h.limits, ?_⟩
  rw [← h.tokens]
  unfold Reader.read
  split <;> rename_i hahead <;> simp [hahead]

theorem drain (h : Holds limits body s) :
    Holds limits body { s with reader := (Machine.drainReader s.reader).2 } := by
  refine ⟨h.limits, ?_⟩
  have hpassed := List.prefix_iff_eq_append.1
    (List.takeWhile_prefix (l := s.reader.ahead) (·.kind != .eof))
  rw [← h.tokens]
  simp only [Machine.drainReader, List.reverse_append, List.reverse_reverse, List.append_assoc,
    hpassed]

theorem kept : Kept (Holds limits body) where
  onStack _ h := ⟨h.limits, h.tokens⟩
  read h := h.read
  drain h := h.drain
  recover h hcall := by
    rcases recover_cases hcall with rfl | rfl | rfl
    · exact h
    · exact ⟨h.limits, h.tokens⟩
    · exact ⟨h.limits, h.read.tokens⟩

end Holds

/-- Before the end, the next token is the one with the reader's index. -/
theorem Holds.getElem?_index {limits : Limits} {body : List Token} (h : Holds limits body s)
    (hlast : s.reader.last.kind = .eof) (hnext : s.reader.peek.kind ≠ .eof) :
    body[s.reader.index]? = some s.reader.peek := by
  cases hahead : s.reader.ahead with
  | nil => simp [Reader.peek, Reader.peekN, hahead, hlast] at hnext
  | cons t rest =>
    rw [← h.tokens, Reader.index, ← List.length_reverse]
    simp [Reader.peek, Reader.peekN, hahead]

end Session

theorem Reader.consumed_ofTokens (tokens : List Token) : (ofTokens tokens).consumed = [] := by
  unfold ofTokens
  split
  · rfl
  · split <;> rfl

theorem Reader.ofTokens_prefix (tokens : List Token) : (ofTokens tokens).ahead <+: tokens := by
  unfold ofTokens
  cases tokens.getLast? with
  | none => exact List.nil_prefix
  | some t =>
    dsimp only
    split
    · exact List.dropLast_prefix tokens
    · exact List.prefix_refl tokens

variable {tokens : List Token} {limits : Limits} {p : Position} {index count : Nat}

open Machine in
theorem Tree.closeBrace_of_exhausted (hlimits : limits.resolution < limits.completion)
    (h : Tree.ofTokens tokens limits = .error (.breakdown (.exhausted p index count))) :
    ∃ t, tokens[index]? = some t ∧ t.kind = .closeBrace := by
  have hfailed : run (stepBound tokens limits) (.start tokens limits) program =
      .failed (.exhausted p index count) := by
    unfold Tree.ofTokens at h
    split at h
    · cases h
    · cases h
      assumption
    · cases h
  obtain ⟨m, i, plan, hreached, hstep⟩ := Reached.start.of_failed hfailed
  obtain ⟨hnext, rfl, htries⟩ := tries_of_exhausted hstep
  have hlast := hreached.sound.last
  have hholds : m.session.Holds limits (Reader.ofTokens tokens).ahead :=
    hreached.session Session.Holds.kept
      ⟨rfl, congrArg (·.reverse ++ _) (Reader.consumed_ofTokens tokens)⟩
  have hpatient : m.session.Patient := by
    refine hreached.session Session.Patient.kept (.of_lt (sound_start tokens limits).last ?_)
    intro index count hattempts
    cases hattempts
  refine ⟨m.session.reader.peek, ?_, ?_⟩
  · have hindex := hholds.getElem?_index hlast hnext
    obtain ⟨rest, htokens⟩ := Reader.ofTokens_prefix tokens
    rw [← htokens, List.getElem?_append_left (List.getElem?_eq_some_iff.1 hindex).1]
    exact hindex
  · by_cases hbrace : m.session.reader.peek.kind = .closeBrace
    · exact hbrace
    · -- At any other token the tries could not have come to the larger limit.
      have := hpatient.tries hbrace
      rw [htries, hholds.limits] at this
      omega

/-- If fewer attempts may search than may complete, a parse gives up at a closing brace only. So a
text without one always has a tree. -/
theorem gives_up_at_closing_brace (hlimits : limits.resolution < limits.completion) :
    (∀ tokens p index count,
      Tree.ofTokens tokens limits = .error (.breakdown (.exhausted p index count)) →
      ∃ t, tokens[index]? = some t ∧ t.kind = .closeBrace) ∧
    ∀ text tokens, Token.scan text = .ok tokens → (∀ t ∈ tokens, t.kind ≠ .closeBrace) →
      ∃ tree, Tree.ofText text limits = .ok tree := by
  refine ⟨fun tokens p index count h => Tree.closeBrace_of_exhausted hlimits h,
    fun text tokens hscan hbraces => ?_⟩
  simp only [Tree.ofText, hscan]
  rcases Tree.parses_ofTokens tokens limits with htree | ⟨p, index, count, hfailed⟩
  · exact htree
  · obtain ⟨t, hindex, hkind⟩ := Tree.closeBrace_of_exhausted hlimits hfailed
    exact absurd hkind (hbraces t (List.mem_of_getElem? hindex))

theorem Except.eq_error_of_any {ε α : Type} [DecidableEq ε] {result : Except ε α} {error : ε}
    (h : (match result with | .ok _ => false | .error e => decide (e = error)) = true) :
    result = .error error := by
  cases result with
  | ok a => cases h
  | error e => rw [of_decide_eq_true h]

/-- A record may break off inside of a field. Two tokens are missing before its brace then, and one
attempt to complete it is not enough. Without any text there is no brace to give up at. -/
theorem gives_up_at_end_of_record :
    ∃ tokens p index count, tokens = [.plain .typeKeyword "type" 1, .plain .identifier "T" 1,
        .plain .recordKeyword "record" 1, .plain .openBrace "\x7b" 1, .plain .intKeyword "int" 1,
        .plain .closeBrace "\x7d" 1, .eof 1] ∧
      Tree.ofTokens tokens ⟨4, 1, 0⟩ = .error (.breakdown (.exhausted p index count)) ∧
      (∃ t, tokens[index]? = some t ∧ t.kind = .closeBrace) ∧
      ∃ tree, Tree.ofText "" ⟨4, 1, 0⟩ = .ok tree := by
  refine ⟨_, .semicolon, 5, 1, rfl, ?_⟩
  have hfailed : Tree.ofTokens [.plain .typeKeyword "type" 1, .plain .identifier "T" 1,
      .plain .recordKeyword "record" 1, .plain .openBrace "\x7b" 1, .plain .intKeyword "int" 1,
      .plain .closeBrace "\x7d" 1, .eof 1] ⟨4, 1, 0⟩ =
      .error (.breakdown (.exhausted .semicolon 5 1)) :=
    Except.eq_error_of_any (by decide +kernel)
  have hempty : Token.scan "" = .ok [.eof 1] := by
    rw [Token.scan, Lexer.scan_end rfl]
    rfl
  obtain ⟨hbrace, htree⟩ := @gives_up_at_closing_brace ⟨4, 1, 0⟩ (by decide)
  exact ⟨hfailed, hbrace _ _ _ _ hfailed, htree "" _ hempty (by decide)⟩

end Mend
