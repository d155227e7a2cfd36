import Mend.Proofs.Grammar.Stuck
import Mend.Proofs.Repair.Session

/-!
# Repair makes progress

The calls for repair at one token are counted, and only a count below the limits allows a repair
that leaves the token where it is. So between two removals only so many calls can be made at one
token, at whatever positions, whether they are to complete something or not, and whatever happens
to the stack in between. Giving up takes one particular count, which no two calls at a token have.

The states here are arbitrary, so a search may also fail because the tables have no rule. Such a
call counts like any other, and it is never mistaken for giving up (`fromTables_seek`).
-/

namespace Mend

/-! ## How a search fails -/

/-- Whether a breakdown comes from the tables rather than from repair. -/
def Breakdown.ofTables : Breakdown → Bool
  | .exhausted _ _ _ => false
  | _ => true

/-- Whether a move of the automaton, if it fails, fails for want of a rule. -/
def Step.ofTables : Step → Bool
  | .reach _ _ => true
  | .stuck error _ => error.ofTables

theorem Breakdown.OfMove.ofTables {error : Breakdown} (h : error.OfMove) :
    error.ofTables = true := by
  cases h <;> rfl

theorem Position.ofTables_advance (p : Position) (S : Stack) :
    (p.advance S).ofTables = true := by
  cases hmove : p.advance S with
  | reach q T => rfl
  | stuck error T => exact (ofMove_of_advance hmove).ofTables

namespace Search

/-- A result that, if it is a failure, comes from the tables. -/
def FromTables {α : Type} (result : Except Breakdown α) : Prop :=
  ∀ error, result = .error error → error.ofTables = true

theorem FromTables.ok {α : Type} (a : α) : FromTables (.ok a) := by
  intro error h
  cases h

theorem FromTables.bind {α β : Type} {x : Except Breakdown α} {f : α → Except Breakdown β}
    (hx : FromTables x) (hf : ∀ a, FromTables (f a)) : FromTables (x >>= f) := by
  intro error h
  cases x with
  | error e =>
    cases h
    exact hx _ rfl
  | ok a => exact hf a error h

theorem FromTables.of_stuck {p : Position} {S T : Stack} {error : Breakdown}
    (h : p.advance S = .stuck error T) {α : Type} : FromTables (α := α) (.error error) := by
  rintro _ ⟨⟩
  have hmove := p.ofTables_advance S
  rw [h] at hmove
  exact hmove

theorem fromTables_seek (limit : Nat) (reader : Reader) (p : Position) (place depth : Nat)
    (entry : Bool) (S : Stack) (passed : Nat) :
    FromTables (seek limit reader p place depth entry S passed) := by
  refine seek.induct_unfolding limit reader
    (fun _ _ _ _ _ _ result => FromTables result) (fun _ _ _ _ _ _ result => FromTables result)
    ?norole ?branch ?cycle ?stuck ?silent ?blocked ?matched ?repaired ?limit ?best ?none ?path
    p place depth entry S passed
  case norole | cycle | none =>
    intros
    rintro _ ⟨⟩
    rfl
  case branch | silent =>
    intros
    assumption
  case limit | best =>
    intros
    exact .ok _
  case stuck =>
    intro p place depth entry S passed _ _ _ error _ hmove
    exact .of_stuck hmove
  case blocked =>
    intro p place depth entry S passed _ here next role _ _ _ _ error _ hmove
    exact .of_stuck hmove
  case matched =>
    intro p place depth entry S passed _ here next role _ _ _ _ q T _ ih
    exact ih.bind fun _ => .ok _
  case repaired =>
    intro p place depth entry S passed _ here next role _ _ _ _ ihdeletion ihinsertion
    refine ihdeletion.bind fun deletion => ?_
    dsimp only
    split
    · split
      · exact (FromTables.of_stuck ‹_›).bind fun insertion => .ok _
      · exact ((ihinsertion _ _).bind fun rest => .ok _)
    · exact .ok _
  case path =>
    intro place depth entry S best path rest ih ihrest
    refine ih.bind fun found => ?_
    split
    · exact .ok _
    · exact ihrest found

theorem fromTables_run (lookahead : Nat) (reader : Reader) (p : Position) (S : Stack) :
    FromTables (run lookahead reader p S) :=
  fromTables_seek _ _ _ _ _ _ _ _

end Search

namespace Session

open Search (FromTables)

variable {s s' : Session} {p : Position} {next : Token} {completing : Bool}

/-! ## One call -/

/-- How often repair has been asked for at the token that comes next. -/
def tries (s : Session) : Nat :=
  match s.attempts with
  | some (last, count) => if last = s.reader.index then count + 1 else 0
  | none => 0

theorem attempts_recordAttempt (s : Session) :
    s.recordAttempt.attempts = some (s.reader.index, s.tries) := by
  unfold recordAttempt tries
  cases s.attempts <;> rfl

theorem attemptCount_recordAttempt (s : Session) : s.recordAttempt.attemptCount = s.tries := by
  rw [attemptCount, attempts_recordAttempt]
  rfl

theorem tries_recordAttempt (s : Session) : s.recordAttempt.tries = s.tries + 1 := by
  rw [tries, attempts_recordAttempt]
  exact if_pos rfl

/-- Whether the limits allow a repair that leaves the next token where it is. -/
def Allows (s : Session) (completing : Bool) : Prop :=
  completing = true ∧ s.tries < s.limits.completion ∨ s.tries < s.limits.resolution

theorem Allows.tries_lt (h : s.Allows completing) : s.tries < patience s.limits := by
  unfold patience
  rcases h with ⟨_, h⟩ | h <;> omega

theorem fromTables_resolution (s : Session) (p : Position) (next : Token) :
    FromTables (s.resolution p next) :=
  (Search.fromTables_run _ _ _ _).bind fun _ => .ok _

theorem fromTables_completion (s : Session) (p : Position) (next : Token) :
    FromTables (s.completion p next) := by
  unfold completion
  split
  · exact .ok _
  · exact fromTables_resolution s p next

/-- Something is proposed only while the limits allow it. -/
theorem proposal_recordAttempt (s : Session) (p : Position) (next : Token) (completing : Bool) :
    s.recordAttempt.proposal p next completing = .ok none ∨
      s.Allows completing ∧ FromTables (s.recordAttempt.proposal p next completing) := by
  unfold proposal
  rw [attemptCount_recordAttempt]
  split
  · rename_i hcompleting
    simp only [Bool.and_eq_true, decide_eq_true_eq] at hcompleting
    exact .inr ⟨.inl hcompleting, fromTables_completion _ _ _⟩
  · split
    · exact .inr ⟨.inr ‹_›, fromTables_resolution _ _ _⟩
    · exact .inl rfl

theorem apply_of_ne_remove {r : Repair} (h : r.action ≠ .remove) (s : Session) :
    (s.apply r).1.action = r.action ∧ (s.apply r).2 = s := by
  unfold apply
  split
  · exact ⟨rfl, rfl⟩
  · exact ⟨rfl, rfl⟩
  · exact absurd ‹_› h

theorem apply_of_remove {r : Repair} (h : r.action = .remove) (s : Session) :
    (s.apply r).1.action = .remove ∧ (s.apply r).2 = { s with reader := s.reader.read.2 } := by
  unfold apply
  split
  · simp_all
  · simp_all
  · exact ⟨h, rfl⟩

/-- What a call before the end of the input can come to. -/
inductive Answered (s : Session) (p : Position) (completing : Bool) :
    Except Breakdown Repair × Session → Prop
  | broken {error : Breakdown} (htables : error.ofTables = true) (hallows : s.Allows completing) :
      Answered s p completing (.error error, s.recordAttempt)
  | exhausted (hcount : s.tries = s.limits.completion) :
      Answered s p completing (.error (.exhausted p s.reader.index s.tries), s.recordAttempt)
  | stayed {r : Repair} (haction : r.action ≠ .remove) (hallows : s.Allows completing) :
      Answered s p completing (.ok r, s.recordAttempt)
  | removed {r : Repair} (haction : r.action = .remove) :
      Answered s p completing (.ok r, { s.recordAttempt with reader := s.reader.read.2 })

theorem Answered.of_apply (h : s.Allows completing) (r : Repair) :
    Answered s p completing (.ok (s.recordAttempt.apply r).1, (s.recordAttempt.apply r).2) := by
  by_cases haction : r.action = .remove
  · obtain ⟨hsame, hmoved⟩ := apply_of_remove haction s.recordAttempt
    rw [hmoved]
    exact .removed hsame
  · obtain ⟨hsame, hstays⟩ := apply_of_ne_remove haction s.recordAttempt
    rw [hstays]
    exact .stayed (hsame ▸ haction) h

theorem recover_spec (hnext : next.kind ≠ .eof) :
    Answered s p completing (s.recover p next completing) := by
  unfold recover recoverAttempt
  rw [if_neg hnext]
  have hproposal := s.proposal_recordAttempt p next completing
  cases hfound : s.recordAttempt.proposal p next completing with
  | error error =>
    rcases hproposal with hnone | ⟨hallows, htables⟩
    · rw [hfound] at hnone
      cases hnone
    · exact .broken (htables error hfound) hallows
  | ok found =>
    cases found with
    | some r =>
      rcases hproposal with hnone | ⟨hallows, _⟩
      · rw [hfound] at hnone
        cases hnone
      · exact .of_apply hallows r
    | none =>
      dsimp only
      rw [attemptCount_recordAttempt]
      by_cases hcount : s.tries = s.limits.completion
      · rw [if_pos (show s.tries = s.recordAttempt.limits.completion from hcount)]
        exact .exhausted hcount
      · rw [if_neg (show ¬ s.tries = s.recordAttempt.limits.completion from hcount)]
        obtain ⟨hsame, hmoved⟩ :=
          apply_of_remove (r := .remove p next) rfl s.recordAttempt
        rw [hmoved]
        exact .removed hsame

/-! ## Calls one after the other -/

/-- A call for repair, with the session before and after it. -/
structure Call where
  before : Session
  answer : Except Breakdown Repair
  after : Session

namespace Call

/-- The index of the token that a call is about. -/
def index (c : Call) : Nat := c.before.reader.index

/-- Whether a call leaves the token out. -/
def removes (c : Call) : Bool :=
  match c.answer with
  | .ok r => r.action == .remove
  | .error _ => false

/-- Whether a call supplies a token or lets the next one stand. -/
def stays (c : Call) : Bool :=
  match c.answer with
  | .ok r => r.action != .remove
  | .error _ => false

/-- Whether a call gives up. -/
def givesUp (c : Call) : Bool :=
  match c.answer with
  | .error (.exhausted _ _ _) => true
  | _ => false

/-- The calls about the token at an index. -/
def about (index : Nat) (calls : List Call) : List Call := calls.filter (·.index == index)

section

variable {c : Call} {index : Nat} {calls : List Call}

theorem about_cons_of_eq (h : c.before.reader.index = index) :
    about index (c :: calls) = c :: about index calls := by
  simp [about, Call.index, h]

theorem about_cons_of_ne (h : c.before.reader.index ≠ index) :
    about index (c :: calls) = about index calls := by
  simp [about, Call.index, h]

theorem about_of_lt (h : ∀ c ∈ calls, index < c.index) : about index calls = [] := by
  unfold about
  rw [List.filter_eq_nil_iff]
  intro c hc
  have := h c hc
  simp only [beq_iff_eq]
  omega

end

/-- What every call does to its session. -/
structure Proceeds (c : Call) : Prop where
  stack : c.after.stack = c.before.stack
  removed : c.removes = true → c.after.reader.index = c.before.reader.index + 1
  other : c.removes = false → c.after.reader.index = c.before.reader.index

end Call

/-- Calls for repair, each for the session's own next token, which does not end the input. Between
them productions are opened, left and switched at will, and nothing is read. -/
inductive Calls : Session → List Call → Session → Prop
  | done (s : Session) : Calls s [] s
  | enter {s s' : Session} {calls : List Call} (production : Position)
      (h : Calls (s.enter production) calls s') : Calls s calls s'
  | leave {s s' : Session} {calls : List Call} {production : Position} {T : Stack}
      (hleave : s.stack.leave = .ok (production, T)) (h : Calls { s with stack := T } calls s') :
      Calls s calls s'
  | switch {s s' : Session} {calls : List Call} {production : Position} {T : Stack}
      (hswitch : s.stack.switch production = .ok T) (h : Calls { s with stack := T } calls s') :
      Calls s calls s'
  | recover {s s₁ s' : Session} {calls : List Call} {p : Position} {completing : Bool}
      {answer : Except Breakdown Repair} (hnext : s.reader.peek.kind ≠ .eof)
      (hcall : s.recover p s.reader.peek completing = (answer, s₁)) (h : Calls s₁ calls s') :
      Calls s (⟨s, answer, s₁⟩ :: calls) s'

/-- The bounds on the calls at one token, if some were made before. -/
structure Bounded (limits : Limits) (before : Nat) (calls : List Call) : Prop where
  stays : calls.countP (·.stays) ≤ patience limits - before
  givesUp : calls.countP (·.givesUp) ≤ if before ≤ limits.completion then 1 else 0
  removes : patience limits + 1 - before < calls.length →
    ∃ c ∈ calls.take (patience limits + 1 - before + 1), c.removes = true

namespace Bounded

variable {limits : Limits} {n : Nat} {calls : List Call} {c : Call}

theorem nil : Bounded limits n [] := by
  refine ⟨by simp, by simp, ?_⟩
  intro h
  simp at h

/-- One more call that stays at the token. -/
theorem cons (h : Bounded limits (n + 1) calls)
    (hstays : c.stays = true → n < patience limits)
    (hgivesUp : c.givesUp = true → n = limits.completion) (hle : n ≤ patience limits) :
    Bounded limits n (c :: calls) := by
  obtain ⟨hs, hg, hr⟩ := h
  refine ⟨?_, ?_, ?_⟩
  · rw [List.countP_cons]
    by_cases hc : c.stays = true
    · have := hstays hc
      rw [if_pos hc]
      omega
    · rw [if_neg hc]
      omega
  · rw [List.countP_cons]
    by_cases hc : c.givesUp = true
    · have := hgivesUp hc
      rw [if_pos hc]
      rw [if_neg (by omega)] at hg
      rw [if_pos (by omega)]
      omega
    · rw [if_neg hc]
      split at hg <;> split <;> omega
  · intro hlength
    rw [List.length_cons] at hlength
    obtain ⟨d, hd, hremoves⟩ := hr (by omega)
    refine ⟨d, ?_, hremoves⟩
    rw [List.take_succ_cons]
    refine List.mem_cons_of_mem _ ?_
    rwa [show patience limits + 1 - n = patience limits + 1 - (n + 1) + 1 by omega]

/-- A call that leaves the token out is the last one there. -/
theorem last (hremoves : c.removes = true) (hstays : c.stays = false)
    (hgivesUp : c.givesUp = false) : Bounded limits n [c] := by
  refine ⟨by simp [hstays], by simp [hgivesUp], fun _ => ⟨c, ?_, hremoves⟩⟩
  rw [List.take_succ_cons]
  exact List.mem_cons_self

theorem mono {m : Nat} (h : Bounded limits n calls) (hle : m ≤ n) : Bounded limits m calls := by
  obtain ⟨hs, hg, hr⟩ := h
  refine ⟨by omega, ?_, fun hlength => ?_⟩
  · split at hg <;> split <;> omega
  · obtain ⟨c, hc, hremoves⟩ := hr (by omega)
    exact ⟨c, List.take_subset_take_left _ (by omega) hc, hremoves⟩

end Bounded

namespace Answered

variable {answer : Except Breakdown Repair} {s₁ : Session}

theorem of_recover (hnext : next.kind ≠ .eof)
    (hcall : s.recover p next completing = (answer, s₁)) :
    Answered s p completing (answer, s₁) :=
  hcall ▸ recover_spec hnext

theorem limits (h : Answered s p completing (answer, s₁)) : s₁.limits = s.limits := by
  cases h <;> rfl

theorem last (h : Answered s p completing (answer, s₁)) :
    s₁.reader.last = s.reader.last := by
  cases h with
  | removed _ =>
    unfold Reader.read
    split <;> rfl
  | _ => rfl

theorem proceeds (h : Answered s p completing (answer, s₁)) (hlast : s.reader.last.kind = .eof)
    (hnext : s.reader.peek.kind ≠ .eof) : (Call.mk s answer s₁).Proceeds := by
  cases h with
  | removed haction =>
    have hmoved : s.reader.read.2.index = s.reader.index + 1 := by
      unfold Reader.read
      split
      · rename_i hahead
        simp [Reader.peek, Reader.peekN, hahead, hlast] at hnext
      · rfl
    exact ⟨rfl, fun _ => hmoved, by simp [Call.removes, haction]⟩
  | stayed haction _ => exact ⟨rfl, by simp [Call.removes, haction], fun _ => rfl⟩
  | _ => exact ⟨rfl, fun hremoves => absurd hremoves Bool.false_ne_true, fun _ => rfl⟩

end Answered

namespace Calls

variable {calls : List Call}

theorem proceeds (h : Calls s calls s') (hlast : s.reader.last.kind = .eof) :
    ∀ c ∈ calls, c.Proceeds := by
  induction h with
  | done => exact fun c hc => nomatch hc
  | enter _ _ ih => exact ih hlast
  | leave _ _ ih => exact ih hlast
  | switch _ _ ih => exact ih hlast
  | recover hnext hcall _ ih =>
    have hspec := Answered.of_recover hnext hcall
    exact List.forall_mem_cons.2 ⟨hspec.proceeds hlast hnext, ih (hspec.last ▸ hlast)⟩

/-- No call goes back. -/
theorem le_index (h : Calls s calls s') (hlast : s.reader.last.kind = .eof) :
    ∀ c ∈ calls, s.reader.index ≤ c.index := by
  induction h with
  | done => exact fun c hc => nomatch hc
  | enter _ _ ih => exact ih hlast
  | leave _ _ ih => exact ih hlast
  | switch _ _ ih => exact ih hlast
  | @recover s s₁ s' calls p completing answer hnext hcall _ ih =>
    have hspec := Answered.of_recover hnext hcall
    have hstep : s.reader.index ≤ s₁.reader.index := by
      have hproceeds := hspec.proceeds hlast hnext
      cases hremoves : (Call.mk s answer s₁).removes with
      | true => exact hproceeds.removed hremoves ▸ Nat.le_succ _
      | false => exact Nat.le_of_eq (hproceeds.other hremoves).symm
    refine List.forall_mem_cons.2 ⟨Nat.le_refl _, fun c hc => ?_⟩
    exact Nat.le_trans hstep (ih (hspec.last ▸ hlast) c hc)

/-- The calls at the session's own token, of which some were made before. -/
theorem bounded_here (h : Calls s calls s') (hlast : s.reader.last.kind = .eof) :
    Bounded s.limits s.tries (Call.about s.reader.index calls) := by
  -- A call that stays adds one to the tries, so the induction is on the calls with any number of
  -- tries made before; a call that removes ends the calls about this token.
  induction h with
  | done => exact .nil
  | enter _ _ ih => exact ih hlast
  | leave _ _ ih => exact ih hlast
  | switch _ _ ih => exact ih hlast
  | @recover s s₁ s' calls p completing answer hnext hcall hrest ih =>
    have hspec := Answered.of_recover hnext hcall
    have hproceeds := hspec.proceeds hlast hnext
    have hlater := hrest.le_index (hspec.last ▸ hlast)
    replace ih := ih (hspec.last ▸ hlast)
    rw [Call.about_cons_of_eq (c := ⟨s, answer, s₁⟩) rfl]
    cases hspec with
    | @broken error htables hallows =>
      rw [tries_recordAttempt] at ih
      refine ih.cons nofun (fun hgivesUp => ?_) (Nat.le_of_lt hallows.tries_lt)
      cases error with
      | exhausted => cases htables
      | _ => cases hgivesUp
    | exhausted hcount =>
      rw [tries_recordAttempt] at ih
      refine ih.cons nofun (fun _ => hcount) ?_
      rw [hcount]
      exact Nat.le_max_left ..
    | stayed haction hallows =>
      rw [tries_recordAttempt] at ih
      exact ih.cons (fun _ => hallows.tries_lt) nofun (Nat.le_of_lt hallows.tries_lt)
    | removed haction =>
      rw [Call.about_of_lt fun c hc => ?_]
      · exact .last (by simp [Call.removes, haction]) (by simp [Call.stays, haction]) rfl
      · have hmoved := hproceeds.removed (by simp [Call.removes, haction])
        exact Nat.lt_of_lt_of_le (Nat.lt_of_succ_le (Nat.le_of_eq hmoved.symm)) (hlater c hc)

/-- The calls at any token. -/
theorem bounded (h : Calls s calls s') (hlast : s.reader.last.kind = .eof) (index : Nat) :
    Bounded s.limits 0 (Call.about index calls) := by
  induction h with
  | done => exact .nil
  | enter _ _ ih => exact ih hlast
  | leave _ _ ih => exact ih hlast
  | switch _ _ ih => exact ih hlast
  | @recover s s₁ s' calls p completing answer hnext hcall hrest ih =>
    have hspec := Answered.of_recover hnext hcall
    by_cases hindex : s.reader.index = index
    · subst hindex
      exact ((Calls.recover hnext hcall hrest).bounded_here hlast).mono (Nat.zero_le _)
    · rw [Call.about_cons_of_ne (c := ⟨s, answer, s₁⟩) hindex, ← hspec.limits]
      exact ih (hspec.last ▸ hlast)

end Calls

theorem recover_at_end (s : Session) (p : Position) (completing : Bool)
    (hnext : next.kind = .eof) : (s.recover p next completing).2 = s := by
  unfold recover recoverAtEnd
  rw [if_pos hnext]
  have haction : ((s.shortestInsertion? p).getD (.insert p p.expectedKind)).action ≠ .remove := by
    unfold shortestInsertion?
    cases shortestKind? Search.silentLimit p s.stack <;> exact nofun
  exact (apply_of_ne_remove haction s).2

end Session

open Session in
/-- Repair makes progress. A call changes neither the stack nor, unless it leaves the next token
out, the place of the reader. Of the calls about one token at most as many as the larger limit says
stay there, at most one gives up, and one of the first two more than that leaves the token out. At
the end of the input a call changes nothing at all. -/
theorem repair_makes_progress (s : Session) (hlast : s.reader.last.kind = .eof) :
    (∀ calls s', Calls s calls s' → (∀ c ∈ calls, c.Proceeds) ∧
      ∀ index,
        (Call.about index calls).countP (·.stays) ≤ max s.limits.completion s.limits.resolution ∧
        (Call.about index calls).countP (·.givesUp) ≤ 1 ∧
        (max s.limits.completion s.limits.resolution + 2 ≤ (Call.about index calls).length →
          ∃ c ∈ (Call.about index calls).take (max s.limits.completion s.limits.resolution + 2),
            c.removes = true)) ∧
    ∀ p next completing, next.kind = .eof → (s.recover p next completing).2 = s := by
  refine ⟨fun calls s' h => ⟨h.proceeds hlast, fun index => ?_⟩,
    fun p next completing hnext => recover_at_end s p completing hnext⟩
  obtain ⟨hstays, hgivesUp, hremoves⟩ := h.bounded hlast index
  rw [if_pos (Nat.zero_le _)] at hgivesUp
  exact ⟨hstays, hgivesUp, hremoves⟩

open Session in
/-- The bounds are reached: where one attempt may complete and none may search, the first call at a
closing brace supplies a semicolon, the second gives up, and the third leaves the brace out. -/
theorem third_call_removes_brace :
    ∃ s, s = Session.start (.ofTokens [.plain .closeBrace "\x7d" 1, .eof 1]) ⟨4, 1, 0⟩ ∧
      s.reader.last.kind = .eof ∧
      ∃ calls s', Calls s calls s' ∧ calls.map (·.stays) = [true, false, false] ∧
        calls.map (·.givesUp) = [false, true, false] ∧
        (Call.about 0 calls).length = 3 ∧ ∃ c ∈ (Call.about 0 calls).take 3, c.removes = true := by
  refine ⟨_, rfl, rfl, ?_⟩
  let s := Session.start (.ofTokens [.plain .closeBrace "\x7d" 1, .eof 1]) ⟨4, 1, 0⟩
  have hcalls : ∃ calls s', Calls s calls s' ∧ calls.map (·.stays) = [true, false, false] ∧
      calls.map (·.givesUp) = [false, true, false] ∧ (Call.about 0 calls).length = 3 := by
    have first : Session.recover s .semicolon s.reader.peek true = _ := rfl
    have second : Session.recover s.recordAttempt .semicolon s.reader.peek true = _ := rfl
    have third : Session.recover s.recordAttempt.recordAttempt .semicolon s.reader.peek true = _ :=
      rfl
    exact ⟨_, _, .recover (by decide) first (.recover (by decide) second
      (.recover (by decide) third (.done _))), rfl, rfl, rfl⟩
  obtain ⟨calls, s', hcalls, hstays, hgivesUp, hlength⟩ := hcalls
  exact ⟨calls, s', hcalls, hstays, hgivesUp, hlength,
    (((repair_makes_progress s rfl).1 calls s' hcalls).2 0).2.2 (Nat.le_of_eq hlength.symm)⟩

end Mend
