import Mend.Proofs.Machine.Ledger
import Mend.Proofs.Machine.Primed
import Mend.Proofs.Repair.Removal

/-!
# What a position takes

At a position that takes a token, the machine leaves tokens out until it can take one. What it takes
then is accepted there, although it is not looked at again after a repair: a search lets the next token
stand only if the position accepts it, and what is supplied is of the kind that the position expects
(`proposal_meets`). This needs nothing of the stack, and it holds as well when a token was supplied for
some other position and is still pending, or when documentation stands in the way.

So whatever the machine has come to, a token that it was expected to take is a pending one, the next
one of the input behind those that were left out, or a missing one; and the tokens that were left out
stand before it, in order, each with its report (`expect_takes`).
-/

namespace Mend

/-- A repair that leaves a position with a token that it accepts, or leaves one out. -/
structure Repair.Meets (repair : Repair) (position : Position) (next : Token) : Prop where
  kept : repair.action = .keep → position.accepts next = true
  supplied : repair.action = .insert → position.wants repair.kind = true

theorem Repair.Meets.of_remove {repair : Repair} {p : Position} {next : Token}
    (h : repair.action = .remove) : repair.Meets p next := by
  constructor <;>
    · intro haction
      rw [h] at haction
      cases haction

theorem Repair.Meets.of_insert {repair : Repair} {p : Position} {next : Token}
    (htakes : p.takesToken = true) (hp : p ≠ .docString) (h : repair.action = .insert)
    (hkind : repair.kind = p.expectedKind) : repair.Meets p next := by
  refine ⟨fun hkeep => ?_, fun _ => hkind ▸ Position.wants_expectedKind_of_ne htakes hp⟩
  rw [h] at hkeep
  cases hkeep

namespace Session

variable {s : Session} {p : Position} {r : Repair} {completing : Bool}

/-- What the search finds meets the position that it starts at. -/
theorem resolution_meets (htakes : p.takesToken = true) (hp : p ≠ .docString)
    (h : s.resolution p s.reader.peek = .ok (some r)) : r.Meets p s.reader.peek := by
  obtain ⟨o, hrun, hchoice⟩ := Except.bind_eq_ok h
  obtain ⟨edits, hscript, hrecords⟩ := Search.seek_backed _ _ _ _ _ _ _ _ o hrun
  have hvalid : (o.validate p s.reader.peek).choice = some r := by
    dsimp only at hchoice
    split at hchoice
    · cases hchoice
    · exact Except.ok.inj hchoice
  rw [hrecords.validate_eq] at hvalid
  split at hvalid
  · cases hvalid
    exact .of_remove rfl
  · -- The choice stands as the search made it, so the first edit of its script decides. A position
    -- that takes a token has no paths and is not silent, which rules those edits out.
    rename_i hstands
    have hbranch := Position.isBranch_of_takesToken htakes
    have hsilent := Position.isSilent_of_takesToken htakes
    cases hscript with
    | done =>
      have hlength := hrecords.length
      simp only [Search.steps, List.length_nil] at hlength
      omega
    | path hpath _ => exact absurd hpath (Position.not_mem_paths hbranch)
    | silent h _ _ => simp [hsilent] at h
    | matched haccepts _ _ =>
      have hkeep := hrecords.goesOn (.inr rfl)
      have hdoc : s.reader.peek.kind ≠ .documentationString := fun h => hstands ⟨hkeep, h⟩
      rw [Search.placeFor_eq hdoc] at haccepts
      rw [Outcome.choiceAction?, hvalid] at hkeep
      refine ⟨fun _ => haccepts, fun hinsert => ?_⟩
      rw [Option.map_some, hinsert] at hkeep
      cases hkeep
    | supplied _ _ _ _ _ =>
      have htop : o.top? = some r := (hrecords.repaired rfl rfl).symm.trans hvalid
      rw [Outcome.top?, hrecords.fixes] at htop
      cases htop
      exact .of_insert htakes hp rfl rfl
    | leftOut _ _ _ =>
      have htop : o.top? = some r := (hrecords.repaired rfl rfl).symm.trans hvalid
      rw [Outcome.top?, hrecords.fixes] at htop
      cases htop
      exact .of_remove rfl

/-- What completes the construct at hand meets the position too. -/
theorem completion_meets (htakes : p.takesToken = true) (hp : p ≠ .docString)
    (h : s.completion p s.reader.peek = .ok (some r)) : r.Meets p s.reader.peek := by
  unfold completion at h
  split at h
  · rename_i shortest hshortest
    cases h
    obtain ⟨kind, hkind, rfl⟩ := Option.map_eq_some_iff.1 hshortest
    exact .of_insert htakes hp rfl (shortestKind?_eq (by rw [htakes, Bool.true_or]) hkind)
  · exact resolution_meets htakes hp h

/-- Every proposal meets the position, and the limits allow it. -/
theorem proposal_meets (htakes : p.takesToken = true) (hp : p ≠ .docString)
    (h : s.proposal p s.reader.peek completing = .ok (some r)) :
    r.Meets p s.reader.peek ∧ s.attemptCount < patience s.limits := by
  unfold proposal at h
  split at h
  · rename_i hcompleting
    simp only [Bool.and_eq_true, decide_eq_true_eq] at hcompleting
    exact ⟨completion_meets htakes hp h, Nat.lt_of_lt_of_le hcompleting.2 (Nat.le_max_left ..)⟩
  · split at h
    · rename_i hcount
      exact ⟨resolution_meets htakes hp h, Nat.lt_of_lt_of_le hcount (Nat.le_max_right ..)⟩
    · cases h

end Session

/-- A reader that has passed some tokens and has others still ahead. -/
def Reader.behind (r : Reader) (passed ahead : List Token) : Reader :=
  { r with consumed := passed.reverse ++ r.consumed, ahead := ahead }

namespace Machine

variable {m m' : Machine} {p : Position} {plan : Plan} {t : Token} {removed rest : List Token}

/-- Without anything known of the stack, a repair may fail in other ways; but where it gives an answer,
one try to take a token has one of the outcomes that it has at a legal state. -/
theorem expected_of_ok {result : Machine × Plan} (htakes : p.takesToken = true)
    (hp : p ≠ .docString) (hsupply : m.session.supply = Token.missingOf)
    (h : m.expect p plan = .ok result) : Expected m p plan (.ok result) := by
  revert h
  unfold expect
  by_cases haccepts : p.accepts m.next = true
  · rw [if_pos haccepts]
    rintro ⟨⟩
    exact .accepted haccepts
  rw [if_neg haccepts]
  have hrejects := Bool.eq_false_iff.2 haccepts
  unfold repair
  by_cases hnext : m.session.reader.peek.kind = .eof
  · simp only [Session.recover, if_pos hnext,
      Session.recoverAtEnd_eq (by rw [htakes, Bool.true_or]), Session.apply, Repair.insert,
      Repair.propose, hsupply]
    rintro ⟨⟩
    exact .suppliedAtEnd hrejects hnext
  have hread : m.session.recordAttempt.reader.read.1 = m.session.reader.peek := Reader.read_fst _
  have hsupply' : m.session.recordAttempt.supply = Token.missingOf := hsupply
  simp only [Session.recover, if_neg hnext, Session.recoverAttempt]
  cases hproposal : m.session.recordAttempt.proposal p m.session.reader.peek
      (completes m.session.reader.peek m.session.stack) with
  | error e =>
    intro hfailed
    cases hfailed
  | ok found =>
    cases found with
    | none =>
      by_cases hcount :
          m.session.recordAttempt.attemptCount = m.session.recordAttempt.limits.completion
      · simp only [if_pos hcount]
        intro hfailed
        cases hfailed
      · simp only [if_neg hcount, Session.apply, Repair.remove, Repair.propose, hread]
        rintro ⟨⟩
        exact .removed hrejects hnext
    | some r =>
      obtain ⟨hmeets, hcount⟩ :=
        Session.proposal_meets (s := m.session.recordAttempt) htakes hp hproposal
      cases haction : r.action with
      | keep =>
        simp only [Session.apply, haction, bind, Except.bind, reduceCtorEq, if_false]
        rintro ⟨⟩
        exact .kept hrejects hnext (hmeets.kept haction) hcount
      | insert =>
        simp only [Session.apply, haction, hsupply']
        rintro ⟨⟩
        exact .supplied hrejects hnext (hmeets.supplied haction) hcount
      | remove =>
        simp only [Session.apply, haction, hread]
        rintro ⟨⟩
        exact .removed hrejects hnext

/-! ## Until a token is taken -/

/-- A machine that has come to take a token at a position: where the token is from, and what was left
out before it. -/
structure TakesAt (p : Position) (m m' : Machine) (t : Token) (removed rest : List Token) : Prop where
  /-- The tokens left out stood next in the input. -/
  ahead : m.session.reader.ahead = removed ++ rest
  /-- They are put before the token, behind those that were already waiting for one. -/
  children : m'.children =
    .token (t.precededBy (m.leftOut ++ removed.map reject)) :: m.children
  accepts : p.accepts (t.precededBy (m.leftOut ++ removed.map reject)) = true
  /-- The token was pending, is missing, or is the next one that remains. -/
  origin : m.supplied = some t ∧ removed = [] ∧ m'.session.reader = m.session.reader ∨
    (t.missing = true ∧ m'.session.reader = m.session.reader.behind removed rest) ∨
    (t = (m.session.reader.behind removed rest).peek ∧
      m'.session.reader = (m.session.reader.behind removed rest).read.2)
  /-- Nothing waits any longer. -/
  leftOut : m'.leftOut = []
  supplied : m'.supplied = none

theorem reader_take (m : Machine) :
    m.take.session.reader = if m.supplied.isSome then m.session.reader else m.session.reader.read.2 := by
  obtain ⟨session, leftOut, supplied, children, outer⟩ := m
  cases supplied <;> rfl

namespace TakesAt

/-- Taking the next token, after a repair that has read nothing. -/
theorem of_take {n : Machine} (hchildren : n.children = m.children) (hleftOut : n.leftOut = m.leftOut)
    (hreader : n.session.reader = m.session.reader) (haccepts : p.accepts n.next = true)
    (hsupplied : n.supplied = none ∨ n.supplied = m.supplied ∨
      ∃ t, n.supplied = some t ∧ t.missing = true) :
    TakesAt p m n.take n.next [] m.session.reader.ahead where
  ahead := rfl
  children := by rw [children_take, hchildren, hleftOut, List.map_nil, List.append_nil]
  accepts := haccepts
  origin := by
    have hpending {t : Token} (h : n.supplied = some t) :
        n.next = t ∧ n.take.session.reader = m.session.reader := by
      rw [next, reader_take, h, hreader]
      exact ⟨rfl, rfl⟩
    cases hnext : n.supplied with
    | none =>
      rw [next, reader_take, hnext, hreader]
      exact .inr (.inr ⟨rfl, rfl⟩)
    | some t =>
      obtain ⟨hnext', hreader'⟩ := hpending hnext
      rw [hnext', hreader']
      rw [hnext] at hsupplied
      rcases hsupplied with hnone | hsame | ⟨t', ht', hmissing⟩
      · cases hnone
      · exact .inl ⟨hsame.symm, rfl, rfl⟩
      · cases ht'
        exact .inr (.inl ⟨hmissing, rfl⟩)
  leftOut := Primed.leftOut_take n
  supplied := Primed.supplied_take n

/-- One more token was left out before. -/
theorem of_leaveOut (hlast : m.session.reader.last.kind = .eof)
    (hnext : m.session.reader.peek.kind ≠ .eof) (h : TakesAt p m.leaveOut m' t removed rest) :
    TakesAt p m m' t (m.session.reader.peek :: removed) rest := by
  obtain ⟨u, us, hahead⟩ : ∃ u us, m.session.reader.ahead = u :: us := by
    refine List.exists_cons_of_ne_nil fun hnil => hnext ?_
    rw [Reader.peek, Reader.peekN, hnil]
    exact hlast
  have hpeek : m.session.reader.peek = u := by
    rw [Reader.peek, Reader.peekN, hahead]
    rfl
  have hreader : m.leaveOut.session.reader = m.session.reader.behind [u] us := by
    simp [leaveOut, Reader.read, hahead, Reader.behind]
  have hbehind : m.leaveOut.session.reader.behind removed rest =
      m.session.reader.behind (u :: removed) rest := by
    simp [hreader, Reader.behind]
  have hleading : m.leaveOut.leftOut ++ removed.map reject =
      m.leftOut ++ (u :: removed).map reject := by
    simp [leaveOut, hpeek]
  have hrest : us = removed ++ rest := by
    have := h.ahead
    rwa [hreader] at this
  rw [hpeek]
  refine ⟨?_, hleading ▸ h.children, hleading ▸ h.accepts, ?_, h.leftOut, h.supplied⟩
  · rw [hahead, hrest, List.cons_append]
  · rcases h.origin with ⟨hpending, _⟩ | horigin
    · cases hpending
    · rw [hbehind] at horigin
      exact .inr horigin

end TakesAt

/-- One try takes a token that the position accepts, or leaves the next one out and is made again. -/
theorem takesAt_of_expected {plan' : Plan} (htakes : p.takesToken = true) (hp : p ≠ .docString)
    (h : Expected m p plan (.ok (m', plan'))) :
    (plan' = plan ∧ ∃ t, TakesAt p m m' t [] m.session.reader.ahead) ∨
      (plan' = .expect p :: plan ∧ m' = m.leaveOut ∧ m.session.reader.peek.kind ≠ .eof) := by
  cases h with
  | accepted haccepts => exact .inl ⟨rfl, _, .of_take rfl rfl rfl haccepts (.inr (.inl rfl))⟩
  | removed _ hnext => exact .inr ⟨rfl, rfl, hnext⟩
  | kept _ _ haccepts _ => exact .inl ⟨rfl, _, .of_take rfl rfl rfl haccepts (.inl rfl)⟩
  | supplied _ _ hwants _ =>
    exact .inl ⟨rfl, _, .of_take rfl rfl rfl (Position.accepts_of_wants hwants)
      (.inr (.inr ⟨_, rfl, rfl⟩))⟩
  | suppliedAtEnd _ _ =>
    have hwants := Position.wants_expectedKind_of_ne htakes hp
    exact .inl ⟨rfl, _, .of_take rfl rfl rfl (Position.accepts_of_wants hwants)
      (.inr (.inr ⟨_, rfl, rfl⟩))⟩

/-- The tries at a position end with a token taken. -/
theorem Finishes.takesAt (h : Finishes m [.expect p] m') (htakes : p.takesToken = true)
    (hp : p ≠ .docString) (hsupply : m.session.supply = Token.missingOf)
    (hlast : m.session.reader.last.kind = .eof) :
    ∃ t removed rest, TakesAt p m m' t removed rest := by
  -- By induction on the run: after a token is left out the plan is the same expectation again, and the
  -- reader still ends with the end of the input.
  generalize hplan : [Instruction.expect p] = plan at h
  induction h with
  | done m => cases hplan
  | step hstep hrest ih =>
    cases hplan
    have hexpected := expected_of_ok htakes hp hsupply hstep
    rcases takesAt_of_expected htakes hp hexpected with ⟨rfl, t, htaken⟩ | ⟨rfl, rfl, hnext⟩
    · cases hrest
      exact ⟨t, [], _, htaken⟩
    · obtain ⟨t, removed, rest, htaken⟩ :=
        ih hsupply ((congrArg Token.kind (Keeps.last_read _)).trans hlast) rfl
      exact ⟨t, _, rest, htaken.of_leaveOut hlast hnext⟩

/-- Whatever the machine has come to, if it gets past a position that takes a token, then it has taken
one that is accepted there: the pending one, the next one behind the tokens that were left out, or a
missing one. Before it stand the tokens that were waiting for one, and those left out, in order and
with one more report each. -/
theorem expect_takes {fuel : Nat} (htakes : p.takesToken = true) (hp : p ≠ .docString)
    (hsupply : m.session.supply = Token.missingOf) (hlast : m.session.reader.last.kind = .eof)
    (hrun : run fuel m [.expect p] = .done m') :
    ∃ t removed rest, TakesAt p m m' t removed rest :=
  (Finishes.of_run hrun).takesAt htakes hp hsupply hlast

/-- A machine in the declaration of a constant that is out of patience: it leaves every token out that
does not fit. A name was supplied that nobody has taken, and a comma is waiting for a token. -/
def impatient : Machine :=
  { start
      [.plain .documentationString "note" 1, .plain .closeParen ")" 1, .plain .semicolon ";" 1, .eof 1]
      ⟨4, 15, 0⟩ with
    leftOut := [reject (.plain .comma "," 1)]
    supplied := some (.missingOf .identifier .constName 1) }

/-- It forgets the name, and takes the semicolon with all that stands before it. -/
theorem semicolon_taken_by_impatient :
    ∃ m', run 4 impatient [.expect .semicolon] = .done m' ∧
      m'.children = [.token ((Token.plain .semicolon ";" 1).precededBy
        ([.plain .comma "," 1, .plain .documentationString "note" 1, .plain .closeParen ")" 1].map
          reject))] ∧
      ∃ t removed rest, TakesAt .semicolon impatient m' t removed rest := by
  obtain ⟨m', hrun, hchildren⟩ : ∃ m', run 4 impatient [.expect .semicolon] = .done m' ∧
      m'.children = [.token ((Token.plain .semicolon ";" 1).precededBy
        ([.plain .comma "," 1, .plain .documentationString "note" 1, .plain .closeParen ")" 1].map
          reject))] := ⟨_, rfl, rfl⟩
  exact ⟨m', hrun, hchildren, expect_takes (by decide) (by decide) rfl rfl hrun⟩

end Machine

end Mend
