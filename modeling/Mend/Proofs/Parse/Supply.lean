import Mend.Proofs.Machine.Bound
import Mend.Proofs.Machine.Ledger
import Mend.Proofs.Machine.Primed

/-!
# What a repair supplies is taken next

On the tokens of a text repair is asked for only where the next token does not fit: the tests by
which an instruction takes a token or makes a choice are those of the automaton. So nothing is ever
let stand. A repair leaves the token out, and the instruction is tried again; or it supplies a token
that the instruction wants. What wants a token once wants it until it is taken, and until then a
step only builds, moves between productions or makes a choice (`Primed.closer`). There is an end to
such steps, so the token supplied is the next one to be taken, unless it stands for the end of the
input; then the real end is met, and taken instead.
-/

namespace Mend

namespace Machine

variable {tokens : List Token} {limits : Limits} {m m' n : Machine} {plan plan' : Plan}
  {i : Instruction} {p b : Position} {t : Token}

open Plan (Remaining Running)

/-! ## Plans of machines that are reached -/

theorem plan_of_expect (h : m.expect p plan = .ok (m', plan')) :
    plan' = plan ∨ plan' = .expect p :: plan := by
  unfold expect at h
  split at h
  · cases h
    exact .inl rfl
  · obtain ⟨⟨r, n⟩, _, h⟩ := Except.bind_eq_ok h
    dsimp only at h
    split at h
    · cases h
      exact .inr rfl
    · cases h
      exact .inl rfl

/-- A step leaves a plan that goes on, or comes to the end of the input. -/
theorem Sound.remaining (hsound : Sound m (i :: plan)) (h : Remaining (i :: plan))
    (hstep : m.step i plan = .ok (m', plan')) : Remaining plan' := by
  cases i with
  | expect p =>
    rcases plan_of_expect hstep with rfl | rfl
    · exact h.tail (by simp)
    · exact h
  | choose b =>
    obtain ⟨hchoice, hlegal⟩ := hsound.tracks.legal_choose
    have hgoing := h.going (by simp [Plan.closing])
    have hspec := choose_spec hlegal hchoice hsound.supply plan
    rw [show m.choose b plan = _ from hstep] at hspec
    cases hspec with
    | removed _ _ => exact h
    | kept _ _ _ _ harises _ _ => exact .of_running (hgoing.continuation hchoice harises)
    | admitted _ => exact .of_running (hgoing.continuation hchoice trivial)
    | supplied _ _ _ _ _ => exact .of_running (hgoing.continuation hchoice trivial)
    | suppliedAtEnd _ _ => exact .of_running (hgoing.continuation hchoice trivial)
  | enter | leave | switch | begin | adopt | finish =>
    obtain ⟨_, rfl⟩ := unchanged_of_quiet rfl hstep
    exact h.tail (by simp)
  | take | drain =>
    cases hstep
    exact h.tail (by simp)
  | optionalSuffix | postfixes | operators | otherBranch =>
    cases hstep
    have hgoing := h.going (by simp [Plan.closing])
    exact .inl ((hgoing.tail (by simp)).append _)

theorem Reached.remaining (h : Reached tokens limits m plan) : Remaining plan := by
  induction h with
  | start => exact .inl rfl
  | step h hstep ih => exact h.sound.remaining ih hstep

theorem Reached.primed (hwords : ∀ t ∈ tokens, t.Unreserved)
    (h : Reached tokens limits m plan) : Primed m plan := by
  induction h with
  | start => exact primed_start hwords limits
  | step _ hstep ih => exact ih.next_step hstep

/-! ## The token taken next -/

/-- A token is the next one that a machine takes: no token of the input is read before it, and no
repair is asked for. For the end of the input the machine takes the real one, with which the program
is done. -/
inductive TakesNext (t : Token) : Machine → Plan → Prop
  | here {m m' : Machine} {i : Instruction} {plan plan' : Plan} (hrefuses : m.refuses i = false)
      (hstep : m.step i plan = .ok (m', plan'))
      (htaken : m'.taken = m.taken ++ [t.precededBy m.leftOut])
      (hreader : m'.session.reader = m.session.reader) : TakesNext t m (i :: plan)
  | atEnd {m : Machine} (hend : t.kind = .eof) (hsupplied : m.supplied = some t) :
      TakesNext t m Plan.closing
  | step {m m' : Machine} {i : Instruction} {plan plan' : Plan} (hrefuses : m.refuses i = false)
      (hstep : m.step i plan = .ok (m', plan')) (htaken : m'.taken = m.taken)
      (hreader : m'.session.reader = m.session.reader) (hrest : TakesNext t m' plan') :
      TakesNext t m (i :: plan)

namespace Primed

/-- With a token supplied, an instruction takes it, or the plan is that of the end of the input, or
a step comes closer to the token. -/
theorem closer (h : Primed m (i :: plan)) (hplan : Running (i :: plan))
    (ht : m.supplied = some t) :
    (∃ p, i = .expect p ∧ p.accepts t = true) ∨ (i :: plan = Plan.closing ∧ t.kind = .eof) ∨
      ∃ m' plan', m.refuses i = false ∧ m.step i plan = .ok (m', plan') ∧ i ≠ .take ∧
        m'.supplied = some t ∧ m'.taken = m.taken ∧ m'.session.reader = m.session.reader ∧
        Running plan' := by
  have hwants := (h.wanted t ht).1
  rw [Plan.wants_cons] at hwants
  obtain ⟨q, S, full, _, hfollows⟩ := h.tracks
  cases i with
  | expect p => exact .inl ⟨p, rfl, Position.accepts_of_wants hwants⟩
  | drain =>
    obtain ⟨rfl, _⟩ := hfollows.drain_inv
    exact .inr (.inl ⟨rfl, beq_iff_eq.1 hwants⟩)
  | choose b =>
    have hgoing := hplan.going (by simp)
    have hadmits : b.admits m.next.kind = true := by rwa [next_of_supplied ht]
    obtain ⟨hchoice, _⟩ := h.tracks.legal_choose
    refine .inr (.inr ⟨m, _, ?_, step_choose hadmits plan, by simp, ht, rfl, rfl,
      hgoing.continuation hchoice trivial⟩)
    simp [refuses, hadmits]
  | take =>
    obtain ⟨rfl, _⟩ := hfollows.take_inv
    cases hplan.going (by simp)
  | enter | leave | switch | begin | adopt | finish =>
    have hgoing := hplan.going (by simp)
    obtain ⟨m', hstep, _⟩ := Leads.quiet hfollows rfl
    have hkept := (unchanged_of_quiet rfl hstep).1
    exact .inr (.inr ⟨m', plan, rfl, hstep, by simp, hkept.supplied.trans ht,
      taken_of_quiet rfl hstep, hkept.reader, .inl (hgoing.tail (by simp))⟩)
  | optionalSuffix =>
    have hgoing := hplan.going (by simp)
    exact .inr (.inr ⟨m, _, rfl, rfl, by simp, ht, rfl, rfl,
      .inl ((hgoing.tail (by simp)).append _)⟩)
  | postfixes | operators | otherBranch => cases hwants

/-- A token supplied is the next one to be taken. -/
theorem takesNext (h : Primed m plan) (hplan : Running plan) (ht : m.supplied = some t) :
    TakesNext t m plan := by
  induction hwork : m.work plan using Nat.strong_induction_on generalizing m plan with
  | _ work ih =>
    cases plan with
    | nil => cases (h.wanted t ht).1
    | cons i plan =>
      rcases h.closer hplan ht with ⟨p, rfl, haccepts⟩ | ⟨hclosing, hend⟩ |
        ⟨m', plan', hrefuses, hstep, htake, ht', htaken, hreader, hplan'⟩
      · have hnext := next_of_supplied ht
        rw [← hnext] at haccepts
        refine .here (by simp [refuses, haccepts]) (step_expect haccepts plan) ?_ ?_
        · rw [taken_take, hnext]
        · rw [Machine.take, ht]
      · rw [hclosing]
        exact .atEnd hend ht
      · have hless := work_step h.toSound htake hstep
        exact .step hrefuses hstep htaken hreader
          (ih _ (hwork ▸ hless) (h.next_step hstep) hplan' ht' rfl)

end Primed

theorem supplied_of_repair {r : Repair} (h : m.repair p = .ok (r, n))
    (hinsert : r.action = .insert) : n.supplied = r.recovered := by
  unfold repair at h
  dsimp only at h
  split at h
  · cases h
  · split at h <;> rename_i haction <;> cases h
    · rw [haction] at hinsert
      cases hinsert
    · rfl
    · rw [haction] at hinsert
      cases hinsert

/-- On the tokens of a text, with whatever limits, repair is never asked for at a token that the
automaton can read, and never lets a token stand. It leaves the next token out, and the instruction
is tried again; or it supplies a missing token, which is the next one to be taken, unless it stands
for the end of the input, with which the program is done. -/
theorem repair_removes_or_supplies_next {text : String} (hscan : Token.scan text = .ok tokens)
    (hreached : Reached tokens limits m (i :: plan)) (hi : i = .expect p ∨ i = .choose p)
    (hrefuses : m.refuses i = true) :
    ¬ CanRead p m.session.stack m.session.reader.peek ∧
    ∀ r n, m.repair p = .ok (r, n) →
      r.action = .remove ∧ m.step i plan = .ok (n, i :: plan) ∨
      r.action = .insert ∧ m.step i plan = n.step i plan ∧
        ∃ t, r.recovered = some t ∧ t.missing = true ∧ TakesNext t n (i :: plan) := by
  have hprimed := hreached.primed (Token.unreserved_of_scan hscan)
  refine ⟨hprimed.not_canRead hi hrefuses, fun r n hrepair => ?_⟩
  obtain ⟨hrepairs, hremoved | ⟨hinsert, hsame, _, t, ht, hmissing⟩⟩ :=
    hprimed.repair_cases hi hrefuses hrepair
  · exact .inl hremoved
  · have hgoing : Plan.Going (i :: plan) := by
      refine hreached.remaining.going ?_
      rcases hi with rfl | rfl <;> simp [Plan.closing]
    exact .inr ⟨hinsert, hsame, t, (supplied_of_repair hrepair hinsert).symm.trans ht, hmissing,
      (hprimed.of_repairs hrefuses hrepairs).takesNext (.inl hgoing) ht⟩

/-- A declaration that breaks off after its first word has no name. One is supplied at the end of
the input, and taken before anything else. -/
theorem name_of_constant_supplied_next :
    ∃ m plan r n t, Reached [.plain .constKeyword "const" 1, .eof 1] .standard m
        (.expect .constName :: plan) ∧
      ¬ CanRead .constName m.session.stack m.session.reader.peek ∧
      m.repair .constName = .ok (r, n) ∧ r.action = .insert ∧ r.recovered = some t ∧
      t.kind = .identifier ∧ t.missing = true ∧ TakesNext t n (.expect .constName :: plan) := by
  have hreached : ∃ m plan r n, Reached [.plain .constKeyword "const" 1, .eof 1] .standard m
      (.expect .constName :: plan) ∧ m.refuses (.expect .constName) = true ∧
      m.repair .constName = .ok (r, n) ∧ r.action = .insert ∧
      r.recovered.map (·.kind) = some .identifier :=
    ⟨_, _, _, _, .step (.step (.step (.step (.step (.step (.step .start rfl) rfl) rfl) rfl) rfl) rfl)
      rfl, rfl, rfl, rfl, rfl⟩
  obtain ⟨m, plan, r, n, hreached, hrefuses, hrepair, hinsert, hkind⟩ := hreached
  obtain ⟨hread, hcall⟩ :=
    repair_removes_or_supplies_next Token.scan_const hreached (.inl rfl) hrefuses
  rcases hcall r n hrepair with ⟨hremove, _⟩ | ⟨_, _, t, ht, hmissing, hnext⟩
  · rw [hinsert] at hremove
    cases hremove
  · rw [ht] at hkind
    exact ⟨m, plan, r, n, t, hreached, hread, hrepair, hinsert, ht, Option.some.inj hkind, hmissing,
      hnext⟩

end Machine

end Mend
