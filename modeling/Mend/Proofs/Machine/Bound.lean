import Mend.Parse
import Mend.Proofs.Machine.Step
import Mend.Proofs.Plan.Cost

/-!
# The machine comes to an end

The number of steps is bounded by an amount of work that every step makes smaller. It has three
parts. Effort counts the tokens that are still to be read and the repairs that may still be asked
for at each; reading and repairing spend it. Slack pays for the choices that one token resolves
before it is taken. The cost of the plan pays for everything else, and at the end of the input,
where repairs are not counted, it pays for closing what is open.
-/

namespace Mend

/-! ## Tokens that are still to be read -/

namespace Reader

/-- How many tokens are to be read before the input ends. -/
def pending (r : Reader) : Nat := (r.ahead.takeWhile (·.kind != .eof)).length

theorem pending_of_eof {r : Reader} (h : r.peek.kind = .eof) : r.pending = 0 := by
  unfold pending
  cases hahead : r.ahead with
  | nil => rfl
  | cons t rest =>
    have ht : t.kind = .eof := by simpa [peek, peekN, hahead] using h
    simp [ht]

/-- Reading a token that does not end the input leaves one fewer. -/
theorem pending_read {r : Reader} (hlast : r.last.kind = .eof) (h : r.peek.kind ≠ .eof) :
    r.pending = r.read.2.pending + 1 := by
  unfold pending read
  cases hahead : r.ahead with
  | nil => exact absurd hlast (by simpa [peek, peekN, hahead] using h)
  | cons t rest =>
    have ht : t.kind ≠ .eof := by simpa [peek, peekN, hahead] using h
    simp [ht]

end Reader

/-! ## Effort -/

namespace Session

/-- How many repairs may still be asked for at the next token. -/
def chances (s : Session) : Nat :=
  match s.attempts with
  | some (index, count) =>
    if index = s.reader.index then patience s.limits - count else patience s.limits + 1
  | none => patience s.limits + 1

/-- How many tokens are still to be read and repairs to be asked for before the input ends. -/
def effort (s : Session) : Nat := s.reader.pending * (patience s.limits + 2) + s.chances

theorem chances_le (s : Session) : s.chances ≤ patience s.limits + 1 := by
  unfold chances
  split
  · split <;> omega
  · exact Nat.le_refl _

/-- Reading a token spends effort, however often repair was asked for at it. -/
theorem effort_read {s s' : Session} (hlast : s.reader.last.kind = .eof)
    (hnext : s.reader.peek.kind ≠ .eof) (hreader : s'.reader = s.reader.read.2)
    (hlimits : s'.limits = s.limits) : s'.effort < s.effort := by
  have hpending := Reader.pending_read hlast hnext
  have hchances := s'.chances_le
  unfold effort
  rw [hreader, hlimits, hpending, Nat.add_mul]
  rw [hlimits] at hchances
  omega

/-- An attempt at repair that the limits allow spends effort. -/
theorem effort_recordAttempt {s : Session}
    (hcount : s.recordAttempt.attemptCount < patience s.limits) :
    s.recordAttempt.effort < s.effort := by
  unfold effort chances
  unfold attemptCount at hcount
  unfold recordAttempt at hcount ⊢
  cases hattempts : s.attempts with
  | none =>
    simp only [hattempts, Option.map_some, Option.getD_some, if_pos] at hcount ⊢
    omega
  | some attempt =>
    obtain ⟨last, count⟩ := attempt
    by_cases hindex : last = s.reader.index
    · simp only [hattempts, hindex, Option.map_some, Option.getD_some, if_pos] at hcount ⊢
      omega
    · simp only [hattempts, if_neg hindex, Option.map_some, Option.getD_some, if_pos] at hcount ⊢
      omega

end Session

namespace Machine

variable {m m' : Machine} {plan plan' : Plan} {p b : Position}

/-! ## Slack and work -/

/-- What the choices cost that one token resolves. A token that was supplied before the end of
the input also pays for those that the next token resolves. -/
def slack (m : Machine) (plan : Plan) : Nat :=
  if m.supplied.isNone ∧ m.session.reader.pending = 0 then 0
  else 32 * plan.depth +
    if m.supplied.isSome ∧ m.session.reader.pending ≠ 0 then 160 else 0

/-- A bound on the steps that are left. -/
def work (m : Machine) (plan : Plan) : Nat :=
  400 * m.session.effort + m.slack plan + plan.cost

theorem slack_le (m : Machine) (plan : Plan) : m.slack plan ≤ 320 := by
  have := plan.depth_le
  unfold slack
  split
  · omega
  · split <;> omega

theorem slack_le_of_none (h : m.supplied = none) (plan : Plan) : m.slack plan ≤ 160 := by
  have := plan.depth_le
  simp only [slack, h, Option.isSome_none, Bool.false_eq_true, false_and, if_false]
  split <;> omega

theorem slack_at_end (h : m.supplied = none) (hpending : m.session.reader.pending = 0)
    (plan : Plan) : m.slack plan = 0 := by
  simp [slack, h, hpending]

/-- A token that was supplied has paid for what the next one resolves. -/
theorem slack_forget (h : m.supplied.isSome = true) :
    slack { m with supplied := none } plan' ≤ m.slack plan := by
  have hsome : m.supplied.isNone = false := by
    rw [Option.isNone_eq_false_iff]
    exact h
  have hdepth := plan'.depth_le
  by_cases hpending : m.session.reader.pending = 0
  · simp [slack, hpending]
  · simp only [slack, h, hsome, hpending, Option.isSome_none, Bool.false_eq_true, false_and,
      and_false, if_false, true_and, ne_eq, not_false_eq_true, if_true]
    omega

/-- Slack falls with the depth of the plan. -/
theorem slack_mono (hsupplied : m'.supplied = m.supplied)
    (hreader : m'.session.reader = m.session.reader) (hdepth : plan'.depth ≤ plan.depth) :
    m'.slack plan' ≤ m.slack plan := by
  unfold slack
  rw [hsupplied, hreader]
  split <;> omega

theorem peek_of_pending (hlast : m.session.reader.last.kind = .eof)
    (hpending : m.session.reader.pending = 0) : m.session.reader.peek.kind = .eof := by
  by_cases hnext : m.session.reader.peek.kind = .eof
  · exact hnext
  · have := Reader.pending_read hlast hnext
    omega

/-- Where nothing was supplied and nothing is to be read, the input ends. -/
theorem next_of_pending (hsupplied : m.supplied = none) (hlast : m.session.reader.last.kind = .eof)
    (hpending : m.session.reader.pending = 0) : m.next.kind = .eof := by
  rw [next, hsupplied, Option.getD_none]
  exact peek_of_pending hlast hpending

/-- An instruction that is done without tokens is work done. -/
theorem work_lt_of_done (hsession : m'.session.effort = m.session.effort)
    (hreader : m'.session.reader = m.session.reader) (hsupplied : m'.supplied = m.supplied)
    (hdepth : plan'.depth ≤ plan.depth) (hcost : plan'.cost < plan.cost) :
    m'.work plan' < m.work plan := by
  have := slack_mono hsupplied hreader hdepth
  unfold work
  omega

/-- A token that goes on with something deeper in the plan pays for it. -/
theorem work_lt_of_deeper (hlast : m.session.reader.last.kind = .eof)
    (hnext : m.next.kind ≠ .eof) (hdepth : plan'.depth < plan.depth)
    (hcost : plan'.cost < plan.cost + 32) : m.work plan' < m.work plan := by
  have hmore : ¬(m.supplied.isNone ∧ m.session.reader.pending = 0) := by
    rintro ⟨hsupplied, hpending⟩
    exact hnext (next_of_pending (by simpa using hsupplied) hlast hpending)
  unfold work slack
  rw [if_neg hmore, if_neg hmore]
  omega

/-- Reading and repairing pay for everything that they lead to. -/
theorem work_lt_of_effort (heffort : m'.session.effort < m.session.effort)
    (hcost : plan'.cost ≤ plan.cost + 32) : m'.work plan' < m.work plan := by
  have := m'.slack_le plan'
  unfold work
  omega

/-! ## What each step leaves to do -/

theorem effort_eq {s s' : Session} (hreader : s'.reader = s.reader) (hlimits : s'.limits = s.limits)
    (hattempts : s'.attempts = s.attempts) : s'.effort = s.effort := by
  simp only [Session.effort, Session.chances, hreader, hlimits, hattempts]

/-- Taking a token that does not end the input. -/
theorem work_take (hlast : m.session.reader.last.kind = .eof) (hnext : m.next.kind ≠ .eof)
    (hcost : plan'.cost < plan.cost) : m.take.work plan' < m.work plan := by
  unfold take
  cases hsupplied : m.supplied with
  | none =>
    rw [next, hsupplied, Option.getD_none] at hnext
    exact work_lt_of_effort (Session.effort_read hlast hnext rfl rfl) (by omega)
  | some t =>
    have hslack : slack { m with supplied := none } plan' ≤ m.slack plan :=
      slack_forget (by rw [hsupplied]; rfl)
    unfold work
    change 400 * m.session.effort + slack { m with supplied := none } plan' + _ < _
    omega

/-- A token that was supplied at the end of the input. -/
theorem work_take_provide (hpeek : m.session.reader.peek.kind = .eof) (k : Kind)
    (hcost : plan'.cost < plan.cost) : (m.provide k).take.work plan' < m.work plan := by
  have hpending := Reader.pending_of_eof hpeek
  have hslack := slack_at_end (m := (m.provide k).take) rfl hpending plan'
  unfold work
  rw [hslack]
  change 400 * m.session.effort + 0 + _ < _
  omega

theorem work_expect (hsound : Sound m (.expect p :: plan))
    (h : m.expect p plan = .ok (m', plan')) : m'.work plan' < m.work (.expect p :: plan) := by
  obtain ⟨htakes, hend, hlegal, _⟩ := hsound.tracks.expect
  have hspec := expect_spec hlegal htakes hsound.supply plan
  rw [h] at hspec
  have hcost : plan.cost < Plan.cost (.expect p :: plan) := by
    rw [Plan.cost_cons]
    exact Nat.lt_add_of_pos_left (Instruction.one_le_cost _)
  cases hspec with
  | accepted haccepts =>
    exact work_take hsound.last (Position.kind_ne_eof_of_accepts haccepts hend) hcost
  | removed _ hnext =>
    exact work_lt_of_effort (Session.effort_read hsound.last hnext rfl rfl) (by omega)
  | kept _ hnext _ hcount =>
    have hread : m.attempt.take.session.effort < m.attempt.session.effort :=
      Session.effort_read hsound.last hnext rfl rfl
    exact work_lt_of_effort (Nat.lt_trans hread (Session.effort_recordAttempt hcount)) (by omega)
  | supplied _ hnext _ hcount =>
    exact work_lt_of_effort (Session.effort_recordAttempt hcount) (by omega)
  | suppliedAtEnd _ hpeek => exact work_take_provide hpeek _ hcost

theorem work_choose (hsound : Sound m (.choose b :: plan))
    (h : m.choose b plan = .ok (m', plan')) : m'.work plan' < m.work (.choose b :: plan) := by
  obtain ⟨hchoice, hlegal⟩ := hsound.tracks.legal_choose
  have hspec := choose_spec hlegal hchoice hsound.supply plan
  rw [h] at hspec
  have hcost (choice : Choice) (harises : choice.Arises b) :
      Plan.cost (Plan.continuation b choice ++ plan) < Plan.cost (.choose b :: plan) + 32 := by
    have := Plan.cost_continuation_le hchoice harises
    have := Instruction.one_le_cost (.choose b)
    rw [Plan.cost_append, Plan.cost_cons]
    omega
  have hclosing : Plan.cost (Plan.continuation b (.kind b.expectedKind) ++ plan) <
      Plan.cost (.choose b :: plan) := by
    rw [Plan.cost_append, Plan.cost_cons]
    exact Nat.add_lt_add_right (Plan.cost_closing_lt hchoice) _
  cases hspec with
  | admitted hadmits =>
    by_cases hnext : m.next.kind = .eof
    · -- Only the end of a program is resolved by the end of the input.
      obtain rfl : b = .topLevelNode := by
        rw [hnext] at hadmits
        revert hadmits
        cases b <;> decide
      rw [hnext]
      refine work_lt_of_done rfl rfl rfl ?_ hclosing
      exact Nat.le_trans (Nat.le_of_eq (Plan.depth_closing hchoice plan)) (Nat.zero_le _)
    · exact work_lt_of_deeper hsound.last hnext (Plan.depth_continuation_lt hchoice hadmits plan)
        (hcost _ trivial)
  | removed _ hnext =>
    exact work_lt_of_effort (Session.effort_read hsound.last hnext rfl rfl) (by omega)
  | kept _ _ _ _ harises hcount =>
    have := hcost _ harises
    exact work_lt_of_effort (Session.effort_recordAttempt hcount) (by omega)
  | @supplied k _ _ _ _ hcount =>
    have := hcost (.kind k) trivial
    exact work_lt_of_effort (Session.effort_recordAttempt hcount) (by omega)
  | suppliedAtEnd _ hpeek =>
    have hpending := Reader.pending_of_eof hpeek
    have hdepth := Plan.depth_closing hchoice plan
    have hslack : slack (m.provide b.expectedKind)
        (Plan.continuation b (.kind b.expectedKind) ++ plan) = 0 := by
      simp [slack, provide, hdepth, hpending]
    unfold work
    rw [hslack]
    change 400 * m.session.effort + 0 + _ < _
    omega

/-- Leaving out what remains of the input leaves nothing to be read. -/
theorem pending_drain (m : Machine) : m.drain.session.reader.pending = 0 := by
  have hnone : ∀ ts : List Token, ((ts.drop (ts.takeWhile (·.kind != .eof)).length).takeWhile
      (·.kind != .eof)) = [] := by
    intro ts
    induction ts with
    | nil => rfl
    | cons t rest ih => by_cases ht : t.kind = .eof <;> simp [ht, ih]
  exact congrArg List.length (hnone m.session.reader.ahead)

/-- Where the input ends nothing is left out, and the reader stays where it is. -/
theorem drain_of_pending (h : m.session.reader.pending = 0) :
    m.drain.session.reader = m.session.reader ∧ m.drain.leftOut = m.leftOut := by
  have hpassed : m.session.reader.ahead.takeWhile (·.kind != .eof) = [] :=
    List.length_eq_zero_iff.1 h
  simp [drain, drainReader, hpassed]

theorem effort_drain (m : Machine) : m.drain.session.effort ≤ m.session.effort := by
  have hpending := pending_drain m
  by_cases hnone : m.session.reader.pending = 0
  · exact Nat.le_of_eq (effort_eq (drain_of_pending hnone).1 rfl rfl)
  · have hchances := m.drain.session.chances_le
    change _ ≤ Session.patience m.session.limits + 1 at hchances
    have hone : 1 * (Session.patience m.session.limits + 2) ≤
        m.session.reader.pending * (Session.patience m.session.limits + 2) :=
      Nat.mul_le_mul_right _ (Nat.one_le_iff_ne_zero.2 hnone)
    unfold Session.effort
    rw [hpending]
    omega

theorem work_drain (m : Machine) (plan : Plan) : m.drain.work plan < m.work (.drain :: plan) := by
  have heffort := effort_drain m
  have hslack := slack_at_end (m := m.drain) rfl (pending_drain m) plan
  have hcost : Plan.cost (.drain :: plan) = 1 + plan.cost := Plan.cost_cons ..
  unfold work
  omega

/-- An instruction that asks for no token is done at once. -/
theorem work_lt_of_cons {i : Instruction} (hlimits : m'.session.limits = m.session.limits)
    (hattempts : m'.session.attempts = m.session.attempts)
    (hreader : m'.session.reader = m.session.reader) (hsupplied : m'.supplied = m.supplied)
    (hdepth : plan.depth ≤ Plan.depth (i :: plan)) : m'.work plan < m.work (i :: plan) := by
  refine work_lt_of_done (effort_eq hreader hlimits hattempts) hreader hsupplied hdepth ?_
  rw [Plan.cost_cons]
  exact Nat.lt_add_of_pos_left (Instruction.one_le_cost i)

/-- What may go on here and does not is done at once. -/
theorem work_skip {i : Instruction} (hdepth : i.depth plan.depth = max 1 plan.depth) :
    m.work plan < m.work (i :: plan) :=
  work_lt_of_cons rfl rfl rfl rfl (by rw [Plan.depth_cons, hdepth]; exact Nat.le_max_right ..)

/-- What goes on here takes a token next. -/
theorem work_goOn {i : Instruction} {more : Plan} (hlast : m.session.reader.last.kind = .eof)
    (hnext : m.next.kind ≠ .eof) (hi : i.depth plan.depth = max 1 plan.depth)
    (hdepth : Plan.depth (more ++ plan) = 0) (hcost : more.cost ≤ 32) :
    m.work (more ++ plan) < m.work (i :: plan) := by
  have := Instruction.one_le_cost i
  refine work_lt_of_deeper hlast hnext ?_ ?_
  · rw [hdepth, Plan.depth_cons, hi]
    omega
  · rw [Plan.cost_append, Plan.cost_cons]
    omega

theorem work_step {i : Instruction} (hsound : Sound m (i :: plan)) (htake : i ≠ .take)
    (h : m.step i plan = .ok (m', plan')) : m'.work plan' < m.work (i :: plan) := by
  have hlast := hsound.last
  cases i with
  | expect p => exact work_expect hsound h
  | choose b => exact work_choose hsound h
  | take => exact absurd rfl htake
  | enter p =>
    cases h
    exact work_lt_of_cons rfl rfl rfl rfl (Nat.le_refl _)
  | leave =>
    obtain ⟨p, T, _, rfl, rfl⟩ := step_leave_inv h
    exact work_lt_of_cons rfl rfl rfl rfl (Nat.le_refl _)
  | switch p =>
    obtain ⟨p', T, _, rfl, rfl⟩ := step_switch_inv h
    exact work_lt_of_cons rfl rfl rfl rfl (Nat.le_refl _)
  | drain =>
    cases h
    exact work_drain m plan
  | begin =>
    cases h
    exact work_lt_of_cons rfl rfl rfl rfl (Nat.le_refl _)
  | adopt =>
    cases h
    exact work_lt_of_cons rfl rfl rfl rfl (Nat.le_refl _)
  | finish kind =>
    cases h
    exact work_lt_of_cons rfl rfl rfl rfl (Nat.le_refl _)
  | optionalSuffix =>
    cases h
    unfold Machine.optionalSuffix
    split
    · rename_i hnext
      exact work_goOn hlast (by simp [hnext]) rfl rfl (by decide)
    · exact work_skip rfl
  | postfixes =>
    cases h
    unfold Machine.postfixes
    split
    · rename_i hnext
      exact work_goOn hlast (by simp [hnext]) rfl rfl (by decide)
    · rename_i hnext
      exact work_goOn hlast (by simp [hnext]) rfl rfl (by decide)
    · exact work_skip rfl
  | operators tightness =>
    cases h
    unfold Machine.operators
    split
    · exact work_skip rfl
    · rename_i precedence hprecedence
      split
      · exact work_skip rfl
      · refine work_goOn hlast (fun hnext => ?_) rfl rfl ?_
        · rw [hnext] at hprecedence
          cases hprecedence
        · exact (by decide : 10 ≤ 32)
  | otherBranch =>
    cases h
    unfold Machine.otherBranch
    split
    · rename_i hnext
      exact work_goOn hlast (by simp [hnext]) rfl rfl (by decide)
    · exact work_skip rfl

/-! ## Runs -/

/-- A run that ended by itself: the plan is done, or repair gave up. -/
inductive Ended : Result → Prop
  | done (m : Machine) : Ended (.done m)
  | exhausted (p : Position) (index count : Nat) : Ended (.failed (.exhausted p index count))

/-- A run with as many steps as there is work ends by itself. -/
theorem run_ended {fuel : Nat} (hsound : Sound m plan) (hfuel : m.work plan ≤ fuel) :
    Ended (run fuel m plan) := by
  induction fuel generalizing m plan with
  | zero =>
    cases plan with
    | nil => exact .done m
    | cons i plan =>
      have := Instruction.one_le_cost i
      rw [work, Plan.cost_cons] at hfuel
      omega
  | succ fuel ih =>
    cases plan with
    | nil => exact .done m
    | cons i plan =>
      rcases hsound.steps with ⟨p, index, count, hfailed⟩ | ⟨m', plan', hstep, hsound'⟩
      · rw [run, hfailed]
        exact .exhausted p index count
      · by_cases htake : i = .take
        · -- Behind the end of the input only the program is left.
          subst htake
          obtain ⟨q, S, full, _, hfollows⟩ := hsound.tracks
          obtain ⟨rfl, hstack, _⟩ := hfollows.take_inv
          have hcost : Plan.cost [.take, .leave] = 2 := rfl
          unfold work at hfuel
          obtain ⟨fuel, rfl⟩ : ∃ n, fuel = n + 1 := ⟨fuel - 1, by omega⟩
          have hstack' : m.take.session.stack = [.compUnit] := (Keeps.take m).stack.trans hstack
          rw [run, show m.step .take [.leave] = .ok (m.take, [.leave]) from rfl]
          simp only [run, step_leave hstack']
          exact .done _
        · rw [run, hstep]
          have := work_step hsound htake hstep
          exact ih hsound' (by omega)

/-- The bound on the steps is enough for the work at the start. -/
theorem work_start_le (tokens : List Token) (limits : Limits) :
    (start tokens limits).work program ≤ stepBound tokens limits := by
  have hslack := slack_le_of_none (m := start tokens limits) rfl program
  have hahead : (Reader.ofTokens tokens).ahead.length ≤ tokens.length := by
    unfold Reader.ofTokens
    split
    · exact Nat.zero_le _
    · split
      · simp
      · exact Nat.le_refl _
  have hpending : (Reader.ofTokens tokens).pending ≤ tokens.length :=
    Nat.le_trans (List.takeWhile_sublist _).length_le hahead
  have hmul : (Reader.ofTokens tokens).pending * (Session.patience limits + 2) ≤
      tokens.length * (Session.patience limits + 3) :=
    Nat.mul_le_mul hpending (by omega)
  have heffort : (start tokens limits).session.effort =
      (Reader.ofTokens tokens).pending * (Session.patience limits + 2) +
        (Session.patience limits + 1) := rfl
  have hbound : stepBound tokens limits =
      4096 * (tokens.length * (Session.patience limits + 3) +
        2 * (Session.patience limits + 3)) := by
    rw [stepBound, Session.patience, Nat.mul_assoc, Nat.add_mul]
  have hcost : Plan.cost program = 5 := rfl
  unfold work
  omega

theorem run_start_ended (tokens : List Token) (limits : Limits) :
    Ended (run (stepBound tokens limits) (start tokens limits) program) :=
  run_ended (sound_start tokens limits) (work_start_le tokens limits)

/-- A run that ends by itself ends as the plan does. -/
theorem Finishes.run_eq {fuel : Nat} (h : Finishes m plan m') (hended : Ended (run fuel m plan)) :
    run fuel m plan = .done m' := by
  induction h generalizing fuel with
  | done m => cases fuel <;> rfl
  | step hstep _ ih =>
    cases fuel with
    | zero => cases hended
    | succ fuel =>
      rw [run, hstep] at hended ⊢
      exact ih hended

/-- A run that does the whole plan for a program gives the tree. -/
theorem Finishes.tree {tokens : List Token} {limits : Limits}
    (h : Finishes (.start tokens limits) program m) : Tree.ofTokens tokens limits = .ok m.tree := by
  rw [Tree.ofTokens, h.run_eq (run_start_ended tokens limits)]

end Machine

end Mend
