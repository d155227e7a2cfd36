import Mend.Proofs.Machine.Step
import Mend.Proofs.Plan.Height

/-!
# Part of a plan at a time

What an instruction does not depend on the plan behind it. So the plan of a production can be
looked at by itself: it is done in the same way wherever it stands in a longer plan, and on
whatever stack. It leaves the stack as it found it, since no repair changes the stack and the
instructions that do keep the height of the plan.
-/

namespace Mend

/-- No repair changes the stack. -/
theorem Session.stack_recover (s : Session) (p : Position) (t : Token) (completing : Bool) :
    (s.recover p t completing).2.stack = s.stack := by
  have happly (s : Session) (r : Repair) : (s.apply r).2.stack = s.stack := by
    unfold Session.apply
    split <;> rfl
  unfold recover
  split
  · exact happly s _
  · unfold recoverAttempt
    split
    · rfl
    · exact happly s.recordAttempt _
    · split
      · rfl
      · exact happly s.recordAttempt _

namespace Machine

variable {m m' m'' : Machine} {plan plan' P Q : Plan} {p b : Position} {i : Instruction}
  {tokens : List Token} {limits : Limits}

/-! ## Steps -/

theorem stack_repair {r : Repair} (h : m.repair p = .ok (r, m')) :
    m'.session.stack = m.session.stack := by
  have hstack := m.session.stack_recover p m.session.reader.peek
    (completes m.session.reader.peek m.session.stack)
  unfold repair at h
  simp only at h
  split at h
  · cases h
  · rename_i session heq
    rw [heq] at hstack
    split at h <;>
      · cases h
        exact hstack

/-- One try to take a token keeps the stack. -/
theorem expect_stack (h : m.expect p plan = .ok (m', plan')) :
    m'.session.stack = m.session.stack ∧ (plan' = plan ∨ plan' = .expect p :: plan) := by
  unfold expect at h
  split at h
  · cases h
    exact ⟨(Keeps.take m).stack, .inl rfl⟩
  · cases hrepair : m.repair p with
    | error error => simp [hrepair, bind, Except.bind] at h
    | ok result =>
      obtain ⟨r, m₁⟩ := result
      have hstack := stack_repair hrepair
      simp only [hrepair, bind, Except.bind] at h
      split at h
      · cases h
        exact ⟨hstack, .inr rfl⟩
      · cases h
        exact ⟨(Keeps.take m₁).stack.trans hstack, .inl rfl⟩

/-- One try to resolve a branch point keeps the stack. -/
theorem choose_stack (h : m.choose b plan = .ok (m', plan')) :
    m'.session.stack = m.session.stack ∧ (plan' = .choose b :: plan ∨
      ∃ choice : Choice, choice.Arises b ∧ plan' = Plan.continuation b choice ++ plan) := by
  unfold choose at h
  split at h
  · cases h
    exact ⟨rfl, .inr ⟨_, Choice.arises_kind b _, rfl⟩⟩
  · cases hrepair : m.repair b with
    | error error => simp [hrepair, bind, Except.bind] at h
    | ok result =>
      obtain ⟨r, m₁⟩ := result
      have hstack := stack_repair hrepair
      simp only [hrepair, bind, Except.bind] at h
      split at h
      · cases h
        exact ⟨hstack, .inl rfl⟩
      · rename_i choice hchoice
        cases h
        refine ⟨hstack, .inr ⟨choice, ?_, rfl⟩⟩
        unfold choiceOf at hchoice
        split at hchoice
        · cases hchoice
        · cases hchoice
          trivial
        · cases hchoice
          exact arises_steer ..

/-- A result with a plan behind what it leaves to do. -/
def before (plan : Plan) (next : Machine × Plan) : Machine × Plan := (next.1, next.2 ++ plan)

theorem expect_eq (m : Machine) (p : Position) (plan : Plan) :
    m.expect p plan = (m.expect p []).map (before plan) := by
  unfold expect
  split
  · rfl
  · cases m.repair p with
    | error error => rfl
    | ok next =>
      simp only [bind, Except.bind]
      split <;> rfl

theorem choose_eq (m : Machine) (b : Position) (plan : Plan) :
    m.choose b plan = (m.choose b []).map (before plan) := by
  unfold choose
  split
  · simp [Except.map, before]
  · cases m.repair b with
    | error error => rfl
    | ok next =>
      simp only [bind, Except.bind]
      split <;> simp [Except.map, before, pure, Except.pure]

/-- What an instruction does not depend on the plan behind it. -/
theorem step_eq (m : Machine) (i : Instruction) (plan : Plan) :
    m.step i plan = (m.step i []).map (before plan) := by
  cases i with
  | expect p => exact m.expect_eq p plan
  | choose b => exact m.choose_eq b plan
  | leave =>
    unfold step
    cases m.session.stack <;> rfl
  | switch p =>
    unfold step
    cases m.session.stack <;> rfl
  | optionalSuffix | postfixes | operators | otherBranch => simp [step, Except.map, before]
  | _ => rfl

theorem step_append (h : m.step i plan = .ok (m', plan')) (rest : Plan) :
    m.step i (plan ++ rest) = .ok (m', plan' ++ rest) := by
  rw [step_eq] at h ⊢
  cases hnext : m.step i [] with
  | error error =>
    rw [hnext] at h
    cases h
  | ok next =>
    rw [hnext] at h
    cases h
    simp [Except.map, before]

/-- A plan that is done at the front of a longer one leaves the rest of it to be done. -/
theorem Reached.of_append (hrun : Finishes m P m') (h : Reached tokens limits m (P ++ Q)) :
    Reached tokens limits m' Q := by
  induction hrun with
  | done => exact h
  | step hstep _ ih => exact ih (h.step (step_append hstep Q))

/-! ## The stack -/

/-- The productions on a stack that a plan is still to leave stand on top of those that it
found. -/
def Stands (found : Stack) (m : Machine) (P : Plan) : Prop :=
  ∃ opened, m.session.stack = opened ++ found ∧ P.height opened.length = some 0

namespace Stands

variable {found : Stack}

/-- Every step leaves what the plan found where it is. -/
theorem step (h : Stands found m (i :: plan)) (hstep : m.step i plan = .ok (m', plan')) :
    Stands found m' plan' := by
  obtain ⟨opened, hstack, hheight⟩ := h
  have hsame {more : Plan} (hmore : Plan.height opened.length (more ++ plan) = some 0)
      (hm : m'.session.stack = m.session.stack) : Stands found m' (more ++ plan) :=
    ⟨opened, hm.trans hstack, hmore⟩
  cases i with
  | enter p =>
    cases hstep
    exact ⟨p :: opened, congrArg (p :: ·) hstack, hheight⟩
  | leave =>
    obtain ⟨p, T, hT, rfl, rfl⟩ := step_leave_inv hstep
    cases opened with
    | nil => cases hheight
    | cons q opened =>
      obtain ⟨_, rfl⟩ := List.cons.inj (hT.symm.trans hstack)
      exact ⟨opened, rfl, hheight⟩
  | switch p =>
    obtain ⟨p', T, hT, rfl, rfl⟩ := step_switch_inv hstep
    cases opened with
    | nil => cases hheight
    | cons q opened =>
      obtain ⟨_, rfl⟩ := List.cons.inj (hT.symm.trans hstack)
      exact ⟨p :: opened, rfl, hheight⟩
  | expect p =>
    obtain ⟨hm, rfl | rfl⟩ := expect_stack hstep
    · exact ⟨opened, hm.trans hstack, hheight⟩
    · exact ⟨opened, hm.trans hstack, hheight⟩
  | choose b =>
    obtain ⟨hm, rfl | ⟨choice, harises, rfl⟩⟩ := choose_stack hstep
    · exact ⟨opened, hm.trans hstack, hheight⟩
    · exact hsame ((Plan.height_continuation harises _ plan).trans hheight) hm
  | take =>
    cases hstep
    exact ⟨opened, (Keeps.take m).stack.trans hstack, hheight⟩
  | optionalSuffix =>
    cases hstep
    refine hsame ?_ rfl
    unfold Machine.optionalSuffix
    split <;> exact hheight
  | postfixes =>
    cases hstep
    refine hsame ?_ rfl
    unfold Machine.postfixes
    split <;> exact hheight
  | operators tightness =>
    cases hstep
    refine hsame ?_ rfl
    unfold Machine.operators
    split
    · exact hheight
    · split <;> exact hheight
  | otherBranch =>
    cases hstep
    refine hsame ?_ rfl
    cases opened with
    | nil => cases hheight
    | cons q opened =>
      unfold Machine.otherBranch
      split <;> exact hheight
  | _ =>
    cases hstep
    exact ⟨opened, hstack, hheight⟩

theorem finishes (h : Stands found m P) (hrun : Finishes m P m') : m'.session.stack = found := by
  induction hrun with
  | done m =>
    obtain ⟨opened, hstack, hheight⟩ := h
    obtain rfl : opened = [] := List.eq_nil_of_length_eq_zero (Option.some.inj hheight)
    exact hstack
  | step hstep _ ih => exact ih (h.step hstep)

end Stands

/-- A plan of no height leaves the stack as it found it. -/
theorem Finishes.stack_eq (hrun : Finishes m P m') (h : P.height 0 = some 0) :
    m'.session.stack = m.session.stack :=
  Stands.finishes ⟨[], rfl, h⟩ hrun

end Machine

end Mend
