import Mend.Proofs.Machine.Bound
import Mend.Proofs.Parse.Conservation
import Mend.Proofs.Plan.Ending

/-!
# Parsing terminates

A parse is a run of the machine, one step after the other. Whatever the tokens and the limits, no
run is longer than the bound on the steps, and every run can be carried on until the plan is done
or repair gives up.

The limits count the repairs before the end of the input only. Behind it the effort that is left
no longer changes, and every step makes the rest of the work smaller: so the length of what is left
of a run is bounded by the plan alone, whatever the limits are.
-/

namespace Mend

namespace Machine

variable {m m' m₁ : Machine} {plan plan' : Plan} {i : Instruction} {n k : Nat}
  {tokens : List Token} {limits : Limits}

/-- A number of steps lead from a machine and its plan to another machine and what is left of the
plan there. -/
inductive Goes : Nat → Machine → Plan → Machine → Plan → Prop
  | refl (m : Machine) (plan : Plan) : Goes 0 m plan m plan
  | step {n : Nat} {m m₁ m' : Machine} {i : Instruction} {plan plan₁ plan' : Plan}
      (hstep : m.step i plan = .ok (m₁, plan₁)) (h : Goes n m₁ plan₁ m' plan') :
      Goes (n + 1) m (i :: plan) m' plan'

/-- A machine that takes no further step: its plan is done, or repair gives up. -/
inductive Halted : Machine → Plan → Prop
  | done (m : Machine) : Halted m []
  | exhausted {m : Machine} {i : Instruction} {plan : Plan} {p : Position} {index count : Nat}
      (h : m.step i plan = .error (.exhausted p index count)) : Halted m (i :: plan)

/-- One run after the other. -/
theorem Goes.trans {plan₁ : Plan} (h : Goes n m plan m₁ plan₁) (hrest : Goes k m₁ plan₁ m' plan') :
    Goes (n + k) m plan m' plan' := by
  induction h with
  | refl => rwa [Nat.zero_add]
  | step hstep _ ih =>
    rw [Nat.add_right_comm]
    exact .step hstep (ih hrest)

/-- Where a run ends is not changed by going some steps of it. -/
theorem Goes.finishes {plan₁ : Plan} (hgoes : Goes n m plan m₁ plan₁) (h : Finishes m plan m') :
    Finishes m₁ plan₁ m' := by
  induction hgoes with
  | refl => exact h
  | step hstep _ ih =>
    cases h with
    | step hstep' hrest =>
      rw [hstep] at hstep'
      cases hstep'
      exact ih hrest

/-- A machine that has halted is where its run ends, if the run has an end. -/
theorem Halted.of_finishes (hhalted : Halted m plan) (h : Finishes m plan m') :
    plan = [] ∧ m = m' := by
  cases hhalted with
  | done =>
    cases h
    exact ⟨rfl, rfl⟩
  | exhausted herror =>
    cases h with
    | step hstep _ =>
      rw [herror] at hstep
      cases hstep

theorem Reached.of_goes (h : Reached tokens limits m plan) (hgoes : Goes n m plan m' plan') :
    Reached tokens limits m' plan' := by
  induction hgoes with
  | refl => exact h
  | step hstep _ ih => exact ih (h.step hstep)

/-- A run that ends by itself within some steps goes to a machine that has halted. -/
theorem Ended.goes {fuel : Nat} (h : Ended (Machine.run fuel m plan)) :
    ∃ k m' plan', Goes k m plan m' plan' ∧ Halted m' plan' := by
  induction fuel generalizing m plan with
  | zero =>
    cases plan with
    | nil => exact ⟨0, m, [], .refl m [], .done m⟩
    | cons i plan => cases h
  | succ fuel ih =>
    cases plan with
    | nil => exact ⟨0, m, [], .refl m [], .done m⟩
    | cons i plan =>
      rw [Machine.run] at h
      cases hstep : m.step i plan with
      | error error =>
        rw [hstep] at h
        cases h with
        | exhausted p index count => exact ⟨0, m, _, .refl m _, .exhausted hstep⟩
      | ok next =>
        rw [hstep] at h
        obtain ⟨k, m', plan', hgoes, hhalted⟩ := ih h
        exact ⟨k + 1, m', plan', .step hstep hgoes, hhalted⟩

/-! ## Runs bounded by a measure -/

/-- If every step but that of the end of the input makes a measure smaller, no run is longer than
the measure. Behind the end of the input there is one more step to do. -/
theorem Goes.le_of_measure {μ : Machine → Plan → Nat} {I : Machine → Plan → Prop}
    (hsound : ∀ {m plan}, I m plan → Sound m plan) (hcost : ∀ m plan, plan.cost ≤ μ m plan)
    (hless : ∀ {m m' i plan plan'}, I m (i :: plan) → i ≠ .take →
      m.step i plan = .ok (m', plan') → I m' plan' ∧ μ m' plan' < μ m (i :: plan))
    (hgoes : Goes n m plan m' plan') (h : I m plan) : n ≤ μ m plan := by
  -- Behind the end of the input the invariant is gone, so the steps there are counted by hand.
  induction hgoes with
  | refl => exact Nat.zero_le _
  | @step n m m₁ m' i plan plan₁ plan' hstep hrest ih =>
    by_cases htake : i = .take
    · subst htake
      obtain ⟨q, S, full, _, hfollows⟩ := (hsound h).tracks
      obtain ⟨rfl, _⟩ := hfollows.take_inv
      cases hstep
      have hleaving : n ≤ 1 := by
        cases hrest with
        | refl => exact Nat.zero_le 1
        | step hleave hdone =>
          obtain ⟨p, T, _, _, rfl⟩ := step_leave_inv hleave
          cases hdone
          exact Nat.le_refl 1
      have hwhole : 2 ≤ μ m [.take, .leave] := hcost m [.take, .leave]
      omega
    · obtain ⟨hnext, hlt⟩ := hless h htake hstep
      have := ih hnext
      omega

/-- No run is longer than the work there is. -/
theorem Sound.goes_le (h : Sound m plan) (hgoes : Goes n m plan m' plan') : n ≤ m.work plan := by
  refine Goes.le_of_measure (I := Sound) id (fun m plan => ?_) ?_ hgoes h
  · exact Nat.le_add_left _ _
  · intro m m' i plan plan' hsound htake hstep
    exact ⟨hsound.step hstep, work_step hsound htake hstep⟩

/-! ## Behind the end of the input -/

/-- Behind the end of the input no step reads anything, and none counts an attempt at repair. -/
theorem session_of_end (hsound : Sound m (i :: plan)) (hend : m.session.reader.peek.kind = .eof)
    (htake : i ≠ .take) (hstep : m.step i plan = .ok (m', plan')) :
    m'.session.reader = m.session.reader ∧ m'.session.attempts = m.session.attempts ∧
      m'.session.limits = m.session.limits := by
  have htaken (hnext : m.next.kind ≠ .eof) : m.take.session = m.session := by
    cases hsupplied : m.supplied with
    | none => exact absurd (by rw [next, hsupplied, Option.getD_none, hend]) hnext
    | some t => simp [take, hsupplied]
  cases i with
  | expect p =>
    obtain ⟨htakes, hp, hlegal, _⟩ := hsound.tracks.expect
    have hspec := expect_spec hlegal htakes hsound.supply plan
    rw [show m.expect p plan = _ from hstep] at hspec
    cases hspec with
    | accepted haccepts =>
      rw [htaken (Position.kind_ne_eof_of_accepts haccepts hp)]
      exact ⟨rfl, rfl, rfl⟩
    | suppliedAtEnd _ _ => exact ⟨rfl, rfl, rfl⟩
    | _ => contradiction
  | choose b =>
    obtain ⟨hchoice, hlegal⟩ := hsound.tracks.legal_choose
    have hspec := choose_spec hlegal hchoice hsound.supply plan
    rw [show m.choose b plan = _ from hstep] at hspec
    cases hspec with
    | admitted _ => exact ⟨rfl, rfl, rfl⟩
    | suppliedAtEnd _ _ => exact ⟨rfl, rfl, rfl⟩
    | _ => contradiction
  | drain =>
    cases hstep
    exact ⟨(drain_of_pending (Reader.pending_of_eof hend)).1, rfl, rfl⟩
  | leave =>
    obtain ⟨p, T, _, rfl, rfl⟩ := step_leave_inv hstep
    exact ⟨rfl, rfl, rfl⟩
  | switch p =>
    obtain ⟨p', T, _, rfl, rfl⟩ := step_switch_inv hstep
    exact ⟨rfl, rfl, rfl⟩
  | take => exact absurd rfl htake
  | _ =>
    cases hstep
    exact ⟨rfl, rfl, rfl⟩

/-- Behind the end of the input no run is longer than the plan allows. -/
theorem Sound.goes_le_of_end (h : Sound m plan) (hend : m.session.reader.peek.kind = .eof)
    (hgoes : Goes n m plan m' plan') : n ≤ plan.cost + 320 := by
  have hle : n ≤ m.slack plan + plan.cost := by
    refine Goes.le_of_measure (μ := fun m plan => m.slack plan + plan.cost)
      (I := fun m plan => Sound m plan ∧ m.session.reader.peek.kind = .eof)
      (fun h => h.1) (fun m plan => Nat.le_add_left _ _) ?_ hgoes ⟨h, hend⟩
    rintro m m' i plan plan' ⟨hsound, hend⟩ htake hstep
    obtain ⟨hreader, hattempts, hlimits⟩ := session_of_end hsound hend htake hstep
    have heffort := effort_eq hreader hlimits hattempts
    have hless := work_step hsound htake hstep
    unfold work at hless
    rw [heffort] at hless
    exact ⟨⟨hsound.step hstep, by rw [hreader, hend]⟩, by omega⟩
  have := m.slack_le plan
  omega

end Machine

open Machine in
/-- Every run of a parse comes to its end: it is no longer than the bound on the steps, it can be
carried on until the machine halts, and once the input has ended what is left of it is bounded by
the plan, whatever the limits. So the bound on the steps is never used up. -/
theorem parsing_terminates (tokens : List Token) (limits : Limits) :
    (∀ n m plan, Goes n (.start tokens limits) program m plan →
      n ≤ stepBound tokens limits ∧ ∃ k m' plan', Goes k m plan m' plan' ∧ Halted m' plan') ∧
    (∀ n m plan m' plan', Reached tokens limits m plan → m.session.reader.peek.kind = .eof →
      Goes n m plan m' plan' → n ≤ plan.cost + 320) ∧
    Tree.ofTokens tokens limits ≠ .error .unfinished := by
  refine ⟨fun n m plan hgoes => ⟨?_, ?_⟩, fun n m plan m' plan' hreached hend hgoes => ?_, ?_⟩
  · have hle := (sound_start tokens limits).goes_le hgoes
    exact Nat.le_trans hle (work_start_le tokens limits)
  · have hsound := (Reached.start.of_goes hgoes).sound
    exact (run_ended hsound (Nat.le_refl _)).goes
  · exact hreached.sound.goes_le_of_end hend hgoes
  · have hended := run_start_ended tokens limits
    unfold Tree.ofTokens
    generalize run _ _ _ = result at hended
    cases hended with
    | done m => exact nofun
    | exhausted p index count => exact nofun

open Machine in
/-- A declaration that breaks off after its first word is at the end of the input after seven steps.
The run goes on from there, supplies the four tokens that are missing, and halts. -/
theorem broken_declaration_terminates : ∃ m plan k m',
    Goes 7 (.start [.plain .constKeyword "const" 1, .eof 1] .standard) program m plan ∧
      m.session.reader.peek.kind = .eof ∧ Goes k m plan m' [] ∧
      m'.tree.diagnostics = [.missing .identifier 1, .missing .assign 1, .missing .identifier 1,
        .missing .semicolon 1] ∧
      7 + k ≤ stepBound [.plain .constKeyword "const" 1, .eof 1] .standard ∧
      k ≤ plan.cost + 320 ∧
      Tree.ofTokens [.plain .constKeyword "const" 1, .eof 1] .standard ≠ .error .unfinished := by
  obtain ⟨hbound, hbehind, hfinished⟩ :=
    parsing_terminates [.plain .constKeyword "const" 1, .eof 1] .standard
  have hsteps : ∃ m plan,
      Goes 7 (.start [.plain .constKeyword "const" 1, .eof 1] .standard) program m plan ∧
        m.session.reader.peek.kind = .eof :=
    ⟨_, _, .step rfl (.step rfl (.step rfl (.step rfl (.step rfl (.step rfl (.step rfl
      (.refl _ _))))))), rfl⟩
  obtain ⟨m, plan, hstart, hend⟩ := hsteps
  obtain ⟨k, m', plan', hgoes, hhalted⟩ := (hbound 7 m plan hstart).2
  obtain ⟨tree, htree, hreports⟩ := Tree.exists_ofTokens_const
  obtain ⟨m'', hrun, rfl⟩ := finishes_of_tree htree
  obtain ⟨rfl, rfl⟩ := hhalted.of_finishes (hgoes.finishes (hstart.finishes hrun))
  exact ⟨m, plan, k, m', hstart, hend, hgoes, hreports, (hbound _ _ _ (hstart.trans hgoes)).1,
    hbehind k m plan m' [] (Reached.start.of_goes hstart) hend hgoes, hfinished⟩

end Mend
