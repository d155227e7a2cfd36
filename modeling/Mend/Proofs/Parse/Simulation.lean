import Mend.Proofs.Machine.Frame
import Mend.Proofs.Machine.Ledger
import Mend.Proofs.Machine.Primed
import Mend.Proofs.Parse.Conservation

/-!
# The stack of the machine is that of the automaton

The machine opens and leaves productions at other moments than the automaton does. Yet wherever it
needs a token, and so wherever it may ask for a repair, its position and its stack are a state to
which the automaton comes by reading what the machine has taken so far, be it from the input or
supplied. The plan that follows the automaton carries this through every step.

What is supplied is always what the plan wants, with one exception to be ruled out: documentation
is never supplied, so it must be there wherever it is expected. It is, because only documentation
that comes next makes the machine expect it.
-/

namespace Mend

private theorem documentedPath_table : Position.all.all (fun b => b.paths.all fun path =>
    !(Plan.continuation b (.path path)).contains (.expect .docString)) = true := by
  decide +kernel

/-- No choice but documentation itself leads to documentation. -/
theorem Plan.docString_not_mem {b : Position} {choice : Choice} (hb : b.isChoice = true)
    (harises : choice.Arises b) (hplain : choice ≠ .kind .documentationString) :
    .expect .docString ∉ continuation b choice := by
  intro hmem
  cases choice with
  | kind k => exact hplain (congrArg Choice.kind (Plan.documented_of_mem hb hmem).2)
  | path path =>
    have htable := List.all_eq_true.1 (Position.of_all documentedPath_table b) path harises
    rw [List.contains_iff_mem.2 hmem] at htable
    cases htable

namespace Machine

variable {m m' c : Machine} {plan plan' : Plan} {i : Instruction} {p b : Position}
  {tokens : List Token} {limits : Limits}

/-- The automaton has read what the machine has taken, and the plan follows it from there. -/
structure Simulates (m : Machine) (plan : Plan) : Prop where
  follows : ∃ q S full, Run .compUnit [] m.taken q S ∧ Follows plan m.session.stack q S full
  supplied : ∀ t ∈ m.supplied, t.kind ≠ .documentationString
  documented : Documented m plan

namespace Simulates

/-- Where a token is wanted, the automaton wants it on the same stack. -/
theorem run_expect (h : Simulates m (.expect p :: plan)) :
    Run .compUnit [] m.taken p m.session.stack := by
  obtain ⟨q, S, full, hrun, hfollows⟩ := h.follows
  obtain ⟨_, _, hpass, _⟩ := hfollows.expect_inv
  simpa using hrun.trans hpass.run

/-- Where a choice is made, the automaton makes it on the same stack. -/
theorem run_choose (h : Simulates m (.choose b :: plan)) :
    Run .compUnit [] m.taken b m.session.stack := by
  obtain ⟨q, S, full, hrun, hfollows⟩ := h.follows
  obtain ⟨_, hpass, _⟩ := hfollows.choose_inv
  simpa using hrun.trans hpass.run

/-- A repair at an instruction that is not done keeps the simulation. -/
theorem of_same (h : Simulates m plan) (htaken : c.taken = m.taken)
    (hstack : c.session.stack = m.session.stack)
    (hsupplied : ∀ t ∈ c.supplied, t.kind ≠ .documentationString)
    (hdocumented : .expect .docString ∉ plan) : Simulates c plan := by
  refine ⟨?_, hsupplied, fun hmem => absurd hmem hdocumented⟩
  rw [htaken, hstack]
  exact h.follows

/-! ## Taking a token -/

/-- The machine takes a token that is accepted, and the automaton reads it. -/
theorem take (h : Simulates m (.expect p :: plan)) (htaken : c.taken = m.taken)
    (hstack : c.session.stack = m.session.stack) (haccepts : p.accepts c.next = true) :
    Simulates c.take plan := by
  obtain ⟨q, S, full, hrun, hfollows⟩ := h.follows
  obtain ⟨_, _, hpass, q', S', hmove, hrest⟩ := hfollows.expect_inv
  refine ⟨⟨q', S', false, ?_, ?_⟩, fun t ht => ?_, fun hmem => ?_⟩
  · have hread : Run p m.session.stack [c.next.precededBy c.leftOut] q' S' :=
      .read haccepts hmove (.refl q' S')
    rw [taken_take, htaken]
    exact hrun.trans (hpass.run.trans hread)
  · rw [(Keeps.take c).stack, hstack]
    exact hrest
  · rw [Primed.supplied_take] at ht
    cases ht
  · exact absurd hmem (h.documented.not_mem (by simp))

theorem step_expect (hsound : Sound m (.expect p :: plan)) (h : Simulates m (.expect p :: plan))
    (hstep : m.expect p plan = .ok (m', plan')) : Simulates m' plan' := by
  obtain ⟨htakes, _, hlegal, _⟩ := hsound.tracks.expect
  have hspec := expect_spec hlegal htakes hsound.supply plan
  have hplain (hrejects : p.accepts m.next = false) :
      .expect .docString ∉ Instruction.expect p :: plan :=
    h.documented.not_mem_of_refuses (by simp [refuses, hrejects])
  rw [hstep] at hspec
  cases hspec with
  | accepted haccepts => exact h.take rfl rfl haccepts
  | removed hrejects _ =>
    exact h.of_same rfl rfl (by simp [leaveOut]) (hplain hrejects)
  | kept _ _ haccepts _ => exact h.take (c := m.attempt) rfl rfl haccepts
  | @supplied k _ _ hwants _ =>
    exact h.take (c := m.attempt.provide k) rfl rfl (Position.accepts_of_wants hwants)
  | suppliedAtEnd hrejects _ =>
    have hp : p ≠ .docString := by
      rintro rfl
      exact hplain hrejects List.mem_cons_self
    exact h.take (c := m.provide p.expectedKind) rfl rfl
      (Position.accepts_of_wants (Position.wants_expectedKind_of_ne htakes hp))

/-! ## Making a choice -/

/-- The machine goes on with a choice, and the automaton goes that way. -/
theorem goOn {choice : Choice} (h : Simulates m (.choose b :: plan)) (htaken : c.taken = m.taken)
    (hstack : c.session.stack = m.session.stack) (harises : choice.Arises b)
    (hsupplied : ∀ t ∈ c.supplied, t.kind ≠ .documentationString)
    (hdocumented : Documented c (Plan.continuation b choice ++ plan)) :
    Simulates c (Plan.continuation b choice ++ plan) := by
  obtain ⟨q, S, full, hrun, hfollows⟩ := h.follows
  obtain ⟨q', S', full', hmore, hrest⟩ := Leads.choose hfollows (hrun.legal legal_start) harises
  refine ⟨⟨q', S', full', ?_, ?_⟩, hsupplied, hdocumented⟩
  · rw [htaken]
    simpa using hrun.trans hmore
  · rw [hstack]
    exact hrest

/-- Documentation that comes next is what the machine goes on to expect. -/
theorem documented_goOn (h : Simulates m (.choose b :: plan)) (hb : b.isChoice = true) :
    Documented m (Plan.continuation b (.kind m.next.kind) ++ plan) := by
  intro hmem
  rcases List.mem_append.1 hmem with hmem | hmem
  · obtain ⟨rfl, hdoc⟩ := Plan.documented_of_mem hb hmem
    have hnone : m.supplied = none := by
      refine Option.eq_none_iff_forall_not_mem.2 fun t ht => h.supplied t ht ?_
      rw [next, ht] at hdoc
      exact hdoc
    obtain ⟨q, S, full, _, hfollows⟩ := h.follows
    obtain ⟨_, _, ⟨q', S', hexit, _⟩ | ⟨_, rfl, _⟩⟩ := hfollows.choose_inv
    · cases hexit
    · rw [hdoc]
      rw [next, hnone] at hdoc
      exact ⟨hnone, hdoc, .inl (List.append_nil _)⟩
  · exact absurd hmem (h.documented.not_mem (by simp))

theorem step_choose (hsound : Sound m (.choose b :: plan)) (h : Simulates m (.choose b :: plan))
    (hstep : m.choose b plan = .ok (m', plan')) : Simulates m' plan' := by
  obtain ⟨hchoice, hlegal⟩ := hsound.tracks.legal_choose
  have hspec := choose_spec hlegal hchoice hsound.supply plan
  have hbehind := h.documented.not_mem (by simp)
  have hplain {c : Machine} {choice : Choice} (harises : choice.Arises b)
      (hne : choice ≠ .kind .documentationString) :
      Documented c (Plan.continuation b choice ++ plan) := fun hmem =>
    absurd hmem (List.not_mem_append (Plan.docString_not_mem hchoice harises hne) hbehind)
  rw [hstep] at hspec
  cases hspec with
  | admitted _ =>
    exact h.goOn rfl rfl (Choice.arises_kind b _) h.supplied (h.documented_goOn hchoice)
  | removed _ _ => exact h.of_same rfl rfl (by simp [leaveOut]) (by simpa using hbehind)
  | kept _ _ _ _ harises _ hne =>
    exact h.goOn rfl rfl harises (by simp [attempt]) (hplain harises hne)
  | @supplied k _ _ _ hdoc _ =>
    have harises := Choice.arises_kind b k
    exact h.goOn rfl rfl harises (by simpa [provide, Token.supplied] using hdoc)
      (hplain harises (by simpa using hdoc))
  | suppliedAtEnd _ _ =>
    have hdoc := b.expectedKind_ne_documentation
    have harises := Choice.arises_kind b b.expectedKind
    exact h.goOn rfl rfl harises (by simpa [provide, Token.supplied] using hdoc)
      (hplain harises (by simpa using hdoc))

/-! ## The other instructions -/

theorem step_quiet (h : Simulates m (i :: plan)) (hi : isQuiet i = true)
    (hstep : m.step i plan = .ok (m', plan')) : Simulates m' plan' := by
  obtain ⟨hkept, rfl⟩ := unchanged_of_quiet hi hstep
  obtain ⟨q, S, full, hrun, hfollows⟩ := h.follows
  obtain ⟨m₁, hstep', q', S', full', hmore, hrest⟩ := Leads.quiet hfollows hi
  obtain ⟨rfl, _⟩ := Prod.mk.inj (Except.ok.inj (hstep.symm.trans hstep'))
  refine ⟨⟨q', S', full', ?_, hrest⟩, hkept.supplied ▸ h.supplied,
    h.documented.quiet hkept.supplied hkept.reader⟩
  rw [taken_of_quiet hi hstep]
  simpa using hrun.trans hmore

theorem step_decision (h : Simulates m (i :: plan)) (hi : isDecision i = true) :
    Simulates m (m.decision i ++ plan) := by
  obtain ⟨q, S, full, hrun, hfollows⟩ := h.follows
  obtain ⟨q', S', full', hmore, hrest⟩ :=
    Leads.decision hfollows (hrun.legal legal_start) hi m
  refine ⟨⟨q', S', full', by simpa using hrun.trans hmore, hrest⟩, h.supplied, fun hmem => ?_⟩
  have hbegin : i ≠ .begin := by
    rintro rfl
    cases hi
  exact absurd hmem (List.not_mem_append (docString_not_mem_decision m i)
    (h.documented.not_mem hbegin))

/-- At the end of the input nothing more is read. -/
theorem step_drain (h : Simulates m (.drain :: plan)) : Simulates m.drain plan := by
  obtain ⟨q, S, full, hrun, hfollows⟩ := h.follows
  obtain ⟨rfl, hstack, hpass⟩ := hfollows.drain_inv
  refine ⟨⟨.eof, [.compUnit], false, ?_, ?_⟩, by simp [drain], fun hmem => ?_⟩
  · exact (List.append_nil m.taken) ▸ hrun.trans hpass.run
  · rw [(Keeps.drain m).stack, hstack]
    exact .take
  · exact absurd hmem (by decide)

end Simulates

/-- What is left of a plan once the end of the input has been taken. -/
def Spent (plan : Plan) : Prop := plan <:+ [.leave]

/-- Until the end of the input is taken, the automaton can be where the machine is. -/
theorem Reached.simulates (h : Reached tokens limits m plan) : Simulates m plan ∨ Spent plan := by
  -- Taking the end of the input leaves the automaton nowhere to go, so the simulation stops there.
  induction h with
  | start =>
    refine .inl ⟨⟨.compUnit, [], false, .refl .compUnit [], .enter rfl .chooseTop⟩, ?_, ?_⟩
    · intro t ht
      cases ht
    · exact fun hmem => absurd hmem (by decide)
  | @step m m' i plan plan' hreached hstep ih =>
    rcases ih with ih | hspent
    · cases i with
      | expect p => exact .inl (ih.step_expect hreached.sound hstep)
      | choose b => exact .inl (ih.step_choose hreached.sound hstep)
      | take =>
        cases hstep
        obtain ⟨q, S, full, _, hfollows⟩ := ih.follows
        obtain ⟨rfl, _⟩ := hfollows.take_inv
        exact .inr (List.suffix_refl _)
      | drain =>
        cases hstep
        exact .inl ih.step_drain
      | enter | leave | switch | begin | adopt | finish => exact .inl (ih.step_quiet rfl hstep)
      | optionalSuffix | postfixes | operators | otherBranch =>
        cases hstep
        exact .inl (ih.step_decision rfl)
    · rcases List.suffix_cons_iff.1 hspent with heq | hnil
      · cases heq
        obtain ⟨p, T, _, _, rfl⟩ := step_leave_inv hstep
        exact .inr (List.nil_suffix)
      · cases List.suffix_nil.1 hnil

/-- Between two declarations only the program is open. -/
theorem Reached.stack_top (h : Reached tokens limits m (.choose .topLevelNode :: plan)) :
    m.session.stack = [.compUnit] := by
  obtain ⟨q, S, full, _, hfollows⟩ := h.sound.tracks
  obtain ⟨_, _, ⟨q', S', hexit, _⟩ | ⟨_, _, hstack⟩⟩ := hfollows.choose_inv
  · cases hexit
  · exact hstack

end Machine

open Machine in
/-- The stack of the machine simulates the automaton. Wherever a parse takes a token or makes a
choice, and so wherever it asks for a repair, the automaton comes to the same position and the same
stack by reading what was taken so far. The plan of a production that is done leaves the stack as
it found it, and between two declarations only the program is open. -/
theorem stack_simulates_automaton (tokens : List Token) (limits : Limits) :
    (∀ m p plan, Reached tokens limits m (.expect p :: plan) ∨
      Reached tokens limits m (.choose p :: plan) → Run .compUnit [] m.taken p m.session.stack) ∧
    (∀ P, Plan.Production P → ∀ m m' plan, Reached tokens limits m (P ++ plan) →
      Finishes m P m' → Reached tokens limits m' plan ∧ m'.session.stack = m.session.stack) ∧
    ∀ m plan, Reached tokens limits m (.choose .topLevelNode :: plan) →
      m.session.stack = [.compUnit] := by
  refine ⟨fun m p plan h => ?_, fun P hP m m' plan h hrun => ?_, fun m plan h => h.stack_top⟩
  · rcases h with h | h
    · rcases h.simulates with hsimulates | hspent
      · exact hsimulates.run_expect
      · simp [Spent, List.suffix_cons_iff] at hspent
    · rcases h.simulates with hsimulates | hspent
      · exact hsimulates.run_choose
      · simp [Spent, List.suffix_cons_iff] at hspent
  · exact ⟨h.of_append hrun, hrun.stack_eq hP.height⟩

open Machine in
/-- A declaration that breaks off after its first word asks for a repair where its name is missing:
there the automaton has read that word. The parse of the whole program leaves nothing open. -/
theorem broken_declaration_simulates :
    (∃ m plan, Reached [.plain .constKeyword "const" 1, .eof 1] .standard m
        (.expect .constName :: plan) ∧ m.refuses (.expect .constName) = true ∧
        Run .compUnit [] m.taken .constName m.session.stack) ∧
    ∃ m, Finishes (.start [.plain .constKeyword "const" 1, .eof 1] .standard) program m ∧
      m.session.stack = [] := by
  obtain ⟨hcalls, hproductions, _⟩ :=
    stack_simulates_automaton [.plain .constKeyword "const" 1, .eof 1] .standard
  constructor
  · have hreached : ∃ m plan, Reached [.plain .constKeyword "const" 1, .eof 1] .standard m
        (.expect .constName :: plan) ∧ m.refuses (.expect .constName) = true :=
      ⟨_, _, .step (.step (.step (.step (.step (.step (.step .start rfl) rfl) rfl) rfl) rfl) rfl)
        rfl, rfl⟩
    obtain ⟨m, plan, hreached, hrefuses⟩ := hreached
    exact ⟨m, plan, hreached, hrefuses, hcalls _ _ _ (.inl hreached)⟩
  · obtain ⟨tree, htree, -⟩ := Tree.exists_ofTokens_const
    obtain ⟨m, hrun, _⟩ := finishes_of_tree htree
    exact ⟨m, hrun, (hproductions program (.listed (by decide)) _ m [] .start hrun).2⟩

end Mend
