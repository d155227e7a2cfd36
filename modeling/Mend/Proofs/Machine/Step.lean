import Mend.Parse
import Mend.Proofs.Machine.Repair
import Mend.Proofs.Plan.Ways

/-!
# Steps of a sound machine

A machine is sound when the plan that remains follows the automaton from some legal state. Every
step keeps that: an instruction that takes a token moves the automaton over it, a choice goes on
with one of the automaton's ways, and a repair never changes where the machine stands in the
grammar. So the tables are only ever asked about legal states, and a step fails only when repair
gives up.
-/

namespace Mend

namespace Machine

variable {m m' : Machine} {plan plan' : Plan} {p b : Position}

/-! ## Instructions that need no token -/

/-- The machine on another stack. -/
def onStack (m : Machine) (T : Stack) : Machine :=
  { m with session := { m.session with stack := T } }

theorem step_leave {T : Stack} (h : m.session.stack = p :: T) :
    m.step .leave plan = .ok (m.onStack T, plan) := by
  simp [step, h, Stack.leave, bind, Except.bind, pure, Except.pure, onStack]

theorem step_switch {p' : Position} {T : Stack} (h : m.session.stack = p' :: T) :
    m.step (.switch p) plan = .ok (m.onStack (p :: T), plan) := by
  simp [step, h, Stack.switch, Stack.leave, Except.map, bind, Except.bind, pure, Except.pure,
    onStack]

theorem step_leave_inv (h : m.step .leave plan = .ok (m', plan')) :
    ∃ p T, m.session.stack = p :: T ∧ m' = m.onStack T ∧ plan' = plan := by
  cases hstack : m.session.stack with
  | nil => simp [step, hstack, Stack.leave, bind, Except.bind] at h
  | cons p T =>
    rw [step_leave hstack] at h
    cases h
    exact ⟨p, T, rfl, rfl, rfl⟩

theorem step_switch_inv (h : m.step (.switch p) plan = .ok (m', plan')) :
    ∃ p' T, m.session.stack = p' :: T ∧ m' = m.onStack (p :: T) ∧ plan' = plan := by
  cases hstack : m.session.stack with
  | nil => simp [step, hstack, Stack.switch, Stack.leave, Except.map, bind, Except.bind] at h
  | cons p' T =>
    rw [step_switch hstack] at h
    cases h
    exact ⟨p', T, rfl, rfl, rfl⟩

/-- Whether an instruction only changes the stack or the tree. -/
def isQuiet : Instruction → Bool
  | .enter _ | .leave | .switch _ | .begin | .adopt | .finish _ => true
  | _ => false

/-- What a quiet instruction keeps. -/
structure Unchanged (m m₁ : Machine) : Prop where
  reader : m₁.session.reader = m.session.reader
  supply : m₁.session.supply = m.session.supply
  supplied : m₁.supplied = m.supplied
  leftOut : m₁.leftOut = m.leftOut

theorem Unchanged.next {m m₁ : Machine} (h : Unchanged m m₁) : m₁.next = m.next := by
  rw [Machine.next, Machine.next, h.supplied, h.reader]

theorem unchanged_of_quiet {i : Instruction} (hi : isQuiet i = true)
    (hstep : m.step i plan = .ok (m', plan')) : Unchanged m m' ∧ plan' = plan := by
  cases i with
  | leave =>
    obtain ⟨p, T, _, rfl, rfl⟩ := step_leave_inv hstep
    exact ⟨⟨rfl, rfl, rfl, rfl⟩, rfl⟩
  | switch p =>
    obtain ⟨p', T, _, rfl, rfl⟩ := step_switch_inv hstep
    exact ⟨⟨rfl, rfl, rfl, rfl⟩, rfl⟩
  | enter | begin | adopt | finish =>
    cases hstep
    exact ⟨⟨rfl, rfl, rfl, rfl⟩, rfl⟩
  | _ => cases hi

/-- Whether an instruction only decides how to go on. -/
def isDecision : Instruction → Bool
  | .optionalSuffix | .postfixes | .operators _ | .otherBranch => true
  | _ => false

/-- How a machine decides to go on. -/
def decision (m : Machine) : Instruction → Plan
  | .optionalSuffix => m.optionalSuffix
  | .postfixes => m.postfixes
  | .operators tightness => m.operators tightness
  | .otherBranch => m.otherBranch
  | _ => []

theorem step_decision {i : Instruction} (hi : isDecision i = true) (m : Machine) (plan : Plan) :
    m.step i plan = .ok (m, m.decision i ++ plan) := by
  cases i <;> first | rfl | cases hi

/-! ## Taking a token and making a choice -/

/-- The outcomes of one try to take a token at a legal state. -/
inductive Expected (m : Machine) (p : Position) (plan : Plan) :
    Except Breakdown (Machine × Plan) → Prop
  | accepted (haccepts : p.accepts m.next = true) : Expected m p plan (.ok (m.take, plan))
  | exhausted (index count : Nat) : Expected m p plan (.error (.exhausted p index count))
  | removed (hrejects : p.accepts m.next = false) (hnext : m.session.reader.peek.kind ≠ .eof) :
      Expected m p plan (.ok (m.leaveOut, .expect p :: plan))
  | kept (hrejects : p.accepts m.next = false) (hnext : m.session.reader.peek.kind ≠ .eof)
      (haccepts : p.accepts m.session.reader.peek = true)
      (hcount : m.attempt.session.attemptCount < Session.patience m.session.limits) :
      Expected m p plan (.ok (m.attempt.take, plan))
  | supplied {k : Kind} (hrejects : p.accepts m.next = false)
      (hnext : m.session.reader.peek.kind ≠ .eof) (hwants : p.wants k = true)
      (hcount : m.attempt.session.attemptCount < Session.patience m.session.limits) :
      Expected m p plan (.ok ((m.attempt.provide k).take, plan))
  | suppliedAtEnd (hrejects : p.accepts m.next = false)
      (hnext : m.session.reader.peek.kind = .eof) :
      Expected m p plan (.ok ((m.provide p.expectedKind).take, plan))

theorem expect_spec (hlegal : Legal p m.session.stack) (htakes : p.takesToken = true)
    (hsupply : m.session.supply = Token.missingOf) (plan : Plan) :
    Expected m p plan (m.expect p plan) := by
  unfold expect
  by_cases haccepts : p.accepts m.next = true
  · rw [if_pos haccepts]
    exact .accepted haccepts
  · rw [if_neg haccepts]
    have hrejects := Bool.eq_false_iff.2 haccepts
    have hrepair := repair_spec hlegal (by rw [htakes, Bool.true_or]) hsupply
    generalize m.repair p = result at hrepair
    cases hrepair with
    | exhausted index count => exact .exhausted index count
    | removed haction hnext =>
      simp only [bind, Except.bind, if_pos haction]
      exact .removed hrejects hnext
    | kept haction hnext _ hread hcount =>
      simp only [bind, Except.bind, haction, reduceCtorEq, if_false]
      exact .kept hrejects hnext (Position.accepts_of_canRead htakes hread) hcount
    | supplied haction hnext hsupply hcount =>
      simp only [bind, Except.bind, haction, reduceCtorEq, if_false]
      exact .supplied hrejects hnext (Position.wants_of_canSupply htakes hsupply) hcount
    | suppliedAtEnd haction hnext hkind =>
      simp only [bind, Except.bind, haction, reduceCtorEq, if_false, hkind]
      exact .suppliedAtEnd hrejects hnext

/-- The outcomes of one try to resolve a branch point at a legal state. -/
inductive Chosen (m : Machine) (b : Position) (plan : Plan) :
    Except Breakdown (Machine × Plan) → Prop
  | admitted (hadmits : b.admits m.next.kind = true) :
      Chosen m b plan (.ok (m, Plan.continuation b (.kind m.next.kind) ++ plan))
  | exhausted (index count : Nat) : Chosen m b plan (.error (.exhausted b index count))
  | removed (hrejects : b.admits m.next.kind = false)
      (hnext : m.session.reader.peek.kind ≠ .eof) :
      Chosen m b plan (.ok (m.leaveOut, .choose b :: plan))
  | kept {choice : Choice} (hrejects : b.admits m.next.kind = false)
      (hnext : m.session.reader.peek.kind ≠ .eof)
      (hdoc : m.session.reader.peek.kind ≠ .documentationString)
      (hread : CanRead b m.session.stack m.session.reader.peek) (harises : choice.Arises b)
      (hcount : m.attempt.session.attemptCount < Session.patience m.session.limits)
      (hplain : choice ≠ .kind .documentationString) :
      Chosen m b plan (.ok (m.attempt, Plan.continuation b choice ++ plan))
  | supplied {k : Kind} (hrejects : b.admits m.next.kind = false)
      (hnext : m.session.reader.peek.kind ≠ .eof) (hadmits : b.admits k = true)
      (hdoc : k ≠ .documentationString)
      (hcount : m.attempt.session.attemptCount < Session.patience m.session.limits) :
      Chosen m b plan (.ok (m.attempt.provide k, Plan.continuation b (.kind k) ++ plan))
  | suppliedAtEnd (hrejects : b.admits m.next.kind = false)
      (hnext : m.session.reader.peek.kind = .eof) :
      Chosen m b plan
        (.ok (m.provide b.expectedKind, Plan.continuation b (.kind b.expectedKind) ++ plan))

theorem arises_steer (m : Machine) (b target : Position) : (m.steer b target).Arises b := by
  unfold steer
  split
  · rename_i hcontains
    split
    · trivial
    · exact List.contains_iff_mem.1 hcontains
  · trivial

/-- Documentation is never steered to. -/
theorem steer_ne_documentation (m : Machine) (h : m.next.kind ≠ .documentationString)
    (b target : Position) :
    m.steer b target ≠ .kind .documentationString := by
  unfold steer
  split
  · split
    · exact fun heq => target.expectedKind_ne_documentation (Choice.kind.inj heq)
    · exact nofun
  · exact fun heq => h (Choice.kind.inj heq)

theorem choose_spec (hlegal : Legal b m.session.stack) (hchoice : b.isChoice = true)
    (hsupply : m.session.supply = Token.missingOf) (plan : Plan) :
    Chosen m b plan (m.choose b plan) := by
  unfold choose
  by_cases hadmits : b.admits m.next.kind = true
  · rw [if_pos hadmits]
    exact .admitted hadmits
  · rw [if_neg hadmits]
    have hrejects := Bool.eq_false_iff.2 hadmits
    have hrepair := repair_spec hlegal (by rw [hchoice, Bool.or_true]) hsupply
    generalize m.repair b = result at hrepair
    cases hrepair with
    | exhausted index count => exact .exhausted index count
    | removed haction hnext =>
      simp only [bind, Except.bind, choiceOf, haction]
      exact .removed hrejects hnext
    | kept haction hnext hdoc hread hcount =>
      simp only [bind, Except.bind, choiceOf, haction]
      exact .kept hrejects hnext hdoc hread (arises_steer ..) hcount
        (m.attempt.steer_ne_documentation hdoc b _)
    | supplied haction hnext hsupply hcount =>
      simp only [bind, Except.bind, choiceOf, haction]
      exact .supplied hrejects hnext (Position.admits_of_canSupply hchoice hsupply)
        (Position.kind_ne_documentation_of_canSupply hsupply) hcount
    | suppliedAtEnd haction hnext hkind =>
      simp only [bind, Except.bind, choiceOf, haction, hkind]
      exact .suppliedAtEnd hrejects hnext

/-! ## Soundness -/

/-- Without reading, the automaton goes from a state to where a plan follows it. -/
def Leads (plan : Plan) (T : Stack) (q : Position) (S : Stack) : Prop :=
  ∃ q' S' full, Run q S [] q' S' ∧ Follows plan T q' S' full

namespace Leads

variable {q q' way : Position} {S S' T : Stack} {full : Bool}

theorem of_passes (hpass : Passes q S q' S') (h : Follows plan T q' S' full) : Leads plan T q S :=
  ⟨q', S', full, hpass.run, h⟩

/-- A way on from where the automaton has come to, with a plan that follows it. -/
theorem of_way (hpass : Passes q S b T) (hway : way ∈ b.ways) (h : Follows plan T way T false) :
    Leads plan T q S :=
  ⟨way, T, false, hpass.run.trans (.branch hway (.refl way T)), h⟩

theorem choose {choice : Choice} (h : Follows (.choose b :: plan) T q S full)
    (hlegal : Legal q S) (harises : choice.Arises b) :
    Leads (Plan.continuation b choice ++ plan) T q S := by
  obtain ⟨hchoice, hpass, _⟩ := h.choose_inv
  obtain ⟨way, hway, heq⟩ := Plan.continuation_eq_via hchoice harises
  rw [heq]
  exact .of_way hpass hway (h.choose_way (hpass.legal hlegal) hway)

theorem optionalSuffix (h : Follows (.optionalSuffix :: plan) T q S full) (m : Machine) :
    Leads (m.optionalSuffix ++ plan) T q S := by
  obtain ⟨hpass, hrest⟩ := h.optionalSuffix_inv
  unfold Machine.optionalSuffix
  split
  · exact .of_way hpass (by decide) hrest.optionalType
  · exact .of_way hpass (by decide) hrest

theorem postfixes (h : Follows (.postfixes :: plan) T q S full) (hlegal : Legal q S)
    (m : Machine) : Leads (m.postfixes ++ plan) T q S := by
  obtain ⟨hpass, hrest⟩ := h.postfixes_inv
  unfold Machine.postfixes
  split
  · exact .of_way hpass (by decide) hrest.fieldAccess
  · exact .of_way hpass (by decide) (.callExpr (hpass.legal hlegal).afterArguments hrest)
  · exact .of_passes hpass hrest

theorem operators {tightness : Nat} (h : Follows (.operators tightness :: plan) T q S full)
    (m : Machine) : Leads (m.operators tightness ++ plan) T q S := by
  obtain ⟨rfl, hpass, hhere, hrest⟩ := h.operators_inv
  have hdone : Leads plan T q S := by
    rcases hrest with ⟨_, hend⟩ | htighter
    · exact .of_way hpass (by decide) hend
    · exact .of_passes hpass htighter
  unfold Machine.operators
  split
  · exact hdone
  · split
    · exact hdone
    · exact .of_way hpass (by decide) hhere.binaryExpr

theorem otherBranch (h : Follows (.otherBranch :: plan) T q S full) (m : Machine) :
    Leads (m.otherBranch ++ plan) T q S := by
  obtain ⟨hpass, P', T', q', S', rfl, rfl, hexit, hrest⟩ := h.otherBranch_inv
  unfold Machine.otherBranch
  split
  · exact .of_way hpass (by decide) (.elseClause hexit hrest)
  · exact .of_way hpass (by decide) (.ifEnd hexit hrest)

/-- However a machine decides to go on, the automaton can. -/
theorem decision {i : Instruction} (h : Follows (i :: plan) T q S full) (hlegal : Legal q S)
    (hi : isDecision i = true) (m : Machine) : Leads (m.decision i ++ plan) T q S := by
  cases i with
  | optionalSuffix => exact .optionalSuffix h m
  | postfixes => exact .postfixes h hlegal m
  | operators tightness => exact .operators h m
  | otherBranch => exact .otherBranch h m
  | _ => cases hi

end Leads

/-- A quiet instruction is done where the automaton passes on its own. -/
theorem passes_of_quiet {i : Instruction} {q : Position} {S : Stack} {full : Bool}
    (h : Follows (i :: plan) m.session.stack q S full) (hi : isQuiet i = true) :
    ∃ m₁ q' S' full', m.step i plan = .ok (m₁, plan) ∧ Passes q S q' S' ∧
      Follows plan m₁.session.stack q' S' full' ∧ (full' = true → full = true) := by
  cases i with
  | enter p =>
    obtain ⟨q', S', hpass, hrest⟩ := h.enter_inv
    exact ⟨_, q', S', false, rfl, hpass, hrest, nofun⟩
  | leave =>
    obtain ⟨p', T', q', S', hT, hpass, hrest⟩ := h.leave_inv
    exact ⟨_, q', S', false, step_leave hT, hpass, hrest, nofun⟩
  | switch p =>
    obtain ⟨p', T', q', S', hT, hpass, hrest⟩ := h.switch_inv
    exact ⟨_, q', S', false, step_switch hT, hpass, hrest, nofun⟩
  | begin | adopt | finish =>
    obtain ⟨q', S', hpass, hrest⟩ := h.build_inv rfl
    exact ⟨_, q', S', full, rfl, hpass, hrest, id⟩
  | _ => cases hi

theorem Leads.quiet {i : Instruction} {q : Position} {S : Stack} {full : Bool}
    (h : Follows (i :: plan) m.session.stack q S full) (hi : isQuiet i = true) :
    ∃ m₁, m.step i plan = .ok (m₁, plan) ∧ Leads plan m₁.session.stack q S := by
  obtain ⟨m₁, q', S', full', hstep, hpass, hrest, _⟩ := passes_of_quiet h hi
  exact ⟨m₁, hstep, .of_passes hpass hrest⟩

/-- A plan that follows the automaton from some legal state. -/
def Tracks (plan : Plan) (T : Stack) : Prop :=
  ∃ q S full, Legal q S ∧ Follows plan T q S full

theorem Leads.tracks {q : Position} {S T : Stack} (h : Leads plan T q S) (hlegal : Legal q S) :
    Tracks plan T := by
  obtain ⟨q', S', full, hrun, hfollows⟩ := h
  exact ⟨q', S', full, hrun.legal hlegal, hfollows⟩

namespace Tracks

variable {T : Stack}

theorem expect (h : Tracks (.expect p :: plan) T) :
    p.takesToken = true ∧ p ≠ .eof ∧ Legal p T ∧ Tracks plan T := by
  obtain ⟨q, S, full, hlegal, hfollows⟩ := h
  obtain ⟨htakes, hend, hpass, q', S', hmove, hrest⟩ := hfollows.expect_inv
  have hp := hpass.legal hlegal
  exact ⟨htakes, hend, hp, q', S', false,
    hp.reach (Position.isBranch_of_takesToken htakes) hmove, hrest⟩

theorem choose {choice : Choice} (h : Tracks (.choose b :: plan) T) (harises : choice.Arises b) :
    Tracks (Plan.continuation b choice ++ plan) T := by
  obtain ⟨q, S, full, hlegal, hfollows⟩ := h
  exact (Leads.choose hfollows hlegal harises).tracks hlegal

theorem legal_choose (h : Tracks (.choose b :: plan) T) : b.isChoice = true ∧ Legal b T := by
  obtain ⟨q, S, full, hlegal, hfollows⟩ := h
  obtain ⟨hchoice, hpass, _⟩ := hfollows.choose_inv
  exact ⟨hchoice, hpass.legal hlegal⟩

end Tracks

/-- A machine whose plan follows the automaton. -/
structure Sound (m : Machine) (plan : Plan) : Prop where
  tracks : Tracks plan m.session.stack
  supply : m.session.supply = Token.missingOf
  last : m.session.reader.last.kind = .eof

/-! ## Every step keeps a machine sound -/

/-- What no token and no repair changes: the stack, what is supplied, the limits, and the end of
the input. -/
structure Keeps (m m' : Machine) : Prop where
  stack : m'.session.stack = m.session.stack
  supply : m'.session.supply = m.session.supply
  limits : m'.session.limits = m.session.limits
  last : m'.session.reader.last = m.session.reader.last

namespace Keeps

theorem refl (m : Machine) : Keeps m m := ⟨rfl, rfl, rfl, rfl⟩

theorem trans {m₁ m₂ m₃ : Machine} (h : Keeps m₁ m₂) (h' : Keeps m₂ m₃) : Keeps m₁ m₃ :=
  ⟨h'.stack.trans h.stack, h'.supply.trans h.supply, h'.limits.trans h.limits,
    h'.last.trans h.last⟩

theorem last_read (r : Reader) : r.read.2.last = r.last := by
  unfold Reader.read
  split <;> rfl

theorem take (m : Machine) : Keeps m m.take := by
  unfold Machine.take
  split
  · exact ⟨rfl, rfl, rfl, rfl⟩
  · exact ⟨rfl, rfl, rfl, last_read _⟩

theorem attempt (m : Machine) : Keeps m m.attempt := ⟨rfl, rfl, rfl, rfl⟩

theorem leaveOut (m : Machine) : Keeps m m.leaveOut := ⟨rfl, rfl, rfl, last_read _⟩

theorem provide (m : Machine) (k : Kind) : Keeps m (m.provide k) := ⟨rfl, rfl, rfl, rfl⟩

theorem drain (m : Machine) : Keeps m m.drain := ⟨rfl, rfl, rfl, rfl⟩

end Keeps

namespace Sound

theorem of_keeps (h : Sound m plan) (hkeeps : Keeps m m')
    (htracks : Tracks plan' m.session.stack) : Sound m' plan' where
  tracks := hkeeps.stack ▸ htracks
  supply := hkeeps.supply.trans h.supply
  last := hkeeps.last ▸ h.last

/-- A step is sound if it leaves a sound machine or fails because repair gives up. -/
def Steps (result : Except Breakdown (Machine × Plan)) : Prop :=
  (∃ p index count, result = .error (.exhausted p index count)) ∨
    ∃ m' plan', result = .ok (m', plan') ∧ Sound m' plan'

theorem steps_expect (h : Sound m (.expect p :: plan)) : Steps (m.expect p plan) := by
  obtain ⟨htakes, _, hlegal, hrest⟩ := h.tracks.expect
  have hspec := expect_spec hlegal htakes h.supply plan
  generalize m.expect p plan = result at hspec
  cases hspec with
  | accepted _ => exact .inr ⟨_, _, rfl, h.of_keeps (.take m) hrest⟩
  | exhausted index count => exact .inl ⟨_, _, _, rfl⟩
  | removed _ _ => exact .inr ⟨_, _, rfl, h.of_keeps (.leaveOut m) h.tracks⟩
  | kept _ _ _ _ =>
    exact .inr ⟨_, _, rfl, h.of_keeps ((Keeps.attempt m).trans (.take _)) hrest⟩
  | supplied _ _ _ _ =>
    exact .inr ⟨_, _, rfl,
      h.of_keeps (((Keeps.attempt m).trans (.provide _ _)).trans (.take _)) hrest⟩
  | suppliedAtEnd _ _ =>
    exact .inr ⟨_, _, rfl, h.of_keeps ((Keeps.provide m _).trans (.take _)) hrest⟩

theorem steps_choose (h : Sound m (.choose b :: plan)) : Steps (m.choose b plan) := by
  obtain ⟨hchoice, hlegal⟩ := h.tracks.legal_choose
  have hspec := choose_spec hlegal hchoice h.supply plan
  generalize m.choose b plan = result at hspec
  cases hspec with
  | admitted _ => exact .inr ⟨_, _, rfl, h.of_keeps (.refl m) (h.tracks.choose trivial)⟩
  | exhausted index count => exact .inl ⟨_, _, _, rfl⟩
  | removed _ _ => exact .inr ⟨_, _, rfl, h.of_keeps (.leaveOut m) h.tracks⟩
  | kept _ _ _ _ harises _ =>
    exact .inr ⟨_, _, rfl, h.of_keeps (.attempt m) (h.tracks.choose harises)⟩
  | supplied _ _ _ _ _ =>
    exact .inr ⟨_, _, rfl,
      h.of_keeps ((Keeps.attempt m).trans (.provide _ _)) (h.tracks.choose trivial)⟩
  | suppliedAtEnd _ _ =>
    exact .inr ⟨_, _, rfl, h.of_keeps (.provide m _) (h.tracks.choose trivial)⟩

/-- A quiet instruction keeps a machine sound. -/
theorem steps_quiet {i : Instruction} (h : Sound m (i :: plan)) (hi : isQuiet i = true) :
    Steps (m.step i plan) := by
  obtain ⟨q, S, full, hlegal, hfollows⟩ := h.tracks
  obtain ⟨m₁, hstep, hleads⟩ := Leads.quiet hfollows hi
  have hkept := (unchanged_of_quiet hi hstep).1
  exact .inr ⟨m₁, plan, hstep, hleads.tracks hlegal, hkept.supply.trans h.supply,
    hkept.reader ▸ h.last⟩

/-- A decision keeps a machine sound. -/
theorem steps_decision {i : Instruction} (h : Sound m (i :: plan)) (hi : isDecision i = true) :
    Steps (m.step i plan) := by
  obtain ⟨q, S, full, hlegal, hfollows⟩ := h.tracks
  exact .inr ⟨m, _, step_decision hi m plan,
    h.of_keeps (.refl m) ((Leads.decision hfollows hlegal hi m).tracks hlegal)⟩

/-- Every step of a sound machine is sound. -/
theorem steps {i : Instruction} (h : Sound m (i :: plan)) : Steps (m.step i plan) := by
  obtain ⟨q, S, full, hlegal, hfollows⟩ := h.tracks
  cases i with
  | expect p => exact h.steps_expect
  | choose b => exact h.steps_choose
  | take =>
    obtain ⟨rfl, hT, hpass⟩ := hfollows.take_inv
    have hend := hpass.legal hlegal
    exact .inr ⟨_, _, rfl, h.of_keeps (.take m) (hT ▸ ⟨_, _, _, hend, .close⟩)⟩
  | drain =>
    obtain ⟨rfl, hT, hpass⟩ := hfollows.drain_inv
    have hend := hpass.legal hlegal
    exact .inr ⟨_, _, rfl, h.of_keeps (.drain m) (hT ▸ ⟨_, _, _, hend, .take⟩)⟩
  | enter | leave | switch | begin | adopt | finish => exact h.steps_quiet rfl
  | optionalSuffix | postfixes | operators | otherBranch => exact h.steps_decision rfl

theorem step {i : Instruction} (h : Sound m (i :: plan))
    (hstep : m.step i plan = .ok (m', plan')) : Sound m' plan' := by
  rcases h.steps with ⟨p, index, count, hfailed⟩ | ⟨m₁, plan₁, hok, hsound⟩
  · rw [hfailed] at hstep
    cases hstep
  · rw [hok] at hstep
    cases hstep
    exact hsound

end Sound

/-- A machine at the start of some tokens is sound. -/
theorem sound_start (tokens : List Token) (limits : Limits) :
    Sound (.start tokens limits) program where
  tracks := ⟨.compUnit, [], false, legal_start, .enter rfl .chooseTop⟩
  supply := rfl
  last := by
    change (Reader.ofTokens tokens).last.kind = .eof
    unfold Reader.ofTokens
    split
    · rfl
    · split
      · assumption
      · rfl

/-! ## Runs that end -/

/-- From a machine and a plan a run does the whole plan and ends with a machine. -/
inductive Finishes : Machine → Plan → Machine → Prop
  | done (m : Machine) : Finishes m [] m
  | step {m m₁ m' : Machine} {i : Instruction} {plan plan₁ : Plan}
      (hstep : m.step i plan = .ok (m₁, plan₁)) (h : Finishes m₁ plan₁ m') :
      Finishes m (i :: plan) m'

theorem Finishes.of_run {fuel : Nat} (h : run fuel m plan = .done m') : Finishes m plan m' := by
  induction fuel generalizing m plan with
  | zero =>
    cases plan with
    | nil =>
      cases h
      exact .done _
    | cons i plan => cases h
  | succ fuel ih =>
    cases plan with
    | nil =>
      cases h
      exact .done _
    | cons i plan =>
      rw [run] at h
      split at h
      · cases h
      · rename_i hstep
        exact .step hstep (ih h)

/-- The tree of some tokens is that of the machine with which the run on them ends. -/
theorem finishes_of_tree {tokens : List Token} {limits : Limits} {tree : Tree}
    (h : Tree.ofTokens tokens limits = .ok tree) :
    ∃ m, Finishes (.start tokens limits) program m ∧ m.tree = tree := by
  unfold Tree.ofTokens at h
  split at h
  · rename_i m hrun
    cases h
    exact ⟨m, .of_run hrun, rfl⟩
  · cases h
  · cases h

/-! ## Machines that are reached -/

/-- A machine and the plan that remains, at some moment of the parse of some tokens. -/
inductive Reached (tokens : List Token) (limits : Limits) : Machine → Plan → Prop
  | start : Reached tokens limits (.start tokens limits) program
  | step {m m' : Machine} {i : Instruction} {plan plan' : Plan}
      (h : Reached tokens limits m (i :: plan)) (hstep : m.step i plan = .ok (m', plan')) :
      Reached tokens limits m' plan'

namespace Reached

variable {tokens : List Token} {limits : Limits}

theorem sound (h : Reached tokens limits m plan) : Sound m plan := by
  induction h with
  | start => exact sound_start tokens limits
  | step _ hstep ih => exact ih.step hstep

/-- A run that comes to its end does so through machines that are reached. -/
theorem of_finishes (h : Reached tokens limits m plan) (hrun : Finishes m plan m') :
    Reached tokens limits m' [] := by
  induction hrun with
  | done => exact h
  | step hstep _ ih => exact ih (h.step hstep)

end Reached

end Machine

end Mend
