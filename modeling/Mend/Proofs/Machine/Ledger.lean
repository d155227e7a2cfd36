import Mathlib.Data.List.TakeWhile
import Mend.Proofs.Machine.Step
import Mend.Proofs.Plan.Ending
import Mend.Proofs.Token.Scan

/-!
# The ledger of a machine

Where every token of the input is at any moment of a parse: in the tree so far, by itself or riding
on the token it was left out before; left out and still waiting for a token to ride on; or ahead of
the reader. The ledger lists them in this order. No instruction changes it, and no repair does,
until the end of the input is taken as the last token of the tree.

The nodes that are open are counted by the plan: it completes as many as it starts, so that the
tree at its end is whole.
-/

namespace Mend

namespace Token

/-- A token without what repair has put on it. -/
def bare (t : Token) : Token := { t with invalidLeading := [], diagnostics := [] }

/-- The tokens of the input that a token of a tree stands for: those left out before it, and itself
unless it was supplied. -/
def source (t : Token) : List Token :=
  (t.invalidLeading ++ if t.missing then [] else [t]).map bare

theorem IsPlain.bare_eq {t : Token} (h : t.IsPlain) : t.bare = t := by
  obtain ⟨kind, text, line, missing, leading, diagnostics⟩ := t
  obtain ⟨rfl, rfl, rfl⟩ := h
  rfl

theorem IsPlain.source_precededBy {t : Token} (h : t.IsPlain) (leftOut : List Token) :
    (t.precededBy leftOut).source = leftOut.map bare ++ [t] := by
  obtain ⟨kind, text, line, missing, leading, diagnostics⟩ := t
  obtain ⟨rfl, rfl, rfl⟩ := h
  simp [source, precededBy, bare]

theorem IsPlain.source_eq {t : Token} (h : t.IsPlain) : t.source = [t] := by
  rw [source, h.leading, h.present]
  exact congrArg ([·]) h.bare_eq

end Token

/-- The tokens of the input that a tree stands for. -/
def Tree.source (tree : Tree) : List Token := tree.tokens.flatMap Token.source

namespace Machine

variable {m m' : Machine} {plan plan' : Plan} {i : Instruction}

/-! ## The tokens taken so far -/

/-- The tokens of the tree so far. -/
def taken (m : Machine) : List Token := Tree.tokensOf (m.children :: m.outer).flatten.reverse

theorem children_take (m : Machine) :
    m.take.children = .token (m.next.precededBy m.leftOut) :: m.children := by
  obtain ⟨session, leftOut, supplied, children, outer⟩ := m
  cases supplied with
  | some t => rfl
  | none => simp [take, next, Reader.read_fst]

theorem outer_take (m : Machine) : m.take.outer = m.outer := by
  unfold take
  split <;> rfl

theorem taken_take (m : Machine) :
    m.take.taken = m.taken ++ [m.next.precededBy m.leftOut] := by
  simp [taken, children_take, outer_take, Tree.tokensOf_append, Tree.tokensOf, Tree.tokens]

theorem taken_adopt (m : Machine) : m.adopt.taken = m.taken := by
  simp only [adopt, taken, List.flatten_cons, ← List.append_assoc, List.take_append_drop]

theorem taken_finish (m : Machine) (kind : NodeKind) : (m.finish kind).taken = m.taken := by
  obtain ⟨session, leftOut, supplied, children, outer⟩ := m
  cases outer with
  | nil => simp [finish, taken, Tree.tokensOf, Tree.tokens]
  | cons around outer =>
    simp [finish, taken, Tree.tokensOf_append, Tree.tokensOf, Tree.tokens]

theorem taken_of_quiet (hi : isQuiet i = true) (hstep : m.step i plan = .ok (m', plan')) :
    m'.taken = m.taken := by
  cases i with
  | leave =>
    obtain ⟨p, T, _, rfl, _⟩ := step_leave_inv hstep
    rfl
  | switch p =>
    obtain ⟨p', T, _, rfl, _⟩ := step_switch_inv hstep
    rfl
  | enter p =>
    cases hstep
    rfl
  | begin =>
    cases hstep
    rfl
  | adopt =>
    cases hstep
    exact taken_adopt m
  | finish kind =>
    cases hstep
    exact taken_finish m kind
  | _ => cases hi

/-! ## The ledger -/

/-- The tokens of the input before the end, wherever they are. -/
def ledger (m : Machine) : List Token :=
  m.taken.flatMap Token.source ++ m.leftOut.map Token.bare ++ m.session.reader.ahead

/-- What holds of a machine up to the end of the input: the ledger lists what stands before the end,
the reader has plain tokens ahead, and a supplied token stands for nothing. -/
structure Holds (body : List Token) (last : Token) (m : Machine) : Prop where
  ledger : m.ledger = body
  ahead : ∀ t ∈ m.session.reader.ahead, t.IsPlain ∧ t.kind ≠ .eof
  last_eq : m.session.reader.last = last
  last_kind : last.kind = .eof
  supplied : ∀ t ∈ m.supplied, t.missing = true ∧ t.invalidLeading = []

namespace Holds

variable {body : List Token} {last : Token}

/-- What changes neither where the tokens are nor what is supplied keeps the ledger. -/
theorem of_eq (h : Holds body last m) (hreader : m'.session.reader = m.session.reader)
    (hsupplied : m'.supplied = m.supplied) (htaken : m'.taken = m.taken)
    (hleftOut : m'.leftOut = m.leftOut) : Holds body last m' where
  ledger := by rw [← h.ledger, Machine.ledger, Machine.ledger, hreader, htaken, hleftOut]
  ahead := hreader ▸ h.ahead
  last_eq := hreader ▸ h.last_eq
  last_kind := h.last_kind
  supplied := hsupplied ▸ h.supplied

theorem attempt (h : Holds body last m) : Holds body last m.attempt :=
  ⟨h.ledger, h.ahead, h.last_eq, h.last_kind, fun _ ht => nomatch ht⟩

theorem provide (h : Holds body last m) (k : Kind) : Holds body last (m.provide k) := by
  refine ⟨h.ledger, h.ahead, h.last_eq, h.last_kind, ?_⟩
  rintro t ⟨⟩
  exact ⟨rfl, rfl⟩

/-- The next token of the input stands first ahead, unless it is the end. -/
theorem ahead_eq (h : Holds body last m) (hnext : m.session.reader.peek.kind ≠ .eof) :
    m.session.reader.peek.IsPlain ∧
      m.session.reader.ahead = m.session.reader.peek :: m.session.reader.read.2.ahead := by
  cases hahead : m.session.reader.ahead with
  | nil =>
    have hpeek : m.session.reader.peek = last := by
      rw [← h.last_eq]
      simp [Reader.peek, Reader.peekN, hahead]
    exact absurd (hpeek ▸ h.last_kind) hnext
  | cons t rest =>
    have hpeek : m.session.reader.peek = t := by simp [Reader.peek, Reader.peekN, hahead]
    have ht := h.ahead t (by rw [hahead]; exact List.mem_cons_self)
    exact ⟨hpeek ▸ ht.1, by simp [Reader.read, hahead, hpeek]⟩

theorem leaveOut (h : Holds body last m) (hnext : m.session.reader.peek.kind ≠ .eof) :
    Holds body last m.leaveOut := by
  obtain ⟨hplain, hahead⟩ := h.ahead_eq hnext
  refine ⟨?_, fun t ht => ?_, ?_, h.last_kind, fun t ht => nomatch ht⟩
  · have hbare : (reject m.session.reader.peek).bare = m.session.reader.peek := hplain.bare_eq
    rw [← h.ledger, Machine.ledger, Machine.ledger, hahead]
    simp [Machine.leaveOut, taken, hbare]
  · exact h.ahead t (by rw [hahead]; exact List.mem_cons_of_mem _ ht)
  · exact (Keeps.leaveOut m).last.trans h.last_eq

theorem take (h : Holds body last m)
    (hnext : m.supplied = none → m.session.reader.peek.kind ≠ .eof) :
    Holds body last m.take := by
  have htaken := taken_take m
  cases hsupplied : m.supplied with
  | some t =>
    obtain ⟨hmissing, hleading⟩ := h.supplied t hsupplied
    have hsource : (t.precededBy m.leftOut).source = m.leftOut.map Token.bare := by
      simp [Token.source, Token.precededBy, hmissing, hleading]
    simp only [next, hsupplied, Option.getD_some] at htaken
    refine ⟨?_, ?_, (Keeps.take m).last.trans h.last_eq, h.last_kind, ?_⟩
    · rw [← h.ledger, Machine.ledger, Machine.ledger, htaken]
      simp [Machine.take, hsupplied, hsource]
    · simpa [Machine.take, hsupplied] using h.ahead
    · simp [Machine.take, hsupplied]
  | none =>
    simp only [next, hsupplied, Option.getD_none] at htaken
    obtain ⟨hplain, hahead⟩ := h.ahead_eq (hnext hsupplied)
    refine ⟨?_, ?_, (Keeps.take m).last.trans h.last_eq, h.last_kind, ?_⟩
    · rw [← h.ledger, Machine.ledger, Machine.ledger, htaken, hahead]
      simp [Machine.take, hsupplied, hplain.source_precededBy]
    · intro t ht
      simp only [Machine.take, hsupplied] at ht
      exact h.ahead t (by rw [hahead]; exact List.mem_cons_of_mem _ ht)
    · simp [Machine.take, hsupplied]

/-- Everything before the end is left out at once. -/
theorem drain (h : Holds body last m) :
    Holds body last m.drain ∧ m.drain.session.reader.ahead = [] ∧ m.drain.supplied = none := by
  have hpass : m.session.reader.ahead.takeWhile (·.kind != .eof) = m.session.reader.ahead :=
    List.takeWhile_eq_self_iff.2 fun t ht => by simpa using (h.ahead t ht).2
  have hahead : m.drain.session.reader.ahead = [] := by
    simp [Machine.drain, drainReader, hpass]
  have hbare : m.session.reader.ahead.map (Token.bare ∘ reject) = m.session.reader.ahead := by
    refine (List.map_congr_left fun t ht => ?_).trans (List.map_id _)
    exact (h.ahead t ht).1.bare_eq
  refine ⟨⟨?_, fun t ht => ?_, h.last_eq, h.last_kind, fun t ht => nomatch ht⟩, hahead, rfl⟩
  · rw [← h.ledger, Machine.ledger, Machine.ledger, hahead]
    simp [Machine.drain, drainReader, hpass, taken, hbare]
  · rw [hahead] at ht
    cases ht

end Holds

/-! ## The end of the input -/

/-- How far a machine has come. Until it meets the end of the input its plan ends with the choice
between declarations; then everything before the end is left out, and the end is taken. -/
inductive Stage (body : List Token) (last : Token) : Machine → Plan → Prop
  | going {m : Machine} {plan : Plan} (hplan : plan.Going) (h : Holds body last m) :
      Stage body last m plan
  | closing {m : Machine} (h : Holds body last m) : Stage body last m Plan.closing
  | closed {m : Machine} (h : Holds body last m) (hahead : m.session.reader.ahead = [])
      (hsupplied : m.supplied = none) : Stage body last m Plan.closing.tail
  | ended {m : Machine} {plan : Plan} (hplan : plan = [.leave] ∨ plan = [])
      (h : m.taken.flatMap Token.source = body ++ [last]) : Stage body last m plan

namespace Stage

variable {body : List Token} {last : Token} {p b : Position}

theorem continuation {choice : Choice} (h : Holds body last m) (hb : b.isChoice = true)
    (harises : choice.Arises b) (hplan : Plan.Going (.choose b :: plan)) :
    Stage body last m (Plan.continuation b choice ++ plan) := by
  rcases hplan.continuation hb harises with hgoing | hclosing
  · exact .going hgoing h
  · rw [hclosing]
    exact .closing h

theorem expect (hsound : Sound m (.expect p :: plan)) (h : Holds body last m)
    (hplan : Plan.Going (.expect p :: plan))
    (hstep : m.expect p plan = .ok (m', plan')) : Stage body last m' plan' := by
  obtain ⟨htakes, hend, hlegal, _⟩ := hsound.tracks.expect
  have hrest := hplan.tail (by simp)
  have hspec := expect_spec hlegal htakes hsound.supply plan
  rw [hstep] at hspec
  cases hspec with
  | accepted haccepts =>
    refine .going hrest (h.take fun hnone => ?_)
    rw [next, hnone] at haccepts
    exact Position.kind_ne_eof_of_accepts haccepts hend
  | removed _ hnext => exact .going hplan (h.leaveOut hnext)
  | kept _ hnext _ _ => exact .going hrest (h.attempt.take fun _ => hnext)
  | supplied _ _ _ _ => exact .going hrest ((h.attempt.provide _).take (by simp [provide]))
  | suppliedAtEnd _ _ => exact .going hrest ((h.provide _).take (by simp [provide]))

theorem choose (hsound : Sound m (.choose b :: plan)) (h : Holds body last m)
    (hplan : Plan.Going (.choose b :: plan))
    (hstep : m.choose b plan = .ok (m', plan')) : Stage body last m' plan' := by
  obtain ⟨hchoice, hlegal⟩ := hsound.tracks.legal_choose
  have hspec := choose_spec hlegal hchoice hsound.supply plan
  rw [hstep] at hspec
  cases hspec with
  | admitted _ => exact continuation h hchoice trivial hplan
  | removed _ hnext => exact .going hplan (h.leaveOut hnext)
  | kept _ _ _ _ harises _ => exact continuation h.attempt hchoice harises hplan
  | supplied _ _ _ _ _ => exact continuation (h.attempt.provide _) hchoice trivial hplan
  | suppliedAtEnd _ _ => exact continuation (h.provide _) hchoice trivial hplan

/-- Before the end of the input every step keeps the ledger. -/
theorem step_going (hsound : Sound m (i :: plan)) (h : Holds body last m)
    (hplan : Plan.Going (i :: plan))
    (hstep : m.step i plan = .ok (m', plan')) : Stage body last m' plan' := by
  cases i with
  | expect p => exact expect hsound h hplan hstep
  | choose b => exact choose hsound h hplan hstep
  | take =>
    obtain ⟨q, S, full, _, hfollows⟩ := hsound.tracks
    obtain ⟨rfl, _⟩ := hfollows.take_inv
    cases hplan
  | drain =>
    obtain ⟨q, S, full, _, hfollows⟩ := hsound.tracks
    obtain ⟨rfl, _⟩ := hfollows.drain_inv
    cases hplan
  | enter | leave | switch | begin | adopt | finish =>
    obtain ⟨hkept, rfl⟩ := unchanged_of_quiet rfl hstep
    have htaken := taken_of_quiet rfl hstep
    exact .going (hplan.tail nofun) (h.of_eq hkept.reader hkept.supplied htaken hkept.leftOut)
  | optionalSuffix | postfixes | operators | otherBranch =>
    cases hstep
    exact .going ((hplan.tail nofun).append _) h

/-- Every step keeps the ledger, and the end of the input comes last. -/
theorem step (hsound : Sound m (i :: plan)) (hlast : last.IsPlain)
    (h : Stage body last m (i :: plan)) (hstep : m.step i plan = .ok (m', plan')) :
    Stage body last m' plan' := by
  generalize hwhole : i :: plan = whole at h
  cases h with
  | going hplan h =>
    subst hwhole
    exact step_going hsound h hplan hstep
  | closing h =>
    cases hwhole
    cases hstep
    exact .closed h.drain.1 h.drain.2.1 h.drain.2.2
  | closed h hahead hsupplied =>
    cases hwhole
    cases hstep
    have hnext : m.next = last := by
      rw [← h.last_eq]
      simp [next, hsupplied, Reader.peek, Reader.peekN, hahead]
    refine .ended (.inl rfl) ?_
    rw [taken_take, hnext, ← h.ledger, Machine.ledger, hahead]
    simp [hlast.source_precededBy]
  | ended hplan h =>
    subst hwhole
    rcases hplan with heq | heq
    · cases heq
      obtain ⟨p, T, _, rfl, rfl⟩ := step_leave_inv hstep
      exact .ended (.inr rfl) h
    · cases heq

end Stage

end Machine

/-! ## Open nodes -/

/-- Whether the node that a branch point completes has been started before it. -/
def Position.completes (b : Position) : Bool :=
  b == .topLevelNodeWithoutMetadata || b == .topLevelNodeWithoutModifier ||
    b == .statementStartIdentifierRhs

/-- How many nodes are open after an instruction. -/
def Instruction.nodes (n : Nat) : Instruction → Nat
  | .begin | .adopt => n + 1
  | .finish _ => n - 1
  | .choose b => if b.completes then n - 1 else n
  | _ => n

/-- How many nodes are open after a plan. -/
def Plan.nodes (n : Nat) (P : Plan) : Nat := P.foldl Instruction.nodes n

private theorem nodes_table (n : Nat) (b : Position) (hb : b.isChoice = true) :
    ∀ way ∈ b.ways, Plan.nodes n (Plan.via b way) = Instruction.nodes n (.choose b) := by
  revert hb
  cases b <;> first
    | exact fun hb => absurd hb (by decide)
    | intro _
      repeat' first
        | exact fun _ h => absurd h List.not_mem_nil
        | refine List.forall_mem_cons.2 ⟨rfl, ?_⟩

theorem Plan.nodes_append (n : Nat) (P Q : Plan) : nodes n (P ++ Q) = nodes (nodes n P) Q :=
  List.foldl_append

/-- A choice leaves as many nodes open as its branch point. -/
theorem Plan.nodes_continuation {b : Position} {choice : Choice} (hb : b.isChoice = true)
    (h : choice.Arises b) (n : Nat) (P : Plan) :
    nodes n (continuation b choice ++ P) = nodes n (.choose b :: P) := by
  obtain ⟨way, hway, heq⟩ := continuation_eq_via hb h
  rw [nodes_append, heq, nodes_table n b hb way hway]
  rfl

namespace Machine

variable {m m' : Machine} {plan plan' : Plan} {i : Instruction}

/-- The plan completes every node that is open. -/
def Balanced (m : Machine) (plan : Plan) : Prop := Plan.nodes m.outer.length plan = 0

theorem Balanced.step (hsound : Sound m (i :: plan)) (h : Balanced m (i :: plan))
    (hstep : m.step i plan = .ok (m', plan')) : Balanced m' plan' := by
  cases i with
  | expect p =>
    obtain ⟨htakes, _, hlegal, _⟩ := hsound.tracks.expect
    have hspec := expect_spec hlegal htakes hsound.supply plan
    rw [show m.expect p plan = _ from hstep] at hspec
    unfold Balanced
    cases hspec with
    | removed _ _ => exact h
    | _ =>
      rw [outer_take]
      exact h
  | choose b =>
    obtain ⟨hchoice, hlegal⟩ := hsound.tracks.legal_choose
    have hspec := choose_spec hlegal hchoice hsound.supply plan
    rw [show m.choose b plan = _ from hstep] at hspec
    cases hspec with
    | removed _ _ => exact h
    | kept _ _ _ _ harises _ => exact (Plan.nodes_continuation hchoice harises _ _).trans h
    | _ => exact (Plan.nodes_continuation hchoice (Choice.arises_kind b _) _ _).trans h
  | leave =>
    obtain ⟨p, T, _, rfl, rfl⟩ := step_leave_inv hstep
    exact h
  | switch p =>
    obtain ⟨p', T, _, rfl, rfl⟩ := step_switch_inv hstep
    exact h
  | take =>
    cases hstep
    unfold Balanced
    rw [outer_take]
    exact h
  | finish kind =>
    cases hstep
    unfold Balanced
    rw [show (m.finish kind).outer.length = m.outer.length - 1 from List.length_drop]
    exact h
  | adopt =>
    cases hstep
    exact h
  | optionalSuffix =>
    cases hstep
    unfold Balanced Machine.optionalSuffix
    split <;> exact h
  | postfixes =>
    cases hstep
    unfold Balanced Machine.postfixes
    split <;> exact h
  | operators tightness =>
    cases hstep
    unfold Balanced Machine.operators
    split
    · exact h
    · split <;> exact h
  | otherBranch =>
    cases hstep
    unfold Balanced Machine.otherBranch
    split <;> exact h
  | _ =>
    cases hstep
    exact h

theorem Reached.balanced {tokens : List Token} {limits : Limits}
    (h : Reached tokens limits m plan) : Balanced m plan := by
  induction h with
  | start => rfl
  | step h hstep ih => exact ih.step h.sound hstep

/-- At the end of the plan the tree holds everything that was taken. -/
theorem Reached.tokens_tree {tokens : List Token} {limits : Limits}
    (h : Reached tokens limits m []) : m.tree.tokens = m.taken := by
  have houter : m.outer = [] := List.eq_nil_of_length_eq_zero h.balanced
  simp [tree, Tree.tokens, taken, houter]

end Machine

end Mend
