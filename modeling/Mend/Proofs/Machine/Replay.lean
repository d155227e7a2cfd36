import Mend.Proofs.Machine.Yields

/-!
# Doing a run again

What a run takes can be given to another machine as its input. The two machines then do the same
plan side by side: whenever the first one comes to take a token, the second one has that token
next, so it needs no repair. The first one may have decided how to go on while it looked at a token
that it left out later; its decision still holds for the token that it takes instead, and that is
the one the second machine looks at.
-/

namespace Mend

/-! ## Clean trees -/

mutual

/-- A tree without what repair has put on its tokens. -/
def Tree.clean : Tree → Tree
  | .token t => .token t.clean
  | .node kind children => .node kind (cleanAll children)

/-- Some trees without what repair has put on their tokens. -/
def Tree.cleanAll : List Tree → List Tree
  | [] => []
  | tree :: rest => tree.clean :: cleanAll rest

end

namespace Tree

theorem cleanAll_eq_map (trees : List Tree) : cleanAll trees = trees.map clean := by
  induction trees with
  | nil => rfl
  | cons tree rest ih => rw [cleanAll, ih, List.map_cons]

mutual

theorem clean_clean : ∀ tree : Tree, tree.clean.clean = tree.clean
  | .token _ => rfl
  | .node _ children => by rw [clean, clean, cleanAll_cleanAll children]

theorem cleanAll_cleanAll : ∀ trees : List Tree, cleanAll (cleanAll trees) = cleanAll trees
  | [] => rfl
  | tree :: rest => by rw [cleanAll, cleanAll, clean_clean tree, cleanAll_cleanAll rest]

end

mutual

theorem tokens_clean : ∀ tree : Tree, tree.clean.tokens = tree.tokens.map Token.clean
  | .token _ => rfl
  | .node _ children => by rw [clean, tokens, tokens, tokensOf_cleanAll children]

theorem tokensOf_cleanAll : ∀ trees : List Tree,
    tokensOf (cleanAll trees) = (tokensOf trees).map Token.clean
  | [] => rfl
  | tree :: rest => by
    rw [cleanAll, tokensOf, tokensOf, tokens_clean tree, tokensOf_cleanAll rest, List.map_append]

end

/-- A clean tree reports nothing. -/
theorem diagnostics_clean (tree : Tree) : tree.clean.diagnostics = [] := by
  rw [diagnostics, tokens_clean, List.flatMap_map]
  exact List.flatMap_eq_nil_iff.2 fun t _ => rfl

end Tree

namespace Machine

variable {m m' c : Machine} {plan : Plan} {ts us : List Token} {t : Token}

/-! ## Two machines side by side -/

/-- A machine that needed no repair stands where another one does, and its tree is the other's
without what repair has put on it. -/
structure Mirrors (m c : Machine) : Prop where
  stack : c.session.stack = m.session.stack
  supplied : c.supplied = none
  leftOut : c.leftOut = []
  children : c.children = Tree.cleanAll m.children
  outer : c.outer = m.outer.map Tree.cleanAll

/-- A machine has exactly some tokens before it. -/
def Awaits (c : Machine) (ts : List Token) : Prop :=
  ts ≠ [] → c.session.reader.ahead ++ [c.session.reader.last] = ts

namespace Awaits

theorem next_eq (h : c.Awaits (t :: ts)) (hsupplied : c.supplied = none) : c.next = t := by
  have hahead := h (List.cons_ne_nil t ts)
  rw [next, hsupplied, Option.getD_none, Reader.peek, Reader.peekN]
  cases hcase : c.session.reader.ahead with
  | nil =>
    rw [hcase] at hahead
    exact (List.cons.inj hahead).1
  | cons u rest =>
    rw [hcase] at hahead
    exact (List.cons.inj hahead).1

theorem take (h : c.Awaits (t :: ts)) (hsupplied : c.supplied = none) : c.take.Awaits ts := by
  intro hts
  have hahead := h (List.cons_ne_nil t ts)
  simp only [Machine.take, hsupplied]
  unfold Reader.read
  split
  · rename_i hcase
    rw [hcase] at hahead
    exact absurd (List.cons.inj hahead).2.symm hts
  · rename_i u rest hcase
    rw [hcase] at hahead
    exact (List.cons.inj hahead).2

/-- Before the last token nothing is ahead of it. -/
theorem ahead_eq_nil (h : c.Awaits [t]) : c.session.reader.ahead = [] := by
  have hahead := h (List.cons_ne_nil t [])
  cases hcase : c.session.reader.ahead with
  | nil => rfl
  | cons u rest => simp [hcase] at hahead

end Awaits

namespace Mirrors

theorem of_repairs {n : Machine} {i : Instruction} (h : Mirrors m c) (hrepairs : m.Repairs i n) :
    Mirrors n c := by
  cases hrepairs <;> exact ⟨h.stack, h.supplied, h.leftOut, h.children, h.outer⟩

theorem take (h : Mirrors m c) (hnext : c.next = m.next.clean) : Mirrors m.take c.take := by
  refine ⟨?_, Primed.supplied_take c, Primed.leftOut_take c, ?_, ?_⟩
  · rw [(Keeps.take m).stack, (Keeps.take c).stack, h.stack]
  · rw [children_take, children_take, hnext, h.leftOut, h.children]
    rfl
  · rw [outer_take, outer_take, h.outer]

/-- A quiet instruction is done by both. -/
theorem step_quiet {m₁ : Machine} {i : Instruction} (h : Mirrors m c) (hi : isQuiet i = true)
    (hstep : m.step i plan = .ok (m₁, plan)) :
    ∃ c₁, c.step i plan = .ok (c₁, plan) ∧ Mirrors m₁ c₁ := by
  cases i with
  | enter p =>
    cases hstep
    refine ⟨_, rfl, ?_, h.supplied, h.leftOut, h.children, h.outer⟩
    exact congrArg (p :: ·) h.stack
  | leave =>
    obtain ⟨p, T, hstack, rfl, _⟩ := step_leave_inv hstep
    exact ⟨_, step_leave (h.stack.trans hstack), rfl, h.supplied, h.leftOut, h.children, h.outer⟩
  | switch p =>
    obtain ⟨p', T, hstack, rfl, _⟩ := step_switch_inv hstep
    exact ⟨_, step_switch (h.stack.trans hstack), rfl, h.supplied, h.leftOut, h.children, h.outer⟩
  | begin =>
    cases hstep
    refine ⟨_, rfl, h.stack, h.supplied, h.leftOut, rfl, ?_⟩
    simp only [Machine.begin, h.children, h.outer, List.map_cons]
  | adopt =>
    cases hstep
    refine ⟨_, rfl, h.stack, h.supplied, h.leftOut, ?_, ?_⟩
    · simp only [Machine.adopt, h.children, Tree.cleanAll_eq_map, List.map_take]
    · simp only [Machine.adopt, h.children, h.outer, List.map_cons, Tree.cleanAll_eq_map,
        List.map_drop]
  | finish kind =>
    cases hstep
    have haround : (m.outer.map Tree.cleanAll).headD [] = Tree.cleanAll (m.outer.headD []) := by
      cases m.outer <;> rfl
    refine ⟨_, rfl, h.stack, h.supplied, h.leftOut, ?_, ?_⟩
    · simp only [Machine.finish, h.children, h.outer, haround, Tree.cleanAll, Tree.clean]
      simp only [Tree.cleanAll_eq_map, List.map_reverse]
    · simp only [Machine.finish, h.outer, List.map_drop]
  | _ => cases hi

end Mirrors

namespace Yields

open Plan (Remaining)

variable {i : Instruction}

theorem not_mem_closing (hi : isDecision i = true) : i ∉ Plan.closing := by
  intro hmem
  simp only [Plan.closing, List.mem_cons, List.not_mem_nil, or_false] at hmem
  rcases hmem with rfl | rfl | rfl <;> cases hi

/-- Something is still taken until the end of the input has been. -/
theorem exists_cons (h : Yields m (i :: plan) ts m') (hgoing : Plan.Going (i :: plan)) :
    ∃ t us, ts = t :: us := by
  obtain ⟨q, S, full, hlegal, hfollows⟩ := h.primed.tracks
  obtain ⟨body, last, _, rfl, _⟩ := h.reads (.inl hgoing) hlegal hfollows
  cases body with
  | nil => exact ⟨_, _, rfl⟩
  | cons t body => exact ⟨_, _, rfl⟩

/-- What a run takes, a machine that has it before it takes in the same way. -/
theorem replay (h : Yields m plan ts m') (hplan : Remaining plan) (hmirrors : Mirrors m c)
    (hawaits : c.Awaits ts) : ∃ c', Finishes c plan c' ∧ Mirrors m' c' := by
  induction h generalizing c with
  | done => exact ⟨c, .done c, hmirrors⟩
  | repair _ _ hrepairs _ ih => exact ih hplan (hmirrors.of_repairs hrepairs) hawaits
  | @expect m m' p plan ts _ haccepts _ ih =>
    have hnext := hawaits.next_eq hmirrors.supplied
    have haccepts' : p.accepts c.next = true := by
      rw [hnext]
      exact haccepts
    obtain ⟨c', hrun, hend⟩ := ih (hplan.tail (by simp)) (hmirrors.take hnext)
      (hawaits.take hmirrors.supplied)
    exact ⟨c', .step (Primed.step_expect haccepts' plan) hrun, hend⟩
  | @choose m m' b plan ts hm hadmits hrest ih =>
    have hgoing := hplan.going (by simp [Plan.closing])
    have hchoice := hm.tracks.legal_choose.1
    obtain ⟨t, us, rfl, hkind⟩ :=
      hrest.first_of_wants (Plan.wants_continuation hchoice hadmits plan)
    have hnext : c.next.kind = m.next.kind := by rw [hawaits.next_eq hmirrors.supplied, hkind]
    have hrunning := hgoing.continuation hchoice (Choice.arises_kind b m.next.kind)
    obtain ⟨c', hrun, hend⟩ := ih (.of_running hrunning) hmirrors hawaits
    have hstep := Primed.step_choose (m := c) (by rw [hnext, hadmits]) plan
    rw [hnext] at hstep
    exact ⟨c', .step hstep hrun, hend⟩
  | take _ _ ih =>
    have hnext := hawaits.next_eq hmirrors.supplied
    obtain ⟨c', hrun, hend⟩ := ih (hplan.tail (by simp)) (hmirrors.take hnext)
      (hawaits.take hmirrors.supplied)
    exact ⟨c', .step rfl hrun, hend⟩
  | @drain m m' plan ts hm hrest ih =>
    obtain ⟨q, S, full, _, hfollows⟩ := hm.tracks
    obtain ⟨rfl, _⟩ := hfollows.drain_inv
    have hahead := hawaits (by rw [hrest.eq_of_take]; exact List.cons_ne_nil _ _)
    rw [hrest.eq_of_take] at hahead
    have hnone := (hrest.eq_of_take ▸ hawaits).ahead_eq_nil
    have hdrain : c.drain.session.reader.ahead = [] ∧ c.drain.leftOut = [] := by
      simp [Machine.drain, drainReader, hnone, hmirrors.leftOut]
    obtain ⟨c', hrun, hend⟩ := ih (c := c.drain) (hplan.tail (by simp))
      ⟨hmirrors.stack, rfl, hdrain.2, hmirrors.children, hmirrors.outer⟩
      (fun _ => by rw [hdrain.1, hrest.eq_of_take, ← hahead, hnone]; rfl)
    exact ⟨c', .step rfl hrun, hend⟩
  | @decide m m' i plan ts hm hi hrest ih =>
    have hgoing := hplan.going (not_mem_closing hi)
    have hhere : Yields m (i :: plan) ts m' := .decide hm hi hrest
    obtain ⟨t, us, rfl⟩ := hhere.exists_cons hgoing
    have hnext := hawaits.next_eq hmirrors.supplied
    have hsame := hhere.decision_eq (.inl hgoing) hi (by rw [hnext])
    have hrunning := (hgoing.tail (by rintro rfl; cases hi)).append (m.decision i)
    obtain ⟨c', hrun, hend⟩ := ih (.inl hrunning) hmirrors hawaits
    exact ⟨c', .step (hsame ▸ step_decision hi c plan) hrun, hend⟩
  | @quiet m m₁ m' i plan ts _ hi hstep _ ih =>
    obtain ⟨c₁, hstep', hmirrors'⟩ := hmirrors.step_quiet hi hstep
    have hreader := (unchanged_of_quiet hi hstep').1.reader
    obtain ⟨c', hrun, hend⟩ := ih (hplan.tail (by rintro rfl; cases hi)) hmirrors'
      (fun hts => by rw [hreader]; exact hawaits hts)
    exact ⟨c', .step hstep' hrun, hend⟩

end Yields

end Machine

end Mend
