import Mend.Proofs.Grammar.Operand
import Mend.Proofs.Machine.Ledger
import Mend.Proofs.Machine.Primed
import Mend.Proofs.Plan.Ending

/-!
# What a run of the machine takes

A run of a primed machine is taken apart into repairs, which change only which token comes next,
and the steps of the plan. `Yields` records the tokens it takes from some moment on, without what
repair has put on them. Reading the record from the end shows that these tokens are what the
automaton reads: the plan follows the automaton, so what is taken from a plan on is read from where
the automaton stands.
-/

namespace Mend

/-- A token as if it had stood in the input as it is. -/
def Token.clean (t : Token) : Token := .plain t.kind t.text t.line

theorem Token.Unreserved.clean {t : Token} (h : t.Unreserved) : t.clean.Unreserved := h

theorem Token.IsPlain.clean_eq {t : Token} (h : t.IsPlain) : t.clean = t := by
  obtain ⟨kind, text, line, missing, leading, diagnostics⟩ := t
  obtain ⟨rfl, rfl, rfl⟩ := h
  rfl

theorem Token.IsInput.map_clean {tokens : List Token} (h : IsInput tokens) :
    tokens.map Token.clean = tokens :=
  (List.map_congr_left fun t ht => (h.isPlain t ht).clean_eq).trans (List.map_id _)

theorem Position.accepts_clean (p : Position) (t : Token) : p.accepts t.clean = p.accepts t := rfl

namespace Machine

/-- Doing a plan takes some tokens and ends with a machine. -/
inductive Yields : Machine → Plan → List Token → Machine → Prop
  | done (m : Machine) : Yields m [] [] m
  | repair {m m' n : Machine} {i : Instruction} {plan : Plan} {ts : List Token}
      (hm : Primed m (i :: plan)) (hrefuses : m.refuses i = true) (hrepairs : m.Repairs i n)
      (h : Yields n (i :: plan) ts m') : Yields m (i :: plan) ts m'
  | expect {m m' : Machine} {p : Position} {plan : Plan} {ts : List Token}
      (hm : Primed m (.expect p :: plan)) (haccepts : p.accepts m.next = true)
      (h : Yields m.take plan ts m') : Yields m (.expect p :: plan) (m.next.clean :: ts) m'
  | choose {m m' : Machine} {b : Position} {plan : Plan} {ts : List Token}
      (hm : Primed m (.choose b :: plan)) (hadmits : b.admits m.next.kind = true)
      (h : Yields m (Plan.continuation b (.kind m.next.kind) ++ plan) ts m') :
      Yields m (.choose b :: plan) ts m'
  | take {m m' : Machine} {plan : Plan} {ts : List Token} (hm : Primed m (.take :: plan))
      (h : Yields m.take plan ts m') : Yields m (.take :: plan) (m.next.clean :: ts) m'
  | drain {m m' : Machine} {plan : Plan} {ts : List Token} (hm : Primed m (.drain :: plan))
      (h : Yields m.drain plan ts m') : Yields m (.drain :: plan) ts m'
  | decide {m m' : Machine} {i : Instruction} {plan : Plan} {ts : List Token}
      (hm : Primed m (i :: plan)) (hi : isDecision i = true)
      (h : Yields m (m.decision i ++ plan) ts m') : Yields m (i :: plan) ts m'
  | quiet {m m₁ m' : Machine} {i : Instruction} {plan : Plan} {ts : List Token}
      (hm : Primed m (i :: plan)) (hi : isQuiet i = true) (hstep : m.step i plan = .ok (m₁, plan))
      (h : Yields m₁ plan ts m') : Yields m (i :: plan) ts m'

/-! ## Decisions on a kind of token -/

theorem decision_of_kind {m c : Machine} (h : c.next.kind = m.next.kind) (i : Instruction) :
    c.decision i = m.decision i := by
  cases i with
  | optionalSuffix => simp only [decision, optionalSuffix, h]
  | postfixes => simp only [decision, postfixes, h]
  | operators tightness => simp only [decision, operators, h]
  | otherBranch => simp only [decision, otherBranch, h]
  | _ => rfl

theorem postfixes_eq_nil {m : Machine} (h : m.next.kind.goesOn = false) : m.postfixes = [] := by
  unfold postfixes
  split
  · rename_i hnext
    rw [hnext] at h
    cases h
  · rename_i hnext
    rw [hnext] at h
    cases h
  · rfl

theorem operators_eq_nil {m : Machine} (h : m.next.kind.goesOn = false) (tightness : Nat) :
    m.operators tightness = [] := by
  have hnone : m.next.kind.precedence? = none := by
    revert h
    cases m.next.kind <;> decide
  simp only [operators, hnone]

namespace Yields

variable {m m' : Machine} {plan : Plan} {ts : List Token}

theorem of_finishes (hrun : Finishes m plan m') (h : Primed m plan) :
    ∃ ts, Yields m plan ts m' := by
  induction hrun with
  | done m => exact ⟨[], .done m⟩
  | @step m m₁ m' i plan plan₁ hstep _ ih =>
    obtain ⟨ts, hrest⟩ := ih (h.next_step hstep)
    cases i with
    | expect p =>
      cases h.expect_inv hstep with
      | accepted haccepts => exact ⟨_, .expect h haccepts hrest⟩
      | removed hrefuses hrepairs => exact ⟨_, .repair h hrefuses hrepairs hrest⟩
      | supplied hrefuses hrepairs haccepts =>
        exact ⟨_, .repair h hrefuses hrepairs
          (.expect (h.of_repairs hrefuses hrepairs) haccepts hrest)⟩
    | choose b =>
      cases h.choose_inv hstep with
      | admitted hadmits => exact ⟨_, .choose h hadmits hrest⟩
      | removed hrefuses hrepairs => exact ⟨_, .repair h hrefuses hrepairs hrest⟩
      | supplied hrefuses hrepairs hadmits =>
        exact ⟨_, .repair h hrefuses hrepairs
          (.choose (h.of_repairs hrefuses hrepairs) hadmits hrest)⟩
    | take =>
      cases hstep
      exact ⟨_, .take h hrest⟩
    | drain =>
      cases hstep
      exact ⟨_, .drain h hrest⟩
    | optionalSuffix | postfixes | operators | otherBranch =>
      cases hstep
      exact ⟨_, .decide h rfl hrest⟩
    | _ =>
      obtain ⟨_, rfl⟩ := unchanged_of_quiet rfl hstep
      exact ⟨_, .quiet h rfl hstep hrest⟩

theorem unreserved (h : Yields m plan ts m') : ∀ t ∈ ts, t.Unreserved := by
  induction h with
  | done => exact fun t ht => nomatch ht
  | expect hm _ _ ih => exact List.forall_mem_cons.2 ⟨hm.next_unreserved.clean, ih⟩
  | take hm _ ih => exact List.forall_mem_cons.2 ⟨hm.next_unreserved.clean, ih⟩
  | repair _ _ _ _ ih => exact ih
  | choose _ _ _ ih => exact ih
  | drain _ _ ih => exact ih
  | decide _ _ _ ih => exact ih
  | quiet _ _ _ _ ih => exact ih

/-- What is taken ends up in the tree. -/
theorem taken (h : Yields m plan ts m') :
    m'.taken.map Token.clean = m.taken.map Token.clean ++ ts := by
  have htake (m : Machine) :
      m.take.taken.map Token.clean = m.taken.map Token.clean ++ [m.next.clean] := by
    rw [taken_take, List.map_append]
    rfl
  induction h with
  | done => exact (List.append_nil _).symm
  | expect _ _ _ ih => rw [ih, htake, List.append_assoc, List.singleton_append]
  | take _ _ ih => rw [ih, htake, List.append_assoc, List.singleton_append]
  | repair _ _ hrepairs _ ih =>
    cases hrepairs <;> exact ih
  | choose _ _ _ ih => exact ih
  | drain _ _ ih => exact ih
  | decide _ _ _ ih => exact ih
  | quiet _ hi hstep _ ih => rw [ih, taken_of_quiet hi hstep]

/-! ## The token that is taken first -/

theorem next_drain_kind (hlast : m.session.reader.last.kind = .eof) :
    m.drain.next.kind = .eof := by
  have hfirst (l : List Token) : ((l.drop (l.takeWhile (·.kind != .eof)).length).getD 0
      m.session.reader.last).kind = .eof := by
    induction l with
    | nil => exact hlast
    | cons t rest ih => by_cases ht : t.kind = .eof <;> simp_all
  exact hfirst m.session.reader.ahead

/-- A token that the plan wants is taken next. -/
theorem first_of_wants (h : Yields m plan ts m') (hwants : plan.wants m.next.kind = true) :
    ∃ t us, ts = t :: us ∧ t.kind = m.next.kind := by
  induction h with
  | done => cases hwants
  | repair _ hrefuses _ _ =>
    rw [Plan.wants_cons, wants_of_refuses hrefuses] at hwants
    cases hwants
  | expect => exact ⟨_, _, rfl, rfl⟩
  | take => exact ⟨_, _, rfl, rfl⟩
  | choose hm hadmits _ ih =>
    exact ih (Plan.wants_continuation hm.tracks.legal_choose.1 hadmits _)
  | drain hm _ ih =>
    obtain ⟨q, S, full, _, hfollows⟩ := hm.tracks
    obtain ⟨rfl, _⟩ := hfollows.drain_inv
    have hkind := next_drain_kind hm.last
    rw [Plan.wants_cons] at hwants
    rw [beq_iff_eq.1 hwants, ← hkind]
    exact ih (by rw [hkind]; rfl)
  | @decide m m' i plan ts hm hi _ ih =>
    cases i with
    | optionalSuffix => exact ih (Primed.wants_optionalSuffix hwants)
    | postfixes | operators | otherBranch => cases hwants
    | _ => cases hi
  | @quiet m m₁ m' i plan ts hm hi hstep _ ih =>
    have hnext := (unchanged_of_quiet hi hstep).1.next
    rw [← hnext] at hwants ⊢
    refine ih ?_
    cases i <;> first | exact hwants | cases hi

/-! ## What is taken is read -/

theorem eq_nil_of_leave (h : Yields m [.leave] ts m') : ts = [] := by
  cases h with
  | repair _ hrefuses _ _ => cases hrefuses
  | decide _ hi _ => cases hi
  | quiet _ _ _ hrest =>
    cases hrest
    rfl

/-- At the end of the input only that is taken. -/
theorem eq_of_take (h : Yields m [.take, .leave] ts m') : ts = [m.next.clean] := by
  cases h with
  | repair _ hrefuses _ _ => cases hrefuses
  | take _ hrest => rw [hrest.eq_nil_of_leave]
  | decide _ hi _ => cases hi
  | quiet _ hi _ _ => cases hi

/-- Going on without reading, the automaton reads what is taken if it does so from there. -/
private theorem reads_of_leads {q : Position} {S T : Stack} (hlegal : Legal q S)
    (h : Leads plan T q S)
    (hrest : ∀ {q S full}, Legal q S → Follows plan T q S full → Reads q S ts) :
    Reads q S ts := by
  obtain ⟨q', S', full, hrun, hfollows⟩ := h
  exact (hrest (hrun.legal hlegal) hfollows).of_run hrun

/-- What is taken from a plan on is read from where the plan follows the automaton. -/
theorem reads (h : Yields m plan ts m') (hplan : plan.Running) {q : Position} {S : Stack}
    {full : Bool} (hlegal : Legal q S) (hfollows : Follows plan m.session.stack q S full) :
    Reads q S ts := by
  induction h generalizing q S full with
  | done =>
    rcases hplan with h | h <;> cases h
  | repair _ _ hrepairs _ ih =>
    cases hrepairs <;> exact ih hplan hlegal hfollows
  | @expect m m' p plan ts _ haccepts _ ih =>
    obtain ⟨htakes, _, hpass, q', S', hmove, hrest⟩ := hfollows.expect_inv
    have hlegal' := (hpass.legal hlegal).reach (Position.isBranch_of_takesToken htakes) hmove
    have hreads := ih (.inl ((hplan.going nofun).tail nofun)) hlegal'
      ((Keeps.take m).stack.symm ▸ hrest)
    have hhere : Reads p m.session.stack (m.next.clean :: ts) := hreads.of_read haccepts hmove
    exact hhere.of_run hpass.run
  | @choose m m' b plan ts hm _ _ ih =>
    have harises := Choice.arises_kind b m.next.kind
    have hrunning := (hplan.going nofun).continuation hm.tracks.legal_choose.1 harises
    exact reads_of_leads hlegal (Leads.choose hfollows hlegal harises) (ih hrunning)
  | take _ _ _ =>
    obtain ⟨rfl, _⟩ := hfollows.take_inv
    cases hplan.going nofun
  | @drain m m' plan ts hm hrest _ =>
    obtain ⟨rfl, hT, hpass⟩ := hfollows.drain_inv
    have haccepts : Position.accepts .eof m.drain.next.clean = true := by
      rw [Position.accepts_clean]
      exact Position.accepts_of_wants (by rw [next_drain_kind hm.last]; rfl)
    rw [hrest.eq_of_take]
    exact (Reads.of_eof haccepts).of_run hpass.run
  | decide _ hi _ ih =>
    have hgoing := (hplan.going (by rintro rfl; cases hi)).tail (by rintro rfl; cases hi)
    exact reads_of_leads hlegal (Leads.decision hfollows hlegal hi _) (ih (.inl (hgoing.append _)))
  | quiet _ hi hstep _ ih =>
    obtain ⟨m₁, hstep', hleads⟩ := Leads.quiet hfollows hi
    rw [hstep'] at hstep
    cases hstep
    have hgoing := (hplan.going (by rintro rfl; cases hi)).tail (by rintro rfl; cases hi)
    exact reads_of_leads hlegal hleads (ih (.inl hgoing))

/-! ## Decisions -/

theorem isQuiet_of_isDecision {i : Instruction} (h : isDecision i = true) : isQuiet i = false := by
  cases i <;> first | rfl | cases h

theorem quiet_inv {i : Instruction} (h : Yields m (i :: plan) ts m') (hi : isQuiet i = true) :
    ∃ m₁, m.step i plan = .ok (m₁, plan) ∧ Yields m₁ plan ts m' := by
  cases h with
  | repair _ hrefuses _ _ => cases i <;> first | cases hrefuses | cases hi
  | decide _ hdecides _ =>
    rw [isQuiet_of_isDecision hdecides] at hi
    cases hi
  | quiet _ _ hstep hrest => exact ⟨_, hstep, hrest⟩
  | _ => cases hi

theorem decide_inv {i : Instruction} (h : Yields m (i :: plan) ts m')
    (hi : isDecision i = true) : Yields m (m.decision i ++ plan) ts m' := by
  cases h with
  | repair _ hrefuses _ _ => cases i <;> first | cases hrefuses | cases hi
  | decide _ _ hrest => exact hrest
  | quiet _ hquiet _ _ =>
    rw [isQuiet_of_isDecision hi] at hquiet
    cases hquiet
  | _ => cases hi

/-- Going on takes the next token. -/
theorem first_of_decision {i : Instruction} {t : Token} (h : Yields m (i :: plan) (t :: ts) m')
    (hi : isDecision i = true) (hgoes : m.decision i ≠ []) : t.kind = m.next.kind := by
  have hwants : Plan.wants m.next.kind (m.decision i ++ plan) = true := by
    refine Plan.wants_append ?_ plan
    cases i with
    | optionalSuffix =>
      simp only [decision, Machine.optionalSuffix] at hgoes ⊢
      split at hgoes
      · rename_i hnext
        rw [hnext]
        rfl
      · exact absurd rfl hgoes
    | postfixes =>
      simp only [decision, Machine.postfixes] at hgoes ⊢
      split at hgoes
      · rename_i hnext
        rw [hnext]
        rfl
      · rename_i hnext
        rw [hnext]
        rfl
      · exact absurd rfl hgoes
    | operators tightness =>
      simp only [decision, Machine.operators] at hgoes ⊢
      split at hgoes
      · exact absurd rfl hgoes
      · rename_i hprecedence
        split at hgoes
        · exact absurd rfl hgoes
        · rename_i htight
          rw [if_neg htight]
          change m.next.kind.precedence?.isSome = true
          rw [hprecedence]
          rfl
    | otherBranch =>
      simp only [decision, Machine.otherBranch] at hgoes ⊢
      split at hgoes
      · rename_i hnext
        rw [hnext]
        rfl
      · exact absurd rfl hgoes
    | _ => cases hi
  obtain ⟨u, us, heq, hkind⟩ := (h.decide_inv hi).first_of_wants hwants
  cases heq
  exact hkind

/-- Where an operand may end, the next token is taken, or one that does not go on with it. -/
theorem first_behind_operand {q : Position} {S T : Stack} {full : Bool} {t : Token}
    (hfollows : Follows plan T q S full) (h : Yields m plan (t :: ts) m')
    (hT : m.session.stack = T) (hplan : plan.Running) (hlegal : Legal q S)
    (hq : q = .expressionRhs ∨ q = .expressionEnd) :
    t.kind = m.next.kind ∨ t.kind.goesOn = false := by
  induction hfollows generalizing m with
  | @silent P T S S' q q' hsilent hmove hrest ih =>
    obtain rfl : q = .expressionEnd := hq.resolve_left (by rintro rfl; cases hsilent)
    subst hT
    have hreads := h.reads hplan hlegal (.silent hsilent hmove hrest)
    rcases hreads.after_expression hlegal (h.unreserved t List.mem_cons_self) with
      hstop | ⟨T', rfl, hlegal', _⟩
    · exact .inr hstop
    · cases hmove
      exact ih h rfl hplan hlegal' (.inl rfl)
  | leave _ ih =>
    obtain ⟨m₁, hstep, hrest⟩ := h.quiet_inv rfl
    obtain ⟨p, T, hstack, rfl, _⟩ := step_leave_inv hstep
    rw [hT] at hstack
    cases hstack
    have hfirst := ih hrest rfl (.inl ((hplan.going nofun).tail nofun)) hlegal hq
    exact hfirst
  | switch _ ih =>
    obtain ⟨m₁, hstep, hrest⟩ := h.quiet_inv rfl
    obtain ⟨p, T, hstack, rfl, _⟩ := step_switch_inv hstep
    rw [hT] at hstack
    cases hstack
    have hfirst := ih hrest rfl (.inl ((hplan.going nofun).tail nofun)) hlegal hq
    exact hfirst
  | @build P T S q full i hbuilds _ ih =>
    have hgoing := (hplan.going (by rintro rfl; cases hbuilds)).tail (by rintro rfl; cases hbuilds)
    cases i with
    | begin | adopt | finish =>
      obtain ⟨m₁, hstep, hrest⟩ := h.quiet_inv rfl
      cases hstep
      have hfirst := ih hrest hT (.inl hgoing) hlegal hq
      exact hfirst
    | _ => cases hbuilds
  | @postfixes P T _ ih =>
    by_cases hgoes : m.decision .postfixes = []
    · have hrest := h.decide_inv rfl
      rw [hgoes] at hrest
      exact ih hrest hT (.inl ((hplan.going nofun).tail nofun)) hlegal hq
    · exact .inl (h.first_of_decision rfl hgoes)
  | @operators P T _ ih =>
    by_cases hgoes : m.decision (.operators 0) = []
    · have hrest := h.decide_inv rfl
      rw [hgoes] at hrest
      exact ih hrest hT (.inl ((hplan.going nofun).tail nofun)) (hlegal.way (by decide)) (.inr rfl)
    · exact .inl (h.first_of_decision rfl hgoes)
  | @tighter P T tightness _ ih =>
    by_cases hgoes : m.decision (.operators (tightness + 1)) = []
    · have hrest := h.decide_inv rfl
      rw [hgoes] at hrest
      exact ih hrest hT (.inl ((hplan.going nofun).tail nofun)) hlegal hq
    · exact .inl (h.first_of_decision rfl hgoes)
  | enter hopening _ _ => rcases hq with rfl | rfl <;> cases hopening
  | expect htakes _ _ _ _ => rcases hq with rfl | rfl <;> cases htakes
  | choose hchoice _ _ _ => rcases hq with rfl | rfl <;> cases hchoice
  | _ => rcases hq with h | h <;> cases h

/-! ## Decisions that hold -/

theorem primed {i : Instruction} (h : Yields m (i :: plan) ts m') : Primed m (i :: plan) := by
  cases h with
  | repair hm _ _ _ => exact hm
  | expect hm _ _ => exact hm
  | choose hm _ _ => exact hm
  | take hm _ => exact hm
  | drain hm _ => exact hm
  | decide hm _ _ => exact hm
  | quiet hm _ _ _ => exact hm

/-- A decision not to go on is right for the token that is taken next, however many are left out
before it. -/
theorem decision_eq_nil {c : Machine} {i : Instruction} {t : Token}
    (h : Yields m (i :: plan) (t :: ts) m') (hplan : Plan.Running (i :: plan))
    (hi : isDecision i = true) (hstops : m.decision i = []) (hc : c.next.kind = t.kind) :
    c.decision i = [] := by
  obtain ⟨q, S, full, hlegal, hfollows⟩ := h.primed.tracks
  have ht := h.unreserved t List.mem_cons_self
  have hrest := h.decide_inv hi
  rw [hstops] at hrest
  have hgoing := (hplan.going (by rintro rfl; cases hi)).tail (by rintro rfl; cases hi)
  have hsame (hkind : t.kind = m.next.kind) : c.decision i = [] := by
    rw [← hstops]
    exact decision_of_kind (hc.trans hkind) i
  cases i with
  | optionalSuffix =>
    obtain ⟨hpass, hends⟩ := hfollows.optionalSuffix_inv
    have hend := (hpass.legal hlegal).way (q := .typeDescEnd) (by decide)
    have hmark := (hrest.reads (.inl hgoing) hend hends).after_type hend ht
    exact if_neg (hc ▸ hmark)
  | otherBranch =>
    obtain ⟨hpass, P, T, q', S', rfl, hT, hexit, hends⟩ := hfollows.otherBranch_inv
    have hend := (hpass.legal hlegal).way (q := .ifEnd) (by decide)
    rw [hT] at hend
    have hbehind : Follows (.leave :: P) m.session.stack .ifEnd (.ifBlock :: T) false := by
      rw [hT]
      exact .ifEnd hexit hends
    have hword := (hrest.reads (.inl hgoing) hend hbehind).after_if hend ht
    exact if_neg (hc ▸ hword)
  | postfixes =>
    obtain ⟨hpass, hends⟩ := hfollows.postfixes_inv
    have hoperand := hpass.legal hlegal
    rcases first_behind_operand hends hrest rfl (.inl hgoing) hoperand (.inl rfl) with hkind | hstop
    · exact hsame hkind
    · exact postfixes_eq_nil (hc ▸ hstop)
  | operators tightness =>
    obtain ⟨_, hpass, hends, _⟩ := hfollows.operators_inv
    have hoperand := hpass.legal hlegal
    rcases first_behind_operand hends h rfl hplan hoperand (.inl rfl) with hkind | hstop
    · exact hsame hkind
    · exact operators_eq_nil (hc ▸ hstop) tightness
  | _ => cases hi

/-- A machine that looks at the token that is taken next decides alike. -/
theorem decision_eq {c : Machine} {i : Instruction} {t : Token}
    (h : Yields m (i :: plan) (t :: ts) m') (hplan : Plan.Running (i :: plan))
    (hi : isDecision i = true) (hc : c.next.kind = t.kind) : c.decision i = m.decision i := by
  by_cases hstops : m.decision i = []
  · rw [h.decision_eq_nil hplan hi hstops hc, hstops]
  · exact decision_of_kind (hc.trans (h.first_of_decision hi hstops)) i

end Yields

/-! ## The tokens of a tree -/

variable {m : Machine} {tokens : List Token} {limits : Limits}

/-- A parse takes the tokens of its tree. -/
theorem Finishes.yields (h : Finishes (.start tokens limits) program m)
    (hwords : ∀ t ∈ tokens, t.Unreserved) :
    Yields (.start tokens limits) program (m.tree.tokens.map Token.clean) m := by
  obtain ⟨ts, hyields⟩ := Yields.of_finishes h (primed_start hwords limits)
  rw [(Reached.start.of_finishes h).tokens_tree, hyields.taken]
  exact hyields

/-- The automaton accepts the tokens of a tree. -/
theorem Finishes.accepted (h : Finishes (.start tokens limits) program m)
    (hwords : ∀ t ∈ tokens, t.Unreserved) : Accepted (m.tree.tokens.map Token.clean) :=
  (h.yields hwords).reads (.inl rfl) legal_start (.enter rfl .chooseTop)

end Machine

end Mend
