import Mend.Proofs.Grammar.Operand
import Mend.Proofs.Machine.Bound
import Mend.Proofs.Machine.Replay

/-!
# Runs that need no repair

On tokens that the automaton reads the machine asks for no repair. Where it expects a token, the
automaton reads that token; where it makes a choice, the first token decides for one way, and the
automaton has taken it. Where the automaton has a choice left, the machine goes on as long as it
can, and so can the automaton: a name that starts a statement may be the name of a type or not, and
behind an operand the automaton may go on inside an expression or behind it.
-/

namespace Mend

namespace Reads

variable {S T : Stack} {t : Token} {ts : List Token}

private theorem nameWays_table :
    (∀ way ∈ Position.statement.ways, way.starts .identifier = true →
      way = .statementStartIdentifier ∨ way = .varDecl) ∧
    (∀ way ∈ Position.varDeclTypeStart.ways, way.starts .identifier = true →
      way = .typeDescriptor) ∧
    ∀ way ∈ Position.typeDescriptor.ways, way.starts .identifier = true →
      way = .typeReference := by
  decide +kernel

/-- A declaration that starts with the name of a type can be read as a statement that starts with
a name. -/
theorem named_of_varDecl (hname : t.kind = .identifier) (ht : t.Unreserved)
    (h : Reads .varDecl T (t :: ts)) : Reads .statementStartIdentifier T (t :: ts) := by
  obtain ⟨_, htype, hreference⟩ := nameWays_table
  have hdecl : Reads .varDeclTypeStart (.varDecl :: T) (t :: ts) := h.silent rfl rfl
  obtain ⟨_, way, hway, hstarts, hreads⟩ := hdecl.choice ht rfl
  obtain rfl := htype way hway (hname ▸ hstarts)
  obtain ⟨_, way, hway, hstarts, hreads⟩ := hreads.choice ht rfl
  obtain rfl := hreference way hway (hname ▸ hstarts)
  obtain ⟨_, _, heq, _, hrest⟩ := hreads.read rfl nofun rfl
  cases heq
  have hbehind : Reads .varDeclAfterTypeRef T ts := hrest.of_silent rfl rfl
  have hrhs : Reads .statementStartIdentifierRhs T ts := hbehind.of_way (by decide)
  refine hrhs.of_read (Position.accepts_of_wants ?_) rfl
  rw [hname]
  rfl

/-- A statement that starts with a name can be read as one whatever the name is of. -/
theorem named (hname : t.kind = .identifier) (ht : t.Unreserved)
    (h : Reads .statement T (t :: ts)) : Reads .statementStartIdentifier T (t :: ts) := by
  obtain ⟨_, way, hway, hstarts, hreads⟩ := h.choice ht rfl
  rcases nameWays_table.1 way hway (hname ▸ hstarts) with rfl | rfl
  · exact hreads
  · exact hreads.named_of_varDecl hname ht

end Reads

/-- A kind that neither accesses nor calls and is no operator does not go on with an operand. -/
theorem Kind.goesOn_eq_false {k : Kind} (hdot : k ≠ .dot) (hcall : k ≠ .openParen)
    (hoperator : k.precedence? = none) : k.goesOn = false := by
  revert hdot hcall hoperator
  cases k <;> decide

namespace Token.IsInput

variable {t : Token} {ts us : List Token}

/-- Only the last token is the end of the input. -/
theorem eq_nil_of_eof (h : IsInput (t :: us)) (ht : t.kind = .eof) : us = [] := by
  obtain ⟨body, last, heq, _, hbody, _⟩ := h
  cases body with
  | nil => exact (List.cons.inj heq).2
  | cons u body =>
    obtain ⟨rfl, _⟩ := List.cons.inj heq
    exact absurd ht (hbody t List.mem_cons_self)

theorem tail (h : IsInput (t :: us)) (hus : us ≠ []) : IsInput us := by
  obtain ⟨body, last, heq, hlast, hbody, hplain⟩ := h
  cases body with
  | nil => exact absurd (List.cons.inj heq).2 hus
  | cons u body =>
    exact ⟨body, last, (List.cons.inj heq).2, hlast,
      fun v hv => hbody v (List.mem_cons_of_mem u hv),
      fun v hv => hplain v (List.mem_cons_of_mem t hv)⟩

end Token.IsInput

namespace Machine

/-- The automaton can read some tokens where a plan follows it. Behind a complete operand there is
no access and no call. -/
def Suits (plan : Plan) (T : Stack) (ts : List Token) : Prop :=
  ∃ q S full, Legal q S ∧ Follows plan T q S full ∧ Reads q S ts ∧
    (full = true → ∀ t ∈ ts.head?, t.kind ≠ .dot ∧ t.kind ≠ .openParen)

namespace Suits

variable {m : Machine} {plan : Plan} {T S : Stack} {p q b : Position} {t : Token}
  {ts us : List Token}

theorem of_reads (hlegal : Legal q S) (hfollows : Follows plan T q S false) (h : Reads q S ts) :
    Suits plan T ts :=
  ⟨q, S, false, hlegal, hfollows, h, nofun⟩

theorem ne_nil (h : Suits plan T ts) : ts ≠ [] := by
  obtain ⟨_, _, _, _, _, ⟨body, last, _, rfl, _⟩, _⟩ := h
  exact List.append_ne_nil_of_right_ne_nil body (List.cons_ne_nil last [])

theorem expect (h : Suits (.expect p :: plan) T (t :: us)) :
    p.accepts t = true ∧ Suits plan T us := by
  obtain ⟨q, S, full, hlegal, hfollows, hreads, _⟩ := h
  obtain ⟨htakes, hend, hpass, q', S', hmove, hrest⟩ := hfollows.expect_inv
  obtain ⟨_, _, heq, haccepts, hbehind⟩ := (hpass.reads hreads).read htakes hend hmove
  cases heq
  have hlegal' := (hpass.legal hlegal).reach (Position.isBranch_of_takesToken htakes) hmove
  exact ⟨haccepts, .of_reads hlegal' hrest hbehind⟩

theorem choose (h : Suits (.choose b :: plan) T (t :: us)) (ht : t.Unreserved) :
    b.admits t.kind = true ∧ Suits (Plan.continuation b (.kind t.kind) ++ plan) T (t :: us) := by
  obtain ⟨q, S, full, hlegal, hfollows, hreads, _⟩ := h
  obtain ⟨hchoice, hpass, _⟩ := hfollows.choose_inv
  have hhere := hpass.legal hlegal
  have hreads := hpass.reads hreads
  obtain ⟨hadmits, way, hway, hstarts, hway_reads⟩ := hreads.choice ht hchoice
  refine ⟨hadmits, ?_⟩
  rcases Plan.continuation_of_starts hchoice hway hstarts with heq | ⟨rfl, hname⟩
  · rw [heq]
    exact .of_reads (hhere.way hway) (hfollows.choose_way hhere hway) hway_reads
  · -- The machine does not ask whose name it is, so it may have left the way of the automaton.
    have hnamed : .statementStartIdentifier ∈ Position.statement.ways := by decide
    have heq : Plan.continuation .statement (.kind .identifier) =
        Plan.via .statement .statementStartIdentifier := rfl
    rw [hname, heq]
    exact .of_reads (hhere.way hnamed) (hfollows.choose_way hhere hnamed) (hreads.named hname ht)

theorem quiet {i : Instruction} (h : Suits (i :: plan) m.session.stack ts)
    (hi : isQuiet i = true) :
    ∃ m₁, m.step i plan = .ok (m₁, plan) ∧ Suits plan m₁.session.stack ts := by
  obtain ⟨q, S, full, hlegal, hfollows, hreads, hclear⟩ := h
  obtain ⟨m₁, q', S', full', hstep, hpass, hrest, hfull⟩ := passes_of_quiet hfollows hi
  exact ⟨m₁, hstep, q', S', full', hpass.legal hlegal, hrest, hpass.reads hreads,
    fun hcomplete => hclear (hfull hcomplete)⟩

/-! ## Decisions -/

theorem optionalSuffix (h : Suits (.optionalSuffix :: plan) T (m.next :: us))
    (ht : m.next.Unreserved) : Suits (m.optionalSuffix ++ plan) T (m.next :: us) := by
  obtain ⟨q, S, full, hlegal, hfollows, hreads, _⟩ := h
  obtain ⟨hpass, hrest⟩ := hfollows.optionalSuffix_inv
  obtain ⟨way, hway, hreads⟩ := (hpass.reads hreads).way rfl
  have hlegal' := (hpass.legal hlegal).way hway
  change way ∈ [.questionMark, .typeDescEnd] at hway
  simp only [List.mem_cons, List.not_mem_nil, or_false] at hway
  unfold Machine.optionalSuffix
  rcases hway with rfl | rfl
  · rw [if_pos (beq_iff_eq.1 (hreads.wants ht rfl))]
    exact .of_reads hlegal' hrest.optionalType hreads
  · rw [if_neg (hreads.after_type hlegal' ht)]
    exact .of_reads hlegal' hrest hreads

theorem otherBranch (h : Suits (.otherBranch :: plan) T (m.next :: us))
    (ht : m.next.Unreserved) : Suits (m.otherBranch ++ plan) T (m.next :: us) := by
  obtain ⟨q, S, full, hlegal, hfollows, hreads, _⟩ := h
  obtain ⟨hpass, P', T', q', S', rfl, rfl, hexit, hrest⟩ := hfollows.otherBranch_inv
  obtain ⟨way, hway, hreads⟩ := (hpass.reads hreads).way rfl
  have hlegal' := (hpass.legal hlegal).way hway
  change way ∈ [.elseKeyword, .ifEnd] at hway
  simp only [List.mem_cons, List.not_mem_nil, or_false] at hway
  unfold Machine.otherBranch
  rcases hway with rfl | rfl
  · rw [if_pos (beq_iff_eq.1 (hreads.wants ht rfl))]
    exact .of_reads hlegal' (.elseClause hexit hrest) hreads
  · rw [if_neg (hreads.after_if hlegal' ht)]
    exact .of_reads hlegal' (.ifEnd hexit hrest) hreads

theorem postfixes (h : Suits (.postfixes :: plan) T (m.next :: us))
    (ht : m.next.Unreserved) : Suits (m.postfixes ++ plan) T (m.next :: us) := by
  obtain ⟨q, S, full, hlegal, hfollows, hreads, _⟩ := h
  obtain ⟨hpass, hrest⟩ := hfollows.postfixes_inv
  have hoperand := hpass.legal hlegal
  have hreads := hpass.reads hreads
  unfold Machine.postfixes
  split
  · rename_i hnext
    have hdot : .dot ∈ Position.expressionRhs.ways := by decide
    have hinner := hreads.goesOn hoperand ht hdot (by decide) (by rw [hnext]; rfl)
    exact .of_reads (hoperand.way hdot) hrest.fieldAccess hinner
  · rename_i hnext
    have hcall : .argList ∈ Position.expressionRhs.ways := by decide
    have hinner := hreads.goesOn hoperand ht hcall (by decide) (by rw [hnext]; rfl)
    exact .of_reads (hoperand.way hcall) (.callExpr hoperand.afterArguments hrest) hinner
  · -- What the machine has seen here is what the operators behind the operand rely on.
    rename_i hdot hcall
    refine ⟨_, _, true, hoperand, hrest, hreads, fun _ t ht => ?_⟩
    cases ht
    exact ⟨hdot, hcall⟩

theorem operators {tightness : Nat} (h : Suits (.operators tightness :: plan) T (m.next :: us))
    (ht : m.next.Unreserved) : Suits (m.operators tightness ++ plan) T (m.next :: us) := by
  obtain ⟨q, S, full, hlegal, hfollows, hreads, hclear⟩ := h
  obtain ⟨hfull, hpass, hhere, hrest⟩ := hfollows.operators_inv
  obtain ⟨hdot, hcall⟩ := hclear hfull m.next rfl
  have hoperand := hpass.legal hlegal
  have hreads := hpass.reads hreads
  have hdone (hstop : tightness = 0 → m.next.kind.goesOn = false) :
      Suits plan T (m.next :: us) := by
    rcases hrest with ⟨hzero, hend⟩ | htighter
    · exact .of_reads (hoperand.way (by decide)) hend (hreads.stops ht (hstop hzero))
    · exact ⟨_, _, true, hoperand, htighter, hreads, fun _ => hclear hfull⟩
  -- A loop that ends hands the operand on to the looser one around it; only where there is none
  -- does the expression end with it.
  unfold Machine.operators
  split
  · rename_i hnone
    exact hdone fun _ => Kind.goesOn_eq_false hdot hcall hnone
  · rename_i precedence hprecedence
    split
    · rename_i hloose
      exact hdone fun hzero => absurd hloose (by omega)
    · have hbinary : m.next.kind.isBinaryOperator = true := by
        rw [Kind.isBinaryOperator, hprecedence]
        rfl
      have hway : .binaryOperator ∈ Position.expressionRhs.ways := by decide
      have hinner := hreads.goesOn hoperand ht hway (by decide) (Position.starts_of_wants hbinary)
      exact .of_reads (hoperand.way hway) hhere.binaryExpr hinner

/-- However the machine decides on the first token, the automaton reads that. -/
theorem decision {i : Instruction} (h : Suits (i :: plan) T (m.next :: us))
    (hi : isDecision i = true) (ht : m.next.Unreserved) :
    Suits (m.decision i ++ plan) T (m.next :: us) := by
  cases i with
  | optionalSuffix => exact h.optionalSuffix ht
  | postfixes => exact h.postfixes ht
  | operators tightness => exact h.operators ht
  | otherBranch => exact h.otherBranch ht
  | _ => cases hi

end Suits

/-! ## Machines that nothing is reported of -/

variable {m : Machine} {plan : Plan} {t : Token} {ts us : List Token}

/-- A machine that no repair has touched, with some tokens before it. -/
structure Untouched (ts : List Token) (m : Machine) : Prop where
  supplied : m.supplied = none
  leftOut : m.leftOut = []
  awaits : m.Awaits ts
  silent : m.taken.flatMap Tree.tokenDiagnostics = []

namespace Untouched

theorem next_eq (h : Untouched (t :: us) m) : m.next = t := h.awaits.next_eq h.supplied

theorem take (h : Untouched (t :: us) m) (ht : t.IsPlain) : Untouched us m.take := by
  refine ⟨Primed.supplied_take m, Primed.leftOut_take m, h.awaits.take h.supplied, ?_⟩
  have hsilent : Tree.tokenDiagnostics (t.precededBy []) = [] := by
    simp [Tree.tokenDiagnostics, Token.precededBy, ht.leading, ht.diagnostics]
  rw [taken_take, h.next_eq, h.leftOut, List.flatMap_append, h.silent, List.nil_append]
  simp [hsilent]

theorem quiet {m₁ : Machine} {i : Instruction} (h : Untouched ts m) (hi : isQuiet i = true)
    (hstep : m.step i plan = .ok (m₁, plan)) : Untouched ts m₁ := by
  have hkept := (unchanged_of_quiet hi hstep).1
  refine ⟨hkept.supplied.trans h.supplied, hkept.leftOut.trans h.leftOut, fun hts => ?_, ?_⟩
  · rw [hkept.reader]
    exact h.awaits hts
  · rw [taken_of_quiet hi hstep]
    exact h.silent

/-- Before the last token there is nothing to leave out. -/
theorem drain (h : Untouched [t] m) : Untouched [t] m.drain := by
  have hpending : m.session.reader.pending = 0 := by
    rw [Reader.pending, h.awaits.ahead_eq_nil]
    rfl
  obtain ⟨hreader, hleftOut⟩ := drain_of_pending hpending
  refine ⟨rfl, hleftOut.trans h.leftOut, fun hts => ?_, h.silent⟩
  rw [hreader]
  exact h.awaits hts

end Untouched

/-- How far a parse without repair has come: until the end of the input is met the automaton can
read what is before the machine, and then the end is taken. -/
inductive Smooth : Machine → Plan → Prop
  | going {m : Machine} {plan : Plan} {ts : List Token} (hplan : plan.Running)
      (hinput : Token.IsInput ts) (hwords : ∀ t ∈ ts, t.Unreserved) (h : Untouched ts m)
      (hsuits : Suits plan m.session.stack ts) : Smooth m plan
  | closed {m : Machine} {t : Token} (ht : t.IsPlain) (h : Untouched [t] m)
      (hstack : m.session.stack = [.compUnit]) : Smooth m Plan.closing.tail
  | taken {m : Machine} (h : Untouched [] m) (hstack : m.session.stack = [.compUnit]) :
      Smooth m [.leave]
  | done {m : Machine} (h : Untouched [] m) : Smooth m []

namespace Smooth

variable {i : Instruction} {p b : Position}

/-- What one step does without repair. -/
def Steps (m : Machine) (i : Instruction) (plan : Plan) : Prop :=
  ∃ m' plan', m.step i plan = .ok (m', plan') ∧ Smooth m' plan'

theorem steps_expect (hgoing : Plan.Going (.expect p :: plan)) (hinput : Token.IsInput (t :: us))
    (hwords : ∀ u ∈ t :: us, u.Unreserved) (h : Untouched (t :: us) m)
    (hsuits : Suits (.expect p :: plan) m.session.stack (t :: us)) : Steps m (.expect p) plan := by
  obtain ⟨haccepts, hrest⟩ := hsuits.expect
  rw [← h.next_eq] at haccepts
  have huntouched := h.take (hinput.isPlain t List.mem_cons_self)
  refine ⟨m.take, plan, Primed.step_expect haccepts plan, ?_⟩
  exact .going (.inl (hgoing.tail nofun)) (hinput.tail hrest.ne_nil)
    (fun u hu => hwords u (List.mem_cons_of_mem t hu)) huntouched ((Keeps.take m).stack ▸ hrest)

theorem steps_choose (hgoing : Plan.Going (.choose b :: plan)) (hinput : Token.IsInput (t :: us))
    (hwords : ∀ u ∈ t :: us, u.Unreserved) (h : Untouched (t :: us) m)
    (hsuits : Suits (.choose b :: plan) m.session.stack (t :: us)) : Steps m (.choose b) plan := by
  obtain ⟨q, S, full, _, hfollows, _⟩ := id hsuits
  have hchoice := hfollows.choose_inv.1
  obtain ⟨hadmits, hrest⟩ := hsuits.choose (hwords t List.mem_cons_self)
  rw [← h.next_eq] at hadmits hrest
  refine ⟨m, _, Primed.step_choose hadmits plan, ?_⟩
  have hrunning := hgoing.continuation hchoice (Choice.arises_kind b m.next.kind)
  exact .going hrunning (h.next_eq ▸ hinput) (h.next_eq ▸ hwords) (h.next_eq ▸ h) hrest

theorem steps_drain (hinput : Token.IsInput (t :: us)) (hwords : ∀ u ∈ t :: us, u.Unreserved)
    (h : Untouched (t :: us) m) (hsuits : Suits (.drain :: plan) m.session.stack (t :: us)) :
    Steps m .drain plan := by
  obtain ⟨q, S, full, _, hfollows, hreads, _⟩ := hsuits
  obtain ⟨rfl, hstack, hpass⟩ := hfollows.drain_inv
  have hends := (hpass.reads hreads).canRead
  have haccepts := Position.accepts_of_canRead rfl hends
  have hkind := Position.wants_of_accepts (hwords t List.mem_cons_self) haccepts
  obtain rfl := hinput.eq_nil_of_eof (beq_iff_eq.1 hkind)
  exact ⟨m.drain, _, rfl, .closed (hinput.isPlain t List.mem_cons_self) h.drain hstack⟩

/-- A step that a smooth parse takes asks for no repair. -/
theorem steps (h : Smooth m (i :: plan)) : Steps m i plan := by
  generalize hwhole : i :: plan = whole at h
  cases h with
  | @going _ ts hplan hinput hwords h hsuits =>
    subst hwhole
    obtain ⟨t, us, rfl⟩ := List.exists_cons_of_ne_nil hsuits.ne_nil
    cases i with
    | expect p => exact steps_expect (hplan.going nofun) hinput hwords h hsuits
    | choose b => exact steps_choose (hplan.going nofun) hinput hwords h hsuits
    | drain => exact steps_drain hinput hwords h hsuits
    | take =>
      obtain ⟨q, S, full, _, hfollows, _⟩ := hsuits
      obtain ⟨rfl, _⟩ := hfollows.take_inv
      cases hplan.going nofun
    | enter | leave | switch | begin | adopt | finish =>
      obtain ⟨m₁, hstep, hrest⟩ := hsuits.quiet rfl
      exact ⟨m₁, plan, hstep,
        .going (.inl ((hplan.going nofun).tail nofun)) hinput hwords (h.quiet rfl hstep) hrest⟩
    | optionalSuffix | postfixes | operators | otherBranch =>
      have hnext := h.next_eq
      subst hnext
      have hrest := hsuits.decision rfl (hwords m.next List.mem_cons_self)
      have hgoing := (hplan.going nofun).tail nofun
      exact ⟨m, _, rfl, .going (.inl (hgoing.append _)) hinput hwords h hrest⟩
  | closed ht h hstack =>
    cases hwhole
    exact ⟨_, _, rfl, .taken (h.take ht) ((Keeps.take m).stack.trans hstack)⟩
  | taken h hstack =>
    cases hwhole
    have hstep : m.step .leave [] = .ok (m.onStack [], []) := step_leave hstack
    exact ⟨_, _, hstep, .done (h.quiet rfl hstep)⟩
  | done h => cases hwhole

/-- A smooth parse comes to its end without repair. -/
theorem run {fuel : Nat} (h : Smooth m plan) (hended : Ended (run fuel m plan)) :
    ∃ m', run fuel m plan = .done m' ∧ Untouched [] m' := by
  induction fuel generalizing m plan with
  | zero =>
    cases plan with
    | nil =>
      cases h with
      | going hplan _ _ _ _ => rcases hplan with h | h <;> cases h
      | done h => exact ⟨m, rfl, h⟩
    | cons i plan => cases hended
  | succ fuel ih =>
    cases plan with
    | nil =>
      cases h with
      | going hplan _ _ _ _ => rcases hplan with h | h <;> cases h
      | done h => exact ⟨m, rfl, h⟩
    | cons i plan =>
      obtain ⟨m', plan', hstep, hsmooth⟩ := h.steps
      rw [Machine.run, hstep] at hended ⊢
      exact ih hsmooth hended

end Smooth

/-- A parse of tokens that the automaton accepts is smooth. -/
theorem smooth_start (limits : Limits) (hinput : Token.IsInput ts) (hwords : ∀ t ∈ ts, t.Unreserved)
    (h : Accepted ts) : Smooth (.start ts limits) program := by
  have hawaits : (start ts limits).Awaits ts := by
    obtain ⟨body, last, rfl, hlast, _⟩ := hinput
    intro _
    simp [start, Session.start, Reader.ofTokens, hlast]
  exact .going (.inl rfl) hinput hwords ⟨rfl, rfl, hawaits, rfl⟩
    (.of_reads legal_start (.enter rfl .chooseTop) h)

end Machine

end Mend
