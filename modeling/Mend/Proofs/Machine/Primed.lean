import Mend.Proofs.Machine.Step
import Mend.Proofs.Plan.Wants

/-!
# Machines that are primed

Among tokens that do not pass for reserved words repair is simpler than it looks. A supplied token
is wanted by the plan until it is taken, so a repair is only ever asked for when nothing is
supplied; and then the next token of the input does not fit, so repair never lets it stand. What a
repair does is to leave that token out or to supply one before it, and the machine is then at the
same instruction as before.
-/

namespace Mend

/-- The plan of a declaration with documentation before it. -/
def Plan.documented : Plan := continuation .topLevelNode (.kind .documentationString)

private theorem documented_table : Position.all.all (fun b => !b.isChoice ||
    Kind.all.all fun k => !(Plan.continuation b (.kind k)).contains (.expect .docString) ||
      b == .topLevelNode && k == .documentationString) = true := by
  decide +kernel

/-- Documentation is expected only where it stands between declarations. -/
theorem Plan.documented_of_mem {b : Position} {k : Kind} (hb : b.isChoice = true)
    (h : .expect .docString ∈ continuation b (.kind k)) :
    b = .topLevelNode ∧ k = .documentationString := by
  have htable := Position.of_all documented_table b
  simp only [hb, Bool.not_true, Bool.false_or, List.all_eq_true, Bool.or_eq_true,
    Bool.not_eq_true', Bool.and_eq_true, beq_iff_eq] at htable
  refine (htable k k.mem_all).resolve_left fun hnot => ?_
  rw [List.contains_iff_mem.2 h] at hnot
  cases hnot

namespace Position

theorem wants_expectedKind_of_ne {p : Position} (htakes : p.takesToken = true)
    (hp : p ≠ .docString) : p.wants p.expectedKind = true := by
  refine wants_expectedKind htakes ?_
  revert htakes hp
  cases p <;> decide

end Position

theorem Reader.mem_of_mem_read {t : Token} (r : Reader) (h : t ∈ r.read.2.ahead) :
    t ∈ r.ahead := by
  unfold read at h
  split at h
  · exact h
  · rename_i hahead
    rw [hahead]
    exact List.mem_cons_of_mem _ h

theorem Reader.ofTokens_append {body : List Token} {last : Token} (h : last.kind = .eof) :
    ofTokens (body ++ [last]) = ⟨[], body, last⟩ := by
  simp [ofTokens, h]

theorem Reader.mem_of_mem_ofTokens {t : Token} {tokens : List Token}
    (h : t ∈ (ofTokens tokens).ahead) : t ∈ tokens := by
  unfold ofTokens at h
  split at h
  · cases h
  · split at h
    · exact List.dropLast_subset _ h
    · exact h

namespace Machine

/-- Documentation is expected only where it comes next, nothing being supplied before it. -/
def Documented (m : Machine) (plan : Plan) : Prop :=
  .expect .docString ∈ plan → m.supplied = none ∧
    m.session.reader.peek.kind = .documentationString ∧
    (plan = Plan.documented ∨ plan = Plan.documented.tail)

/-- Documentation that is expected is not expected behind another instruction. -/
theorem Documented.not_mem {m : Machine} {plan : Plan} {i : Instruction}
    (h : Documented m (i :: plan)) (hi : i ≠ .begin) : .expect .docString ∉ plan := by
  intro hmem
  obtain ⟨_, _, heq | heq⟩ := h (List.mem_cons_of_mem _ hmem)
  · cases heq
    exact hi rfl
  · cases heq
    revert hmem
    decide

/-- How the machine decides never leads to documentation. -/
theorem docString_not_mem_decision (m : Machine) (i : Instruction) :
    .expect .docString ∉ m.decision i := by
  cases i with
  | optionalSuffix =>
    change _ ∉ m.optionalSuffix
    unfold Machine.optionalSuffix
    split <;> decide
  | postfixes =>
    change _ ∉ m.postfixes
    unfold Machine.postfixes
    split <;> decide
  | operators tightness =>
    change _ ∉ m.operators tightness
    unfold Machine.operators
    split
    · exact List.not_mem_nil
    · split
      · exact List.not_mem_nil
      · simp
  | otherBranch =>
    change _ ∉ m.otherBranch
    unfold Machine.otherBranch
    split <;> decide
  | _ => exact List.not_mem_nil

/-- What only changes the stack or the tree comes before documentation or does not matter to it. -/
theorem Documented.quiet {m m' : Machine} {plan : Plan} {i : Instruction}
    (h : Documented m (i :: plan)) (hsupplied : m'.supplied = m.supplied)
    (hreader : m'.session.reader = m.session.reader) : Documented m' plan := by
  intro hmem
  obtain ⟨hnone, hdoc, heq | heq⟩ := h (List.mem_cons_of_mem _ hmem)
  · rw [hsupplied, hreader]
    cases heq
    exact ⟨hnone, hdoc, .inr rfl⟩
  · cases heq
    exact absurd hmem (by decide)

/-- A sound machine of which a supplied token is wanted until it is taken, and documentation is
expected only where it comes next. -/
structure Primed (m : Machine) (plan : Plan) : Prop extends Sound m plan where
  wanted : ∀ t ∈ m.supplied, plan.wants t.kind = true ∧ t.kind ≠ .documentationString
  blank : ∀ t ∈ m.supplied, t.text = ""
  unreserved : ∀ t ∈ m.session.reader.ahead, t.Unreserved
  documented : Documented m plan

/-- Whether an instruction needs another token than the next one. -/
def refuses (m : Machine) : Instruction → Bool
  | .expect p => !p.accepts m.next
  | .choose b => !b.admits m.next.kind
  | _ => false

/-- The outcomes of a repair: the next token of the input is left out, or one that the instruction
wants is supplied. -/
inductive Repairs (m : Machine) (i : Instruction) : Machine → Prop
  | leaveOut (hnext : m.session.reader.peek.kind ≠ .eof) : Repairs m i m.leaveOut
  | supply {k : Kind} (hwants : i.wants k false = true) (hdoc : k ≠ .documentationString) :
      Repairs m i (m.attempt.provide k)
  | supplyAtEnd {k : Kind} (hwants : i.wants k false = true) (hdoc : k ≠ .documentationString) :
      Repairs m i (m.provide k)

theorem next_of_supplied {m : Machine} {t : Token} (h : m.supplied = some t) : m.next = t := by
  rw [next, h, Option.getD_some]

theorem wants_of_refuses {m : Machine} {i : Instruction} (h : m.refuses i = true) (rest : Bool) :
    i.wants m.next.kind rest = false := by
  cases i with
  | expect p =>
    refine Bool.eq_false_iff.2 fun hwants => ?_
    simp [refuses, Position.accepts_of_wants hwants] at h
  | choose b =>
    change b.admits m.next.kind = false
    simpa [refuses] using h
  | _ => cases h

/-- Where another token is needed than the next one, documentation is not expected. -/
theorem Documented.not_mem_of_refuses {m : Machine} {plan : Plan} {i : Instruction}
    (h : Documented m (i :: plan)) (hrefuses : m.refuses i = true) :
    .expect .docString ∉ i :: plan := by
  intro hmem
  obtain ⟨hnone, hdoc, heq | heq⟩ := h hmem
  · cases heq
    cases hrefuses
  · cases heq
    have haccepts : Position.docString.accepts m.next = true := by
      rw [next, hnone]
      exact Position.accepts_of_wants (by rw [Option.getD_none, hdoc]; rfl)
    simp [refuses, haccepts] at hrefuses

namespace Primed

variable {m m' n : Machine} {plan plan' : Plan} {i : Instruction} {p b : Position}

theorem peekN_unreserved (h : Primed m plan) (k : Nat) :
    (m.session.reader.peekN k).Unreserved := by
  rw [Reader.peekN, List.getD_eq_getElem?_getD]
  cases hk : m.session.reader.ahead[k - 1]? with
  | none =>
    intro hname
    rw [Option.getD_none, h.last] at hname
    cases hname
  | some t => exact h.unreserved t (List.mem_of_getElem? hk)

theorem peek_unreserved (h : Primed m plan) : m.session.reader.peek.Unreserved :=
  h.peekN_unreserved 1

theorem next_unreserved (h : Primed m plan) : m.next.Unreserved := by
  cases hsupplied : m.supplied with
  | none =>
    rw [next, hsupplied]
    exact h.peek_unreserved
  | some t =>
    rw [next, hsupplied, Option.getD_some]
    intro _
    rw [h.blank t hsupplied]
    decide

/-- An instruction that needs another token has none supplied, and it is no documentation. -/
theorem of_refuses (h : Primed m (i :: plan)) (hrefuses : m.refuses i = true) :
    m.supplied = none ∧ .expect .docString ∉ i :: plan := by
  have hnone : m.supplied = none := by
    refine Option.eq_none_iff_forall_not_mem.2 fun t ht => ?_
    have hwants := (h.wanted t ht).1
    have hnext := next_of_supplied ht
    rw [Plan.wants_cons, ← hnext, wants_of_refuses hrefuses] at hwants
    cases hwants
  exact ⟨hnone, h.documented.not_mem_of_refuses hrefuses⟩

theorem docString_not_mem (h : Primed m (i :: plan)) (hi : i ≠ .begin) :
    .expect .docString ∉ plan :=
  h.documented.not_mem hi

/-! ## Repairs -/

theorem of_repairs (h : Primed m (i :: plan)) (hrefuses : m.refuses i = true)
    (hrepairs : m.Repairs i n) : Primed n (i :: plan) := by
  obtain ⟨hnone, hmem⟩ := h.of_refuses hrefuses
  have hwanted {k : Kind} (hwants : i.wants k false = true) :
      Plan.wants k (i :: plan) = true :=
    Plan.wants_append (P := [i]) hwants plan
  cases hrepairs with
  | leaveOut hnext =>
    refine ⟨h.of_keeps (.leaveOut m) h.tracks, fun t ht => (nomatch ht), fun t ht => (nomatch ht),
      fun t ht => ?_, fun hdoc => absurd hdoc hmem⟩
    exact h.unreserved t (m.session.reader.mem_of_mem_read ht)
  | supply hwants hdoc =>
    refine ⟨h.of_keeps ((Keeps.attempt m).trans (.provide _ _)) h.tracks, ?_, ?_, h.unreserved,
      fun hdoc => absurd hdoc hmem⟩ <;> rintro t ⟨⟩
    · exact ⟨hwanted hwants, hdoc⟩
    · rfl
  | supplyAtEnd hwants hdoc =>
    refine ⟨h.of_keeps (.provide m _) h.tracks, ?_, ?_, h.unreserved,
      fun hdoc => absurd hdoc hmem⟩ <;> rintro t ⟨⟩
    · exact ⟨hwanted hwants, hdoc⟩
    · rfl

/-! ## Asking for a repair -/

theorem step_expect (haccepts : p.accepts m.next = true) (plan : Plan) :
    m.step (.expect p) plan = .ok (m.take, plan) := by
  rw [step, Machine.expect, if_pos haccepts]

theorem step_choose (hadmits : b.admits m.next.kind = true) (plan : Plan) :
    m.step (.choose b) plan =
      .ok (m, Plan.continuation b (.kind m.next.kind) ++ plan) := by
  rw [step, Machine.choose, if_pos hadmits]

theorem step_expect_of_refuses (hrefuses : m.refuses (.expect p) = true) (plan : Plan) :
    m.step (.expect p) plan = (m.repair p >>= fun result =>
      if result.1.action = .remove then .ok (result.2, .expect p :: plan)
      else .ok (result.2.take, plan)) := by
  have hrejects : p.accepts m.next = false := by simpa [refuses] using hrefuses
  rw [step, expect, if_neg (Bool.eq_false_iff.1 hrejects)]
  rfl

theorem step_choose_of_refuses (hrefuses : m.refuses (.choose b) = true) (plan : Plan) :
    m.step (.choose b) plan = (m.repair b >>= fun result =>
      match result.2.choiceOf b result.1 with
      | none => .ok (result.2, .choose b :: plan)
      | some choice => .ok (result.2, Plan.continuation b choice ++ plan)) := by
  have hrejects : b.admits m.next.kind = false := by simpa [refuses] using hrefuses
  rw [step, choose, if_neg (Bool.eq_false_iff.1 hrejects)]
  rfl

/-- A step at which repair is asked for goes on only if there is one. -/
theorem exists_repair_of_step (hi : i = .expect p ∨ i = .choose p) (hrefuses : m.refuses i = true)
    (hstep : m.step i plan = .ok (m', plan')) : ∃ r n, m.repair p = .ok (r, n) := by
  rcases hi with rfl | rfl
  · rw [step_expect_of_refuses hrefuses] at hstep
    obtain ⟨⟨r, n⟩, hrepair, _⟩ := Except.bind_eq_ok hstep
    exact ⟨r, n, hrepair⟩
  · rw [step_choose_of_refuses hrefuses] at hstep
    obtain ⟨⟨r, n⟩, hrepair, _⟩ := Except.bind_eq_ok hstep
    exact ⟨r, n, hrepair⟩

/-- When a repair has left a token out, the instruction is tried again. -/
theorem step_of_removed {r : Repair} (hi : i = .expect p ∨ i = .choose p)
    (hrefuses : m.refuses i = true) (hrepair : m.repair p = .ok (r, n))
    (hremove : r.action = .remove) : m.step i plan = .ok (n, i :: plan) := by
  rcases hi with rfl | rfl
  · rw [step_expect_of_refuses hrefuses, hrepair]
    exact if_pos hremove
  · rw [step_choose_of_refuses hrefuses, hrepair]
    simp only [bind, Except.bind, choiceOf, hremove]

/-- When a repair has supplied a token that fits, the instruction is done as with that one there. -/
theorem step_of_supplied {r : Repair} (hi : i = .expect p ∨ i = .choose p)
    (hrefuses : m.refuses i = true) (hrepair : m.repair p = .ok (r, n))
    (hinsert : r.action = .insert) (hfits : n.refuses i = false)
    (hkind : n.next.kind = r.resolved) : m.step i plan = n.step i plan := by
  rcases hi with rfl | rfl
  · have haccepts : p.accepts n.next = true := by simpa [refuses] using hfits
    rw [step_expect haccepts, step_expect_of_refuses hrefuses, hrepair]
    exact if_neg (by rw [hinsert]; decide)
  · have hadmits : p.admits n.next.kind = true := by simpa [refuses] using hfits
    rw [step_choose hadmits, step_choose_of_refuses hrefuses, hrepair]
    simp only [bind, Except.bind, choiceOf, hinsert, hkind]

/-- Where repair is asked for, the automaton cannot read the next token. -/
theorem not_canRead (h : Primed m (i :: plan)) (hi : i = .expect p ∨ i = .choose p)
    (hrefuses : m.refuses i = true) :
    ¬ CanRead p m.session.stack m.session.reader.peek := by
  intro hread
  have hnext : m.next = m.session.reader.peek := by
    rw [next, (h.of_refuses hrefuses).1, Option.getD_none]
  rcases hi with rfl | rfl
  · obtain ⟨htakes, _⟩ := h.tracks.expect
    simp [refuses, hnext, Position.accepts_of_canRead htakes hread] at hrefuses
  · obtain ⟨hchoice, _⟩ := h.tracks.legal_choose
    simp [refuses, hnext, Position.admits_of_canRead hchoice h.peek_unreserved hread] at hrefuses

/-- Where an instruction asks for a repair, its position is legal, and what can be supplied there
is wanted. -/
theorem wants_of_asked (h : Primed m (i :: plan)) (hi : i = .expect p ∨ i = .choose p)
    (hrefuses : m.refuses i = true) :
    Legal p m.session.stack ∧ (p.takesToken || p.isChoice) = true ∧
      (∀ k, CanSupply p m.session.stack k → i.wants k false = true) ∧
      i.wants p.expectedKind false = true := by
  rcases hi with rfl | rfl
  · obtain ⟨htakes, _, hlegal, _⟩ := h.tracks.expect
    have hp : p ≠ .docString := by
      rintro rfl
      exact (h.of_refuses hrefuses).2 List.mem_cons_self
    exact ⟨hlegal, by rw [htakes, Bool.true_or],
      fun k hsupply => Position.wants_of_canSupply htakes hsupply,
      Position.wants_expectedKind_of_ne htakes hp⟩
  · obtain ⟨hchoice, hlegal⟩ := h.tracks.legal_choose
    exact ⟨hlegal, by rw [hchoice, Bool.or_true],
      fun k hsupply => Position.admits_of_canSupply hchoice hsupply,
      Plan.admits_expectedKind hchoice⟩

/-- A repair leaves the next token out, and the instruction is tried again; or it supplies a token
that is wanted, and the instruction is done with that one there. -/
theorem repair_cases {r : Repair} (h : Primed m (i :: plan)) (hi : i = .expect p ∨ i = .choose p)
    (hrefuses : m.refuses i = true) (hrepair : m.repair p = .ok (r, n)) :
    m.Repairs i n ∧
      (r.action = .remove ∧ m.step i plan = .ok (n, i :: plan) ∨
        r.action = .insert ∧ m.step i plan = n.step i plan ∧ n.refuses i = false ∧
          ∃ t, n.supplied = some t ∧ t.missing = true) := by
  obtain ⟨hlegal, hp, hwants, hexpected⟩ := h.wants_of_asked hi hrefuses
  have hsupplied (hrepairs : m.Repairs i n) (hinsert : r.action = .insert) {t : Token}
      (ht : n.supplied = some t) (hmissing : t.missing = true) (hkind : t.kind = r.resolved) :
      r.action = .insert ∧ m.step i plan = n.step i plan ∧ n.refuses i = false ∧
        ∃ t, n.supplied = some t ∧ t.missing = true := by
    have hfits : n.refuses i = false := by
      refine Bool.eq_false_iff.2 fun hrefuses' => ?_
      rw [((h.of_repairs hrefuses hrepairs).of_refuses hrefuses').1] at ht
      cases ht
    have hnext : n.next.kind = r.resolved := by rw [next, ht, Option.getD_some, hkind]
    exact ⟨hinsert, step_of_supplied hi hrefuses hrepair hinsert hfits hnext, hfits, t, ht,
      hmissing⟩
  have hspec := repair_spec hlegal hp h.supply
  rw [hrepair] at hspec
  cases hspec with
  | removed haction hnext =>
    exact ⟨.leaveOut hnext, .inl ⟨haction, step_of_removed hi hrefuses hrepair haction⟩⟩
  | kept _ _ _ hread _ => exact absurd hread (h.not_canRead hi hrefuses)
  | supplied haction _ hsupply _ =>
    have hrepairs : m.Repairs i (m.attempt.provide r.resolved) :=
      .supply (hwants _ hsupply) (Position.kind_ne_documentation_of_canSupply hsupply)
    exact ⟨hrepairs, .inr (hsupplied hrepairs haction rfl rfl rfl)⟩
  | suppliedAtEnd haction _ hkind =>
    have hrepairs : m.Repairs i (m.provide r.resolved) :=
      hkind ▸ .supplyAtEnd hexpected p.expectedKind_ne_documentation
    exact ⟨hrepairs, .inr (hsupplied hrepairs haction rfl rfl rfl)⟩

/-- A step at which repair is asked for leaves a token out, or is done with one supplied. -/
theorem asked_inv (h : Primed m (i :: plan)) (hi : i = .expect p ∨ i = .choose p)
    (hrefuses : m.refuses i = true) (hstep : m.step i plan = .ok (m', plan')) :
    ∃ n, m.Repairs i n ∧ (m' = n ∧ plan' = i :: plan ∨
      n.refuses i = false ∧ n.step i plan = .ok (m', plan')) := by
  obtain ⟨r, n, hrepair⟩ := exists_repair_of_step hi hrefuses hstep
  obtain ⟨hrepairs, ⟨_, hagain⟩ | ⟨_, hsame, hfits, _⟩⟩ := h.repair_cases hi hrefuses hrepair
  · rw [hagain] at hstep
    cases hstep
    exact ⟨_, hrepairs, .inl ⟨rfl, rfl⟩⟩
  · exact ⟨n, hrepairs, .inr ⟨hfits, hsame ▸ hstep⟩⟩

/-! ## Taking a token -/

theorem supplied_take (m : Machine) : m.take.supplied = none := by
  unfold Machine.take
  split
  · rfl
  · assumption

theorem leftOut_take (m : Machine) : m.take.leftOut = [] := by
  unfold Machine.take
  split <;> rfl

theorem mem_ahead_take {t : Token} (ht : t ∈ m.take.session.reader.ahead) :
    t ∈ m.session.reader.ahead := by
  unfold Machine.take at ht
  split at ht
  · exact ht
  · exact m.session.reader.mem_of_mem_read ht

/-- Behind a token nothing is supplied. -/
theorem of_take (h : Primed m (i :: plan)) (hi : i ≠ .begin) (hsound : Sound m.take plan) :
    Primed m.take plan := by
  refine ⟨hsound, fun t ht => ?_, fun t ht => ?_, fun t ht => h.unreserved t (mem_ahead_take ht),
    fun hmem => absurd hmem (h.docString_not_mem hi)⟩ <;>
    · rw [supplied_take] at ht
      cases ht

theorem take (h : Primed m (.expect p :: plan)) (haccepts : p.accepts m.next = true) :
    Primed m.take plan :=
  h.of_take nofun (h.step (step_expect haccepts plan))

/-- The outcomes of one try to take a token. -/
inductive Expects (m : Machine) (p : Position) (plan : Plan) : Machine → Plan → Prop
  | accepted (haccepts : p.accepts m.next = true) : Expects m p plan m.take plan
  | removed {n : Machine} (hrefuses : m.refuses (.expect p) = true)
      (hrepairs : m.Repairs (.expect p) n) : Expects m p plan n (.expect p :: plan)
  | supplied {n : Machine} (hrefuses : m.refuses (.expect p) = true)
      (hrepairs : m.Repairs (.expect p) n) (haccepts : p.accepts n.next = true) :
      Expects m p plan n.take plan

theorem expect_inv (h : Primed m (.expect p :: plan))
    (hstep : m.step (.expect p) plan = .ok (m', plan')) : Expects m p plan m' plan' := by
  cases hrefuses : m.refuses (.expect p) with
  | false =>
    have haccepts : p.accepts m.next = true := by simpa [refuses] using hrefuses
    rw [step_expect haccepts] at hstep
    cases hstep
    exact .accepted haccepts
  | true =>
    obtain ⟨n, hrepairs, ⟨rfl, rfl⟩ | ⟨hfits, hdone⟩⟩ := h.asked_inv (.inl rfl) hrefuses hstep
    · exact .removed hrefuses hrepairs
    · have haccepts : p.accepts n.next = true := by simpa [refuses] using hfits
      rw [step_expect haccepts] at hdone
      cases hdone
      exact .supplied hrefuses hrepairs haccepts

/-! ## Making a choice -/

/-- Where a branch point is resolved, what it leads to is to be done. -/
theorem goOn (h : Primed m (.choose b :: plan)) (hadmits : b.admits m.next.kind = true) :
    Primed m (Plan.continuation b (.kind m.next.kind) ++ plan) := by
  obtain ⟨hchoice, hlegal⟩ := h.tracks.legal_choose
  refine ⟨h.step (step_choose hadmits plan), fun t ht => ?_, h.blank, h.unreserved,
    fun hmem => ?_⟩
  · have hnext := next_of_supplied ht
    rw [hnext] at hadmits ⊢
    exact ⟨Plan.wants_continuation hchoice hadmits plan, (h.wanted t ht).2⟩
  · rcases List.mem_append.1 hmem with hmem | hmem
    · obtain ⟨rfl, hdoc⟩ := Plan.documented_of_mem hchoice hmem
      have hnone : m.supplied = none := by
        refine Option.eq_none_iff_forall_not_mem.2 fun t ht => (h.wanted t ht).2 ?_
        rw [next, ht] at hdoc
        exact hdoc
      obtain ⟨q, S, full, _, hfollows⟩ := h.tracks
      obtain ⟨_, _, ⟨q', S', hexit, _⟩ | ⟨_, rfl, _⟩⟩ := hfollows.choose_inv
      · cases hexit
      · rw [hdoc]
        rw [next, hnone] at hdoc
        exact ⟨hnone, hdoc, .inl (List.append_nil _)⟩
    · exact absurd hmem (h.docString_not_mem (by simp))

/-- The outcomes of one try to resolve a branch point. -/
inductive Chooses (m : Machine) (b : Position) (plan : Plan) : Machine → Plan → Prop
  | admitted (hadmits : b.admits m.next.kind = true) :
      Chooses m b plan m (Plan.continuation b (.kind m.next.kind) ++ plan)
  | removed {n : Machine} (hrefuses : m.refuses (.choose b) = true)
      (hrepairs : m.Repairs (.choose b) n) : Chooses m b plan n (.choose b :: plan)
  | supplied {n : Machine} (hrefuses : m.refuses (.choose b) = true)
      (hrepairs : m.Repairs (.choose b) n) (hadmits : b.admits n.next.kind = true) :
      Chooses m b plan n (Plan.continuation b (.kind n.next.kind) ++ plan)

theorem choose_inv (h : Primed m (.choose b :: plan))
    (hstep : m.step (.choose b) plan = .ok (m', plan')) : Chooses m b plan m' plan' := by
  cases hrefuses : m.refuses (.choose b) with
  | false =>
    have hadmits : b.admits m.next.kind = true := by simpa [refuses] using hrefuses
    rw [step_choose hadmits] at hstep
    cases hstep
    exact .admitted hadmits
  | true =>
    obtain ⟨n, hrepairs, ⟨rfl, rfl⟩ | ⟨hfits, hdone⟩⟩ := h.asked_inv (.inr rfl) hrefuses hstep
    · exact .removed hrefuses hrepairs
    · have hadmits : b.admits n.next.kind = true := by simpa [refuses] using hfits
      rw [step_choose hadmits] at hdone
      cases hdone
      exact .supplied hrefuses hrepairs hadmits

/-! ## The other instructions -/

/-- An instruction that only changes the stack or the tree. -/
theorem of_quiet (h : Primed m (i :: plan)) (hstep : m.step i plan = .ok (m', plan'))
    (hplan : plan' = plan) (hwants : ∀ k rest, i.wants k rest = rest)
    (hsupplied : m'.supplied = m.supplied) (hreader : m'.session.reader = m.session.reader) :
    Primed m' plan' := by
  subst hplan
  refine ⟨h.step hstep, fun t ht => ?_, hsupplied ▸ h.blank, hreader ▸ h.unreserved,
    h.documented.quiet hsupplied hreader⟩
  have hwanted := h.wanted t (hsupplied ▸ ht)
  rwa [Plan.wants_cons, hwants] at hwanted

/-- An instruction that only decides how to go on. -/
theorem of_decides (h : Primed m (i :: plan)) (hi : isDecision i = true)
    (hwants : ∀ t ∈ m.supplied, Plan.wants t.kind (m.decision i ++ plan) = true) :
    Primed m (m.decision i ++ plan) := by
  refine ⟨h.step (step_decision hi m plan), fun t ht => ⟨hwants t ht, (h.wanted t ht).2⟩, h.blank,
    h.unreserved, fun hmem => ?_⟩
  rcases List.mem_append.1 hmem with hmem | hmem
  · exact absurd hmem (docString_not_mem_decision m i)
  · exact absurd hmem (h.docString_not_mem (by rintro rfl; cases hi))

theorem wants_optionalSuffix (h : Plan.wants m.next.kind (.optionalSuffix :: plan) = true) :
    Plan.wants m.next.kind (m.optionalSuffix ++ plan) = true := by
  rw [Plan.wants_cons] at h
  unfold Machine.optionalSuffix
  split
  · rename_i hmark
    rw [hmark]
    rfl
  · rename_i hmark
    simpa [Instruction.wants, hmark] using h

theorem of_optionalSuffix (h : Primed m (.optionalSuffix :: plan)) :
    Primed m (m.optionalSuffix ++ plan) := by
  refine h.of_decides rfl fun t ht => ?_
  have hnext := next_of_supplied ht
  have hwants := (h.wanted t ht).1
  rw [← hnext] at hwants ⊢
  exact wants_optionalSuffix hwants

/-- Nothing is supplied where an operand or a conditional may go on. -/
theorem supplied_of_wants (h : Primed m (i :: plan)) (hwants : ∀ k rest, i.wants k rest = false) :
    m.supplied = none := by
  refine Option.eq_none_iff_forall_not_mem.2 fun t ht => ?_
  have hwanted := (h.wanted t ht).1
  rw [Plan.wants_cons, hwants] at hwanted
  cases hwanted

theorem of_goesOn (h : Primed m (i :: plan)) (hi : isDecision i = true)
    (hwants : ∀ k rest, i.wants k rest = false) : Primed m (m.decision i ++ plan) := by
  refine h.of_decides hi fun t ht => ?_
  rw [h.supplied_of_wants hwants] at ht
  cases ht

/-- Every step keeps a machine primed. -/
theorem next_step (h : Primed m (i :: plan)) (hstep : m.step i plan = .ok (m', plan')) :
    Primed m' plan' := by
  cases i with
  | expect p =>
    cases h.expect_inv hstep with
    | accepted haccepts => exact h.take haccepts
    | removed hrefuses hrepairs => exact h.of_repairs hrefuses hrepairs
    | supplied hrefuses hrepairs haccepts => exact (h.of_repairs hrefuses hrepairs).take haccepts
  | choose b =>
    cases h.choose_inv hstep with
    | admitted hadmits => exact h.goOn hadmits
    | removed hrefuses hrepairs => exact h.of_repairs hrefuses hrepairs
    | supplied hrefuses hrepairs hadmits => exact (h.of_repairs hrefuses hrepairs).goOn hadmits
  | enter | leave | switch | begin | adopt | finish =>
    obtain ⟨hkept, hplan⟩ := unchanged_of_quiet rfl hstep
    exact h.of_quiet hstep hplan (fun _ _ => rfl) hkept.supplied hkept.reader
  | take =>
    cases hstep
    exact h.of_take nofun (h.step rfl)
  | drain =>
    cases hstep
    exact ⟨h.step rfl, fun t ht => (nomatch ht), fun t ht => (nomatch ht),
      fun t ht => h.unreserved t (List.mem_of_mem_drop ht),
      fun hmem => absurd hmem (h.docString_not_mem nofun)⟩
  | optionalSuffix =>
    cases hstep
    exact h.of_optionalSuffix
  | postfixes | operators | otherBranch =>
    cases hstep
    exact h.of_goesOn rfl fun _ _ => rfl

end Primed

/-- A machine at the start of tokens that do not pass for reserved words is primed. -/
theorem primed_start {tokens : List Token} (h : ∀ t ∈ tokens, t.Unreserved) (limits : Limits) :
    Primed (.start tokens limits) program :=
  ⟨sound_start tokens limits, fun t ht => (nomatch ht), fun t ht => (nomatch ht),
    fun t ht => h t (Reader.mem_of_mem_ofTokens ht), fun hmem => absurd hmem (by decide)⟩

end Machine

end Mend
