import Mend.Proofs.Grammar.Legal
import Mend.Proofs.Token.Ahead
import Mend.Repair.Search

/-!
# Searches from legal states

A search follows every way on that the automaton has, with tokens supplied and left out at will.
From a legal state it always comes to an answer: all the states it visits are legal, and no more
than two silent positions ever follow each other, so neither a missing rule nor the bound on
silent positions can stop it.

What every outcome has in common is shown along the search that found it (`seek_induct`): its
cases are the steps that a search takes when nothing stops it.

The answer is also justified by the state it started from. A token is let stand only where a
position that takes it can be reached without reading, and one is supplied only where such a
position wants it. The exception is documentation, which the search looks over.
-/

namespace Mend

/-- A computation that gives a result went through its first part. -/
theorem Except.bind_eq_ok {ε α β : Type} {x : Except ε α} {f : α → Except ε β} {b : β}
    (h : (x >>= f) = .ok b) : ∃ a, x = .ok a ∧ f a = .ok b := by
  cases x with
  | error e => cases h
  | ok a => exact ⟨a, rfl, h⟩

namespace Position

/-! ## Silent positions in a row -/

/-- How many silent positions may follow each other from a position on. -/
def silentDepth : Position → Nat
  | .callStmt | .queryExpr | .typeDescEnd | .expressionEnd => 2
  | p => if p.isSilent then 1 else 0

theorem silentDepth_le (p : Position) : p.silentDepth ≤ 2 := by
  cases p <;> decide

theorem silentDepth_pos {p : Position} (h : p.isSilent = true) : 0 < p.silentDepth := by
  revert h
  cases p <;> decide

private theorem opening_silentDepth (p : Position) :
    p.opening?.all (fun entered => decide (entered.2.silentDepth < p.silentDepth)) = true := by
  cases p <;> decide

private theorem inside_silentDepth (production : Position) :
    (inside? .typeDescEnd production).all (fun q => decide (q.silentDepth < 2)) = true ∧
      (inside? .expressionEnd production).all (fun q => decide (q.silentDepth < 2)) = true := by
  cases production <;> decide

private theorem resumption_silentDepth (production : Position) :
    production.resumption?.all (fun q => decide (q.silentDepth < 1)) = true := by
  cases production <;> decide

private theorem silentDepth_of_stay {p q : Position} {S S' : Stack}
    (hinside : ∀ production,
      (p.inside? production).all (fun q => decide (q.silentDepth < 2)) = true)
    (h : p.stay S = .reach q S') : q.silentDepth < 2 := by
  cases S with
  | nil => simp [stay, refuse] at h
  | cons production rest =>
    have hall := hinside production
    rw [stay] at h
    cases hnext : p.inside? production with
    | none => simp [hnext, refuse] at h
    | some next =>
      simp only [hnext, Step.reach.injEq] at h
      rw [hnext] at hall
      rw [← h.1]
      simpa using hall

private theorem silentDepth_of_afterProduction {q : Position} {S S' : Stack}
    (h : afterProduction S = .reach q S') : q.silentDepth < 1 := by
  fun_induction afterProduction S with
  | case1 => simp at h
  | case2 _ ih => exact ih h
  | case3 production rest _ next hnext =>
    have hall := resumption_silentDepth production
    rw [hnext] at hall
    simp only [Step.reach.injEq] at h
    rw [← h.1]
    simpa using hall
  | case4 => simp at h

private theorem silentDepth_of_afterExpression {q : Position} {S S' : Stack}
    (h : afterExpression S = .reach q S') : q.silentDepth < 2 := by
  unfold afterExpression at h
  split at h
  case h_7 => exact silentDepth_of_stay (fun production => (inside_silentDepth production).2) h
  all_goals simp only [Step.reach.injEq, reduceCtorEq] at h
  all_goals
    obtain ⟨rfl, -⟩ := h
    decide

/-- Passing a silent position leaves fewer silent ones to come. -/
theorem silentDepth_lt_of_advance {p q : Position} {S S' : Stack} (hsilent : p.isSilent = true)
    (hmove : p.advance S = .reach q S') : q.silentDepth < p.silentDepth := by
  have hkinds : ∀ p : Position, p.isSilent = true → p.opening?.isSome = true ∨ p = .parameter ∨
      p = .typeDescEnd ∨ p = .expressionEnd ∨ p = .ifEnd := by
    intro p
    cases p <;> decide
  unfold advance at hmove
  cases hopening : p.opening? with
  | some entered =>
    have hall := opening_silentDepth p
    rw [hopening] at hall hmove
    simp only [Step.reach.injEq] at hmove
    rw [← hmove.1]
    simpa using hall
  | none =>
    rw [hopening] at hmove
    rcases hkinds p hsilent with hsome | rfl | rfl | rfl | rfl
    · simp [hopening] at hsome
    · change Step.reach .typeDescriptor S = .reach q S' at hmove
      obtain ⟨rfl, -⟩ := Step.reach.inj hmove
      decide
    · exact silentDepth_of_stay (fun production => (inside_silentDepth production).1) hmove
    · exact silentDepth_of_afterExpression hmove
    · cases S with
      | nil => exact absurd hmove (by intro h; cases h)
      | cons production rest => exact silentDepth_of_afterProduction hmove

/-! ## Roles -/

theorem role?_of_isSilent {p : Position} (h : p.isSilent = true) : p.role? = some .silent := by
  revert h
  cases p <;> decide

theorem isBranch_of_role? {p : Position} {role : Role} (h : p.role? = some role)
    (hrole : ∀ paths, role ≠ .branch paths) : p.isBranch = false := by
  cases hbranch : p.isBranch with
  | false => rfl
  | true =>
    rw [role?, if_pos hbranch, Option.some.injEq] at h
    exact absurd h.symm (hrole _)

theorem paths_of_role? {p : Position} {paths : List Position}
    (h : p.role? = some (.branch paths)) : paths = p.paths ∧ p.isBranch = true := by
  unfold role? at h
  split at h
  · rename_i hbranch
    simp only [Option.some.injEq, Role.branch.injEq] at h
    exact ⟨h.symm, hbranch⟩
  · split at h
    · simp at h
    · simp at h
    · split at h <;> simp at h

/-- What neither leaves a choice nor is silent takes a token. -/
theorem takesToken_of_role? {p : Position} {role : Role} (h : p.role? = some role)
    (hbranch : ∀ paths, role ≠ .branch paths) (hsilent : role ≠ .silent) :
    p.takesToken = true := by
  have hkinds : ∀ p : Position,
      p.isBranch = true ∨ p.isSilent = true ∨ p.takesToken = true ∨ p.role? = none := by
    intro p
    cases p <;> decide
  rcases hkinds p with hb | hs | ht | hn
  · rw [isBranch_of_role? h hbranch] at hb
    cases hb
  · rw [role?_of_isSilent hs, Option.some.injEq] at h
    exact absurd h.symm hsilent
  · exact ht
  · simp [h] at hn

theorem role?_of_takesToken {p : Position} (h : p.takesToken = true) :
    (∃ word, p.role? = some (.keyword word)) ∨ ∃ wanted, p.role? = some (.terminal wanted) := by
  have hbranch := isBranch_of_takesToken h
  unfold role?
  rw [if_neg (Bool.eq_false_iff.1 hbranch)]
  unfold takesToken at h
  cases hword : p.keyword? with
  | some word => exact .inl ⟨word, rfl⟩
  | none =>
    cases hwanted : p.tokenClass? with
    | some wanted => exact .inr ⟨wanted, rfl⟩
    | none => simp [hword, hwanted] at h

end Position

/-! ## Justified repairs -/

/-- A repair that a state and the next token justify, documentation set apart. -/
structure Repair.Fits (repair : Repair) (position : Position) (stack : Stack) (next : Token) :
    Prop where
  kept : repair.action = .keep → next.kind ≠ .documentationString → CanRead position stack next
  supplied : repair.action = .insert → CanSupply position stack repair.kind

section

variable {repair : Repair} {p q : Position} {S T : Stack} {next : Token}

/-- What a state that is reached without reading justifies is justified before. -/
theorem Repair.Fits.of_run (h : repair.Fits q T next) (hrun : Run p S [] q T) :
    repair.Fits p S next where
  kept hkeep hnext := (h.kept hkeep hnext).of_run hrun
  supplied hinsert := (h.supplied hinsert).of_run hrun

theorem Repair.Fits.of_remove (h : repair.action = .remove) : repair.Fits p S next where
  kept hkeep _ := by
    rw [h] at hkeep
    cases hkeep
  supplied hinsert := by
    rw [h] at hinsert
    cases hinsert

end

namespace Search

variable {limit : Nat} {reader : Reader} {p q : Position} {S T : Stack} {place depth : Nat}
  {entry : Bool} {o : Outcome}

/-- An outcome whose choice is made: behind the start it is always to go on, and at the start it
is a repair that the state justifies. -/
def Settled (reader : Reader) (position : Position) (stack : Stack) (place : Nat) (entry : Bool)
    (o : Outcome) : Prop :=
  ∃ repair, o.choice = some repair ∧ (entry = false → repair.action = .keep) ∧
    (entry = true → repair.Fits position stack (reader.peekN place))

/-- A search that comes to an answer from a legal state. -/
def Answers (limit : Nat) (reader : Reader) (position : Position) (place depth : Nat)
    (entry : Bool) (stack : Stack) (passed : Nat) (result : Except Breakdown Outcome) : Prop :=
  Legal position stack → passed + position.silentDepth ≤ silentLimit →
    (entry = true → depth < limit) →
    ∃ o, result = .ok o ∧ Settled reader position stack place entry o

/-- A search among some ways of a branch point that comes to an answer. -/
def AnswersAmong (limit : Nat) (reader : Reader) (paths : List Position) (place depth : Nat)
    (entry : Bool) (stack : Stack) (best : Option Outcome) (result : Except Breakdown Outcome) :
    Prop :=
  ∀ branch : Position, branch.isBranch = true → (∀ path ∈ paths, path ∈ branch.paths) →
    Legal branch stack → (entry = true → depth < limit) →
    (∀ o, best = some o → Settled reader branch stack place entry o) →
    (paths ≠ [] ∨ best.isSome = true) →
    ∃ o, result = .ok o ∧ Settled reader branch stack place entry o

/-! ## Where a position looks -/

/-- A place without documentation is where every position looks. -/
theorem placeFor_eq (h : (reader.peekN place).kind ≠ .documentationString) :
    placeFor reader p place = place := by
  have hnone : reader.documentationAt place = 0 := by
    have hpeek := reader.peekN_eq place
    unfold Reader.documentationAt
    cases hahead : reader.ahead.drop (place - 1) with
    | nil => rfl
    | cons t rest =>
      rw [hahead] at hpeek
      have ht : (t.kind == .documentationString) = false := by simpa [hpeek] using h
      simp [ht]
  simp [placeFor, Reader.skipDocumentation, hnone]

namespace Settled

/-- Going on without a choice made at the start is settled behind it. -/
theorem of_keep {repair : Repair} (hchoice : o.choice = some repair)
    (hkeep : repair.action = .keep) (hentry : entry = false) :
    Settled reader p S place entry o :=
  ⟨repair, hchoice, fun _ => hkeep, fun h => absurd (hentry.symm.trans h) (by decide)⟩

theorem of_fits {repair : Repair} (hchoice : o.choice = some repair)
    (hfits : repair.Fits p S (reader.peekN place)) (hentry : entry = true) :
    Settled reader p S place entry o :=
  ⟨repair, hchoice, fun h => absurd (hentry.symm.trans h) (by decide), fun _ => hfits⟩

/-- What is settled at a state that is reached without reading is settled before. -/
theorem of_run (h : Settled reader q T place entry o) (hrun : Run p S [] q T) :
    Settled reader p S place entry o := by
  obtain ⟨repair, hchoice, hbehind, hstart⟩ := h
  exact ⟨repair, hchoice, hbehind, fun hentry => (hstart hentry).of_run hrun⟩

/-- What is settled where a position looks is settled at the place it looks from. -/
theorem of_placeFor (h : Settled reader p S (placeFor reader q place) entry o) :
    Settled reader p S place entry o := by
  obtain ⟨repair, hchoice, hbehind, hstart⟩ := h
  refine ⟨repair, hchoice, hbehind, fun hentry => ⟨fun hkeep hnext => ?_, fun hinsert => ?_⟩⟩
  · rw [placeFor_eq hnext] at hstart
    exact (hstart hentry).kept hkeep hnext
  · exact (hstart hentry).supplied hinsert

/-- The better of two settled outcomes is settled. -/
theorem better {o' : Outcome} (h : Settled reader p S place entry o)
    (h' : Settled reader p S place entry o') : Settled reader p S place entry (o.better o') := by
  unfold Outcome.better
  repeat' split
  all_goals assumption

/-- Settling a decisive outcome of a path settles the branch point. -/
theorem settle (h : Settled reader q S place entry o) (hdecisive : o.isDecisive limit = true)
    (hpath : q ∈ p.paths) : Settled reader p S place entry (o.settle q entry) := by
  have hrun : Run p S [] q S := .branch (Position.mem_ways_of_mem_paths hpath) (.refl q S)
  obtain ⟨repair, hchoice, hbehind, hstart⟩ := h
  unfold Outcome.settle
  split
  · exact ⟨repair, hchoice, hbehind, fun hentry => (hstart hentry).of_run hrun⟩
  · rename_i hother
    refine ⟨.keep q q.expectedKind, rfl, fun _ => rfl, fun hentry => ⟨fun _ hnext => ?_, ?_⟩⟩
    · -- Neither supplying nor leaving out is left for the outcome beneath.
      have hkeep : repair.action = .keep := by
        simp only [Outcome.isDecisive, Outcome.choiceAction?, hchoice, Option.map_some,
          Bool.and_eq_true, bne_iff_ne, ne_eq, Option.some.injEq] at hdecisive
        simp only [Outcome.choiceAction?, hchoice, hentry, Option.map_some, Bool.true_and,
          beq_iff_eq, Option.some.injEq] at hother
        cases haction : repair.action with
        | insert => exact absurd haction hother
        | remove => exact absurd haction hdecisive.2
        | keep => rfl
      exact ((hstart hentry).kept hkeep hnext).of_run hrun
    · intro hinsert
      cases hinsert

end Settled

/-- The repair of a position that takes a token is settled. -/
theorem settled_chooseRepair {next : Token} {deletion : Outcome} {insertion : Option Outcome}
    (htakes : p.takesToken = true)
    (hinsertion : insertion.isSome = true → p.expectedKind ≠ .absent) :
    Settled reader p S place entry
      ((Outcome.repairAt p next depth deletion insertion).chooseRepair p entry) := by
  have hremove : Settled reader p S place entry
      ((deletion.afterRemoval p next depth).chooseRepair p entry) := by
    cases entry with
    | false => exact .of_keep rfl rfl rfl
    | true => exact .of_fits rfl (.of_remove rfl) rfl
  unfold Outcome.repairAt
  split
  · exact hremove
  · rename_i inserted
    split
    · cases entry with
      | false => exact .of_keep rfl rfl rfl
      | true =>
        refine .of_fits rfl ⟨fun hkeep => ?_, fun _ => ?_⟩ rfl
        · cases hkeep
        · exact ⟨p, S, .refl p S, htakes, rfl, hinsertion rfl⟩
    · exact hremove

/-- What holds of the best outcome so far and of the next one holds of the better of them. -/
theorem of_better {P : Outcome → Prop} {best : Option Outcome}
    (hbetter : ∀ o o', P o → P o' → P (o.better o')) (hbest : ∀ b, best = some b → P b) (h : P o) :
    ∀ b, some ((best.map (·.better o)).getD o) = some b → P b := by
  intro b hb
  rw [Option.some.injEq] at hb
  cases best with
  | none => exact hb ▸ h
  | some best => exact hb ▸ hbetter best o (hbest best rfl) h

/-! ## Searches that come to an outcome -/

/-- What holds of the outcome of every search, shown along the search itself: `P` of a search from
a position, and `Q` of one among some paths with the best outcome of those before. -/
theorem seek_induct {limit : Nat} {reader : Reader}
    (P : Position → Nat → Nat → Bool → Stack → Outcome → Prop)
    (Q : List Position → Nat → Nat → Bool → Stack → Option Outcome → Outcome → Prop)
    (branch : ∀ p place depth entry S o, depth < limit → p.isBranch = true →
      Q p.paths (placeFor reader p place) depth entry S none o → P p place depth entry S o)
    (silent : ∀ p place depth entry S q T o, depth < limit → p.isSilent = true →
      p.advance S = .reach q T → P q (placeFor reader p place) depth entry T o →
      P p place depth entry S o)
    (matched : ∀ p place depth entry S q T o, depth < limit → p.takesToken = true →
      p.accepts (reader.peekN (placeFor reader p place)) = true → p.advance S = .reach q T →
      P q (placeFor reader p place + 1) (depth + 1) false T o →
      P p place depth entry S (o.addMatched 1))
    (removed : ∀ p place depth entry S deletion, depth < limit → p.takesToken = true →
      p.accepts (reader.peekN (placeFor reader p place)) = false →
      canInsert reader p (placeFor reader p place) = false →
      P p (placeFor reader p place + 1) (depth + 1) false S deletion →
      P p place depth entry S ((deletion.afterRemoval p
        (reader.peekN (placeFor reader p place)) (depth + 1)).chooseRepair p entry))
    (repaired : ∀ p place depth entry S q T deletion insertion, depth < limit →
      p.takesToken = true → p.accepts (reader.peekN (placeFor reader p place)) = false →
      canInsert reader p (placeFor reader p place) = true → p.advance S = .reach q T →
      P p (placeFor reader p place + 1) (depth + 1) false S deletion →
      P q (placeFor reader p place) (depth + 1) false T insertion →
      P p place depth entry S ((Outcome.repairAt p (reader.peekN (placeFor reader p place))
        (depth + 1) deletion (some insertion)).chooseRepair p entry))
    (ended : ∀ p place depth entry S, ¬ depth < limit →
      P p place depth entry S ((Outcome.ofMatched 0).choose (some (.keep p .absent))))
    (best : ∀ place depth entry S o, Q [] place depth entry S (some o) o)
    (decisive : ∀ path rest place depth entry S best found,
      seek limit reader path place depth entry S 0 = .ok found → P path place depth entry S found →
      found.isDecisive limit = true →
      Q (path :: rest) place depth entry S best (found.settle path entry))
    (path : ∀ path rest place depth entry S best found o,
      seek limit reader path place depth entry S 0 = .ok found → P path place depth entry S found →
      found.isDecisive limit = false →
      Q rest place depth entry S (some ((best.map (·.better found)).getD found)) o →
      Q (path :: rest) place depth entry S best o)
    (position : Position) (place depth : Nat) (entry : Bool) (stack : Stack) (passed : Nat) :
    ∀ o, seek limit reader position place depth entry stack passed = .ok o →
      P position place depth entry stack o := by
  refine seek.induct_unfolding limit reader
    (fun p place depth entry S _ result => ∀ o, result = .ok o → P p place depth entry S o)
    (fun paths place depth entry S best result => ∀ o, result = .ok o →
      Q paths place depth entry S best o)
    ?norole ?branch ?cycle ?stuck ?silent ?blocked ?matched ?repaired ?limit ?best ?none ?path
    position place depth entry stack passed
  case norole =>
    intro p place depth entry S passed _ _ o hok
    cases hok
  case branch =>
    intro p place depth entry S passed hdepth here paths hrole ih o hok
    obtain ⟨rfl, hbranch⟩ := Position.paths_of_role? hrole
    exact branch p place depth entry S o hdepth hbranch (ih o hok)
  case cycle =>
    intro p place depth entry S passed _ _ _ o hok
    cases hok
  case stuck =>
    intro p place depth entry S passed _ _ _ error _ _ o hok
    cases hok
  case silent =>
    intro p place depth entry S passed hdepth here hrole _ q T hmove ih o hok
    exact silent p place depth entry S q T o hdepth (isSilent_of_role? hrole) hmove (ih o hok)
  case blocked =>
    intro p place depth entry S passed _ here next role _ _ _ _ error _ _ o hok
    cases hok
  case matched =>
    intro p place depth entry S passed hdepth here next role hbranch hsilent hrole haccepts q T
      hmove ih o hok
    obtain ⟨rest, hrest, hadd⟩ := Except.bind_eq_ok hok
    cases hadd
    exact matched p place depth entry S q T rest hdepth
      (Position.takesToken_of_role? hrole hbranch hsilent) haccepts hmove (ih rest hrest)
  case repaired =>
    intro p place depth entry S passed hdepth here next role hbranch hsilent hrole hrejects
      ihdeletion ihinsertion o hok
    have htakes := Position.takesToken_of_role? hrole hbranch hsilent
    have hrejects : p.accepts (reader.peekN here) = false := by simpa using hrejects
    obtain ⟨deletion, hdeletion, hok⟩ := Except.bind_eq_ok hok
    have hremoval := ihdeletion deletion hdeletion
    dsimp only at hok
    split at hok
    · rename_i hcan
      split at hok
      · cases hok
      · rename_i q T hmove
        obtain ⟨insertion, hinsertion, hok⟩ := Except.bind_eq_ok hok
        cases hok
        exact repaired p place depth entry S q T deletion insertion hdepth htakes hrejects hcan
          hmove hremoval (ihinsertion q T insertion hinsertion)
    · rename_i hcan
      cases hok
      exact removed p place depth entry S deletion hdepth htakes hrejects (by simpa using hcan)
        hremoval
  case limit =>
    intro p place depth entry S passed hlimit o hok
    cases hok
    exact ended p place depth entry S hlimit
  case best =>
    intro place depth entry S o o' hok
    cases hok
    exact best place depth entry S o
  case none =>
    intro place depth entry S o hok
    cases hok
  case path =>
    intro place depth entry S best route rest ih ihrest o hok
    obtain ⟨found, hfound, hok⟩ := Except.bind_eq_ok hok
    split at hok
    · rename_i hdecisive
      cases hok
      exact decisive route rest place depth entry S best found hfound (ih found hfound) hdecisive
    · rename_i hdecisive
      exact path route rest place depth entry S best found o hfound (ih found hfound)
        (by simpa using hdecisive) (ihrest found o hok)

/-! ## The answer -/

/-- Where nothing has been passed in silence yet, the limit on that is far away. -/
theorem silentDepth_le_silentLimit (p : Position) : 0 + p.silentDepth ≤ silentLimit := by
  have := p.silentDepth_le
  unfold silentLimit
  omega

/-- Every search from a legal state comes to an answer. -/
theorem seek_answers (limit : Nat) (reader : Reader) (position : Position) (place depth : Nat)
    (entry : Bool) (stack : Stack) (passed : Nat) :
    Answers limit reader position place depth entry stack passed
      (seek limit reader position place depth entry stack passed) := by
  refine seek.induct_unfolding limit reader (Answers limit reader) (AnswersAmong limit reader)
    ?norole ?branch ?cycle ?stuck ?silent ?blocked ?matched ?repaired ?limit ?best ?none ?path
    position place depth entry stack passed
  case norole =>
    intro p place depth entry S passed _ hrole hlegal _ _
    exact absurd (Position.role?_eq_none_iff.1 hrole) hlegal.searched
  case branch =>
    intro p place depth entry S passed _ here paths hrole ih hlegal _ hstart
    obtain ⟨rfl, hbranch⟩ := Position.paths_of_role? hrole
    have hsome : p.paths ≠ [] := by
      intro hnil
      simp [Position.isBranch, hnil] at hbranch
    obtain ⟨o, hok, hsettled⟩ := ih p hbranch (fun _ h => h) hlegal hstart
      (fun _ h => by simp at h) (.inl hsome)
    exact ⟨o, hok, hsettled.of_placeFor⟩
  case cycle =>
    intro p place depth entry S passed _ hrole hcycle _ hpassed _
    have hsilent := Position.silentDepth_pos (isSilent_of_role? hrole)
    omega
  case stuck =>
    intro p place depth entry S passed _ hrole _ error _ hmove hlegal _ _
    obtain ⟨q, S', hreach, _⟩ :=
      hlegal.advance (Position.isBranch_of_isSilent (isSilent_of_role? hrole))
    rw [hreach] at hmove
    cases hmove
  case silent =>
    intro p place depth entry S passed _ here hrole _ q S' hmove ih hlegal hpassed hstart
    have hsilent := isSilent_of_role? hrole
    have hless := Position.silentDepth_lt_of_advance hsilent hmove
    obtain ⟨o, hok, hsettled⟩ :=
      ih (hlegal.reach (Position.isBranch_of_isSilent hsilent) hmove) (by omega) hstart
    exact ⟨o, hok, (hsettled.of_run (.silent hsilent hmove (.refl q S'))).of_placeFor⟩
  case blocked =>
    intro p place depth entry S passed _ here next role hbranch _ hrole _ error _ hmove hlegal _ _
    obtain ⟨q, S', hreach, _⟩ := hlegal.advance (Position.isBranch_of_role? hrole hbranch)
    rw [hreach] at hmove
    cases hmove
  case matched =>
    intro p place depth entry S passed _ here next role hbranch _ hrole haccepts q S' hmove ih
      hlegal _ _
    have hlegal' := hlegal.reach (Position.isBranch_of_role? hrole hbranch) hmove
    obtain ⟨o, hok, repair, hchoice, hkeep, _⟩ :=
      ih hlegal' (silentDepth_le_silentLimit q) (fun h => by cases h)
    rw [hok]
    refine ⟨o.addMatched 1, rfl, repair, hchoice, fun _ => hkeep rfl, fun _ => ?_⟩
    refine ⟨fun _ hnext => ?_, fun hinsert => ?_⟩
    · rw [← placeFor_eq hnext]
      exact ⟨p, S, .refl p S, haccepts⟩
    · rw [hkeep rfl] at hinsert
      cases hinsert
  case repaired =>
    intro p place depth entry S passed _ here next role hbranch hsilent hrole _ ihdeletion
      ihinsertion hlegal _ _
    have htakes := Position.takesToken_of_role? hrole hbranch hsilent
    obtain ⟨deletion, hdeletion, _⟩ :=
      ihdeletion hlegal (silentDepth_le_silentLimit p) (fun h => by cases h)
    obtain ⟨q, S', hmove, hlegal'⟩ := hlegal.advance (Position.isBranch_of_takesToken htakes)
    obtain ⟨insertion, hinsertion, _⟩ :=
      ihinsertion q S' hlegal' (silentDepth_le_silentLimit q) (fun h => by cases h)
    rw [hdeletion, hmove]
    by_cases hcan : canInsert reader p here = true
    · simp only [if_pos hcan]
      rw [hinsertion]
      refine ⟨_, rfl, settled_chooseRepair htakes fun _ => ?_⟩
      simp only [canInsert, Bool.and_eq_true, bne_iff_ne] at hcan
      exact hcan.1
    · simp only [if_neg hcan]
      exact ⟨_, rfl, settled_chooseRepair htakes fun h => by cases h⟩
  case limit =>
    intro p place depth entry S passed hlimit _ _ hstart
    cases entry with
    | false => exact ⟨_, rfl, .of_keep rfl rfl rfl⟩
    | true => exact absurd (hstart rfl) hlimit
  case best =>
    intro place depth entry S o branch _ _ _ _ hbest _
    exact ⟨o, rfl, hbest o rfl⟩
  case none =>
    intro place depth entry S branch _ _ _ _ _ hsome
    simp at hsome
  case path =>
    intro place depth entry S best path rest ih ihrest branch hbranch hpaths hlegal hstart hbest _
    have hpath := hpaths path List.mem_cons_self
    obtain ⟨o, hok, hsettled⟩ := ih (hlegal.path hpath) (silentDepth_le_silentLimit path) hstart
    rw [hok]
    by_cases hdecisive : o.isDecisive limit = true
    · exact ⟨o.settle path entry, by simp [bind, Except.bind, hdecisive, pure, Except.pure],
        hsettled.settle hdecisive hpath⟩
    · have hrun : Run branch S [] path S :=
        .branch (Position.mem_ways_of_mem_paths hpath) (.refl path S)
      have hbetter := of_better (P := Settled reader branch S place entry)
        (fun _ _ h h' => h.better h') hbest (hsettled.of_run hrun)
      obtain ⟨o', hok', hsettled'⟩ := ihrest o branch hbranch
        (fun p hp => hpaths p (List.mem_cons_of_mem _ hp)) hlegal hstart hbetter (.inr rfl)
      exact ⟨o', by simp [bind, Except.bind, hdecisive, hok'], hsettled'⟩

/-- The answer at the next token, from a legal state. -/
theorem run_answers (lookahead : Nat) (reader : Reader) (h : Legal p S) :
    ∃ o repair, run lookahead reader p S = .ok o ∧ o.choice = some repair ∧
      repair.Fits p S reader.peek := by
  have hsteps : 0 < steps lookahead := by
    unfold steps
    omega
  obtain ⟨o, hok, repair, hchoice, _, hfits⟩ :=
    seek_answers (steps lookahead) reader p 1 0 true S 0 h (silentDepth_le_silentLimit p)
      (fun _ => hsteps)
  exact ⟨o, repair, hok, hchoice, hfits rfl⟩

end Search

end Mend
