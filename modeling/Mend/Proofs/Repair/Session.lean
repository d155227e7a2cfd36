import Mend.Proofs.Repair.Search
import Mend.Repair.Session

/-!
# Repairs from legal states

What a session proposes at a legal state is justified by that state: a token that is let stand can
be read there, and one that is supplied is wanted there. A proposal is made only while the limits
allow another attempt, which is what bounds the number of repairs at one token.
-/

namespace Mend

/-- A repair that a state and the next token justify. -/
structure Repair.Justified (repair : Repair) (position : Position) (stack : Stack) (next : Token) :
    Prop where
  kept : repair.action = .keep → next.kind ≠ .documentationString ∧ CanRead position stack next
  supplied : repair.action = .insert → CanSupply position stack repair.kind

theorem Repair.Justified.of_remove {repair : Repair} {p : Position} {S : Stack} {next : Token}
    (h : repair.action = .remove) : repair.Justified p S next where
  kept hkeep := by
    rw [h] at hkeep
    cases hkeep
  supplied hinsert := by
    rw [h] at hinsert
    cases hinsert

/-- Making a choice good justifies it. -/
theorem Outcome.justified_of_validate {o : Outcome} {repair repair' : Repair} {p : Position}
    {S : Stack} {next : Token} (hchoice : o.choice = some repair) (hfits : repair.Fits p S next)
    (hvalid : (o.validate p next).choice = some repair') : repair'.Justified p S next := by
  have hjustified (hkeep : repair.action = .keep → next.kind ≠ .documentationString) :
      repair.Justified p S next :=
    ⟨fun h => ⟨hkeep h, hfits.kept h (hkeep h)⟩, hfits.supplied⟩
  have hsame (h : o.choice = some repair') (hkeep : repair.action = .keep →
      next.kind ≠ .documentationString) : repair'.Justified p S next := by
    rw [hchoice, Option.some.injEq] at h
    exact h ▸ hjustified hkeep
  unfold Outcome.validate at hvalid
  cases haction : repair.action with
  | keep =>
    simp only [Outcome.choiceAction?, hchoice, Option.map_some, haction] at hvalid
    split at hvalid
    · simp only [Outcome.choose, Option.some.injEq] at hvalid
      exact .of_remove (hvalid ▸ rfl)
    · exact hsame hvalid fun _ => ‹_›
  | insert =>
    have hother : repair.action = .keep → next.kind ≠ .documentationString := by
      intro h
      rw [haction] at h
      cases h
    simp only [Outcome.choiceAction?, hchoice, Option.map_some, haction] at hvalid
    split at hvalid
    · split at hvalid
      · rename_i second _ hsecond
        simp only [Outcome.choose, Option.some.injEq] at hvalid
        exact .of_remove (hvalid ▸ hsecond.1)
      · exact hsame hvalid hother
    · exact hsame hvalid hother
  | remove =>
    simp only [Outcome.choiceAction?, hchoice, Option.map_some, haction] at hvalid
    rw [Option.some.injEq] at hvalid
    exact .of_remove (hvalid ▸ haction)

namespace Session

variable {s : Session} {p : Position} {S : Stack} {next : Token}

/-! ## The shortest way on -/

/-- The kind on the shortest way on is wanted. -/
theorem canSupply_of_shortestKind? {moves : Nat} {kind : Kind}
    (h : shortestKind? moves p S = some kind) : CanSupply p S kind := by
  induction moves generalizing p S with
  | zero => simp [shortestKind?] at h
  | succ moves ih =>
    rw [shortestKind?] at h
    split at h
    · cases h
    · rename_i hrole
      obtain ⟨path, hpath, hrest⟩ := Option.bind_eq_some_iff.1 h
      have hway := Position.mem_ways_of_mem_paths (Position.mem_paths_of_shortest? hpath)
      exact (ih hrest).of_run (.branch hway (.refl path S))
    · rename_i hrole
      split at h
      · rename_i q S' hmove
        exact (ih h).of_run (.silent (Search.isSilent_of_role? hrole) hmove (.refl q S'))
      · cases h
    · rename_i hbranch hsilent hrole
      have htakes := Position.takesToken_of_role? hrole (fun paths h => hbranch paths h) hsilent
      dsimp only at h
      split at h
      · cases h
      · rename_i hkind
        rw [Option.some.injEq] at h
        subst h
        exact ⟨p, S, .refl p S, htakes, rfl, fun habsent => hkind (.inl habsent)⟩

/-! ## Proposals -/

/-- A search from a legal state gives a justified repair, if any. -/
theorem resolution_justified (h : Legal p s.stack) : ∃ found,
    s.resolution p s.reader.peek = .ok found ∧
      ∀ repair, found = some repair → repair.Justified p s.stack s.reader.peek := by
  obtain ⟨o, repair, hok, hchoice, hfits⟩ := Search.run_answers s.limits.lookahead s.reader h
  rw [resolution, hok]
  refine ⟨_, rfl, fun repair' hfound => ?_⟩
  split at hfound
  · cases hfound
  · exact Outcome.justified_of_validate hchoice hfits hfound

theorem completion_justified (h : Legal p s.stack) : ∃ found,
    s.completion p s.reader.peek = .ok found ∧
      ∀ repair, found = some repair → repair.Justified p s.stack s.reader.peek := by
  unfold completion
  split
  · rename_i repair hshortest
    refine ⟨_, rfl, fun repair' hfound => ?_⟩
    rw [Option.some.injEq] at hfound
    obtain ⟨kind, hkind, rfl⟩ := Option.map_eq_some_iff.1 hshortest
    subst hfound
    refine ⟨fun hkeep => ?_, fun _ => canSupply_of_shortestKind? hkind⟩
    cases hkeep
  · exact resolution_justified h

/-- How often repair may be asked for at one token before the next one is left out. -/
def patience (limits : Limits) : Nat := max limits.completion limits.resolution

/-- A proposal at a legal state is justified, and the limits allow it. -/
theorem proposal_justified (h : Legal p s.stack) (completing : Bool) : ∃ found,
    s.proposal p s.reader.peek completing = .ok found ∧
      ∀ repair, found = some repair →
        repair.Justified p s.stack s.reader.peek ∧ s.attemptCount < patience s.limits := by
  unfold proposal
  split
  · rename_i hcompleting
    simp only [Bool.and_eq_true, decide_eq_true_eq] at hcompleting
    obtain ⟨found, hok, hjustified⟩ := completion_justified h
    exact ⟨found, hok, fun repair hfound =>
      ⟨hjustified repair hfound, Nat.lt_of_lt_of_le hcompleting.2 (Nat.le_max_left ..)⟩⟩
  · split
    · rename_i hcount
      obtain ⟨found, hok, hjustified⟩ := resolution_justified h
      exact ⟨found, hok, fun repair hfound =>
        ⟨hjustified repair hfound, Nat.lt_of_lt_of_le hcount (Nat.le_max_right ..)⟩⟩
    · refine ⟨none, rfl, fun repair hfound => ?_⟩
      cases hfound

end Session

end Mend
