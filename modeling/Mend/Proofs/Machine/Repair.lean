import Mend.Machine
import Mend.Proofs.Grammar.First
import Mend.Proofs.Repair.Session

/-!
# What a repair does to the machine

A repair leaves the next token out, lets it stand, or supplies a token before it; or the session
gives up, which is the only way in which a repair fails at a legal state. `Repaired` lists these
outcomes once, with what justifies each of them, so that later arguments need not look into the
session or the search.
-/

namespace Mend

namespace Session

/-- The shortest way on starts with the kind that is supplied, wherever there is one. -/
theorem shortestKind?_eq {p : Position} {S : Stack} {kind : Kind}
    (hp : (p.takesToken || p.isChoice) = true)
    (h : shortestKind? Search.silentLimit p S = some kind) : kind = p.expectedKind := by
  revert hp h
  cases p <;> first
    | exact fun hp _ => absurd hp (by decide)
    | exact fun _ h => (Option.some.inj h).symm
    | exact fun _ h => nomatch h

/-- At the end of the input the kind that a position expects is supplied. -/
theorem recoverAtEnd_eq {s : Session} {p : Position}
    (hp : (p.takesToken || p.isChoice) = true) :
    s.recoverAtEnd p = s.apply (.insert p p.expectedKind) := by
  unfold recoverAtEnd shortestInsertion?
  cases hkind : shortestKind? Search.silentLimit p s.stack with
  | none => rfl
  | some kind =>
    rw [shortestKind?_eq hp hkind]
    rfl

end Session

namespace Machine

/-- The machine after an attempt at repair that read nothing. -/
def attempt (m : Machine) : Machine :=
  { m with session := m.session.recordAttempt, supplied := none }

/-- The machine with the next token of the input left out. -/
def leaveOut (m : Machine) : Machine :=
  { m with
    session := { m.session.recordAttempt with reader := m.session.reader.read.2 }
    supplied := none
    leftOut := m.leftOut ++ [reject m.session.reader.peek] }

/-- The machine with a token of a kind supplied before the next one of the input. -/
def provide (m : Machine) (kind : Kind) : Machine :=
  { m with
    supplied := some
      (.supplied kind m.session.reader.peek.line (.missing kind m.session.reader.peek.line)) }

/-- The outcomes of a repair at a legal state. -/
inductive Repaired (m : Machine) (p : Position) : Except Breakdown (Repair × Machine) → Prop
  | exhausted (index count : Nat) : Repaired m p (.error (.exhausted p index count))
  | removed {r : Repair} (haction : r.action = .remove)
      (hnext : m.session.reader.peek.kind ≠ .eof) : Repaired m p (.ok (r, m.leaveOut))
  | kept {r : Repair} (haction : r.action = .keep) (hnext : m.session.reader.peek.kind ≠ .eof)
      (hdoc : m.session.reader.peek.kind ≠ .documentationString)
      (hread : CanRead p m.session.stack m.session.reader.peek)
      (hcount : m.attempt.session.attemptCount < Session.patience m.session.limits) :
      Repaired m p (.ok (r, m.attempt))
  | supplied {r : Repair} (haction : r.action = .insert)
      (hnext : m.session.reader.peek.kind ≠ .eof)
      (hsupply : CanSupply p m.session.stack r.resolved)
      (hcount : m.attempt.session.attemptCount < Session.patience m.session.limits) :
      Repaired m p (.ok (r, m.attempt.provide r.resolved))
  | suppliedAtEnd {r : Repair} (haction : r.action = .insert)
      (hnext : m.session.reader.peek.kind = .eof) (hkind : r.resolved = p.expectedKind) :
      Repaired m p (.ok (r, m.provide r.resolved))

theorem repair_spec {m : Machine} {p : Position} (hlegal : Legal p m.session.stack)
    (hp : (p.takesToken || p.isChoice) = true) (hsupply : m.session.supply = Token.missingOf) :
    Repaired m p (m.repair p) := by
  unfold repair
  by_cases hnext : m.session.reader.peek.kind = .eof
  · simp only [Session.recover, if_pos hnext, Session.recoverAtEnd_eq hp, Session.apply,
      Repair.insert, Repair.propose, hsupply]
    exact .suppliedAtEnd rfl hnext rfl
  · simp only [Session.recover, if_neg hnext]
    have hlegal' : Legal p m.session.recordAttempt.stack := hlegal
    have hsupply' : m.session.recordAttempt.supply = Token.missingOf := hsupply
    have hread : m.session.recordAttempt.reader.read.1 = m.session.reader.peek :=
      Reader.read_fst _
    obtain ⟨found, hok, hjustified⟩ :=
      Session.proposal_justified hlegal' (completes m.session.reader.peek m.session.stack)
    change m.session.recordAttempt.proposal p m.session.reader.peek _ = .ok found at hok
    simp only [Session.recoverAttempt, hok]
    cases found with
    | none =>
      by_cases hcount :
          m.session.recordAttempt.attemptCount = m.session.recordAttempt.limits.completion
      · simp only [if_pos hcount]
        exact .exhausted _ _
      · simp only [if_neg hcount, Session.apply, Repair.remove, Repair.propose]
        simp only [hread]
        exact .removed rfl hnext
    | some r =>
      obtain ⟨hr, hcount⟩ := hjustified r rfl
      cases haction : r.action with
      | keep =>
        simp only [Session.apply, haction]
        exact .kept haction hnext (hr.kept haction).1 (hr.kept haction).2 hcount
      | insert =>
        simp only [Session.apply, haction, hsupply']
        exact .supplied rfl hnext (hr.supplied haction) hcount
      | remove =>
        simp only [Session.apply, haction, hread]
        exact .removed rfl hnext

end Machine

end Mend
