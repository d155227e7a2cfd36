import Mend.Proofs.Repair.Window
import Mend.Proofs.Token.Shape
import Mend.Repair.Session

/-!
# Shapes of repairs

Over the shapes of the tokens ahead a search comes to the shape of what it comes to over the
tokens: every part of it commutes with taking shapes. It looks at a text only to tell whether a
name is spelled like a reserved word, and none is. A text gets into a repair, though: one that
leaves a token out names it. So the shape of a repair keeps its text only if the repair is another.
-/

namespace Mend

/-- Follow-ups that agree up to a map of their arguments and results agree up to it in sequence. -/
theorem Except.bind_eq_map {ε α α' β β' : Type} {x : Except ε α} {x' : Except ε α'}
    {k : α → Except ε β} {k' : α' → Except ε β'} {f : α → α'} {g : β → β'} (hx : x' = x.map f)
    (hk : ∀ a, k' (f a) = (k a).map g) : (x' >>= k') = (x >>= k).map g := by
  subst hx
  cases x with
  | error _ => rfl
  | ok a => exact hk a

namespace Repair

/-- A repair with the shapes of the tokens it concerns. -/
def shape (r : Repair) : Repair :=
  { r with
    text := if r.action = .remove then "" else r.text
    removed := r.removed.map Token.shape
    recovered := r.recovered.map Token.shape }

variable (r : Repair) (p : Position) (t : Token)

@[simp] theorem action_shape : r.shape.action = r.action := rfl

@[simp] theorem position_shape : r.shape.position = r.position := rfl

@[simp] theorem shape_remove : (remove p t).shape = remove p t.shape := by
  simp [shape, remove, propose]

end Repair

namespace Outcome

/-- An outcome with the shapes of its repairs. -/
def shape (o : Outcome) : Outcome :=
  { o with fixes := o.fixes.map Repair.shape, choice := o.choice.map Repair.shape }

variable (o earlier later : Outcome) (p : Position) (t : Token) (depth : Nat) (entry : Bool)

@[simp] theorem matched_shape : o.shape.matched = o.matched := rfl

@[simp] theorem removals_shape : o.shape.removals = o.removals := rfl

@[simp] theorem top?_shape : o.shape.top? = o.top?.map Repair.shape := List.head?_map

@[simp] theorem second?_shape : o.shape.second? = o.second?.map Repair.shape :=
  List.getElem?_map ..

@[simp] theorem topAction?_shape : o.shape.topAction? = o.topAction? := by
  rw [topAction?, topAction?, top?_shape, Option.map_map]
  rfl

@[simp] theorem choiceAction?_shape : o.shape.choiceAction? = o.choiceAction? :=
  Option.map_map ..

theorem shape_better : (earlier.better later).shape = earlier.shape.better later.shape := by
  unfold better
  rw [matched_shape, matched_shape, removals_shape, removals_shape, topAction?_shape,
    topAction?_shape]
  simp only [apply_ite shape]

@[simp] theorem isDecisive_shape (limit : Nat) : o.shape.isDecisive limit = o.isDecisive limit := by
  rw [isDecisive, isDecisive, matched_shape, choiceAction?_shape]

theorem shape_settle : (o.settle p entry).shape = o.shape.settle p entry := by
  unfold settle
  rw [choiceAction?_shape]
  split <;> rfl

theorem shape_afterRemoval :
    (o.afterRemoval p t depth).shape = o.shape.afterRemoval p t.shape depth := by
  have htext : ((Repair.remove p t).atDepth depth).shape =
      (Repair.remove p t.shape).atDepth depth := by
    rw [← Repair.shape_remove]
    rfl
  simp only [afterRemoval, push, shape, List.map_cons, htext]

theorem shape_repairAt (insertion : Option Outcome) :
    (repairAt p t depth o insertion).shape =
      repairAt p t.shape depth o.shape (insertion.map shape) := by
  cases insertion with
  | none => exact shape_afterRemoval ..
  | some insertion =>
    have hprefers : prefersInsertion p t.shape insertion.shape o.shape =
        prefersInsertion p t insertion o := by
      unfold prefersInsertion
      rw [Token.kind_shape]
      rfl
    simp only [repairAt, Option.map_some, hprefers, apply_ite shape, shape_afterRemoval]
    rfl

theorem shape_chooseRepair : (o.chooseRepair p entry).shape = o.shape.chooseRepair p entry := by
  unfold chooseRepair
  rw [top?_shape]
  cases entry <;> rfl

theorem shape_validate : (o.validate p t).shape = o.shape.validate p t.shape := by
  unfold validate
  rw [choiceAction?_shape, second?_shape, Token.kind_shape]
  split
  · split
    · simp only [choose, shape, Option.map_some, Repair.shape_remove]
    · rfl
  · cases o.second? with
    | none => rfl
    | some second => exact apply_ite shape ..
  · rfl

end Outcome

namespace Search

variable {limit lookahead : Nat} {r : Reader}

@[simp] theorem placeFor_shape (p : Position) (place : Nat) :
    placeFor r.shape p place = placeFor r p place := by
  rw [placeFor, placeFor, Reader.skipDocumentation_shape]

@[simp] theorem canInsert_shape (p : Position) (place : Nat) :
    canInsert r.shape p place = canInsert r p place := by
  unfold canInsert repeatsSeparator
  simp only [Reader.peekN_shape, Reader.previous?_shape, Token.kind_shape]
  split
  · simp
  · rw [Option.any_map]
    simp

/-- Over shapes a search comes to the shape of what it comes to over the tokens. -/
theorem seek_shape (h : ∀ k, (r.peekN k).Unreserved) (position : Position)
    (place depth : Nat) (entry : Bool) (stack : Stack) (passed : Nat) :
    seek limit r.shape position place depth entry stack passed =
      (seek limit r position place depth entry stack passed).map Outcome.shape := by
  -- The induction follows the reader; the search over its shape is opened step by step.
  refine seek.induct_unfolding limit r
    (fun p place depth entry S passed result =>
      seek limit r.shape p place depth entry S passed = result.map Outcome.shape)
    (fun paths place depth entry S best result =>
      seekPaths limit r.shape paths place depth entry S (best.map Outcome.shape) =
        result.map Outcome.shape)
    ?norole ?branch ?cycle ?stuck ?silent ?blocked ?matched ?repaired ?limit ?best ?none ?path
    position place depth entry stack passed
  case norole =>
    intro p place depth entry S passed hdepth hrole
    rw [seek_eq, if_pos hdepth]
    simp only [hrole]
    rfl
  case branch =>
    intro p place depth entry S passed hdepth here paths hrole ih
    rw [seek_eq, if_pos hdepth]
    simp only [hrole, placeFor_shape]
    exact ih
  case cycle =>
    intro p place depth entry S passed hdepth hrole hcycle
    rw [seek_eq, if_pos hdepth]
    simp only [hrole, if_pos hcycle]
    rfl
  case stuck =>
    intro p place depth entry S passed hdepth hrole hcycle error _ hmove
    rw [seek_eq, if_pos hdepth]
    simp only [hrole, if_neg hcycle, hmove]
    rfl
  case silent =>
    intro p place depth entry S passed hdepth here hrole hcycle q S' hmove ih
    rw [seek_eq, if_pos hdepth]
    simp only [hrole, if_neg hcycle, hmove, placeFor_shape]
    exact ih
  case blocked =>
    intro p place depth entry S passed hdepth here next role hbranch hsilent hrole haccepts error _
      hmove
    rw [← p.accepts_shape (h here)] at haccepts
    rw [seek_eq, if_pos hdepth]
    simp only [hrole, placeFor_shape, Reader.peekN_shape, hmove]
    exact if_pos haccepts
  case matched =>
    intro p place depth entry S passed hdepth here next role hbranch hsilent hrole haccepts q S'
      hmove ih
    rw [← p.accepts_shape (h here)] at haccepts
    rw [seek_eq, if_pos hdepth]
    simp only [hrole, placeFor_shape, Reader.peekN_shape, hmove]
    refine (if_pos haccepts).trans ?_
    exact Except.bind_eq_map ih fun _ => rfl
  case repaired =>
    intro p place depth entry S passed hdepth here next role hbranch hsilent hrole hrejects
      ihdeletion ihinsertion
    rw [← p.accepts_shape (h here)] at hrejects
    rw [seek_eq, if_pos hdepth]
    simp only [hrole, placeFor_shape, Reader.peekN_shape, canInsert_shape]
    refine (if_neg hrejects).trans ?_
    refine Except.bind_eq_map ihdeletion fun deletion => ?_
    have hrepaired (insertion : Option Outcome) :
        (Outcome.repairAt p next.shape (depth + 1) deletion.shape
            (insertion.map Outcome.shape)).chooseRepair p entry =
          ((Outcome.repairAt p next (depth + 1) deletion insertion).chooseRepair p entry).shape := by
      rw [Outcome.shape_chooseRepair, Outcome.shape_repairAt]
    split
    · cases hmove : p.advance S with
      | stuck error _ => rfl
      | reach q S' =>
        exact Except.bind_eq_map (ihinsertion q S') fun rest =>
          congrArg Except.ok (hrepaired (some rest))
    · exact congrArg Except.ok (hrepaired none)
  case limit =>
    intro p place depth entry S passed hlimit
    rw [seek_eq, if_neg hlimit]
    rfl
  case best =>
    intro place depth entry S best
    rw [seekPaths.eq_def]
    rfl
  case none =>
    intro place depth entry S
    rw [seekPaths.eq_def]
    rfl
  case path =>
    intro place depth entry S best path rest ih ihrest
    rw [seekPaths.eq_def]
    refine Except.bind_eq_map ih fun found => ?_
    rw [Outcome.isDecisive_shape]
    split
    · change Except.ok _ = Except.ok _
      rw [Outcome.shape_settle]
    · rw [← ihrest found]
      cases best with
      | none => rfl
      | some best => simp only [Option.map_some, Option.getD_some, Outcome.shape_better]

theorem run_shape (h : ∀ k, (r.peekN k).Unreserved) (p : Position) (S : Stack) :
    run lookahead r.shape p S = (run lookahead r p S).map Outcome.shape :=
  seek_shape h p 1 0 true S 0

end Search

namespace Session

variable {s : Session} {p : Position} {next : Token} {completing : Bool}

/-- A session over shapes. -/
def shape (s : Session) : Session := { s with reader := s.reader.shape }

theorem recordAttempt_shape (s : Session) : s.shape.recordAttempt = s.recordAttempt.shape := by
  simp only [recordAttempt, shape, Reader.index_shape]

theorem shortestInsertion?_shape (s : Session) (p : Position) :
    s.shape.shortestInsertion? p = (s.shortestInsertion? p).map Repair.shape := by
  rw [shortestInsertion?, shortestInsertion?, Option.map_map]
  rfl

theorem resolution_shape (h : ∀ k, (s.reader.peekN k).Unreserved) :
    s.shape.resolution p next.shape = (s.resolution p next).map (Option.map Repair.shape) := by
  refine Except.bind_eq_map (Search.run_shape h p s.stack) fun found => ?_
  change Except.ok _ = Except.ok _
  rw [← Outcome.shape_validate, Outcome.matched_shape, apply_ite (Option.map Repair.shape)]
  rfl

theorem completion_shape (h : ∀ k, (s.reader.peekN k).Unreserved) :
    s.shape.completion p next.shape = (s.completion p next).map (Option.map Repair.shape) := by
  unfold completion
  rw [shortestInsertion?_shape]
  cases s.shortestInsertion? p with
  | some _ => rfl
  | none => exact resolution_shape h

theorem proposal_shape (h : ∀ k, (s.reader.peekN k).Unreserved) :
    s.shape.proposal p next.shape completing =
      (s.proposal p next completing).map (Option.map Repair.shape) := by
  unfold proposal
  by_cases hcompletes : (completing && decide (s.attemptCount < s.limits.completion)) = true
  · rw [if_pos hcompletes]
    exact (if_pos hcompletes).trans (completion_shape h)
  · rw [if_neg hcompletes]
    refine (if_neg hcompletes).trans ?_
    by_cases hsearches : s.attemptCount < s.limits.resolution
    · rw [if_pos hsearches]
      exact (if_pos hsearches).trans (resolution_shape h)
    · rw [if_neg hsearches]
      exact if_neg hsearches

/-- What a repair does over shapes is the shape of what it does. -/
theorem apply_shape (hsupply : s.supply = Token.missingOf) (r : Repair) :
    s.shape.apply r.shape = ((s.apply r).1.shape, (s.apply r).2.shape) := by
  obtain ⟨action, position, kind, text, depth, removed, recovered, resolved⟩ := r
  cases action with
  | keep => rfl
  | insert =>
    have hshape : (s.supply kind position s.reader.peek.line).shape =
        s.supply kind position 1 := by
      rw [hsupply]
      exact Token.shape_supplied ..
    have hkind : (s.supply kind position s.reader.peek.line).kind =
        (s.supply kind position 1).kind := by
      rw [← hshape, Token.kind_shape]
    simp only [apply, Repair.shape, shape, Reader.peek_shape, Token.line_shape, Option.map_some,
      hshape, hkind]
  | remove =>
    simp only [apply, Repair.shape, shape, Reader.read_shape, Option.map_some, Reader.peek_shape]

theorem recoverAttempt_shape (hsupply : s.supply = Token.missingOf)
    (h : ∀ k, (s.reader.peekN k).Unreserved) :
    s.shape.recoverAttempt p next.shape completing =
      ((s.recoverAttempt p next completing).1.map Repair.shape,
        (s.recoverAttempt p next completing).2.shape) := by
  unfold recoverAttempt
  rw [proposal_shape h]
  cases s.proposal p next completing with
  | error error => rfl
  | ok proposed =>
    cases proposed with
    | some repair => simp only [Except.map, Option.map_some, apply_shape hsupply]
    | none =>
      simp only [Except.map, Option.map_none, ← Repair.shape_remove, apply_shape hsupply]
      by_cases hcount : s.attemptCount = s.limits.completion
      · rw [if_pos hcount]
        refine (if_pos hcount).trans ?_
        simp only [shape, Reader.index_shape]
        rfl
      · rw [if_neg hcount]
        exact if_neg hcount

/-- Over shapes repair comes to the shape of what it comes to over the tokens. -/
theorem recover_shape (hsupply : s.supply = Token.missingOf)
    (h : ∀ k, (s.reader.peekN k).Unreserved) :
    s.shape.recover p next.shape completing =
      ((s.recover p next completing).1.map Repair.shape,
        (s.recover p next completing).2.shape) := by
  unfold recover
  rw [Token.kind_shape]
  split
  · unfold recoverAtEnd
    have hrepair : (s.shape.shortestInsertion? p).getD (.insert p p.expectedKind) =
        ((s.shortestInsertion? p).getD (.insert p p.expectedKind)).shape := by
      rw [shortestInsertion?_shape]
      cases s.shortestInsertion? p <;> rfl
    rw [hrepair, apply_shape hsupply]
    rfl
  · rw [recordAttempt_shape]
    exact recoverAttempt_shape (s := s.recordAttempt) hsupply h

end Session

end Mend
