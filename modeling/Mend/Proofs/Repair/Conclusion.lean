import Mend.Proofs.Grammar.Stuck
import Mend.Proofs.Repair.Window

/-!
# What a search concludes

A search passes positions that take no token, opens branch points, and looks over documentation,
and none of this counts against its limit. Its course is told here step by step (`Concludes`),
without a bound on how many positions may be passed in a row. From any position with any stack the
course has an end (`exists_concludes`), and what it ends with is what the search finds
(`Concludes.finds`): between two tokens or branch points no more than two positions are passed in
silence, so the bound on them is never met. A branch point counts from the start again, but what it
leaves to do weighs less.

A search from such a state may fail, because the tables have no rule for it. That is the only way
it does (`Concludes.error_cases`).
-/

namespace Mend

namespace Search

variable {limit : Nat} {reader : Reader} {p q path : Position} {S T : Stack} {place depth n m : Nat}
  {entry : Bool} {paths rest : List Position} {best : Option Outcome} {error : Breakdown}
  {result : Except Breakdown Outcome} {found deletion b : Outcome}

/-! ## The course of a search -/

/-- What a search is asked: how to go on at a position, or on which of some paths, given the best
outcome of those already tried. -/
inductive Query where
  | position (p : Position) (place depth : Nat) (entry : Bool) (S : Stack)
  | paths (paths : List Position) (place depth : Nat) (entry : Bool) (S : Stack)
      (best : Option Outcome)

/-- Whether a position looks at the token at a place, and not over it. -/
def LooksAt (reader : Reader) (p : Position) (place : Nat) : Prop :=
  p = .docString ∨ (reader.peekN place).kind ≠ .documentationString

/-- Whether a position takes a token, but not this one. -/
def Rejects (p : Position) (t : Token) : Prop := p.takesToken = true ∧ p.accepts t = false

/-- A search comes to a result in a number of steps. A step looks over one token of documentation,
passes one position, opens one branch point or moves from one path to the next; how many there are
in a row is not bounded here. -/
inductive Concludes (limit : Nat) (reader : Reader) :
    Query → Except Breakdown Outcome → Nat → Prop
  | ended {p : Position} {place depth : Nat} {entry : Bool} {S : Stack} (hlimit : limit ≤ depth) :
      Concludes limit reader (.position p place depth entry S)
        (.ok ((Outcome.ofMatched 0).choose (some (.keep p .absent)))) 1
  | documentation {p : Position} {place depth n : Nat} {entry : Bool} {S : Stack}
      {result : Except Breakdown Outcome} (hdepth : depth < limit)
      (hover : ¬ LooksAt reader p place)
      (hrest : Concludes limit reader (.position p (place + 1) depth entry S) result n) :
      Concludes limit reader (.position p place depth entry S) result (n + 1)
  | unsearched {p : Position} {place depth : Nat} {entry : Bool} {S : Stack}
      (hdepth : depth < limit) (hlooks : LooksAt reader p place) (hrole : p.role? = none) :
      Concludes limit reader (.position p place depth entry S)
        (.error (.noTransition p .neverSearched)) 1
  | branch {p : Position} {place depth n : Nat} {entry : Bool} {S : Stack} {ps : List Position}
      {result : Except Breakdown Outcome} (hdepth : depth < limit)
      (hlooks : LooksAt reader p place) (hrole : p.role? = some (.branch ps))
      (hpaths : Concludes limit reader (.paths ps place depth entry S none) result n) :
      Concludes limit reader (.position p place depth entry S) result (n + 1)
  | stuck {p : Position} {place depth : Nat} {entry : Bool} {S T : Stack} {error : Breakdown}
      (hdepth : depth < limit) (hlooks : LooksAt reader p place)
      (hpasses : p.role? = some .silent ∨ p.accepts (reader.peekN place) = true)
      (hmove : p.advance S = .stuck error T) :
      Concludes limit reader (.position p place depth entry S) (.error error) 1
  | silent {p q : Position} {place depth n : Nat} {entry : Bool} {S T : Stack}
      {result : Except Breakdown Outcome} (hdepth : depth < limit)
      (hlooks : LooksAt reader p place) (hrole : p.role? = some .silent)
      (hmove : p.advance S = .reach q T)
      (hrest : Concludes limit reader (.position q place depth entry T) result n) :
      Concludes limit reader (.position p place depth entry S) result (n + 1)
  | matched {p q : Position} {place depth n : Nat} {entry : Bool} {S T : Stack}
      {result : Except Breakdown Outcome} (hdepth : depth < limit)
      (hlooks : LooksAt reader p place) (haccepts : p.accepts (reader.peekN place) = true)
      (hmove : p.advance S = .reach q T)
      (hrest : Concludes limit reader (.position q (place + 1) (depth + 1) false T) result n) :
      Concludes limit reader (.position p place depth entry S) (result.map (·.addMatched 1))
        (n + 1)
  | removalFails {p : Position} {place depth n : Nat} {entry : Bool} {S : Stack}
      {error : Breakdown} (hdepth : depth < limit) (hlooks : LooksAt reader p place)
      (hrejects : Rejects p (reader.peekN place))
      (hremoval : Concludes limit reader (.position p (place + 1) (depth + 1) false S)
        (.error error) n) :
      Concludes limit reader (.position p place depth entry S) (.error error) (n + 1)
  | removed {p : Position} {place depth n : Nat} {entry : Bool} {S : Stack} {deletion : Outcome}
      (hdepth : depth < limit) (hlooks : LooksAt reader p place)
      (hrejects : Rejects p (reader.peekN place))
      (hremoval : Concludes limit reader (.position p (place + 1) (depth + 1) false S)
        (.ok deletion) n)
      (hcannot : canInsert reader p place = false) :
      Concludes limit reader (.position p place depth entry S)
        (.ok ((Outcome.repairAt p (reader.peekN place) (depth + 1) deletion none).chooseRepair
          p entry)) (n + 1)
  | insertionStuck {p : Position} {place depth n : Nat} {entry : Bool} {S T : Stack}
      {deletion : Outcome} {error : Breakdown} (hdepth : depth < limit)
      (hlooks : LooksAt reader p place)
      (hrejects : Rejects p (reader.peekN place))
      (hremoval : Concludes limit reader (.position p (place + 1) (depth + 1) false S)
        (.ok deletion) n)
      (hcan : canInsert reader p place = true) (hmove : p.advance S = .stuck error T) :
      Concludes limit reader (.position p place depth entry S) (.error error) (n + 1)
  | repaired {p q : Position} {place depth n m : Nat} {entry : Bool} {S T : Stack}
      {deletion : Outcome} {insertion : Except Breakdown Outcome} (hdepth : depth < limit)
      (hlooks : LooksAt reader p place)
      (hrejects : Rejects p (reader.peekN place))
      (hremoval : Concludes limit reader (.position p (place + 1) (depth + 1) false S)
        (.ok deletion) n)
      (hcan : canInsert reader p place = true) (hmove : p.advance S = .reach q T)
      (hinsertion : Concludes limit reader (.position q place (depth + 1) false T) insertion m) :
      Concludes limit reader (.position p place depth entry S)
        (insertion.map fun insertion =>
          (Outcome.repairAt p (reader.peekN place) (depth + 1) deletion
            (some insertion)).chooseRepair p entry) (n + m + 1)
  | best {place depth : Nat} {entry : Bool} {S : Stack} {best : Outcome} :
      Concludes limit reader (.paths [] place depth entry S (some best)) (.ok best) 1
  | noPaths {place depth : Nat} {entry : Bool} {S : Stack} :
      Concludes limit reader (.paths [] place depth entry S none)
        (.error (.noTransition .compUnit .noPaths)) 1
  | pathFails {path : Position} {rest : List Position} {place depth n : Nat} {entry : Bool}
      {S : Stack} {best : Option Outcome} {error : Breakdown}
      (hpath : Concludes limit reader (.position path place depth entry S) (.error error) n) :
      Concludes limit reader (.paths (path :: rest) place depth entry S best) (.error error) (n + 1)
  | decisive {path : Position} {rest : List Position} {place depth n : Nat} {entry : Bool}
      {S : Stack} {best : Option Outcome} {found : Outcome}
      (hpath : Concludes limit reader (.position path place depth entry S) (.ok found) n)
      (hdecisive : found.isDecisive limit = true) :
      Concludes limit reader (.paths (path :: rest) place depth entry S best)
        (.ok (found.settle path entry)) (n + 1)
  | path {path : Position} {rest : List Position} {place depth n m : Nat} {entry : Bool}
      {S : Stack} {best : Option Outcome} {found : Outcome} {result : Except Breakdown Outcome}
      (hpath : Concludes limit reader (.position path place depth entry S) (.ok found) n)
      (hdecisive : found.isDecisive limit = false)
      (hrest : Concludes limit reader (.paths rest place depth entry S
        (some ((best.map (·.better found)).getD found))) result m) :
      Concludes limit reader (.paths (path :: rest) place depth entry S best) result (n + m + 1)

/-! ## Where a position looks -/

theorem LooksAt.placeFor_eq (h : LooksAt reader p place) : placeFor reader p place = place := by
  rcases h with hp | hkind
  · exact if_pos hp
  · exact Search.placeFor_eq hkind

theorem le_placeFor (reader : Reader) (p : Position) (place : Nat) :
    place ≤ placeFor reader p place := by
  unfold placeFor
  split
  · exact Nat.le_refl place
  · exact reader.le_skipDocumentation place

/-- Looking over one token of documentation leaves the others to look over. -/
theorem placeFor_succ (hlast : reader.last.kind = .eof) (hover : ¬ LooksAt reader p place) :
    placeFor reader p (place + 1) = placeFor reader p place := by
  obtain ⟨hp, hkind⟩ := not_or.1 hover
  unfold placeFor
  rw [if_neg hp, if_neg hp]
  exact reader.skipDocumentation_succ (by rw [hlast]; decide) (not_not.1 hkind)

/-- The documentation before the place where a position looks is looked over in steps. -/
theorem concludes_of_placeFor {place : Nat} (hlast : reader.last.kind = .eof)
    (hdepth : depth < limit)
    (h : LooksAt reader p (placeFor reader p place) →
      ∃ n, Concludes limit reader (.position p (placeFor reader p place) depth entry S) result n) :
    ∃ n, Concludes limit reader (.position p place depth entry S) result n := by
  by_cases hlooks : LooksAt reader p place
  · rw [hlooks.placeFor_eq] at h
    exact h hlooks
  · have hsucc := placeFor_succ hlast hlooks
    have hle := le_placeFor reader p (place + 1)
    obtain ⟨n, hrest⟩ : ∃ n, Concludes limit reader (.position p (place + 1) depth entry S)
        result n := concludes_of_placeFor hlast hdepth (hsucc ▸ h)
    exact ⟨n + 1, .documentation hdepth hlooks hrest⟩
termination_by placeFor reader p place - place

/-! ## Every search concludes -/

/-- What a search finds is what its course comes to, and no position is passed in silence so often
that the bound would matter. -/
theorem exists_concludes (limit : Nat) (hlast : reader.last.kind = .eof) (p : Position)
    (place depth : Nat) (entry : Bool) (S : Stack) (passed : Nat)
    (hpassed : passed + p.silentDepth ≤ silentLimit) :
    ∃ n, Concludes limit reader (.position p place depth entry S)
      (seek limit reader p place depth entry S passed) n := by
  revert hpassed
  refine seek.induct_unfolding limit reader
    (fun p place depth entry S passed result => passed + p.silentDepth ≤ silentLimit →
      ∃ n, Concludes limit reader (.position p place depth entry S) result n)
    (fun paths place depth entry S best result =>
      ∃ n, Concludes limit reader (.paths paths place depth entry S best) result n)
    ?norole ?branch ?cycle ?stuck ?silent ?blocked ?matched ?repaired ?limit ?best ?none ?path
    p place depth entry S passed
  case norole =>
    intro p place depth entry S passed hdepth hrole _
    exact concludes_of_placeFor hlast hdepth fun hlooks => ⟨1, .unsearched hdepth hlooks hrole⟩
  case branch =>
    intro p place depth entry S passed hdepth here paths hrole ih _
    obtain ⟨n, hpaths⟩ := ih
    exact concludes_of_placeFor hlast hdepth fun hlooks => ⟨_, .branch hdepth hlooks hrole hpaths⟩
  case cycle =>
    intro p place depth entry S passed _ hrole hcycle hpassed
    have hsilent := Position.silentDepth_pos (isSilent_of_role? hrole)
    omega
  case stuck =>
    intro p place depth entry S passed hdepth hrole _ error _ hmove _
    exact concludes_of_placeFor hlast hdepth fun hlooks =>
      ⟨1, .stuck hdepth hlooks (.inl hrole) hmove⟩
  case silent =>
    intro p place depth entry S passed hdepth here hrole _ q T hmove ih hpassed
    have hless := Position.silentDepth_lt_of_advance (isSilent_of_role? hrole) hmove
    obtain ⟨n, hrest⟩ := ih (by omega)
    exact concludes_of_placeFor hlast hdepth fun hlooks =>
      ⟨_, .silent hdepth hlooks hrole hmove hrest⟩
  case blocked =>
    intro p place depth entry S passed hdepth here next role _ _ _ haccepts error _ hmove _
    exact concludes_of_placeFor hlast hdepth fun hlooks =>
      ⟨1, .stuck hdepth hlooks (.inr haccepts) hmove⟩
  case matched =>
    intro p place depth entry S passed hdepth here next role _ _ _ haccepts q T hmove ih _
    obtain ⟨n, hrest⟩ := ih (silentDepth_le_silentLimit q)
    refine concludes_of_placeFor hlast hdepth fun hlooks => ⟨n + 1, ?_⟩
    have hmatched : Concludes limit reader (.position p here depth entry S) _ (n + 1) :=
      .matched hdepth hlooks haccepts hmove hrest
    revert hmatched
    cases seek limit reader q (here + 1) (depth + 1) false T 0 with
    | error error => exact id
    | ok rest => exact id
  case repaired =>
    intro p place depth entry S passed hdepth here next role hbranch hsilent hrole hrejects
      ihremoval ihinsertion _
    have hrejects' : Rejects p next :=
      ⟨Position.takesToken_of_role? hrole hbranch hsilent, Bool.eq_false_iff.2 hrejects⟩
    obtain ⟨n, hremoval⟩ := ihremoval (silentDepth_le_silentLimit p)
    refine concludes_of_placeFor hlast hdepth fun hlooks => ?_
    cases hdeletion : seek limit reader p (here + 1) (depth + 1) false S 0 with
    | error error =>
      rw [hdeletion] at hremoval
      exact ⟨n + 1, .removalFails hdepth hlooks hrejects' hremoval⟩
    | ok deletion =>
      rw [hdeletion] at hremoval
      by_cases hcan : canInsert reader p here = true
      · cases hmove : p.advance S with
        | stuck error T =>
          simp only [if_pos hcan]
          exact ⟨n + 1, .insertionStuck hdepth hlooks hrejects' hremoval hcan hmove⟩
        | reach q T =>
          obtain ⟨m, hinsertion⟩ := ihinsertion q T (silentDepth_le_silentLimit q)
          have hrepaired : Concludes limit reader (.position p here depth entry S) _ (n + m + 1) :=
            .repaired hdepth hlooks hrejects' hremoval hcan hmove hinsertion
          refine ⟨n + m + 1, ?_⟩
          simp only [if_pos hcan]
          revert hrepaired
          cases seek limit reader q here (depth + 1) false T 0 with
          | error error => exact id
          | ok insertion => exact id
      · simp only [if_neg hcan]
        exact ⟨n + 1, .removed hdepth hlooks hrejects' hremoval (Bool.eq_false_iff.2 hcan)⟩
  case limit =>
    intro p place depth entry S passed hlimit _
    exact ⟨1, .ended (Nat.le_of_not_lt hlimit)⟩
  case best =>
    intro place depth entry S best
    exact ⟨1, .best⟩
  case none =>
    intro place depth entry S
    exact ⟨1, .noPaths⟩
  case path =>
    intro place depth entry S best path rest ih ihrest
    obtain ⟨n, hpath⟩ := ih (silentDepth_le_silentLimit path)
    cases hfound : seek limit reader path place depth entry S 0 with
    | error error =>
      rw [hfound] at hpath
      exact ⟨n + 1, .pathFails hpath⟩
    | ok found =>
      rw [hfound] at hpath
      change ∃ n, Concludes limit reader _ (if found.isDecisive limit then _ else _) n
      by_cases hdecisive : found.isDecisive limit = true
      · rw [if_pos hdecisive]
        exact ⟨n + 1, .decisive hpath hdecisive⟩
      · obtain ⟨m, hrest⟩ := ihrest found
        rw [if_neg hdecisive]
        exact ⟨n + m + 1, .path hpath (Bool.eq_false_iff.2 hdecisive) hrest⟩

/-! ## What a course comes to is found -/

/-- What the search finds for a query. At a position it does not matter how many others were passed
in silence before, if the limit leaves room for those to come. -/
def Query.Finds (limit : Nat) (reader : Reader) (result : Except Breakdown Outcome) : Query → Prop
  | .position p place depth entry S => ∀ passed, passed + p.silentDepth ≤ silentLimit →
      seek limit reader p place depth entry S passed = result
  | .paths paths place depth entry S best =>
      seekPaths limit reader paths place depth entry S best = result

theorem seek_of_accepts {passed : Nat} (hdepth : depth < limit) (hlooks : LooksAt reader p place)
    (haccepts : p.accepts (reader.peekN place) = true) :
    seek limit reader p place depth entry S passed =
      match p.advance S with
      | .stuck error _ => .error error
      | .reach q T =>
        (seek limit reader q (place + 1) (depth + 1) false T 0).map (·.addMatched 1) := by
  rw [seek_eq, if_pos hdepth, hlooks.placeFor_eq]
  rcases Position.role?_of_takesToken (Position.takesToken_of_accepts haccepts) with
    ⟨word, hrole⟩ | ⟨wanted, hrole⟩
  · simp only [hrole]
    exact if_pos haccepts
  · simp only [hrole]
    exact if_pos haccepts

theorem seek_of_rejects {passed : Nat} (hdepth : depth < limit) (hlooks : LooksAt reader p place)
    (hrejects : Rejects p (reader.peekN place)) :
    seek limit reader p place depth entry S passed =
      (seek limit reader p (place + 1) (depth + 1) false S 0 >>= fun deletion =>
        if canInsert reader p place then
          match p.advance S with
          | .stuck error _ => .error error
          | .reach q T => (seek limit reader q place (depth + 1) false T 0).map fun insertion =>
            (Outcome.repairAt p (reader.peekN place) (depth + 1) deletion
              (some insertion)).chooseRepair p entry
        else .ok ((Outcome.repairAt p (reader.peekN place) (depth + 1) deletion none).chooseRepair
          p entry)) := by
  obtain ⟨htakes, hrejects⟩ := hrejects
  rw [seek_eq, if_pos hdepth, hlooks.placeFor_eq]
  rcases Position.role?_of_takesToken htakes with ⟨word, hrole⟩ | ⟨wanted, hrole⟩
  all_goals
    simp only [hrole]
    rw [if_neg (Bool.eq_false_iff.1 hrejects)]
    refine congrArg _ (funext fun deletion => ?_)
    by_cases hcan : canInsert reader p place = true
    · simp only [if_pos hcan]
      cases p.advance S with
      | stuck error T => rfl
      | reach q T =>
        dsimp only
        cases seek limit reader q place (depth + 1) false T 0 with
        | error error => rfl
        | ok insertion => rfl
    · simp only [if_neg hcan]
      rfl

/-- The course of a search comes to what the search finds. -/
theorem Concludes.finds (hlast : reader.last.kind = .eof) {query : Query}
    (h : Concludes limit reader query result n) : query.Finds limit reader result := by
  induction h with
  | ended hlimit =>
    intro passed _
    rw [seek_eq, if_neg (Nat.not_lt.2 hlimit)]
  | documentation hdepth hover _ ih =>
    intro passed hpassed
    rw [← ih passed hpassed, seek_eq, if_pos hdepth, seek_eq, if_pos hdepth,
      placeFor_succ hlast hover]
  | unsearched hdepth _ hrole =>
    intro passed _
    rw [seek_eq, if_pos hdepth]
    simp only [hrole]
  | branch hdepth hlooks hrole _ ih =>
    intro passed _
    rw [seek_eq, if_pos hdepth, hlooks.placeFor_eq]
    simp only [hrole]
    exact ih
  | @stuck p place depth entry S T error hdepth hlooks hpasses hmove =>
    intro passed hpassed
    rcases hpasses with hrole | haccepts
    · have hsilent := Position.silentDepth_pos (isSilent_of_role? hrole)
      rw [seek_eq, if_pos hdepth]
      simp only [hrole, hmove]
      exact if_neg (by omega)
    · rw [seek_of_accepts hdepth hlooks haccepts, hmove]
  | silent hdepth hlooks hrole hmove _ ih =>
    intro passed hpassed
    have hless := Position.silentDepth_lt_of_advance (isSilent_of_role? hrole) hmove
    rw [seek_eq, if_pos hdepth, hlooks.placeFor_eq]
    simp only [hrole, hmove]
    rw [if_neg (by omega)]
    exact ih (passed + 1) (by omega)
  | @matched p q place depth n entry S T result hdepth hlooks haccepts hmove _ ih =>
    intro passed _
    rw [seek_of_accepts hdepth hlooks haccepts, hmove]
    exact congrArg (Except.map _) (ih 0 (silentDepth_le_silentLimit q))
  | @removalFails p place depth n entry S error hdepth hlooks hrejects _ ih =>
    intro passed _
    rw [seek_of_rejects hdepth hlooks hrejects, ih 0 (silentDepth_le_silentLimit p)]
    rfl
  | @removed p place depth n entry S deletion hdepth hlooks hrejects _ hcannot ih =>
    intro passed _
    rw [seek_of_rejects hdepth hlooks hrejects, ih 0 (silentDepth_le_silentLimit p)]
    exact if_neg (Bool.eq_false_iff.1 hcannot)
  | @insertionStuck p place depth n entry S T deletion error hdepth hlooks hrejects _ hcan hmove
      ih =>
    intro passed _
    rw [seek_of_rejects hdepth hlooks hrejects, ih 0 (silentDepth_le_silentLimit p), hmove]
    exact if_pos hcan
  | @repaired p q place depth n m entry S T deletion insertion hdepth hlooks hrejects _ hcan hmove
      _ ih ih' =>
    intro passed _
    rw [seek_of_rejects hdepth hlooks hrejects, ih 0 (silentDepth_le_silentLimit p), hmove,
      ← ih' 0 (silentDepth_le_silentLimit q)]
    exact if_pos hcan
  | best => exact seekPaths.eq_def ..
  | noPaths => exact seekPaths.eq_def ..
  | @pathFails path rest place depth n entry S best error _ ih =>
    change seekPaths _ _ _ _ _ _ _ _ = _
    rw [seekPaths.eq_def]
    simp only [ih 0 (silentDepth_le_silentLimit path)]
    rfl
  | @decisive path rest place depth n entry S best found _ hdecisive ih =>
    change seekPaths _ _ _ _ _ _ _ _ = _
    rw [seekPaths.eq_def]
    simp only [ih 0 (silentDepth_le_silentLimit path)]
    exact if_pos hdecisive
  | @path path rest place depth n m entry S best found result _ hdecisive _ ih ih' =>
    change seekPaths _ _ _ _ _ _ _ _ = _
    rw [seekPaths.eq_def]
    simp only [ih 0 (silentDepth_le_silentLimit path)]
    rw [← ih']
    exact if_neg (Bool.eq_false_iff.1 hdecisive)

/-! ## How it fails -/

/-- A search among paths has some to choose from, or has found something before. -/
def Query.Offers : Query → Prop
  | .position _ _ _ _ _ => True
  | .paths paths _ _ _ _ best => paths ≠ [] ∨ best.isSome = true

/-- A search fails at a position that plays no part in one, or where a move fails. -/
theorem Concludes.error_cases {query : Query} (h : Concludes limit reader query result n)
    (hoffers : query.Offers) (hfails : result = .error error) :
    error.OfMove ∨ ∃ p, error = .noTransition p .neverSearched := by
  induction h generalizing error with
  | ended | removed | best | decisive => cases hfails
  | documentation _ _ _ ih => exact ih trivial hfails
  | @unsearched p =>
    cases hfails
    exact .inr ⟨p, rfl⟩
  | branch _ _ hrole _ ih =>
    refine ih (.inl ?_) hfails
    rintro rfl
    obtain ⟨hnil, hbranch⟩ := Position.paths_of_role? hrole
    simp [Position.isBranch, ← hnil] at hbranch
  | stuck _ _ _ hmove | insertionStuck _ _ _ _ _ hmove =>
    cases hfails
    exact .inl (Position.ofMove_of_advance hmove)
  | silent _ _ _ _ _ ih => exact ih trivial hfails
  | @matched _ _ _ _ _ _ _ _ result _ _ _ _ _ ih =>
    cases result with
    | ok rest => cases hfails
    | error cause =>
      cases hfails
      exact ih trivial rfl
  | removalFails _ _ _ _ ih => exact ih trivial hfails
  | @repaired _ _ _ _ _ _ _ _ _ _ insertion _ _ _ _ _ _ _ _ ih =>
    cases insertion with
    | ok rest => cases hfails
    | error cause =>
      cases hfails
      exact ih trivial rfl
  | noPaths => exact absurd hoffers (by simp [Query.Offers])
  | pathFails _ ih => exact ih trivial hfails
  | path _ _ _ _ ih => exact ih (.inr rfl) hfails

/-- A search comes to its result in finitely many steps, from any state and whatever the limit. The
course of it is not bounded by how many positions are passed in silence, and still the search finds
what it comes to, and nothing else. It never fails for passing too many positions, nor for want of
paths. -/
theorem seek_concludes (limit : Nat) (hlast : reader.last.kind = .eof) (p : Position)
    (place depth : Nat) (entry : Bool) (S : Stack) :
    (∃ n, Concludes limit reader (.position p place depth entry S)
      (seek limit reader p place depth entry S 0) n) ∧
    (∀ result n, Concludes limit reader (.position p place depth entry S) result n →
      result = seek limit reader p place depth entry S 0) ∧
    ∀ q, seek limit reader p place depth entry S 0 ≠ .error (.noTransition q .cycle) ∧
      seek limit reader p place depth entry S 0 ≠ .error (.noTransition q .noPaths) := by
  obtain ⟨n, hconcludes⟩ :=
    exists_concludes limit hlast p place depth entry S 0 (silentDepth_le_silentLimit p)
  refine ⟨⟨n, hconcludes⟩, fun result m h => ?_, fun q => ⟨fun hfails => ?_, fun hfails => ?_⟩⟩
  · exact (h.finds hlast 0 (silentDepth_le_silentLimit p)).symm
  · rcases hconcludes.error_cases trivial hfails with hmove | ⟨_, hnever⟩
    · cases hmove
    · cases hnever
  · rcases hconcludes.error_cases trivial hfails with hmove | ⟨_, hnever⟩
    · cases hmove
    · cases hnever

/-- The end of a conditional inside two other branches, with nothing around them. The search looks
over the documentation and leaves all of them at once, and then there is nothing left to leave. -/
theorem nested_branches_conclude :
    ∃ r S, r = Reader.ofTokens [.plain .documentationString "note" 1, .plain .semicolon ";" 2,
        .eof 2] ∧
      S = [.ifBlock, .elseBlock, .elseBlock] ∧
      (∃ n, Concludes 2 r (.position .ifEnd 1 0 true S) (.error .underflow) n) ∧
      ∀ result n, Concludes 2 r (.position .ifEnd 1 0 true S) result n →
        result = .error .underflow := by
  have hfails : seek 2 (.ofTokens [.plain .documentationString "note" 1,
      .plain .semicolon ";" 2, .eof 2]) .ifEnd 1 0 true [.ifBlock, .elseBlock, .elseBlock] 0 =
        .error .underflow := by cbv
  have hlast : (Reader.ofTokens [.plain .documentationString "note" 1, .plain .semicolon ";" 2,
      .eof 2]).last.kind = .eof := rfl
  obtain ⟨hsome, hnothing, _⟩ :=
    seek_concludes 2 hlast .ifEnd 1 0 true [.ifBlock, .elseBlock, .elseBlock]
  rw [hfails] at hsome hnothing
  exact ⟨_, _, rfl, rfl, hsome, hnothing⟩

end Search

end Mend
