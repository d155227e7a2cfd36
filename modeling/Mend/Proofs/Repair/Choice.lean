import Mathlib.Data.Prod.Lex
import Mathlib.Order.OrderDual
import Mend.Proofs.Repair.Removal
import Mend.Proofs.Token.Scan

/-!
# The choice that a search comes to

At a branch point the outcomes of the paths are compared from left to right, each with the best one
before it. On outcomes in general that comparison is no ranking: one whose first repair supplies a
token loses to one that leaves a token out, and neither of them is ever compared so with an outcome
that starts with nothing at all. But the paths of a branch point are searched for the same number of
steps, so of two that match as many tokens both repair something or neither does. There the
comparison is that of `Outcome.rank`, and the outcome that is left over is the earliest of the best.

What a search chooses is then made good (`Outcome.validate`). Of its two rules only one is ever
needed: the repairs beneath the first are deeper than the first step, so none of them is preferred
to supplying a token.
-/

namespace Mend

namespace Outcome

/-- What an outcome is judged by: the more tokens are matched the better, then the fewer are left
out, and last a first repair that leaves a token out is better than one that supplies one. -/
def rank (o : Outcome) : Nat ×ₗ Natᵒᵈ ×ₗ Bool :=
  toLex (o.matched, toLex (OrderDual.toDual o.removals, decide (o.topAction? = some .remove)))

variable {o o' : Outcome} {n : Nat}

theorem rank_eq_iff : o.rank = o'.rank ↔
    o.matched = o'.matched ∧ o.removals = o'.removals ∧
      (o.topAction? = some .remove ↔ o'.topAction? = some .remove) := by
  simp [rank]

theorem rank_lt_iff : o.rank < o'.rank ↔
    o.matched < o'.matched ∨ o.matched = o'.matched ∧
      (o'.removals < o.removals ∨ o'.removals = o.removals ∧
        o.topAction? ≠ some .remove ∧ o'.topAction? = some .remove) := by
  simp only [rank, Prod.Lex.toLex_lt_toLex, OrderDual.toDual_lt_toDual, OrderDual.toDual_inj,
    Bool.lt_iff, decide_eq_false_iff_not, decide_eq_true_eq, eq_comm (a := o.removals)]

/-- Matches before an outcome do not change how it compares. -/
theorem rank_addMatched (h : o.rank = o'.rank) (n : Nat) :
    (o.addMatched n).rank = (o'.addMatched n).rank := by
  obtain ⟨hmatched, hremovals, htop⟩ := rank_eq_iff.1 h
  exact rank_eq_iff.2 ⟨congrArg (· + n) hmatched, hremovals, htop⟩

/-- An outcome of a number of steps, each of which matched a token, supplied one or left one out. -/
structure Accounts (n : Nat) (o : Outcome) : Prop where
  steps : o.matched + o.fixes.length = n
  repairs : ∀ fix ∈ o.fixes, fix.action = .insert ∨ fix.action = .remove

theorem Accounts.topAction? (h : Accounts n o) (hfixes : o.fixes ≠ []) :
    o.topAction? = some .insert ∨ o.topAction? = some .remove := by
  match hcons : o.fixes with
  | [] => exact absurd hcons hfixes
  | fix :: rest =>
    have haction := h.repairs fix (hcons ▸ List.mem_cons_self)
    simpa [Outcome.topAction?, top?, hcons] using haction

/-- Among outcomes of as many steps the better one is that of the higher rank, and on equal rank
the earlier one. -/
theorem better_eq (h : Accounts n o) (h' : Accounts n o') :
    o.better o' = if o.rank < o'.rank then o' else o := by
  have hsteps := h.steps
  have hsteps' := h'.steps
  unfold better
  split
  · rename_i hmatched
    split
    · exact (if_pos (rank_lt_iff.2 (.inl ‹_›))).symm
    · refine (if_neg fun hlt => ?_).symm
      rcases rank_lt_iff.1 hlt with hless | ⟨hsame, _⟩ <;> omega
  · rename_i hmatched
    have hmatched : o.matched = o'.matched := by omega
    split
    · rename_i hremovals
      split
      · exact (if_pos (rank_lt_iff.2 (.inr ⟨hmatched, .inl ‹_›⟩))).symm
      · refine (if_neg fun hlt => ?_).symm
        rcases rank_lt_iff.1 hlt with hless | ⟨_, hfewer | ⟨hsame, _⟩⟩ <;> omega
    · rename_i hremovals
      have hremovals : o'.removals = o.removals := by omega
      split
      · rename_i hactions
        refine (if_pos (rank_lt_iff.2 (.inr ⟨hmatched, .inr ⟨hremovals, ?_, hactions.2⟩⟩))).symm
        simp [hactions.1]
      · rename_i hactions
        refine (if_neg fun hlt => ?_).symm
        rcases rank_lt_iff.1 hlt with hless | ⟨_, hfewer | ⟨_, hkeeps, hremoves⟩⟩
        · omega
        · omega
        · -- The later one repairs something, so the earlier one does as well.
          have hfixes' : o'.fixes ≠ [] := by
            intro hnil
            simp [Outcome.topAction?, top?, hnil] at hremoves
          have hfixes : o.fixes ≠ [] := by
            intro hnil
            have := List.length_pos_iff.2 hfixes'
            rw [hnil, List.length_nil] at hsteps
            omega
          rcases h.topAction? hfixes with hinsert | hremove
          · exact hactions ⟨hinsert, hremoves⟩
          · exact hkeeps hremove

end Outcome

namespace Search

variable {limit lookahead : Nat} {reader : Reader} {p path : Position} {S : Stack}
  {place depth current : Nat} {entry : Bool} {o b found : Outcome}
  {paths before rest : List Position}

/-! ## The earliest of the best paths -/

/-- What a search comes back with accounts for every step that the limit leaves. -/
theorem accounts_of_seek {passed : Nat}
    (hok : seek limit reader p place depth entry S passed = .ok o) :
    o.Accounts (limit - depth) := by
  obtain ⟨edits, _, h⟩ := seek_backed limit reader p place depth entry S passed o hok
  refine ⟨?_, fun fix hfix => ?_⟩
  · rw [h.matched, h.fixes, Edit.count_add_length_repairs, h.length]
  · rw [h.fixes] at hfix
    obtain ⟨edit, hrepair, _⟩ := Edit.exists_of_mem_repairs hfix
    exact Edit.action_of_repair? hrepair

/-- An outcome is that of the first among the paths of the highest rank. -/
def EarliestBest (limit : Nat) (reader : Reader) (paths : List Position) (place depth : Nat)
    (entry : Bool) (S : Stack) (o : Outcome) : Prop :=
  ∃ before path after, paths = before ++ path :: after ∧
    seek limit reader path place depth entry S 0 = .ok o ∧
    (∀ r ∈ before, ∃ o', seek limit reader r place depth entry S 0 = .ok o' ∧ o'.rank < o.rank) ∧
    ∀ r ∈ after, ∃ o', seek limit reader r place depth entry S 0 = .ok o' ∧ o'.rank ≤ o.rank

namespace EarliestBest

theorem single (hfound : seek limit reader path place depth entry S 0 = .ok found) :
    EarliestBest limit reader [path] place depth entry S found :=
  ⟨[], path, [], rfl, hfound, fun _ h => absurd h List.not_mem_nil,
    fun _ h => absurd h List.not_mem_nil⟩

theorem accounts (h : EarliestBest limit reader paths place depth entry S o) :
    o.Accounts (limit - depth) := by
  obtain ⟨_, _, _, _, hfound, _⟩ := h
  exact accounts_of_seek hfound

/-- No path is better. -/
theorem le (h : EarliestBest limit reader paths place depth entry S o) {r : Position}
    (hr : r ∈ paths) :
    ∃ o', seek limit reader r place depth entry S 0 = .ok o' ∧ o'.rank ≤ o.rank := by
  obtain ⟨before, path, after, rfl, hfound, hbefore, hafter⟩ := h
  rcases List.mem_append.1 hr with hmem | hmem
  · obtain ⟨o', hok, hlt⟩ := hbefore r hmem
    exact ⟨o', hok, le_of_lt hlt⟩
  · rcases List.mem_cons.1 hmem with rfl | hmem
    · exact ⟨o, hfound, le_refl _⟩
    · exact hafter r hmem

/-- The best of some paths is no better than the best of more. -/
theorem rank_le {paths' : List Position}
    (h : EarliestBest limit reader paths place depth entry S o)
    (h' : EarliestBest limit reader paths' place depth entry S b)
    (hsub : ∀ r ∈ paths, r ∈ paths') : o.rank ≤ b.rank := by
  obtain ⟨_, path, _, rfl, hfound, _⟩ := h
  obtain ⟨o', hok, hle⟩ := h'.le (hsub path (by simp))
  rw [hfound] at hok
  cases hok
  exact hle

/-- One more path takes the place of the best before it only if it is better. -/
theorem concat (h : EarliestBest limit reader paths place depth entry S b)
    (hfound : seek limit reader path place depth entry S 0 = .ok found) :
    EarliestBest limit reader (paths ++ [path]) place depth entry S (b.better found) := by
  rw [Outcome.better_eq h.accounts (accounts_of_seek hfound)]
  split
  · rename_i hlt
    refine ⟨paths, path, [], rfl, hfound, fun r hr => ?_, fun _ hr => absurd hr List.not_mem_nil⟩
    obtain ⟨o', hok, hle⟩ := h.le hr
    exact ⟨o', hok, lt_of_le_of_lt hle hlt⟩
  · rename_i hle
    obtain ⟨before, first, after, rfl, hfirst, hbefore, hafter⟩ := h
    refine ⟨before, first, after ++ [path], by simp, hfirst, hbefore, fun r hr => ?_⟩
    rcases List.mem_append.1 hr with hmem | hmem
    · exact hafter r hmem
    · rw [List.mem_singleton] at hmem
      exact ⟨found, hmem ▸ hfound, not_lt.1 hle⟩

end EarliestBest

theorem seekPaths_nil (b : Outcome) :
    seekPaths limit reader [] place depth entry S (some b) = .ok b := by
  rw [seekPaths.eq_def]

theorem seekPaths_cons (path : Position) (rest : List Position) (best : Option Outcome) :
    seekPaths limit reader (path :: rest) place depth entry S best =
      (seek limit reader path place depth entry S 0 >>= fun found =>
        if found.isDecisive limit then .ok (found.settle path entry)
        else seekPaths limit reader rest place depth entry S
          (some ((best.map (·.better found)).getD found))) := by
  rw [seekPaths.eq_def]
  rfl

/-- No search of some paths is decisive, if it comes back with an outcome. -/
def Undecided (limit : Nat) (reader : Reader) (paths : List Position) (place depth : Nat)
    (entry : Bool) (S : Stack) : Prop :=
  ∀ path ∈ paths, ∀ found, seek limit reader path place depth entry S 0 = .ok found →
    found.isDecisive limit = false

/-- Where no path is decisive all of them are searched. -/
theorem Undecided.cons_inv {best : Option Outcome}
    (h : Undecided limit reader (path :: rest) place depth entry S)
    (hok : seekPaths limit reader (path :: rest) place depth entry S best = .ok o) :
    ∃ found, seek limit reader path place depth entry S 0 = .ok found ∧
      seekPaths limit reader rest place depth entry S
        (some ((best.map (·.better found)).getD found)) = .ok o := by
  rw [seekPaths_cons] at hok
  obtain ⟨found, hfound, hok⟩ := Except.bind_eq_ok hok
  rw [h path List.mem_cons_self found hfound, if_neg Bool.false_ne_true] at hok
  exact ⟨found, hfound, hok⟩

theorem Undecided.tail (h : Undecided limit reader (path :: rest) place depth entry S) :
    Undecided limit reader rest place depth entry S :=
  fun r hr => h r (List.mem_cons_of_mem _ hr)

/-- The best of the paths already tried is kept, or one of those to come takes its place. -/
theorem EarliestBest.of_seekPaths (h : EarliestBest limit reader before place depth entry S b)
    (hundecided : Undecided limit reader rest place depth entry S)
    (hok : seekPaths limit reader rest place depth entry S (some b) = .ok o) :
    EarliestBest limit reader (before ++ rest) place depth entry S o := by
  induction rest generalizing before b with
  | nil =>
    rw [seekPaths_nil] at hok
    cases hok
    rwa [List.append_nil]
  | cons path rest ih =>
    obtain ⟨found, hfound, hok⟩ := hundecided.cons_inv hok
    rw [List.append_cons]
    exact ih (h.concat hfound) hundecided.tail hok

theorem Undecided.earliestBest (h : Undecided limit reader paths place depth entry S)
    (hok : seekPaths limit reader paths place depth entry S none = .ok o) :
    EarliestBest limit reader paths place depth entry S o := by
  cases paths with
  | nil =>
    rw [seekPaths.eq_def] at hok
    cases hok
  | cons path rest =>
    obtain ⟨found, hfound, hok⟩ := h.cons_inv hok
    exact (EarliestBest.single hfound).of_seekPaths h.tail hok

/-- Paths that all come to an outcome, none of it decisive, have a best one. -/
theorem Undecided.exists_ok (best : Option Outcome)
    (h : Undecided limit reader paths place depth entry S)
    (hfound : ∀ r ∈ paths, ∃ o', seek limit reader r place depth entry S 0 = .ok o')
    (hsome : paths ≠ [] ∨ best.isSome = true) :
    ∃ o, seekPaths limit reader paths place depth entry S best = .ok o := by
  induction paths generalizing best with
  | nil =>
    obtain ⟨b, rfl⟩ := Option.isSome_iff_exists.1 (hsome.resolve_left (· rfl))
    exact ⟨b, seekPaths_nil b⟩
  | cons path rest ih =>
    obtain ⟨found, hpath⟩ := hfound path List.mem_cons_self
    obtain ⟨o, hok⟩ := ih (some ((best.map (·.better found)).getD found)) h.tail
      (fun r hr => hfound r (List.mem_cons_of_mem _ hr)) (.inr rfl)
    refine ⟨o, ?_⟩
    rw [seekPaths_cons, hpath]
    change (if found.isDecisive limit then _ else _) = _
    rw [h path List.mem_cons_self found hpath, if_neg Bool.false_ne_true, hok]

/-- Where no path of a branch point is decisive, the outcome is that of the first among the best
paths, with the tokens matched before it added and nothing else changed. In whatever order the
paths are tried, there is an outcome, and it has the same rank. -/
theorem seekPaths_earliest_best (h : Undecided limit reader paths place depth entry S)
    (hok : (seekPaths limit reader paths place depth entry S none).map (·.addMatched current) =
      .ok o) :
    (∃ best, EarliestBest limit reader paths place depth entry S best ∧
      o = best.addMatched current) ∧
    ∀ paths' : List Position, paths'.Perm paths →
      ∃ o', (seekPaths limit reader paths' place depth entry S none).map (·.addMatched current) =
        .ok o' ∧ o'.rank = o.rank := by
  obtain ⟨best, hbest, rfl⟩ := Except.map_eq_ok hok
  have hearliest := h.earliestBest hbest
  refine ⟨⟨best, hearliest, rfl⟩, fun paths' hperm => ?_⟩
  have h' : Undecided limit reader paths' place depth entry S :=
    fun r hr => h r (hperm.mem_iff.1 hr)
  have hsome : paths' ≠ [] := by
    rintro rfl
    rw [← hperm.nil_eq, seekPaths.eq_def] at hbest
    cases hbest
  obtain ⟨best', hbest'⟩ := h'.exists_ok none
    (fun r hr => (hearliest.le (hperm.mem_iff.1 hr)).imp fun _ => And.left) (.inl hsome)
  have hearliest' := h'.earliestBest hbest'
  refine ⟨best'.addMatched current, by rw [hbest']; rfl, Outcome.rank_addMatched ?_ current⟩
  exact le_antisymm (hearliest'.rank_le hearliest fun r => hperm.mem_iff.1)
    (hearliest.rank_le hearliest' fun r => hperm.mem_iff.2)

/-- Between two commas a parameter is missing. Closing the list before them matches nothing, so the
path of the comma is the better one, whichever comes first. -/
theorem comma_is_earliest_best :
    ∃ r S o, r = Reader.ofTokens [.plain .comma "," 1, .plain .comma "," 1, .eof 1] ∧
      S = [.paramList, .funcDefinition, .compUnit] ∧
      (seekPaths 3 r [.closeParenthesis, .comma] 1 0 true S none).map (·.addMatched 2) = .ok o ∧
      o.matched = 3 ∧
      (∃ best, EarliestBest 3 r [.closeParenthesis, .comma] 1 0 true S best ∧
        o = best.addMatched 2) ∧
      ∃ o', (seekPaths 3 r [.comma, .closeParenthesis] 1 0 true S none).map (·.addMatched 2) =
        .ok o' ∧ o'.rank = o.rank := by
  have hclose : seek 3 (.ofTokens [.plain .comma "," 1, .plain .comma "," 1, .eof 1])
      .closeParenthesis 1 0 true [.paramList, .funcDefinition, .compUnit] 0 =
        .ok ⟨[(Repair.insert .closeParenthesis .closeParen).atDepth 1,
          (Repair.insert .openBrace .openBrace).atDepth 2,
          (Repair.insert .closeBrace .closeBrace).atDepth 3], 0, 0,
          some ((Repair.insert .closeParenthesis .closeParen).atDepth 1)⟩ := by cbv
  have hcomma : seek 3 (.ofTokens [.plain .comma "," 1, .plain .comma "," 1, .eof 1])
      .comma 1 0 true [.paramList, .funcDefinition, .compUnit] 0 =
        .ok ⟨[(Repair.remove .typeReference (.plain .comma "," 1)).atDepth 2,
          (Repair.insert .typeReference .identifier).atDepth 3], 1, 1,
          some (.keep .typeReference .identifier)⟩ := by cbv
  have hok : (seekPaths 3 (.ofTokens [.plain .comma "," 1, .plain .comma "," 1, .eof 1])
      [.closeParenthesis, .comma] 1 0 true [.paramList, .funcDefinition, .compUnit] none).map
        (·.addMatched 2) =
        .ok ⟨[(Repair.remove .typeReference (.plain .comma "," 1)).atDepth 2,
          (Repair.insert .typeReference .identifier).atDepth 3], 3, 1,
          some (.keep .typeReference .identifier)⟩ := by
    rw [seekPaths_cons, hclose]
    change Except.map _ (seekPaths 3 _ [.comma] 1 0 true _ (some _)) = _
    rw [seekPaths_cons, hcomma]
    change Except.map _ (seekPaths 3 _ [] 1 0 true _ (some _)) = _
    rw [seekPaths_nil]
    rfl
  have hundecided : Undecided 3 (.ofTokens [.plain .comma "," 1, .plain .comma "," 1, .eof 1])
      [.closeParenthesis, .comma] 1 0 true [.paramList, .funcDefinition, .compUnit] := by
    intro path hpath found hfound
    rcases List.mem_pair.1 hpath with rfl | rfl
    · rw [hclose] at hfound
      cases hfound
      rfl
    · rw [hcomma] at hfound
      cases hfound
      rfl
  obtain ⟨hearliest, horder⟩ := seekPaths_earliest_best hundecided hok
  exact ⟨_, _, _, rfl, rfl, hok, rfl, hearliest, horder _ (.swap ..)⟩

/-! ## Making the choice good -/

/-- Making the choice of a search good changes it exactly where it is to let documentation stand.
It never lets the repair beneath take the place of one that supplies a token. -/
theorem validate_run (hok : run lookahead reader p S = .ok o) :
    (∀ position next, o.validate position next ≠ o ↔
      o.choiceAction? = some .keep ∧ next.kind = .documentationString) ∧
    ¬ ∃ second, o.choiceAction? = some .insert ∧ o.second? = some second ∧
      second.action = .remove ∧ second.depth = 1 := by
  obtain ⟨edits, _, h⟩ := seek_backed (steps lookahead) reader p 1 0 true S 0 o hok
  refine ⟨fun position next => ?_, ?_⟩
  · rw [h.validate_eq]
    split
    · rename_i hkeep
      refine iff_of_true (fun heq => ?_) hkeep
      rw [← heq] at hkeep
      cases hkeep.1
    · rename_i hother
      exact iff_of_false (· rfl) hother
  · rintro ⟨second, _, hsecond, _, hdepth⟩
    have := h.lt_depth_of_second? hsecond
    omega

/-- Where an import goes on with a comma in the place of a name, the name is supplied and the comma
left out behind it. That second repair is of the second step, so the first one stands. -/
theorem name_stands_before_comma :
    ∃ o, run 3 (.ofTokens [.plain .comma "," 1, .plain .semicolon ";" 1, .eof 1])
        .importModuleName [.importDecl, .compUnit] = .ok o ∧
      o.choiceAction? = some .insert ∧ o.second?.map (·.action) = some .remove ∧
      (∀ position next, o.validate position next ≠ o ↔
        o.choiceAction? = some .keep ∧ next.kind = .documentationString) ∧
      ¬ ∃ second, o.choiceAction? = some .insert ∧ o.second? = some second ∧
        second.action = .remove ∧ second.depth = 1 := by
  have hok : run 3 (.ofTokens [.plain .comma "," 1, .plain .semicolon ";" 1, .eof 1])
      .importModuleName [.importDecl, .compUnit] =
        .ok ⟨[(Repair.insert .importModuleName .identifier).atDepth 1,
          (Repair.remove .semicolon (.plain .comma "," 1)).atDepth 2], 1, 1,
          some ((Repair.insert .importModuleName .identifier).atDepth 1)⟩ := by cbv
  obtain ⟨hvalidate, hnever⟩ := validate_run hok
  exact ⟨_, hok, rfl, rfl, hvalidate, hnever⟩

end Search

end Mend
