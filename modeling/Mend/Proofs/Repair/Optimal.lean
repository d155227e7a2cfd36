import Mend.Proofs.Repair.Readable

/-!
# The best of all edit scripts

A search makes its choices one after another: at a token that does not fit it goes on with the
better of leaving it out and supplying one, and at a branch point with the best path, or with the
first that is decisive. No edit script of the same number of steps matches more tokens than what
these choices lead to, except one that would match them all. Behind the first step a decisive
outcome already has all the matches there can be. Before it one match is missing, so only a script
without any repair could have been missed.
-/

namespace Mend.Search

variable {limit lookahead : Nat} {reader : Reader} {p q : Position} {S T : Stack}
  {place depth passed : Nat} {entry : Bool} {o : Outcome} {edits : List Edit}

theorem matched_le_of_prefersInsertion {next : Token} {insertion deletion : Outcome}
    (h : Outcome.prefersInsertion p next insertion deletion = true) :
    deletion.matched ≤ insertion.matched := by
  unfold Outcome.prefersInsertion at h
  split at h
  · omega
  · split at h
    · omega
    · rw [decide_eq_true_eq] at h
      omega

theorem matched_le_of_prefersDeletion {next : Token} {insertion deletion : Outcome}
    (h : Outcome.prefersInsertion p next insertion deletion = false) :
    insertion.matched ≤ deletion.matched := by
  unfold Outcome.prefersInsertion at h
  split at h
  · cases h
  · split at h
    · omega
    · rw [decide_eq_false_iff_not] at h
      omega

/-- The repair that is chosen leads to as many matches as either. -/
theorem matched_repairAt (p : Position) (next : Token) (depth : Nat)
    (deletion insertion : Outcome) :
    (Outcome.repairAt p next depth deletion (some insertion)).matched =
      max insertion.matched deletion.matched := by
  dsimp only [Outcome.repairAt]
  split
  · rename_i h
    exact (Nat.max_eq_left (matched_le_of_prefersInsertion h)).symm
  · rename_i h
    rw [Bool.not_eq_true] at h
    exact (Nat.max_eq_right (matched_le_of_prefersDeletion h)).symm

/-- An outcome has at least a number of matches, or that number is all the limit allows. -/
def ComesUpTo (limit : Nat) (o : Outcome) (matched : Nat) : Prop :=
  matched ≤ o.matched ∨ matched = limit

/-- An outcome comes up to every script from a state that takes the steps left behind a depth. -/
def NoneBetter (limit : Nat) (reader : Reader) (position : Position) (place depth : Nat)
    (stack : Stack) (o : Outcome) : Prop :=
  ∀ edits, Script reader position stack place edits → edits.length = limit - depth →
    ComesUpTo limit o (edits.countP Edit.isMatch)

/-- Behind the first step there is no exception. -/
theorem NoneBetter.le (h : NoneBetter limit reader p place (depth + 1) S o) (hdepth : depth < limit)
    (hscript : Script reader p S place edits) (hlength : edits.length = limit - (depth + 1)) :
    edits.countP Edit.isMatch ≤ o.matched := by
  have hcount : edits.countP Edit.isMatch ≤ edits.length := List.countP_le_length
  rcases h edits hscript hlength with hle | hall
  · exact hle
  · omega

/-- A decisive outcome comes up to any number of matches that the limit allows. -/
theorem comesUpTo_of_isDecisive {matched : Nat} (h : o.isDecisive limit = true)
    (hle : matched ≤ limit) : ComesUpTo limit o matched := by
  have hone := matched_of_isDecisive h
  unfold ComesUpTo
  omega

theorem exists_cons_of_lt (hdepth : depth < limit) (hlength : edits.length = limit - depth) :
    ∃ edit rest, edits = edit :: rest ∧ rest.length = limit - (depth + 1) := by
  cases edits with
  | nil =>
    rw [List.length_nil] at hlength
    omega
  | cons edit rest =>
    rw [List.length_cons] at hlength
    exact ⟨edit, rest, rfl, by omega⟩

theorem seek_noneBetter (limit : Nat) (reader : Reader) (position : Position) (place depth : Nat)
    (entry : Bool) (stack : Stack) (passed : Nat) :
    ∀ o, seek limit reader position place depth entry stack passed = .ok o →
      NoneBetter limit reader position place depth stack o := by
  have hcount {depth : Nat} (edits : List Edit) (hlength : edits.length = limit - depth) :
      edits.countP Edit.isMatch ≤ limit := by
    have hle : edits.countP Edit.isMatch ≤ edits.length := List.countP_le_length
    omega
  refine seek_induct (fun p place depth _ S o => NoneBetter limit reader p place depth S o)
    (fun paths place depth _ S best o =>
      (∀ path ∈ paths, NoneBetter limit reader path place depth S o) ∧
      ∀ b, best = some b → ∀ matched ≤ limit, matched ≤ b.matched → ComesUpTo limit o matched)
    ?branch ?silent ?matched ?removed ?repaired ?ended ?best ?decisive ?path
    position place depth entry stack passed
  case branch =>
    intro p place depth entry S o hdepth hbranch ih edits hscript hlength
    obtain ⟨edit, rest, rfl, -⟩ := exists_cons_of_lt hdepth hlength
    obtain ⟨path, hpath, hbehind⟩ := hscript.path_of_cons hbranch
    exact ih.1 path hpath _ hbehind hlength
  case silent =>
    intro p place depth entry S q T o hdepth hsilent hmove ih edits hscript hlength
    obtain ⟨edit, rest, rfl, -⟩ := exists_cons_of_lt hdepth hlength
    exact ih _ (hscript.silent_of_cons hsilent hmove) hlength
  case matched =>
    intro p place depth entry S q T o hdepth _ haccepts hmove ih edits hscript hlength
    obtain ⟨edit, rest, rfl, hrest⟩ := exists_cons_of_lt hdepth hlength
    obtain ⟨rfl, hbehind⟩ := hscript.matched_of_cons haccepts hmove
    left
    rw [List.countP_cons_of_pos rfl]
    exact Nat.succ_le_succ (ih.le hdepth hbehind hrest)
  case removed =>
    intro p place depth entry S deletion hdepth htakes hrejects hcan ih edits hscript hlength
    obtain ⟨edit, rest, rfl, hrest⟩ := exists_cons_of_lt hdepth hlength
    obtain ⟨hrepair, hbehind⟩ := hscript.repair_of_cons htakes hrejects
    left
    rw [List.countP_cons_of_neg (by simp [hrepair])]
    rcases hbehind with hbehind | ⟨hcan', _⟩
    · exact ih.le hdepth hbehind hrest
    · rw [hcan] at hcan'
      cases hcan'
  case repaired =>
    intro p place depth entry S q T deletion insertion hdepth htakes hrejects _ hmove ihdeletion
      ihinsertion edits hscript hlength
    obtain ⟨edit, rest, rfl, hrest⟩ := exists_cons_of_lt hdepth hlength
    obtain ⟨hrepair, hbehind⟩ := hscript.repair_of_cons htakes hrejects
    left
    rw [List.countP_cons_of_neg (by simp [hrepair]), Outcome.chooseRepair, Outcome.choose,
      matched_repairAt]
    rcases hbehind with hbehind | ⟨_, hbehind⟩
    · exact Nat.le_trans (ihdeletion.le hdepth hbehind hrest) (Nat.le_max_right ..)
    · exact Nat.le_trans (ihinsertion.le hdepth (hbehind q T hmove) hrest) (Nat.le_max_left ..)
  case ended =>
    intro p place depth entry S hended edits _ hlength
    obtain rfl : edits = [] := List.eq_nil_of_length_eq_zero (by omega)
    exact .inl (Nat.le_refl 0)
  case best =>
    intro place depth entry S o
    refine ⟨fun path hpath => ?_, fun b hb matched _ hle => ?_⟩
    · cases hpath
    · cases hb
      exact .inl hle
  case decisive =>
    intro path rest place depth entry S best found _ _ hdecisive
    have hsettled : (found.settle path entry).isDecisive limit = true :=
      isDecisive_settle hdecisive
    exact ⟨fun _ _ edits _ hlength => comesUpTo_of_isDecisive hsettled (hcount edits hlength),
      fun _ _ matched hle _ => comesUpTo_of_isDecisive hsettled hle⟩
  case path =>
    -- What the best so far comes up to, the better of it and the next path comes up to as well.
    intro path rest place depth entry S best found o _ ih _ ihrest
    obtain ⟨hrest, hbest⟩ := ihrest
    have hmatched : ((best.map (·.better found)).getD found).matched =
        max ((best.map (·.matched)).getD 0) found.matched := by
      cases best with
      | none => simp
      | some b => exact matched_better b found
    refine ⟨fun r hr edits hscript hlength => ?_, fun b hb matched hle hmatch => ?_⟩
    · rcases List.mem_cons.1 hr with rfl | hmem
      · rcases ih edits hscript hlength with hle | hall
        · exact hbest _ rfl _ (hcount edits hlength) (by omega)
        · exact .inr hall
      · exact hrest r hmem edits hscript hlength
    · subst hb
      refine hbest _ rfl matched hle ?_
      rw [hmatched]
      exact Nat.le_trans hmatch (Nat.le_max_left ..)

/-- Where the tokens ahead cannot all be matched, no edit script that takes as many steps as the
limit allows matches more of them than a search does. -/
theorem run_optimal (hok : run lookahead reader p S = .ok o)
    (hneeds : ¬ Script reader p S 1 (List.replicate (steps lookahead) .matched))
    (hscript : Script reader p S 1 edits) (hlength : edits.length = steps lookahead) :
    edits.countP Edit.isMatch ≤ o.matched := by
  rcases seek_noneBetter (steps lookahead) reader p 1 0 true S 0 o hok edits hscript hlength with
    hle | hall
  · exact hle
  · -- A script that matches in every step is the one that is said not to be there.
    have hmatches : ∀ edit ∈ edits, edit.isMatch = true :=
      List.countP_eq_length.1 (hall.trans hlength.symm)
    have hsame : edits = List.replicate (steps lookahead) .matched :=
      List.eq_replicate_iff.2 ⟨hlength, fun edit hedit => Edit.isMatch_iff.1 (hmatches edit hedit)⟩
    exact absurd (hsame ▸ hscript) hneeds

/-- A brace that stands where a field should end with a semicolon cannot be read there. Supplying
the semicolon makes one match out of two steps, and no script makes more. -/
theorem unended_field_optimal :
    ∃ r S o, r = Reader.ofTokens [.plain .closeBrace "\x7d" 1, .eof 1] ∧
      S = [.recordField, .recordTypeDesc, .typeDefinition, .compUnit] ∧
      run 2 r .semicolon S = .ok o ∧ o.matched = 1 ∧
      ¬ Script r .semicolon S 1 (List.replicate (steps 2) .matched) ∧
      ∀ edits, Script r .semicolon S 1 edits → edits.length = steps 2 →
        edits.countP Edit.isMatch ≤ o.matched := by
  have hok : run 2 (.ofTokens [.plain .closeBrace "\x7d" 1, .eof 1])
      .semicolon [.recordField, .recordTypeDesc, .typeDefinition, .compUnit] =
      .ok ⟨[(Repair.insert .semicolon .semicolon).atDepth 1], 1, 0,
        some ((Repair.insert .semicolon .semicolon).atDepth 1)⟩ := by cbv
  have hneeds : ¬ Script (.ofTokens [.plain .closeBrace "\x7d" 1, .eof 1])
      .semicolon [.recordField, .recordTypeDesc, .typeDefinition, .compUnit] 1
      (List.replicate (steps 2) .matched) := by
    intro h
    obtain ⟨hrepair, _⟩ := h.repair_of_cons rfl rfl
    cases hrepair
  exact ⟨_, _, _, rfl, rfl, hok, rfl, hneeds, fun edits hscript hlength =>
    run_optimal hok hneeds hscript hlength⟩

end Mend.Search
