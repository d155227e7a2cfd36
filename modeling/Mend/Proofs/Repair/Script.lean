import Mathlib.Data.List.Basic
import Mend.Proofs.Repair.Search

/-!
# Edit scripts

An edit script follows the automaton over the tokens ahead. Where a position takes a token, a step
of it matches the next one if it fits, and otherwise supplies a token or leaves the next one out;
such steps count, the moves between them do not. Documentation is looked over as a search does.

Whatever a search comes back with is one of these scripts: it has as many steps as the limit
leaves, the matches are counted in the outcome, and the other steps are its repairs, from the one
closest to the start on. The balance of matches and repairs, the order of the depths and the
choice that is made all follow from the script.
-/

namespace Mend.Search

/-! ## Scripts -/

/-- A step of an edit script that counts. -/
inductive Edit where
  /-- The next token is taken as it stands. -/
  | matched
  /-- A token is supplied at a position. -/
  | supplied (position : Position)
  /-- A token that stands at a position is left out. -/
  | leftOut (position : Position) (t : Token)

namespace Edit

def isMatch : Edit → Bool
  | matched => true
  | _ => false

/-- The repair that a step makes, as it is proposed at a depth. -/
def repair? (depth : Nat) : Edit → Option Repair
  | matched => none
  | supplied position => some ((Repair.insert position position.expectedKind).atDepth depth)
  | leftOut position t => some ((Repair.remove position t).atDepth depth)

/-- The repairs of a script behind a number of steps. Each has the number of its own step as its
depth. -/
def repairs (depth : Nat) : List Edit → List Repair
  | [] => []
  | edit :: rest => (edit.repair? (depth + 1)).toList ++ repairs (depth + 1) rest

def startsWithRepair (edits : List Edit) : Bool := edits.head?.any (!·.isMatch)

variable {edit : Edit} {edits : List Edit} {depth : Nat} {fix : Repair}

theorem isMatch_iff : edit.isMatch = true ↔ edit = .matched := by
  cases edit <;> simp [isMatch]

theorem repair?_eq_none_iff : edit.repair? depth = none ↔ edit.isMatch = true := by
  cases edit <;> simp [repair?, isMatch]

theorem isMatch_of_repair? (h : edit.repair? depth = some fix) : edit.isMatch = false := by
  rw [← Bool.not_eq_true, ← repair?_eq_none_iff, h]
  simp

theorem depth_of_repair? (h : edit.repair? depth = some fix) : fix.depth = depth := by
  cases edit with
  | matched => cases h
  | supplied position => cases h; rfl
  | leftOut position t => cases h; rfl

theorem action_of_repair? (h : edit.repair? depth = some fix) :
    fix.action = .insert ∨ fix.action = .remove := by
  cases edit with
  | matched => cases h
  | supplied position => cases h; exact .inl rfl
  | leftOut position t => cases h; exact .inr rfl

theorem repairs_of_repair? (h : edit.repair? (depth + 1) = some fix) :
    repairs depth (edit :: edits) = fix :: repairs (depth + 1) edits := by
  rw [repairs, h]
  rfl

/-- Every repair of a script is one of its steps. -/
theorem exists_of_mem_repairs (h : fix ∈ repairs depth edits) :
    ∃ edit : Edit, edit.repair? fix.depth = some fix ∧ depth < fix.depth ∧
      fix.depth ≤ depth + edits.length := by
  induction edits generalizing depth with
  | nil => cases h
  | cons edit rest ih =>
    rw [List.length_cons]
    rcases List.mem_append.1 h with hfirst | hrest
    · rw [Option.mem_toList] at hfirst
      have hdepth := depth_of_repair? hfirst
      exact ⟨edit, hdepth ▸ hfirst, by omega, by omega⟩
    · obtain ⟨edit', hrepair, hlt, hle⟩ := ih hrest
      exact ⟨edit', hrepair, by omega, by omega⟩

theorem count_add_length_repairs :
    edits.countP isMatch + (repairs depth edits).length = edits.length := by
  induction edits generalizing depth with
  | nil => rfl
  | cons edit rest ih =>
    have hrest : rest.countP isMatch + (repairs (depth + 1) rest).length = rest.length := ih
    cases hrepair : edit.repair? (depth + 1) with
    | none =>
      have hmatch := repair?_eq_none_iff.1 hrepair
      simp only [repairs, hrepair, Option.toList_none, List.nil_append, List.length_cons,
        List.countP_cons_of_pos hmatch]
      omega
    | some fix =>
      have hrejects : ¬ edit.isMatch = true := by simp [isMatch_of_repair? hrepair]
      simp only [repairs_of_repair? hrepair, List.length_cons, List.countP_cons_of_neg hrejects]
      omega

theorem pairwise_repairs : (repairs depth edits).Pairwise (·.depth < ·.depth) := by
  induction edits generalizing depth with
  | nil => exact .nil
  | cons edit rest ih =>
    refine List.pairwise_append.2 ⟨?_, ih, fun fix hfix later hlater => ?_⟩
    · cases edit.repair? (depth + 1) with
      | none => exact .nil
      | some fix => exact List.pairwise_singleton ..
    · rw [Option.mem_toList] at hfix
      obtain ⟨_, _, hlt, _⟩ := exists_of_mem_repairs hlater
      have hdepth := depth_of_repair? hfix
      omega

/-- A script starts with a repair if its first repair has the depth of the first step. -/
theorem startsWithRepair_iff :
    startsWithRepair edits = true ↔
      ∃ fix, (repairs depth edits).head? = some fix ∧ fix.depth = depth + 1 := by
  cases edits with
  | nil => simp [startsWithRepair, repairs]
  | cons edit rest =>
    cases edit with
    | matched =>
      refine iff_of_false (by simp [startsWithRepair, isMatch]) ?_
      rintro ⟨fix, hfirst, hdepth⟩
      have hmem : fix ∈ repairs (depth + 1) rest := List.mem_of_mem_head? hfirst
      obtain ⟨_, _, hlt, _⟩ := exists_of_mem_repairs hmem
      omega
    | supplied position => exact iff_of_true rfl ⟨_, rfl, rfl⟩
    | leftOut position t => exact iff_of_true rfl ⟨_, rfl, rfl⟩

end Edit

/-- A script of counted steps that goes from a state over the tokens of a reader from a place
ahead on. Where a branch point is met any of its paths is taken, and a silent position is passed.
A token is only supplied or left out where the next one does not fit, and none is supplied where
the position has none to supply or the next one repeats the separator before it. -/
inductive Script (reader : Reader) : Position → Stack → Nat → List Edit → Prop
  | done (p : Position) (S : Stack) (place : Nat) : Script reader p S place []
  | path {p q : Position} {S : Stack} {place : Nat} {edits : List Edit} (hpath : q ∈ p.paths)
      (h : Script reader q S (placeFor reader p place) edits) :
      Script reader p S place edits
  | silent {p q : Position} {S T : Stack} {place : Nat} {edits : List Edit}
      (hsilent : p.isSilent = true) (hmove : p.advance S = .reach q T)
      (h : Script reader q T (placeFor reader p place) edits) :
      Script reader p S place edits
  | matched {p q : Position} {S T : Stack} {place : Nat} {edits : List Edit}
      (haccepts : p.accepts (reader.peekN (placeFor reader p place)) = true)
      (hmove : p.advance S = .reach q T)
      (h : Script reader q T (placeFor reader p place + 1) edits) :
      Script reader p S place (.matched :: edits)
  | supplied {p q : Position} {S T : Stack} {place : Nat} {edits : List Edit}
      (htakes : p.takesToken = true)
      (hrejects : p.accepts (reader.peekN (placeFor reader p place)) = false)
      (hcan : canInsert reader p (placeFor reader p place) = true)
      (hmove : p.advance S = .reach q T)
      (h : Script reader q T (placeFor reader p place) edits) :
      Script reader p S place (.supplied p :: edits)
  | leftOut {p : Position} {S : Stack} {place : Nat} {edits : List Edit}
      (htakes : p.takesToken = true)
      (hrejects : p.accepts (reader.peekN (placeFor reader p place)) = false)
      (h : Script reader p S (placeFor reader p place + 1) edits) :
      Script reader p S place (.leftOut p (reader.peekN (placeFor reader p place)) :: edits)

variable {limit lookahead : Nat} {reader : Reader} {p q : Position} {S T : Stack}
  {place depth passed : Nat} {entry : Bool} {o : Outcome} {edit : Edit} {edits : List Edit}

namespace Script

theorem path_of_cons (h : Script reader p S place (edit :: edits)) (hbranch : p.isBranch = true) :
    ∃ q ∈ p.paths, Script reader q S (placeFor reader p place) (edit :: edits) := by
  cases h with
  | path hpath hrest => exact ⟨_, hpath, hrest⟩
  | silent hsilent _ _ => simp [Position.isBranch_of_isSilent hsilent] at hbranch
  | matched haccepts _ _ => simp [Position.isBranch_of_accepts haccepts] at hbranch
  | supplied htakes _ _ _ _ => simp [Position.isBranch_of_takesToken htakes] at hbranch
  | leftOut htakes _ _ => simp [Position.isBranch_of_takesToken htakes] at hbranch

theorem silent_of_cons (h : Script reader p S place (edit :: edits)) (hsilent : p.isSilent = true)
    (hmove : p.advance S = .reach q T) :
    Script reader q T (placeFor reader p place) (edit :: edits) := by
  have htakes (h : p.takesToken = true) : False := by
    simp [Position.isSilent_of_takesToken h] at hsilent
  cases h with
  | path hpath _ =>
    exact absurd hpath (Position.not_mem_paths (Position.isBranch_of_isSilent hsilent))
  | silent _ hmove' hrest =>
    rw [hmove, Step.reach.injEq] at hmove'
    exact hmove'.1 ▸ hmove'.2 ▸ hrest
  | matched haccepts _ _ => exact (htakes (Position.takesToken_of_accepts haccepts)).elim
  | supplied h _ _ _ _ => exact (htakes h).elim
  | leftOut h _ _ => exact (htakes h).elim

/-- A token that fits is matched. -/
theorem matched_of_cons (h : Script reader p S place (edit :: edits))
    (haccepts : p.accepts (reader.peekN (placeFor reader p place)) = true)
    (hmove : p.advance S = .reach q T) :
    edit = .matched ∧ Script reader q T (placeFor reader p place + 1) edits := by
  have htakes := Position.takesToken_of_accepts haccepts
  cases h with
  | path hpath _ =>
    exact absurd hpath (Position.not_mem_paths (Position.isBranch_of_takesToken htakes))
  | silent hsilent _ _ => simp [Position.isSilent_of_takesToken htakes] at hsilent
  | matched _ hmove' hrest =>
    rw [hmove, Step.reach.injEq] at hmove'
    exact ⟨rfl, hmove'.1 ▸ hmove'.2 ▸ hrest⟩
  | supplied _ hrejects _ _ _ => simp [haccepts] at hrejects
  | leftOut _ hrejects _ => simp [haccepts] at hrejects

/-- A token that does not fit is left out, or another is supplied before it. -/
theorem repair_of_cons (h : Script reader p S place (edit :: edits)) (htakes : p.takesToken = true)
    (hrejects : p.accepts (reader.peekN (placeFor reader p place)) = false) :
    edit.isMatch = false ∧
      (Script reader p S (placeFor reader p place + 1) edits ∨
        (canInsert reader p (placeFor reader p place) = true ∧
          ∀ q T, p.advance S = .reach q T →
            Script reader q T (placeFor reader p place) edits)) := by
  cases h with
  | path hpath _ =>
    exact absurd hpath (Position.not_mem_paths (Position.isBranch_of_takesToken htakes))
  | silent hsilent _ _ => simp [Position.isSilent_of_takesToken htakes] at hsilent
  | matched haccepts _ _ => simp [haccepts] at hrejects
  | supplied _ _ hcan hmove hrest =>
    refine ⟨rfl, .inr ⟨hcan, fun q T hmove' => ?_⟩⟩
    rw [hmove, Step.reach.injEq] at hmove'
    exact hmove'.1 ▸ hmove'.2 ▸ hrest
  | leftOut _ _ hrest => exact ⟨rfl, .inl hrest⟩

end Script

/-! ## Outcomes of scripts -/

/-- An outcome records a script of as many steps as a limit leaves behind a depth. Its choice is
the first repair if the search starts with it, and otherwise to go on. -/
structure Records (limit depth : Nat) (entry : Bool) (edits : List Edit) (o : Outcome) : Prop where
  length : edits.length = limit - depth
  matched : o.matched = edits.countP Edit.isMatch
  fixes : o.fixes = Edit.repairs depth edits
  removals : o.removals = o.fixes.countP (·.action = .remove)
  repaired : entry = true → Edit.startsWithRepair edits = true → o.choice = o.top?
  goesOn : entry = false ∨ Edit.startsWithRepair edits = false → o.choiceAction? = some .keep

namespace Records

theorem addMatched (h : Records limit (depth + 1) false edits o) (hdepth : depth < limit) :
    Records limit depth entry (.matched :: edits) (o.addMatched 1) where
  length := by
    rw [List.length_cons, h.length]
    omega
  matched := by rw [Outcome.addMatched, h.matched, List.countP_cons_of_pos rfl]
  fixes := h.fixes
  removals := h.removals
  repaired _ hstarts := by cases hstarts
  -- Behind the start every choice is to go on.
  goesOn _ := h.goesOn (.inl rfl)

/-- A repair is put before those that the rest of the script makes, and is the choice if the
search starts with it. -/
theorem addRepair {fix : Repair} (h : Records limit (depth + 1) false edits o)
    (hdepth : depth < limit) (hfix : edit.repair? (depth + 1) = some fix) (o' : Outcome)
    (hmatched : o'.matched = o.matched) (hfixes : o'.fixes = fix :: o.fixes)
    (hremovals : o'.removals = o'.fixes.countP (·.action = .remove)) (p : Position) :
    Records limit depth entry (edit :: edits) (o'.chooseRepair p entry) where
  length := by
    rw [List.length_cons, h.length]
    omega
  matched := by
    have hmatch := Edit.isMatch_of_repair? hfix
    rw [List.countP_cons_of_neg (by simp [hmatch]), ← h.matched]
    exact hmatched
  fixes := by
    rw [Edit.repairs_of_repair? hfix, ← h.fixes]
    exact hfixes
  removals := hremovals
  repaired hentry _ := by
    subst hentry
    rfl
  goesOn hgoes := by
    rcases hgoes with rfl | hstarts
    · rfl
    · simp [Edit.startsWithRepair, Edit.isMatch_of_repair? hfix] at hstarts

theorem afterInsertion (h : Records limit (depth + 1) false edits o) (hdepth : depth < limit)
    (p : Position) :
    Records limit depth entry (.supplied p :: edits)
      ((o.afterInsertion p (depth + 1)).chooseRepair p entry) :=
  h.addRepair hdepth rfl (o.afterInsertion p (depth + 1)) rfl rfl h.removals p

theorem afterRemoval (h : Records limit (depth + 1) false edits o) (hdepth : depth < limit)
    (p : Position) (next : Token) :
    Records limit depth entry (.leftOut p next :: edits)
      ((o.afterRemoval p next (depth + 1)).chooseRepair p entry) := by
  have hone : (o.afterRemoval p next (depth + 1)).removals =
      (o.afterRemoval p next (depth + 1)).fixes.countP (·.action = .remove) := by
    simp only [Outcome.afterRemoval, Outcome.push]
    rw [List.countP_cons_of_pos rfl, ← h.removals]
  exact h.addRepair hdepth rfl (o.afterRemoval p next (depth + 1)) rfl rfl hone p

/-- A recorded script that starts with a repair has it on top of the outcome. -/
theorem exists_top (h : Records limit depth entry edits o)
    (hstarts : Edit.startsWithRepair edits = true) :
    ∃ fix, o.top? = some fix ∧ (fix.action = .insert ∨ fix.action = .remove) := by
  obtain ⟨fix, hfirst, _⟩ := Edit.startsWithRepair_iff.1 hstarts
  rw [← h.fixes] at hfirst
  have hmem : fix ∈ Edit.repairs depth edits := h.fixes ▸ List.mem_of_mem_head? hfirst
  obtain ⟨edit, hrepair, _⟩ := Edit.exists_of_mem_repairs hmem
  exact ⟨fix, hfirst, Edit.action_of_repair? hrepair⟩

/-- Settling a decisive outcome keeps the repair of the script it records. -/
theorem settle {path : Position} (h : Records limit depth entry edits o)
    (hdecisive : o.isDecisive limit = true) :
    Records limit depth entry edits (o.settle path entry) := by
  unfold Outcome.settle
  split
  · exact h
  · rename_i hother
    refine { h with repaired := fun hentry hstarts => ?_, goesOn := fun _ => rfl }
    obtain ⟨fix, htop, haction⟩ := h.exists_top hstarts
    have hchoice : o.choiceAction? = some fix.action := by
      rw [Outcome.choiceAction?, h.repaired hentry hstarts, htop]
      rfl
    rcases haction with hinsert | hremove
    · rw [hinsert] at hchoice
      simp [hentry, hchoice] at hother
    · rw [hremove] at hchoice
      simp [Outcome.isDecisive, hchoice] at hdecisive

end Records

/-- An outcome is backed by a script from a state over the tokens from a place ahead on. -/
def Backed (limit : Nat) (reader : Reader) (position : Position) (place depth : Nat)
    (entry : Bool) (stack : Stack) (o : Outcome) : Prop :=
  ∃ edits, Script reader position stack place edits ∧ Records limit depth entry edits o

/-- Everything a search comes back with is backed by a script. At a branch point the script is
that of one of the paths, the best so far or the one that settles the choice. -/
theorem seek_backed (limit : Nat) (reader : Reader) (position : Position) (place depth : Nat)
    (entry : Bool) (stack : Stack) (passed : Nat) :
    ∀ o, seek limit reader position place depth entry stack passed = .ok o →
      Backed limit reader position place depth entry stack o := by
  refine seek_induct (fun p place depth entry S o => Backed limit reader p place depth entry S o)
    (fun paths place depth entry S best o => ∀ among : List Position,
      (∀ path ∈ paths, path ∈ among) →
      (∀ b, best = some b → ∃ path ∈ among, Backed limit reader path place depth entry S b) →
      ∃ path ∈ among, Backed limit reader path place depth entry S o)
    ?branch ?silent ?matched ?removed ?repaired ?ended ?best ?decisive ?path
    position place depth entry stack passed
  case branch =>
    intro p place depth entry S o _ _ ih
    obtain ⟨path, hpath, edits, hscript, hrecords⟩ :=
      ih p.paths (fun _ h => h) (fun _ hnone => by cases hnone)
    exact ⟨edits, .path hpath hscript, hrecords⟩
  case silent =>
    intro p place depth entry S q T o _ hsilent hmove ih
    obtain ⟨edits, hscript, hrecords⟩ := ih
    exact ⟨edits, .silent hsilent hmove hscript, hrecords⟩
  case matched =>
    intro p place depth entry S q T o hdepth _ haccepts hmove ih
    obtain ⟨edits, hscript, hrecords⟩ := ih
    exact ⟨.matched :: edits, .matched haccepts hmove hscript, hrecords.addMatched hdepth⟩
  case removed =>
    intro p place depth entry S deletion hdepth htakes hrejects _ ih
    obtain ⟨edits, hscript, hrecords⟩ := ih
    exact ⟨_, .leftOut htakes hrejects hscript, hrecords.afterRemoval hdepth p _⟩
  case repaired =>
    intro p place depth entry S q T deletion insertion hdepth htakes hrejects hcan hmove
      ihdeletion ihinsertion
    dsimp only [Outcome.repairAt]
    split
    · obtain ⟨edits, hscript, hrecords⟩ := ihinsertion
      exact ⟨_, .supplied htakes hrejects hcan hmove hscript, hrecords.afterInsertion hdepth p⟩
    · obtain ⟨edits, hscript, hrecords⟩ := ihdeletion
      exact ⟨_, .leftOut htakes hrejects hscript, hrecords.afterRemoval hdepth p _⟩
  case ended =>
    intro p place depth entry S hended
    refine ⟨[], .done p S place, ⟨?_, rfl, rfl, rfl, fun _ hstarts => ?_, fun _ => rfl⟩⟩
    · simp only [List.length_nil]
      omega
    · cases hstarts
  case best =>
    intro place depth entry S o among _ hbest
    exact hbest o rfl
  case decisive =>
    intro path rest place depth entry S best found _ ih hdecisive among hamong _
    obtain ⟨edits, hscript, hrecords⟩ := ih
    exact ⟨path, hamong path List.mem_cons_self, edits, hscript, hrecords.settle hdecisive⟩
  case path =>
    intro path rest place depth entry S best found o _ ih _ ihrest among hamong hbest
    refine ihrest among (fun r hr => hamong r (List.mem_cons_of_mem _ hr)) ?_
    refine of_better (fun o o' h h' => ?_) hbest ⟨path, hamong path List.mem_cons_self, ih⟩
    unfold Outcome.better
    repeat' split
    all_goals assumption

/-- Every result of a search is backed by an edit script of as many steps as the limit allows. Its
matches are those that are counted, and its repairs are those of the result, one for one. -/
theorem run_backed_by_script (hok : run lookahead reader p S = .ok o) :
    ∃ edits, Script reader p S 1 edits ∧ edits.length = steps lookahead ∧
      o.matched = edits.countP Edit.isMatch ∧ o.fixes = Edit.repairs 0 edits := by
  obtain ⟨edits, hscript, hrecords⟩ := seek_backed (steps lookahead) reader p 1 0 true S 0 o hok
  exact ⟨edits, hscript, hrecords.length, hrecords.matched, hrecords.fixes⟩

/-- Where the semicolon behind a field is missing, the script reads the name of the field, supplies
the semicolon as its second step, and reads the brace. -/
theorem unended_field_backed :
    ∃ o, run 3 (.ofTokens [.plain .identifier "x" 1, .plain .closeBrace "\x7d" 1, .eof 1])
        .fieldName [.recordField, .recordTypeDesc, .typeDefinition, .compUnit] = .ok o ∧
      o.fixes = [(Repair.insert .semicolon .semicolon).atDepth 2] ∧
      ∃ edits, Script (.ofTokens [.plain .identifier "x" 1, .plain .closeBrace "\x7d" 1, .eof 1])
          .fieldName [.recordField, .recordTypeDesc, .typeDefinition, .compUnit] 1 edits ∧
        edits.length = 3 ∧ o.matched = edits.countP Edit.isMatch ∧
        o.fixes = Edit.repairs 0 edits := by
  have hok : run 3 (.ofTokens [.plain .identifier "x" 1, .plain .closeBrace "\x7d" 1, .eof 1])
      .fieldName [.recordField, .recordTypeDesc, .typeDefinition, .compUnit] =
      .ok ⟨[(Repair.insert .semicolon .semicolon).atDepth 2], 2, 0,
        some (.keep .semicolon .semicolon)⟩ := by cbv
  exact ⟨_, hok, rfl, run_backed_by_script hok⟩

/-- The balance of a search. Matches and repairs come to the steps that the limit leaves; every
repair supplies a token or leaves one out, and the latter are counted as removals; the depths of
the repairs rise and stay within the limit. The repair to carry out is the first one if the search
starts with it, and to go on in every other case. -/
theorem seek_balances (hok : seek limit reader p place depth entry S passed = .ok o) :
    o.matched + o.fixes.length = limit - depth ∧
    o.removals = o.fixes.countP (·.action = .remove) ∧
    (∀ fix ∈ o.fixes, fix.action = .insert ∨ fix.action = .remove) ∧
    o.fixes.Pairwise (·.depth < ·.depth) ∧
    (∀ fix ∈ o.fixes, depth + 1 ≤ fix.depth ∧ fix.depth ≤ limit) ∧
    (∀ fix, entry = true → o.top? = some fix → fix.depth = depth + 1 → o.choice = some fix) ∧
    ((∀ fix, entry = true → o.top? = some fix → fix.depth ≠ depth + 1) →
      o.choiceAction? = some .keep) := by
  obtain ⟨edits, _, h⟩ := seek_backed limit reader p place depth entry S passed o hok
  have htop : o.top? = (Edit.repairs depth edits).head? := congrArg _ h.fixes
  refine ⟨?_, h.removals, fun fix hfix => ?_, ?_, fun fix hfix => ?_, ?_, fun hnone => ?_⟩
  · rw [h.matched, h.fixes, Edit.count_add_length_repairs, h.length]
  · rw [h.fixes] at hfix
    obtain ⟨edit, hrepair, _⟩ := Edit.exists_of_mem_repairs hfix
    exact Edit.action_of_repair? hrepair
  · rw [h.fixes]
    exact Edit.pairwise_repairs
  · rw [h.fixes] at hfix
    obtain ⟨edit, _, hlt, hle⟩ := Edit.exists_of_mem_repairs hfix
    have hlength := h.length
    omega
  · intro fix hentry hfirst hdepth
    rw [← hfirst]
    rw [htop] at hfirst
    exact h.repaired hentry (Edit.startsWithRepair_iff.2 ⟨fix, hfirst, hdepth⟩)
  · refine h.goesOn ?_
    cases hentry : entry with
    | false => exact .inl rfl
    | true =>
      right
      rw [← Bool.not_eq_true]
      intro hstarts
      obtain ⟨fix, hfirst, hdepth⟩ := Edit.startsWithRepair_iff.1 hstarts
      exact hnone fix hentry (htop.trans hfirst) hdepth

/-- A comma that repeats the one before it is left out as the first step of a search. -/
theorem repeated_comma_balances :
    ∃ o fix, seek 3 ⟨[.plain .comma "," 1], [.plain .comma "," 1, .plain .identifier "b" 1], .eof 1⟩
        .variableRef 1 1 true [.argList, .callStmt, .block, .funcDefinition, .compUnit] 0 = .ok o ∧
      o.top? = some fix ∧ fix.action = .remove ∧ fix.depth = 2 ∧
      o.matched + o.fixes.length = 3 - 1 ∧
      o.removals = o.fixes.countP (·.action = .remove) ∧ o.choice = some fix := by
  have hok : seek 3 ⟨[.plain .comma "," 1], [.plain .comma "," 1, .plain .identifier "b" 1], .eof 1⟩
      .variableRef 1 1 true [.argList, .callStmt, .block, .funcDefinition, .compUnit] 0 =
      .ok ⟨[(Repair.remove .variableRef (.plain .comma "," 1)).atDepth 2], 1, 1,
        some ((Repair.remove .variableRef (.plain .comma "," 1)).atDepth 2)⟩ := by cbv
  obtain ⟨hsteps, hremovals, _, _, _, hchoice, _⟩ := seek_balances hok
  exact ⟨_, _, hok, rfl, rfl, rfl, hsteps, hremovals, hchoice _ rfl rfl rfl⟩

end Mend.Search
