import Mend.Proofs.Repair.Script

/-!
# Searches over tokens that can be read

Every step of a search matches a token or repairs something, so matches and repairs together come
to as many as the limit allows. Where the tokens ahead can be read as they stand, a search that
compared all ways would find nothing to repair. But a branch point takes the first path whose
outcome is decisive, and decisive is already one match below the limit. Behind the first step that
is all there is to match; before it, a path with one repair may be taken although another path
would have needed none. Nothing else keeps a search from matching all the tokens.
-/

namespace Mend

namespace Search

variable {limit lookahead : Nat} {reader : Reader} {p q : Position} {S T : Stack}
  {place depth passed : Nat} {entry : Bool} {o : Outcome}

/-! ## Matches and repairs -/

/-- An outcome of the steps that a limit leaves behind a depth. Each of them matched a token or
repaired something; and behind the start, or without a repair, the choice is to go on. -/
structure Tallied (limit depth : Nat) (entry : Bool) (o : Outcome) : Prop where
  steps : o.matched + o.fixes.length = limit - depth
  goesOn : entry = false ∨ o.fixes = [] → o.choiceAction? = some .keep

namespace Tallied

theorem better {o' : Outcome} (h : Tallied limit depth entry o)
    (h' : Tallied limit depth entry o') : Tallied limit depth entry (o.better o') := by
  unfold Outcome.better
  repeat' split
  all_goals assumption

theorem matched_le (h : Tallied limit depth entry o) : o.matched ≤ limit - depth := by
  have := h.steps
  omega

end Tallied

/-- The script behind an outcome gives its tally. -/
theorem seek_tallied (limit : Nat) (reader : Reader) (position : Position) (place depth : Nat)
    (entry : Bool) (stack : Stack) (passed : Nat) :
    ∀ o, seek limit reader position place depth entry stack passed = .ok o →
      Tallied limit depth entry o := by
  intro o hok
  obtain ⟨edits, _, h⟩ := seek_backed limit reader position place depth entry stack passed o hok
  refine ⟨?_, fun hgoes => h.goesOn (hgoes.imp_right fun hnone => ?_)⟩
  · rw [h.matched, h.fixes, Edit.count_add_length_repairs, h.length]
  · rw [← Bool.not_eq_true]
    intro hstarts
    obtain ⟨fix, hfirst, _⟩ := Edit.startsWithRepair_iff.1 hstarts
    rw [← h.fixes, hnone] at hfirst
    cases hfirst

/-! ## The first decisive path -/

/-- An outcome is that of the first path, among some, whose own search is decisive. -/
def FirstDecisive (limit : Nat) (reader : Reader) (paths : List Position) (place depth : Nat)
    (entry : Bool) (stack : Stack) (o : Outcome) : Prop :=
  ∃ before path after found, paths = before ++ path :: after ∧
    (∀ r ∈ before, ∃ o', seek limit reader r place depth entry stack 0 = .ok o' ∧
      o'.isDecisive limit = false) ∧
    seek limit reader path place depth entry stack 0 = .ok found ∧
    found.isDecisive limit = true ∧ o = found.settle path entry

/-- A search that a branch point cut short, reached without reading. -/
def CutShort (limit : Nat) (reader : Reader) (position : Position) (place depth : Nat)
    (entry : Bool) (stack : Stack) (o : Outcome) : Prop :=
  ∃ branch stack', Run position stack [] branch stack' ∧
    FirstDecisive limit reader branch.paths place depth entry stack' o

theorem isDecisive_settle {path : Position} (h : o.isDecisive limit = true) :
    (o.settle path entry).isDecisive limit = true := by
  unfold Outcome.settle
  split
  · exact h
  · simp only [Outcome.isDecisive, Bool.and_eq_true] at h ⊢
    exact ⟨h.1, rfl⟩

theorem matched_of_isDecisive (h : o.isDecisive limit = true) : o.matched = limit - 1 := by
  simp only [Outcome.isDecisive, Bool.and_eq_true, beq_iff_eq] at h
  exact h.1

theorem matched_settle (o : Outcome) (path : Position) (entry : Bool) :
    (o.settle path entry).matched = o.matched := by
  unfold Outcome.settle
  split <;> rfl

theorem FirstDecisive.isDecisive {paths : List Position}
    (h : FirstDecisive limit reader paths place depth entry S o) : o.isDecisive limit = true := by
  obtain ⟨_, _, _, _, _, _, _, hdecisive, rfl⟩ := h
  exact isDecisive_settle hdecisive

theorem matched_better (o o' : Outcome) : (o.better o').matched = max o.matched o'.matched := by
  unfold Outcome.better
  repeat' split
  all_goals omega

/-- A position that looks over documentation finds the same when some of it is looked over
before. -/
theorem seek_skipDocumentation (hp : p ≠ .docString) (hplace : 1 ≤ place) :
    seek limit reader p (reader.skipDocumentation place) depth entry S passed =
      seek limit reader p place depth entry S passed := by
  rw [seek.eq_def, seek.eq_def limit reader p place]
  simp only [placeFor, if_neg hp, reader.skipDocumentation_skipDocumentation hplace]

theorem docString_notMem_paths (p : Position) : Position.docString ∉ p.paths := by
  cases p <;> decide

theorem FirstDecisive.of_skipDocumentation {b : Position} (hplace : 1 ≤ place)
    (h : FirstDecisive limit reader b.paths (reader.skipDocumentation place) depth entry S o) :
    FirstDecisive limit reader b.paths place depth entry S o := by
  obtain ⟨before, path, after, found, hpaths, hbefore, hfound, hdecisive, rfl⟩ := h
  have hsame : ∀ r ∈ b.paths, seek limit reader r (reader.skipDocumentation place) depth entry S 0
      = seek limit reader r place depth entry S 0 := by
    intro r hr
    refine seek_skipDocumentation (fun hdoc => ?_) hplace
    exact docString_notMem_paths b (hdoc ▸ hr)
  refine ⟨before, path, after, found, hpaths, fun r hr => ?_, ?_, hdecisive, rfl⟩
  · rw [← hsame r (by simp [hpaths, hr])]
    exact hbefore r hr
  · rw [← hsame path (by simp [hpaths])]
    exact hfound

theorem CutShort.isDecisive (h : CutShort limit reader p place depth entry S o) :
    o.isDecisive limit = true := by
  obtain ⟨_, _, _, hfirst⟩ := h
  exact hfirst.isDecisive

/-- No outcome is better than one that matched all it might. -/
theorem matched_betterOf {best : Option Outcome}
    (hbest : ∀ b, best = some b → Tallied limit depth entry b) (h : Tallied limit depth entry o)
    (hfull : o.matched = limit - depth ∨ ∃ b, best = some b ∧ b.matched = limit - depth) :
    ∃ b, some ((best.map (·.better o)).getD o) = some b ∧ b.matched = limit - depth := by
  have hle := h.matched_le
  cases best with
  | none =>
    rcases hfull with hfound | ⟨_, hnone, _⟩
    · exact ⟨o, rfl, hfound⟩
    · cases hnone
  | some best =>
    have hle' := (hbest best rfl).matched_le
    refine ⟨best.better o, rfl, ?_⟩
    rw [matched_better]
    rcases hfull with hfound | ⟨_, hsome, hfound⟩
    · omega
    · cases hsome
      omega

theorem FirstDecisive.cons {path : Position} {rest : List Position} {found : Outcome}
    (h : FirstDecisive limit reader rest place depth entry S o)
    (hfound : seek limit reader path place depth entry S 0 = .ok found)
    (hdecisive : found.isDecisive limit = false) :
    FirstDecisive limit reader (path :: rest) place depth entry S o := by
  obtain ⟨before, chosen, after, o', rfl, hbefore, hchosen⟩ := h
  refine ⟨path :: before, chosen, after, o', rfl, fun r hr => ?_, hchosen⟩
  rcases List.mem_cons.1 hr with rfl | hmem
  · exact ⟨found, hfound, hdecisive⟩
  · exact hbefore r hmem

/-! ## Tokens that can be read -/

/-- As many tokens as a limit leaves behind a depth can be read from a place ahead on,
documentation set apart. -/
def Readable (limit : Nat) (reader : Reader) (position : Position) (place depth : Nat)
    (stack : Stack) : Prop :=
  ∃ q T, Run position stack (reader.upcoming place (limit - depth)) q T

namespace Readable

theorem cons (h : Readable limit reader p place depth S) (hdepth : depth < limit)
    (hplace : 1 ≤ place) : ∃ q T, Run p S (reader.peekN (reader.skipDocumentation place) ::
      reader.upcoming (reader.skipDocumentation place + 1) (limit - (depth + 1))) q T := by
  obtain ⟨q, T, hrun⟩ := h
  rw [show limit - depth = limit - (depth + 1) + 1 by omega, reader.upcoming_succ hplace] at hrun
  exact ⟨q, T, hrun⟩

/-- Tokens that can be read from a place can be read from behind the documentation there. -/
theorem of_cons (hdepth : depth < limit) (hplace : 1 ≤ place)
    (hrun : Run p S (reader.peekN (reader.skipDocumentation place) ::
      reader.upcoming (reader.skipDocumentation place + 1) (limit - (depth + 1))) q T) :
    Readable limit reader p (reader.skipDocumentation place) depth S := by
  refine ⟨q, T, ?_⟩
  rw [reader.upcoming_skipDocumentation hplace,
    show limit - depth = limit - (depth + 1) + 1 by omega, reader.upcoming_succ hplace]
  exact hrun

/-- A position from which they can be read looks over documentation. -/
theorem placeFor_eq (h : Readable limit reader p place depth S) (hdepth : depth < limit)
    (hplace : 1 ≤ place) (hlast : reader.last.kind ≠ .documentationString) :
    placeFor reader p place = reader.skipDocumentation place := by
  obtain ⟨q, T, hrun⟩ := h.cons hdepth hplace
  refine if_neg fun hdoc => reader.kind_skipDocumentation hlast hplace ?_
  subst hdoc
  exact Position.kind_of_docString_accepts (hrun.read_of_cons rfl).1

theorem path (h : Readable limit reader p place depth S) (hdepth : depth < limit)
    (hplace : 1 ≤ place) (hlast : reader.last.kind ≠ .documentationString)
    (hbranch : p.isBranch = true) :
    ∃ path ∈ p.paths, Readable limit reader path (reader.skipDocumentation place) depth S := by
  obtain ⟨q, T, hrun⟩ := h.cons hdepth hplace
  obtain ⟨path, hpath, hrest⟩ := hrun.path_of_cons hbranch (reader.kind_skipDocumentation hlast hplace)
  exact ⟨path, hpath, of_cons hdepth hplace hrest⟩

theorem silent (h : Readable limit reader p place depth S) (hdepth : depth < limit)
    (hplace : 1 ≤ place) (hsilent : p.isSilent = true) (hmove : p.advance S = .reach q T) :
    Readable limit reader q (reader.skipDocumentation place) depth T := by
  obtain ⟨_, _, hrun⟩ := h.cons hdepth hplace
  exact of_cons hdepth hplace (hrun.silent_of_cons hsilent hmove)

theorem read (h : Readable limit reader p place depth S) (hdepth : depth < limit)
    (hplace : 1 ≤ place) (htakes : p.takesToken = true) :
    p.accepts (reader.peekN (reader.skipDocumentation place)) = true ∧
      ∀ q T, p.advance S = .reach q T →
        Readable limit reader q (reader.skipDocumentation place + 1) (depth + 1) T := by
  obtain ⟨r, U, hrun⟩ := h.cons hdepth hplace
  obtain ⟨haccepts, q', T', hmove', hrest⟩ := hrun.read_of_cons htakes
  refine ⟨haccepts, fun q T hmove => ?_⟩
  rw [hmove, Step.reach.injEq] at hmove'
  rw [hmove'.1, hmove'.2]
  exact ⟨r, U, hrest⟩

end Readable

/-- Where the tokens can be read, a search matches all it may, unless a branch point at its start
cuts it short. -/
def Matches (limit : Nat) (reader : Reader) (position : Position) (place depth : Nat)
    (entry : Bool) (stack : Stack) (_passed : Nat) (result : Except Breakdown Outcome) : Prop :=
  1 ≤ place → Readable limit reader position place depth stack → ∀ o, result = .ok o →
    o.matched = limit - depth ∨ depth = 0 ∧ CutShort limit reader position place depth entry stack o

/-- The same of a search among some paths, one of which reads the tokens or has read them. -/
def MatchesAmong (limit : Nat) (reader : Reader) (paths : List Position) (place depth : Nat)
    (entry : Bool) (stack : Stack) (best : Option Outcome) (result : Except Breakdown Outcome) :
    Prop :=
  1 ≤ place → (∀ b, best = some b → Tallied limit depth entry b) →
    ((∃ path ∈ paths, Readable limit reader path place depth stack) ∨
      ∃ b, best = some b ∧ b.matched = limit - depth) → ∀ o, result = .ok o →
    o.matched = limit - depth ∨
      depth = 0 ∧ FirstDecisive limit reader paths place depth entry stack o

theorem CutShort.of_silent {r : Position} {U : Stack} (hplace : 1 ≤ place)
    (hsilent : p.isSilent = true) (hmove : p.advance S = .reach r U)
    (h : CutShort limit reader r (reader.skipDocumentation place) depth entry U o) :
    CutShort limit reader p place depth entry S o := by
  obtain ⟨b, V, hrun, hfirst⟩ := h
  exact ⟨b, V, .silent hsilent hmove hrun, hfirst.of_skipDocumentation hplace⟩

theorem seek_matches (hlast : reader.last.kind ≠ .documentationString) (position : Position)
    (place depth : Nat) (entry : Bool) (stack : Stack) (passed : Nat) :
    Matches limit reader position place depth entry stack passed
      (seek limit reader position place depth entry stack passed) := by
  have hlookedAt {p : Position} {place depth : Nat} {S : Stack} (hdepth : depth < limit)
      (hplace : 1 ≤ place) (hread : Readable limit reader p place depth S) :
      placeFor reader p place = reader.skipDocumentation place :=
    hread.placeFor_eq hdepth hplace hlast
  intro hplace hread o hok
  refine seek_induct
    (fun p place depth entry S o => Matches limit reader p place depth entry S 0 (.ok o))
    (fun paths place depth entry S best o =>
      MatchesAmong limit reader paths place depth entry S best (.ok o))
    ?branch ?silent ?matched ?removed ?repaired ?ended ?best ?decisive ?path
    position place depth entry stack passed o hok hplace hread o rfl
  case branch =>
    intro p place depth entry S o hdepth hbranch ih hplace hread o' hok
    have hskip := reader.skipDocumentation_eq hplace
    rw [hlookedAt hdepth hplace hread] at ih
    rcases ih (by omega) (fun _ hnone => by cases hnone)
      (.inl (hread.path hdepth hplace hlast hbranch)) o' hok with hall | ⟨hzero, hfirst⟩
    · exact .inl hall
    · exact .inr ⟨hzero, p, S, .refl p S, hfirst.of_skipDocumentation hplace⟩
  case silent =>
    intro p place depth entry S q T o hdepth hsilent hmove ih hplace hread o' hok
    have hskip := reader.skipDocumentation_eq hplace
    rw [hlookedAt hdepth hplace hread] at ih
    rcases ih (by omega) (hread.silent hdepth hplace hsilent hmove) o' hok with
      hall | ⟨hzero, hshort⟩
    · exact .inl hall
    · exact .inr ⟨hzero, hshort.of_silent hplace hsilent hmove⟩
  case matched =>
    intro p place depth entry S q T o hdepth htakes _ hmove ih hplace hread o' hok
    cases hok
    obtain ⟨_, hbehind⟩ := hread.read hdepth hplace htakes
    rw [hlookedAt hdepth hplace hread] at ih
    rcases ih (by omega) (hbehind q T hmove) o rfl with hall | ⟨hzero, _⟩
    · left
      simp only [Outcome.addMatched]
      omega
    · cases hzero
  case removed =>
    intro p place depth entry S deletion hdepth htakes hrejects _ _ hplace hread
    rw [hlookedAt hdepth hplace hread, (hread.read hdepth hplace htakes).1] at hrejects
    cases hrejects
  case repaired =>
    intro p place depth entry S q T deletion insertion hdepth htakes hrejects _ _ _ _ hplace hread
    rw [hlookedAt hdepth hplace hread, (hread.read hdepth hplace htakes).1] at hrejects
    cases hrejects
  case ended =>
    intro p place depth entry S hended _ _ o hok
    cases hok
    left
    simp only [Outcome.ofMatched, Outcome.choose]
    omega
  case best =>
    intro place depth entry S best _ _ hread o hok
    cases hok
    rcases hread with ⟨_, hnone, _⟩ | ⟨b, hb, hmatched⟩
    · cases hnone
    · cases hb
      exact .inl hmatched
  case decisive =>
    intro path rest place depth entry S best found hfound _ hdecisive _ _ _ o hok
    cases hok
    rcases Nat.eq_zero_or_pos depth with hzero | hpos
    · exact .inr ⟨hzero, [], path, rest, found, rfl, (by simp), hfound, hdecisive, rfl⟩
    · -- Behind the first step one below the limit is all there is to match.
      left
      have hle := (seek_tallied limit reader path place depth entry S 0 found hfound).matched_le
      have hmatched : found.matched = limit - 1 := matched_of_isDecisive hdecisive
      rw [matched_settle]
      omega
  case path =>
    -- A path that reads the tokens is the best so far from here on.
    intro path rest place depth entry S best found o hfound ih hdecisive ihrest hplace hbest hread
      o' hok
    have htallied := seek_tallied limit reader path place depth entry S 0 found hfound
    have hbetter := of_better (fun _ _ h h' => h.better h') hbest htallied
    have hread' : (∃ path ∈ rest, Readable limit reader path place depth S) ∨
        ∃ b, some ((best.map (·.better found)).getD found) = some b ∧
          b.matched = limit - depth := by
      rcases hread with ⟨r, hr, hreads⟩ | hfull
      · rcases List.mem_cons.1 hr with rfl | hmem
        · refine .inr (matched_betterOf hbest htallied (.inl ?_))
          rcases ih hplace hreads found rfl with hall | ⟨_, hshort⟩
          · exact hall
          · rw [hshort.isDecisive] at hdecisive
            cases hdecisive
        · exact .inl ⟨r, hmem, hreads⟩
      · exact .inr (matched_betterOf hbest htallied (.inr hfull))
    rcases ihrest hplace hbetter hread' o' hok with hall | ⟨hzero, hfirst⟩
    · exact .inl hall
    · exact .inr ⟨hzero, hfirst.cons hfound hdecisive⟩

/-! ## Repairs where none is needed -/

/-- Where the tokens ahead can be read, a search matches all it may and repairs nothing, unless a
branch point at its start takes the first path whose own search is decisive. Then it matches one
token less and repairs once, but never proposes to leave the next token out. -/
theorem no_repair_unless_decisive (hlast : reader.last.kind = .eof)
    (hread : Run p S (reader.upcoming 1 (steps lookahead)) q T)
    (hok : run lookahead reader p S = .ok o) :
    (o.matched = steps lookahead ∧ o.fixes = [] ∧ o.choiceAction? = some .keep) ∨
    (o.matched = steps lookahead - 1 ∧ o.fixes.length = 1 ∧ o.choiceAction? ≠ some .remove ∧
      ∃ branch U before path after found, Run p S [] branch U ∧
        branch.paths = before ++ path :: after ∧
        (∀ r ∈ before, ∃ o', run lookahead reader r U = .ok o' ∧
          o'.isDecisive (steps lookahead) = false) ∧
        run lookahead reader path U = .ok found ∧ found.isDecisive (steps lookahead) = true ∧
        o = found.settle path true) := by
  have hplain : reader.last.kind ≠ .documentationString := by
    rw [hlast]
    decide
  have hsteps : 0 < steps lookahead := by
    unfold steps
    omega
  have htallied := seek_tallied (steps lookahead) reader p 1 0 true S 0 o hok
  have hcount := htallied.steps
  have hmatches : Matches (steps lookahead) reader p 1 0 true S 0 (run lookahead reader p S) :=
    seek_matches hplain p 1 0 true S 0
  rcases hmatches (Nat.le_refl 1) ⟨q, T, hread⟩ o hok with hall | ⟨_, branch, U, hrun, hfirst⟩
  · have hnone : o.fixes = [] := List.eq_nil_of_length_eq_zero (by omega)
    exact .inl ⟨hall, hnone, htallied.goesOn (.inr hnone)⟩
  · have hdecisive := hfirst.isDecisive
    have hmatched := matched_of_isDecisive hdecisive
    obtain ⟨before, path, after, found, hfound⟩ := hfirst
    refine .inr ⟨hmatched, by omega, ?_, branch, U, before, path, after, found, hrun, hfound⟩
    simpa [Outcome.isDecisive, hmatched] using hdecisive

/-- An assignment that can be read from its first name on is left as it is. -/
theorem assignment_needs_no_repair :
    ∃ o, run 2 (.ofTokens [.plain .identifier "a" 1, .plain .assign "=" 1,
        .plain .identifier "b" 1, .plain .semicolon ";" 1, .eof 1])
        .statementStartIdentifier [.block, .funcDefinition, .compUnit] = .ok o ∧
      o.matched = 2 ∧ o.fixes = [] ∧ o.choiceAction? = some .keep := by
  have hread : Run .statementStartIdentifier [.block, .funcDefinition, .compUnit]
      [.plain .identifier "a" 1, .plain .assign "=" 1]
      .expression [.assignmentStmt, .block, .funcDefinition, .compUnit] :=
    .read rfl rfl <| .branch (q := .assignmentStmt) (by decide) <| .silent rfl rfl <|
      .read rfl rfl (.refl _ _)
  have hok : run 2 (.ofTokens [.plain .identifier "a" 1, .plain .assign "=" 1,
      .plain .identifier "b" 1, .plain .semicolon ";" 1, .eof 1])
      .statementStartIdentifier [.block, .funcDefinition, .compUnit] =
      .ok ⟨[], 2, 0, some (.keep .assignmentStmt .assign)⟩ := by cbv
  refine ⟨_, hok, ?_⟩
  rcases no_repair_unless_decisive rfl hread hok with
    hperfect | ⟨_, _, _, branch, _, _, _, _, _, hrun, hpaths, _⟩
  · exact hperfect
  · rw [hrun.eq_of_takesToken rfl] at hpaths
    simp [Position.paths] at hpaths

/-- A declaration can be read where another statement may stand. -/
theorem run_declaration : Run .statementsOrEnd [.block, .funcDefinition, .compUnit]
    [.plain .intKeyword "int" 1, .plain .identifier "x" 1, .plain .semicolon ";" 1]
    .statementsOrEnd [.block, .funcDefinition, .compUnit] := by
  refine .branch (q := .statement) (by decide) <| .branch (q := .varDecl) (by decide) <|
    .silent rfl rfl ?_
  refine .branch (q := .typeDescriptor) (by decide) <|
    .branch (q := .builtinTypeDescriptor) (by decide) <| .read rfl rfl ?_
  refine .branch (q := .typeDescEnd) (by decide) <| .silent rfl rfl <| .read rfl rfl ?_
  exact .branch (q := .semicolon) (by decide) <| .read rfl rfl (.refl _ _)

/-- Two declarations in a block can be read as they stand. Yet the closing brace comes before a
statement among the ways on, and a declaration may follow a function as well: three of four tokens
match behind a brace that is supplied, and so it is. -/
theorem declarations_close_block :
    (∃ q T, Run .statementsOrEnd [.block, .funcDefinition, .compUnit]
      ((Reader.ofTokens [.plain .intKeyword "int" 1, .plain .identifier "x" 1,
        .plain .semicolon ";" 1, .plain .intKeyword "int" 1, .plain .identifier "y" 1,
        .plain .semicolon ";" 1, .eof 1]).upcoming 1 4) q T) ∧
    (run 4 (.ofTokens [.plain .intKeyword "int" 1, .plain .identifier "x" 1,
        .plain .semicolon ";" 1, .plain .intKeyword "int" 1, .plain .identifier "y" 1,
        .plain .semicolon ";" 1, .eof 1])
      .statementsOrEnd [.block, .funcDefinition, .compUnit]).toOption.map
        (fun o => (o.matched, o.fixes.length, o.choiceAction?)) = some (3, 1, some .insert) := by
  refine ⟨⟨.typeDescRhs, [.varDecl, .block, .funcDefinition, .compUnit], ?_⟩, by cbv⟩
  have hnext : Run .statementsOrEnd [.block, .funcDefinition, .compUnit]
      [.plain .intKeyword "int" 1] .typeDescRhs
      [.varDecl, .block, .funcDefinition, .compUnit] := by
    refine .branch (q := .statement) (by decide) <| .branch (q := .varDecl) (by decide) <|
      .silent rfl rfl ?_
    exact .branch (q := .typeDescriptor) (by decide) <|
      .branch (q := .builtinTypeDescriptor) (by decide) <| .read rfl rfl (.refl _ _)
  exact run_declaration.trans hnext

end Search

end Mend
