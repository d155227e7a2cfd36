import Mend.Proofs.Repair.Progress
import Mend.Proofs.Repair.Script
import Mend.Proofs.Token.Ahead

/-!
# What a removal reports

A removal leaves the next token out, and the repair then holds that token. Its kind and its text
were put there before: by the session itself, which knows the next token, or by the search, which
takes them from the token that it left out. The search looks over documentation, so where the next
token is documentation the two are different tokens: what is reported is the one behind the
documentation, what is gone is the documentation (`documentation_removed_for_parenthesis`).
Everywhere else they agree. `removal_reports` covers every way in which a repair is found.
-/

namespace Mend

namespace Search

variable {limit depth place : Nat} {reader : Reader} {p q : Position} {S : Stack} {entry : Bool}
  {o : Outcome} {edits : List Edit} {t next : Token} {fix : Repair}

/-! ## The first step of a script -/

theorem one_le_placeFor (hplace : 1 ≤ place) : 1 ≤ placeFor reader p place := by
  unfold placeFor
  split
  · exact hplace
  · rw [reader.skipDocumentation_eq hplace]
    omega

/-- Looking further from where a position looks is looking from the place itself. -/
theorem eq_peekN_of_placeFor (hplace : 1 ≤ place)
    (h : t = reader.peekN (placeFor reader p place) ∨
      t = reader.peekN (reader.skipDocumentation (placeFor reader p place))) :
    t = reader.peekN place ∨ t = reader.peekN (reader.skipDocumentation place) := by
  unfold placeFor at h
  split at h
  · exact h
  · rw [reader.skipDocumentation_skipDocumentation hplace] at h
    exact .inr (h.elim id id)

/-- The token that a script leaves out first stands at its place, or behind the documentation
there. -/
theorem Script.eq_peekN_of_leftOut (h : Script reader p S place (.leftOut q t :: edits))
    (hplace : 1 ≤ place) :
    t = reader.peekN place ∨ t = reader.peekN (reader.skipDocumentation place) := by
  generalize hscript : Edit.leftOut q t :: edits = script at h
  induction h with
  | done => cases hscript
  | path _ _ ih => exact eq_peekN_of_placeFor hplace (ih (one_le_placeFor hplace) hscript)
  | silent _ _ _ ih => exact eq_peekN_of_placeFor hplace (ih (one_le_placeFor hplace) hscript)
  | matched => cases hscript
  | supplied => cases hscript
  | leftOut =>
    cases hscript
    exact eq_peekN_of_placeFor hplace (.inl rfl)

/-! ## The choice of a search -/

namespace Records

/-- A search that chooses a removal starts its script with it. -/
theorem eq_leftOut (h : Records limit depth true edits o) (hchoice : o.choice = some fix)
    (hremove : fix.action = .remove) :
    ∃ q t rest, edits = .leftOut q t :: rest ∧ fix = (Repair.remove q t).atDepth (depth + 1) := by
  cases hstarts : Edit.startsWithRepair edits with
  | false =>
    have hkeep := h.goesOn (.inr hstarts)
    rw [Outcome.choiceAction?, hchoice, Option.map_some, hremove] at hkeep
    cases hkeep
  | true =>
    have htop : o.top? = some fix := (h.repaired rfl hstarts).symm.trans hchoice
    rw [Outcome.top?, h.fixes] at htop
    cases edits with
    | nil => cases hstarts
    | cons edit rest =>
      cases edit with
      | matched => cases hstarts
      | supplied position =>
        cases htop
        cases hremove
      | leftOut position t =>
        cases htop
        exact ⟨position, t, rest, rfl, rfl⟩

/-- The second repair of a script is none of its first step. -/
theorem lt_depth_of_second? (h : Records limit depth entry edits o)
    (hsecond : o.second? = some fix) : depth + 1 < fix.depth := by
  have hrising : o.fixes.Pairwise (·.depth < ·.depth) := h.fixes ▸ Edit.pairwise_repairs
  match hfixes : o.fixes with
  | [] => simp [Outcome.second?, hfixes] at hsecond
  | [_] => simp [Outcome.second?, hfixes] at hsecond
  | first :: second :: rest =>
    have hmem : first ∈ Edit.repairs depth edits := by simp [← h.fixes, hfixes]
    obtain ⟨_, _, hlt, _⟩ := Edit.exists_of_mem_repairs hmem
    rw [hfixes, List.pairwise_cons] at hrising
    have hlater := hrising.1 second List.mem_cons_self
    simp only [Outcome.second?, hfixes, List.getElem?_cons_succ, List.getElem?_cons_zero,
      Option.some.injEq] at hsecond
    rw [← hsecond]
    omega

/-- Making the choice of a search good only ever keeps documentation from being let stand. -/
theorem validate_eq (h : Records limit depth entry edits o) (p : Position) (next : Token) :
    o.validate p next =
      if o.choiceAction? = some .keep ∧ next.kind = .documentationString then
        o.choose (some (.remove p next))
      else o := by
  unfold Outcome.validate
  split
  · rename_i hkeep
    simp only [hkeep, true_and]
  · rename_i hinsert
    rw [if_neg (by simp [hinsert])]
    split
    · rename_i second hsecond
      have hlt := h.lt_depth_of_second? hsecond
      exact if_neg (by omega)
    · rfl
  · rename_i hother _
    exact (if_neg fun hkeep => hother hkeep.1).symm

end Records

end Search

/-! ## What is reported -/

/-- A repair carries the kind and the text of the token that comes next, or where that is
documentation, of the one behind all documentation there. -/
def Repair.Names (repair : Repair) (reader : Reader) : Prop :=
  repair.kind = reader.peek.kind ∧ repair.text = reader.peek.text ∨
    reader.peek.kind = .documentationString ∧
      repair.kind = (reader.peekN (reader.skipDocumentation 1)).kind ∧
      repair.text = (reader.peekN (reader.skipDocumentation 1)).text

theorem Repair.Names.of_eq {repair : Repair} {reader : Reader} {t : Token}
    (ht : t = reader.peek ∨ t = reader.peekN (reader.skipDocumentation 1))
    (hkind : repair.kind = t.kind) (htext : repair.text = t.text) : repair.Names reader := by
  rcases ht with rfl | rfl
  · exact .inl ⟨hkind, htext⟩
  · by_cases hdoc : reader.peek.kind = .documentationString
    · exact .inr ⟨hdoc, hkind, htext⟩
    · have hskip : reader.skipDocumentation 1 = 1 :=
        Search.placeFor_eq (p := .compUnit) hdoc
      rw [hskip] at hkind htext
      exact .inl ⟨hkind, htext⟩

namespace Session

variable {s : Session} {p : Position} {completing : Bool} {r : Repair}

/-- A removal that the search finds names the token it left out. -/
theorem resolution_names (hok : s.resolution p s.reader.peek = .ok (some r))
    (hremove : r.action = .remove) : r.Names s.reader := by
  obtain ⟨o, hrun, hchoice⟩ := Except.bind_eq_ok hok
  obtain ⟨edits, hscript, hrecords⟩ := Search.seek_backed _ _ _ _ _ _ _ _ o hrun
  have hvalid : (o.validate p s.reader.peek).choice = some r := by
    dsimp only at hchoice
    split at hchoice
    · cases hchoice
    · exact Except.ok.inj hchoice
  rw [hrecords.validate_eq] at hvalid
  split at hvalid
  · cases hvalid
    exact .of_eq (.inl rfl) rfl rfl
  · obtain ⟨q, t, rest, rfl, rfl⟩ := hrecords.eq_leftOut hvalid hremove
    exact .of_eq (hscript.eq_peekN_of_leftOut (Nat.le_refl 1)) rfl rfl

/-- So does every removal that is proposed: completing a construct supplies a token. -/
theorem proposal_names (hok : s.proposal p s.reader.peek completing = .ok (some r))
    (hremove : r.action = .remove) : r.Names s.reader := by
  unfold proposal at hok
  split at hok
  · unfold completion at hok
    split at hok
    · rename_i shortest hshortest
      cases hok
      obtain ⟨kind, _, rfl⟩ := Option.map_eq_some_iff.1 hshortest
      cases hremove
    · exact resolution_names hok hremove
  · split at hok
    · exact resolution_names hok hremove
    · cases hok

/-- Carrying a removal out records the token that is gone, and changes nothing of what the repair
says of it. -/
theorem apply_remove {fix : Repair} (hnames : fix.action = .remove → fix.Names s.reader)
    (hremove : (s.apply fix).1.action = .remove) :
    (s.apply fix).1.removed = some s.reader.peek ∧ (s.apply fix).1.Names s.reader := by
  cases haction : fix.action with
  | keep =>
    simp only [apply, haction] at hremove
    cases hremove
  | insert =>
    simp only [apply, haction] at hremove
    cases hremove
  | remove =>
    simp only [apply, haction, Reader.read_fst]
    exact ⟨trivial, hnames haction⟩

/-- What the search finds at a first attempt is carried out. -/
theorem recover_of_resolution {fix : Repair} {t : Token} (hnext : t.kind ≠ .eof)
    (hcount : s.recordAttempt.attemptCount < s.recordAttempt.limits.resolution)
    (hfound : s.resolution p t = .ok (some fix)) :
    (s.recover p t false).1 = .ok (s.recordAttempt.apply fix).1 := by
  have hfound' : s.recordAttempt.resolution p t = .ok (some fix) := hfound
  have hproposal : s.recordAttempt.proposal p t false = .ok (some fix) := by
    unfold proposal
    rw [Bool.false_and, if_neg Bool.false_ne_true, if_pos hcount, hfound']
  unfold recover
  rw [if_neg hnext, recoverAttempt, hproposal]

/-- A removal that a call answers with holds the next token, which is gone, and carries its kind
and its text, unless that token is documentation. -/
theorem removal_reports (hnext : s.reader.peek.kind ≠ .eof)
    (hok : (s.recover p s.reader.peek completing).1 = .ok r) (hremove : r.action = .remove) :
    r.removed = some s.reader.peek ∧
      (r.kind = s.reader.peek.kind ∧ r.text = s.reader.peek.text ∨
        s.reader.peek.kind = .documentationString ∧
          r.kind = (s.reader.peekN (s.reader.skipDocumentation 1)).kind ∧
          r.text = (s.reader.peekN (s.reader.skipDocumentation 1)).text) := by
  unfold recover recoverAttempt at hok
  rw [if_neg hnext] at hok
  split at hok
  · cases hok
  · rename_i fix hfix
    cases hok
    exact s.recordAttempt.apply_remove (proposal_names (s := s.recordAttempt) hfix) hremove
  · split at hok
    · cases hok
    · cases hok
      have hnames : (Repair.remove p s.reader.peek).Names s.reader := .inl ⟨rfl, rfl⟩
      exact s.recordAttempt.apply_remove (fun _ => hnames) hremove

/-- A session in a declaration of a constant, before some tokens. -/
def inConstant (tokens : List Token) : Session :=
  { start (.ofTokens tokens) .standard with stack := [.constDecl, .compUnit] }

/-- A parenthesis in the place of a semicolon is left out and reported. -/
theorem parenthesis_reported :
    ∃ r, ((inConstant [.plain .closeParen ")" 1, .plain .semicolon ";" 1, .eof 1]).recover
        .semicolon (.plain .closeParen ")" 1) false).1 = .ok r ∧
      r.action = .remove ∧ r.removed = some (.plain .closeParen ")" 1) ∧
      r.kind = .closeParen ∧ r.text = ")" := by
  have hfound : (inConstant [.plain .closeParen ")" 1, .plain .semicolon ";" 1,
      .eof 1]).resolution .semicolon (.plain .closeParen ")" 1) =
        .ok (some ((Repair.remove .semicolon (.plain .closeParen ")" 1)).atDepth 1)) := by cbv
  have hok := recover_of_resolution (by decide) (by decide) hfound
  obtain ⟨hremoved, hreported⟩ := removal_reports (by decide) hok rfl
  rcases hreported with ⟨hkind, htext⟩ | ⟨hdoc, _⟩
  · exact ⟨_, hok, rfl, hremoved, hkind, htext⟩
  · cases hdoc

/-- With documentation before the parenthesis, it is the documentation that is left out, and still
the parenthesis that is reported. -/
theorem documentation_removed_for_parenthesis :
    ((inConstant [.plain .documentationString "note" 1, .plain .closeParen ")" 1,
        .plain .semicolon ";" 1, .eof 1]).recover
        .semicolon (.plain .documentationString "note" 1) false).1.toOption.map
          (fun r => (r.action, r.removed.map (·.kind), r.kind, r.text)) =
      some (.remove, some .documentationString, .closeParen, ")") := by
  have hfound : (inConstant [.plain .documentationString "note" 1, .plain .closeParen ")" 1,
      .plain .semicolon ";" 1, .eof 1]).resolution .semicolon
        (.plain .documentationString "note" 1) =
        .ok (some ((Repair.remove .semicolon (.plain .closeParen ")" 1)).atDepth 1)) := by cbv
  rw [recover_of_resolution (by decide) (by decide) hfound]
  rfl

end Session

end Mend
