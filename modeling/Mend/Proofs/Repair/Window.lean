import Mend.Proofs.Repair.Script

/-!
# What a search looks at

A search takes at most one token with each step that counts, and the documentation before it. So
it never looks beyond the token that comes last when as many tokens are counted as the limit
allows, documentation set apart; and where it looks back, it looks at a token it has passed or at
the one read before. Two readers that show the same so far give it the same outcome, or the same
breakdown.
-/

namespace Mend

namespace Reader

variable {r r' : Reader} {place bound : Nat}

/-- Readers that show the same tokens up to a place have the same documentation there. -/
theorem skipDocumentation_congr (hlast : r.last.kind ≠ .documentationString)
    (hlast' : r'.last.kind ≠ .documentationString)
    (hagree : ∀ k ≤ bound, r.peekN k = r'.peekN k) (hplace : 1 ≤ place)
    (hbound : r.skipDocumentation place ≤ bound) :
    r'.skipDocumentation place = r.skipDocumentation place := by
  have hskip := r.skipDocumentation_eq hplace
  have hskip' := r'.skipDocumentation_eq hplace
  rcases Nat.lt_trichotomy (r'.skipDocumentation place) (r.skipDocumentation place) with
    hless | hsame | hmore
  · refine absurd ?_ (r'.kind_skipDocumentation hlast' hplace)
    rw [← hagree _ (by omega)]
    exact r.kind_of_lt_skipDocumentation hplace (by omega) hless
  · exact hsame
  · refine absurd ?_ (r.kind_skipDocumentation hlast hplace)
    rw [hagree _ hbound]
    exact r'.kind_of_lt_skipDocumentation hplace (by omega) hmore

end Reader

namespace Search

variable {limit lookahead : Nat} {r r' reader : Reader} {p q : Position} {S T : Stack}
  {place depth passed : Nat} {entry : Bool}

/-- One step of a search, without the reasons why it ends. -/
theorem seek_eq (limit : Nat) (reader : Reader) (p : Position) (place depth : Nat) (entry : Bool)
    (S : Stack) (passed : Nat) :
    seek limit reader p place depth entry S passed =
      if depth < limit then
        let here := placeFor reader p place
        let next := reader.peekN here
        match p.role? with
        | none => .error (.noTransition p .neverSearched)
        | some (.branch paths) => seekPaths limit reader paths here depth entry S none
        | some .silent =>
          if silentLimit ≤ passed then .error (.noTransition p .cycle)
          else
            match p.advance S with
            | .stuck error _ => .error error
            | .reach q T => seek limit reader q here depth entry T (passed + 1)
        | some _ =>
          if p.accepts next then
            match p.advance S with
            | .stuck error _ => .error error
            | .reach q T => do
              let rest ← seek limit reader q (here + 1) (depth + 1) false T 0
              return rest.addMatched 1
          else do
            let deletion ← seek limit reader p (here + 1) (depth + 1) false S 0
            let insertion ←
              if canInsert reader p here then
                match p.advance S with
                | .stuck error _ => .error error
                | .reach q T => do
                  let rest ← seek limit reader q here (depth + 1) false T 0
                  pure (some rest)
              else pure none
            let repaired := Outcome.repairAt p next (depth + 1) deletion insertion
            return repaired.chooseRepair p entry
      else .ok ((Outcome.ofMatched 0).choose (some (.keep p .absent))) := by
  rw [seek.eq_def]
  split
  · dsimp only
    split
    · rename_i hrole
      simp only [hrole]
    · rename_i hrole
      simp only [hrole]
    · rename_i hrole
      simp only [hrole]
      split
      · rfl
      · split <;> rename_i hmove <;> simp only [hmove]
    · rename_i role hbranch hsilent hrole
      rw [hrole]
      cases role with
      | terminal wanted => rfl
      | keyword word => rfl
      | branch paths => exact absurd rfl (hbranch paths)
      | silent => exact absurd rfl hsilent
  · rfl

/-! ## Where a search is -/

/-- A search that has counted some steps is not beyond the token that comes next when as many
tokens are counted. -/
structure Within (reader : Reader) (place depth : Nat) : Prop where
  pos : 1 ≤ place
  le : reader.skipDocumentation place ≤ reader.upcomingPlace (depth + 1)

namespace Within

theorem placeFor_le (h : Within reader place depth) (p : Position) :
    place ≤ placeFor reader p place ∧
      placeFor reader p place ≤ reader.skipDocumentation place := by
  have hskip := reader.skipDocumentation_eq h.pos
  unfold placeFor
  split <;> omega

/-- Where a position looks is still within. -/
theorem here (h : Within reader place depth) (hlast : reader.last.kind ≠ .documentationString)
    (p : Position) : Within reader (placeFor reader p place) depth where
  pos := Nat.le_trans h.pos (h.placeFor_le p).1
  le := by
    have hmono := reader.skipDocumentation_mono hlast
      (Nat.le_trans h.pos (h.placeFor_le p).1) (h.placeFor_le p).2
    rw [reader.skipDocumentation_skipDocumentation h.pos] at hmono
    exact Nat.le_trans hmono h.le

/-- One more step is as good as another token. -/
theorem deeper (h : Within reader place depth) : Within reader place (depth + 1) where
  pos := h.pos
  le := Nat.le_trans h.le (reader.upcomingPlace_mono (Nat.le_succ _))

/-- The token a position looks at is taken with a step. -/
theorem next (h : Within reader place depth) (hlast : reader.last.kind ≠ .documentationString)
    (p : Position) : Within reader (placeFor reader p place + 1) (depth + 1) where
  pos := Nat.le_add_left 1 _
  le := reader.skipDocumentation_mono hlast (Nat.le_add_left 1 _)
    (Nat.succ_le_succ (Nat.le_trans (h.placeFor_le p).2 h.le))

end Within

/-- Two readers that have read the same token last and show the same tokens up to a place. -/
structure Alike (r r' : Reader) (bound : Nat) : Prop where
  last : r.last.kind ≠ .documentationString
  last' : r'.last.kind ≠ .documentationString
  previous : r.previous? = r'.previous?
  shown : ∀ k ≤ bound, r.peekN k = r'.peekN k

namespace Alike

/-- What a search that is within the limit looks at is the same for both readers: the place, the
token there, and whether one can be supplied before it. -/
theorem looks (h : Alike r r' (r.upcomingPlace limit)) (hwithin : Within r place depth)
    (hdepth : depth < limit) (p : Position) :
    placeFor r' p place = placeFor r p place ∧
      r'.peekN (placeFor r p place) = r.peekN (placeFor r p place) ∧
      canInsert r' p (placeFor r p place) = canInsert r p (placeFor r p place) := by
  have hbound : r.skipDocumentation place ≤ r.upcomingPlace limit :=
    Nat.le_trans hwithin.le (r.upcomingPlace_mono hdepth)
  have hhere := Nat.le_trans (hwithin.placeFor_le p).2 hbound
  have hplace : placeFor r' p place = placeFor r p place := by
    unfold placeFor
    rw [Reader.skipDocumentation_congr h.last h.last' h.shown hwithin.pos hbound]
  have hnext := h.shown _ hhere
  have hbefore := h.shown (placeFor r p place - 1) (Nat.le_trans (Nat.sub_le ..) hhere)
  refine ⟨hplace, hnext.symm, ?_⟩
  unfold canInsert repeatsSeparator
  rw [hnext, hbefore, h.previous]

end Alike

/-! ## The same outcome -/

/-- A search that is within the limit comes to the same for both readers. -/
theorem seek_congr (h : Alike r r' (r.upcomingPlace limit)) (position : Position)
    (place depth : Nat) (entry : Bool) (stack : Stack) (passed : Nat) :
    Within r place depth →
      seek limit r position place depth entry stack passed =
        seek limit r' position place depth entry stack passed := by
  -- The induction follows the first reader; the search with the other is opened step by step.
  refine seek.induct_unfolding limit r
    (fun p place depth entry S passed result => Within r place depth →
      result = seek limit r' p place depth entry S passed)
    (fun paths place depth entry S best result => Within r place depth →
      result = seekPaths limit r' paths place depth entry S best)
    ?norole ?branch ?cycle ?stuck ?silent ?blocked ?matched ?repaired ?limit ?best ?none ?path
    position place depth entry stack passed
  case norole =>
    intro p place depth entry S passed hdepth hrole _
    rw [seek_eq limit r', if_pos hdepth]
    simp only [hrole]
  case branch =>
    intro p place depth entry S passed hdepth here paths hrole ih hwithin
    rw [seek_eq limit r', if_pos hdepth]
    simp only [hrole, (h.looks hwithin hdepth p).1]
    exact ih (hwithin.here h.last p)
  case cycle =>
    intro p place depth entry S passed hdepth hrole hcycle _
    rw [seek_eq limit r', if_pos hdepth]
    simp only [hrole, if_pos hcycle]
  case stuck =>
    intro p place depth entry S passed hdepth hrole hcycle error _ hmove _
    rw [seek_eq limit r', if_pos hdepth]
    simp only [hrole, if_neg hcycle, hmove]
  case silent =>
    intro p place depth entry S passed hdepth here hrole hcycle q S' hmove ih hwithin
    rw [seek_eq limit r', if_pos hdepth]
    simp only [hrole, if_neg hcycle, hmove, (h.looks hwithin hdepth p).1]
    exact ih (hwithin.here h.last p)
  case blocked =>
    intro p place depth entry S passed hdepth here next role hbranch hsilent hrole haccepts error _
      hmove hwithin
    obtain ⟨hplace, hnext, _⟩ := h.looks hwithin hdepth p
    rw [seek_eq limit r', if_pos hdepth]
    simp only [hrole, hplace, hnext, hmove]
    exact (if_pos haccepts).symm
  case matched =>
    intro p place depth entry S passed hdepth here next role hbranch hsilent hrole haccepts q S'
      hmove ih hwithin
    obtain ⟨hplace, hnext, _⟩ := h.looks hwithin hdepth p
    rw [seek_eq limit r', if_pos hdepth]
    simp only [hrole, hplace, hnext, hmove]
    rw [ih (hwithin.next h.last p)]
    exact (if_pos haccepts).symm
  case repaired =>
    intro p place depth entry S passed hdepth here next role hbranch hsilent hrole hrejects
      ihdeletion ihinsertion hwithin
    obtain ⟨hplace, hnext, hcan⟩ := h.looks hwithin hdepth p
    rw [seek_eq limit r', if_pos hdepth]
    simp only [hrole, hplace, hnext, hcan]
    rw [ihdeletion (hwithin.next h.last p)]
    simp only [ihinsertion _ _ (hwithin.here h.last p).deeper]
    exact (if_neg hrejects).symm
  case limit =>
    intro p place depth entry S passed hlimit _
    rw [seek_eq limit r', if_neg hlimit]
  case best =>
    intro place depth entry S best _
    rw [seekPaths.eq_def]
  case none =>
    intro place depth entry S _
    rw [seekPaths.eq_def]
  case path =>
    intro place depth entry S best path rest ih ihrest hwithin
    rw [seekPaths.eq_def]
    simp only [ih hwithin, ihrest _ hwithin]

/-- No token beyond the window of a search changes what it comes to. The window reaches up to the
token that comes last when as many are counted as the limit allows, documentation set apart, and
the token read before belongs to it. -/
theorem run_eq_of_same_window (hlast : r.last.kind = .eof) (hlast' : r'.last.kind = .eof)
    (hprevious : r.previous? = r'.previous?)
    (hshown : ∀ place ≤ r.upcomingPlace (steps lookahead), r.peekN place = r'.peekN place) :
    run lookahead r p S = run lookahead r' p S := by
  have hplain {t : Token} (h : t.kind = .eof) : t.kind ≠ .documentationString := by
    rw [h]
    decide
  exact seek_congr ⟨hplain hlast, hplain hlast', hprevious, hshown⟩ p 1 0 true S 0
    ⟨Nat.le_refl 1, Nat.le_refl _⟩

/-- What stands behind the second token makes no difference to a search of two steps, and the
documentation between the two does not count. -/
theorem same_window_behind_field :
    ∃ r r', r = Reader.ofTokens [.plain .closeBrace "\x7d" 1, .plain .documentationString "note" 2,
        .plain .semicolon ";" 3, .plain .identifier "a" 3, .eof 3] ∧
      r' = Reader.ofTokens [.plain .closeBrace "\x7d" 1, .plain .documentationString "note" 2,
        .plain .semicolon ";" 3, .eof 4] ∧
      (∀ place ≤ r.upcomingPlace (steps 2), r.peekN place = r'.peekN place) ∧
      (r.peekN 4).kind ≠ (r'.peekN 4).kind ∧
      run 2 r .semicolon [.recordField, .recordTypeDesc, .typeDefinition, .compUnit] =
        run 2 r' .semicolon [.recordField, .recordTypeDesc, .typeDefinition, .compUnit] := by
  refine ⟨_, _, rfl, rfl, ?_⟩
  have hshown : ∀ place ≤ 3,
      (Reader.ofTokens [.plain .closeBrace "\x7d" 1, .plain .documentationString "note" 2,
          .plain .semicolon ";" 3, .plain .identifier "a" 3, .eof 3]).peekN place =
        (Reader.ofTokens [.plain .closeBrace "\x7d" 1, .plain .documentationString "note" 2,
          .plain .semicolon ";" 3, .eof 4]).peekN place := by
    intro place hle
    match place, hle with
    | 0, _ | 1, _ | 2, _ | 3, _ => rfl
  exact ⟨hshown, by decide, run_eq_of_same_window rfl rfl rfl hshown⟩

end Search

end Mend
