import Mend.Grammar.Role

/-!
# Runs of the automaton

A run goes from one state of the automaton to another and reads tokens on the way. A branch point
goes on at any of its ways, a silent position moves on without a token, and a position that takes
a token reads one that it accepts. Documentation is one of the ways at the top level: it is never
supplied, so the table of paths leaves it out, but it is read where it stands.
-/

namespace Mend

/-- The ways on from a branch point, documentation among them. -/
def Position.ways (position : Position) : List Position :=
  if position = .topLevelNode then .docString :: position.paths else position.paths

theorem Position.mem_ways_of_mem_paths {position path : Position} (h : path ∈ position.paths) :
    path ∈ position.ways := by
  unfold ways
  split
  · exact List.mem_cons_of_mem _ h
  · exact h

theorem Position.isBranch_of_mem_ways {position way : Position} (h : way ∈ position.ways) :
    position.isBranch = true := by
  unfold ways at h
  split at h
  · rename_i htop
    rw [htop]
    rfl
  · cases hpaths : position.paths with
    | nil => simp [hpaths] at h
    | cons path rest => simp [isBranch, hpaths]

theorem Position.not_mem_ways {position way : Position} (h : position.isBranch = false) :
    way ∉ position.ways := by
  intro hway
  rw [isBranch_of_mem_ways hway] at h
  cases h

theorem Position.not_mem_paths {position path : Position} (h : position.isBranch = false) :
    path ∉ position.paths :=
  fun hpath => not_mem_ways h (mem_ways_of_mem_paths hpath)

/-- Whether a position takes a token. -/
def Position.takesToken (position : Position) : Bool :=
  position.keyword?.isSome || position.tokenClass?.isSome

namespace Position

variable {p : Position}

theorem isBranch_of_isSilent (h : p.isSilent = true) : p.isBranch = false := by
  revert h
  cases p <;> decide

theorem isBranch_of_takesToken (h : p.takesToken = true) : p.isBranch = false := by
  revert h
  cases p <;> decide

theorem isSilent_of_takesToken (h : p.takesToken = true) : p.isSilent = false := by
  revert h
  cases p <;> decide

theorem takesToken_of_accepts {t : Token} (h : p.accepts t = true) : p.takesToken = true := by
  unfold accepts at h
  unfold takesToken
  cases hword : p.keyword? with
  | some word => rfl
  | none =>
    cases hclass : p.tokenClass? with
    | some wanted => rfl
    | none => simp [hword, hclass] at h

theorem isBranch_of_accepts {t : Token} (h : p.accepts t = true) : p.isBranch = false :=
  isBranch_of_takesToken (takesToken_of_accepts h)

theorem kind_of_docString_accepts {t : Token} (h : Position.docString.accepts t = true) :
    t.kind = .documentationString := by
  simpa [accepts, keyword?, tokenClass?, TokenClass.contains] using h

end Position

/-- The automaton can go from one state to another and read some tokens on the way. -/
inductive Run : Position → Stack → List Token → Position → Stack → Prop
  | refl (p : Position) (S : Stack) : Run p S [] p S
  | branch {p q r : Position} {S T : Stack} {ts : List Token} (hway : q ∈ p.ways)
      (h : Run q S ts r T) : Run p S ts r T
  | silent {p q r : Position} {S S' T : Stack} {ts : List Token} (hsilent : p.isSilent = true)
      (hmove : p.advance S = .reach q S') (h : Run q S' ts r T) : Run p S ts r T
  | read {p q r : Position} {S S' T : Stack} {t : Token} {ts : List Token}
      (haccepts : p.accepts t = true) (hmove : p.advance S = .reach q S') (h : Run q S' ts r T) :
      Run p S (t :: ts) r T

namespace Run

variable {p q r : Position} {S T U : Stack} {t : Token} {ts us : List Token}

theorem trans (h : Run p S ts q T) (h' : Run q T us r U) : Run p S (ts ++ us) r U := by
  induction h with
  | refl => exact h'
  | branch hway _ ih => exact .branch hway (ih h')
  | silent hsilent hmove _ ih => exact .silent hsilent hmove (ih h')
  | read haccepts hmove _ ih => exact .read haccepts hmove (ih h')

/-- From a position that takes a token nothing else is reached without reading one. -/
theorem eq_of_takesToken (h : Run p S [] q T) (hp : p.takesToken = true) : q = p := by
  cases h with
  | refl => rfl
  | branch hway _ => exact absurd hway (Position.not_mem_ways (Position.isBranch_of_takesToken hp))
  | silent hsilent _ _ =>
    rw [Position.isSilent_of_takesToken hp] at hsilent
    cases hsilent

/-- What can happen first when tokens are read. -/
theorem inv_cons (h : Run p S (t :: ts) q T) :
    (∃ r ∈ p.ways, Run r S (t :: ts) q T) ∨
    (p.isSilent = true ∧ ∃ r U, p.advance S = .reach r U ∧ Run r U (t :: ts) q T) ∨
    (p.accepts t = true ∧ ∃ r U, p.advance S = .reach r U ∧ Run r U ts q T) := by
  cases h with
  | branch hway hrest => exact .inl ⟨_, hway, hrest⟩
  | silent hsilent hmove hrest => exact .inr (.inl ⟨hsilent, _, _, hmove, hrest⟩)
  | read haccepts hmove hrest => exact .inr (.inr ⟨haccepts, _, _, hmove, hrest⟩)

theorem way_of_cons (h : Run p S (t :: ts) q T) (hbranch : p.isBranch = true) :
    ∃ r ∈ p.ways, Run r S (t :: ts) q T := by
  rcases h.inv_cons with hway | ⟨hsilent, _⟩ | ⟨haccepts, _⟩
  · exact hway
  · rw [Position.isBranch_of_isSilent hsilent] at hbranch
    cases hbranch
  · rw [Position.isBranch_of_accepts haccepts] at hbranch
    cases hbranch

theorem silent_of_cons (h : Run p S (t :: ts) q T) (hsilent : p.isSilent = true)
    (hmove : p.advance S = .reach r U) : Run r U (t :: ts) q T := by
  rcases h.inv_cons with ⟨r', hway, _⟩ | ⟨_, r', U', hmove', hrest⟩ | ⟨haccepts, _⟩
  · exact absurd hway (Position.not_mem_ways (Position.isBranch_of_isSilent hsilent))
  · rw [hmove, Step.reach.injEq] at hmove'
    rw [hmove'.1, hmove'.2]
    exact hrest
  · rw [Position.isSilent_of_takesToken (Position.takesToken_of_accepts haccepts)] at hsilent
    cases hsilent

theorem read_of_cons (h : Run p S (t :: ts) q T) (htakes : p.takesToken = true) :
    p.accepts t = true ∧ ∃ r U, p.advance S = .reach r U ∧ Run r U ts q T := by
  rcases h.inv_cons with ⟨r, hway, _⟩ | ⟨hsilent, _⟩ | hread
  · exact absurd hway (Position.not_mem_ways (Position.isBranch_of_takesToken htakes))
  · rw [Position.isSilent_of_takesToken htakes] at hsilent
    cases hsilent
  · exact hread

/-- Where the next token is no documentation, one of the listed paths is taken. -/
theorem path_of_cons (h : Run p S (t :: ts) q T) (hbranch : p.isBranch = true)
    (ht : t.kind ≠ .documentationString) : ∃ r ∈ p.paths, Run r S (t :: ts) q T := by
  obtain ⟨r, hway, hrest⟩ := h.way_of_cons hbranch
  unfold Position.ways at hway
  split at hway
  · rcases List.mem_cons.1 hway with rfl | hpath
    · exact absurd (Position.kind_of_docString_accepts (hrest.read_of_cons rfl).1) ht
    · exact ⟨r, hpath, hrest⟩
  · exact ⟨r, hway, hrest⟩

end Run

/-- The automaton reads all of some tokens from a state, the last one as the end of the input. -/
def Reads (position : Position) (stack : Stack) (tokens : List Token) : Prop :=
  ∃ body last outer, tokens = body ++ [last] ∧ Run position stack body .eof outer ∧
    Position.accepts .eof last = true

/-- The automaton accepts some tokens: it reads all of them from the start of a program. -/
def Accepted (tokens : List Token) : Prop := Reads .compUnit [] tokens

namespace Reads

variable {p q : Position} {S T : Stack} {t : Token} {ts us : List Token}

theorem of_run (h : Reads q T us) (hrun : Run p S ts q T) : Reads p S (ts ++ us) := by
  obtain ⟨body, last, outer, rfl, hbody, hlast⟩ := h
  exact ⟨ts ++ body, last, outer, by simp, hrun.trans hbody, hlast⟩

theorem of_eof (h : Position.accepts .eof t = true) : Reads .eof S [t] :=
  ⟨[], t, S, rfl, .refl .eof S, h⟩

theorem of_way (h : Reads q S ts) (hway : q ∈ p.ways) : Reads p S ts :=
  h.of_run (.branch hway (.refl q S))

theorem of_silent (h : Reads q T ts) (hsilent : p.isSilent = true)
    (hmove : p.advance S = .reach q T) : Reads p S ts :=
  h.of_run (.silent hsilent hmove (.refl q T))

theorem of_read (h : Reads q T ts) (haccepts : p.accepts t = true)
    (hmove : p.advance S = .reach q T) : Reads p S (t :: ts) :=
  h.of_run (.read haccepts hmove (.refl q T))

/-- What can happen first when tokens are read. -/
theorem inv (h : Reads p S ts) :
    (p = .eof ∧ ∃ t, ts = [t] ∧ Position.accepts .eof t = true) ∨
    (∃ q ∈ p.ways, Reads q S ts) ∨
    (p.isSilent = true ∧ ∃ q T, p.advance S = .reach q T ∧ Reads q T ts) ∨
    ∃ t us q T, ts = t :: us ∧ p.accepts t = true ∧ p.advance S = .reach q T ∧ Reads q T us := by
  obtain ⟨body, last, outer, rfl, hrun, hlast⟩ := h
  cases hrun with
  | refl => exact .inl ⟨rfl, last, rfl, hlast⟩
  | branch hway hrest => exact .inr (.inl ⟨_, hway, body, last, outer, rfl, hrest, hlast⟩)
  | silent hsilent hmove hrest =>
    exact .inr (.inr (.inl ⟨hsilent, _, _, hmove, body, last, outer, rfl, hrest, hlast⟩))
  | read haccepts hmove hrest =>
    exact .inr (.inr (.inr ⟨_, _, _, _, rfl, haccepts, hmove, _, last, outer, rfl, hrest, hlast⟩))

/-- At a branch point one of the ways is taken. -/
theorem way (h : Reads p S ts) (hbranch : p.isBranch = true) : ∃ q ∈ p.ways, Reads q S ts := by
  rcases h.inv with ⟨rfl, _⟩ | hway | ⟨hsilent, _⟩ | ⟨t, us, q, T, rfl, haccepts, _⟩
  · cases hbranch
  · exact hway
  · rw [Position.isBranch_of_isSilent hsilent] at hbranch
    cases hbranch
  · rw [Position.isBranch_of_accepts haccepts] at hbranch
    cases hbranch

/-- A silent position is passed. -/
theorem silent (h : Reads p S ts) (hsilent : p.isSilent = true)
    (hmove : p.advance S = .reach q T) : Reads q T ts := by
  rcases h.inv with ⟨rfl, _⟩ | ⟨r, hway, _⟩ | ⟨_, r, U, hmove', hrest⟩ |
    ⟨t, us, r, U, rfl, haccepts, _⟩
  · cases hsilent
  · exact absurd hway (Position.not_mem_ways (Position.isBranch_of_isSilent hsilent))
  · rw [hmove, Step.reach.injEq] at hmove'
    rw [hmove'.1, hmove'.2]
    exact hrest
  · rw [Position.isSilent_of_takesToken (Position.takesToken_of_accepts haccepts)] at hsilent
    cases hsilent

/-- A position that takes a token reads one, except at the end. -/
theorem read (h : Reads p S ts) (htakes : p.takesToken = true) (hend : p ≠ .eof)
    (hmove : p.advance S = .reach q T) :
    ∃ t us, ts = t :: us ∧ p.accepts t = true ∧ Reads q T us := by
  rcases h.inv with ⟨rfl, _⟩ | ⟨r, hway, _⟩ | ⟨hsilent, _⟩ |
    ⟨t, us, r, U, rfl, haccepts, hmove', hrest⟩
  · exact absurd rfl hend
  · exact absurd hway (Position.not_mem_ways (Position.isBranch_of_takesToken htakes))
  · rw [Position.isSilent_of_takesToken htakes] at hsilent
    cases hsilent
  · rw [hmove, Step.reach.injEq] at hmove'
    rw [hmove'.1, hmove'.2]
    exact ⟨t, us, rfl, haccepts, hrest⟩

end Reads

/-! ## What comes first -/

/-- A token can be read from a state before any other. -/
def CanRead (position : Position) (stack : Stack) (t : Token) : Prop :=
  ∃ q T, Run position stack [] q T ∧ q.accepts t = true

/-- A token of a kind can be supplied at a state: a position that takes one can be reached without
reading, and the kind is the one that is supplied there. -/
def CanSupply (position : Position) (stack : Stack) (kind : Kind) : Prop :=
  ∃ q T, Run position stack [] q T ∧ q.takesToken = true ∧ kind = q.expectedKind ∧ kind ≠ .absent

section

variable {p q : Position} {S T : Stack}

theorem CanRead.of_run {t : Token} (h : CanRead q T t) (hrun : Run p S [] q T) : CanRead p S t := by
  obtain ⟨r, U, hr, haccepts⟩ := h
  exact ⟨r, U, hrun.trans hr, haccepts⟩

theorem CanSupply.of_run {kind : Kind} (h : CanSupply q T kind) (hrun : Run p S [] q T) :
    CanSupply p S kind := by
  obtain ⟨r, U, hr, hwanted⟩ := h
  exact ⟨r, U, hrun.trans hr, hwanted⟩

/-- The first token of a run can be read before any other. -/
theorem Run.canRead {t : Token} {ts us : List Token} (h : Run p S us q T) (hus : us = t :: ts) :
    CanRead p S t := by
  induction h with
  | refl => cases hus
  | branch hway _ ih => exact (ih hus).of_run (.branch hway (.refl _ _))
  | silent hsilent hmove _ ih => exact (ih hus).of_run (.silent hsilent hmove (.refl _ _))
  | read haccepts _ _ =>
    obtain ⟨rfl, _⟩ := List.cons.inj hus
    exact ⟨_, _, .refl _ _, haccepts⟩

theorem Reads.canRead {t : Token} {ts : List Token} (h : Reads p S (t :: ts)) : CanRead p S t := by
  obtain ⟨body, last, outer, hts, hrun, hlast⟩ := h
  cases body with
  | nil =>
    obtain ⟨rfl, _⟩ := List.cons.inj hts
    exact ⟨.eof, outer, hrun, hlast⟩
  | cons first rest =>
    obtain ⟨rfl, _⟩ := List.cons.inj hts
    exact hrun.canRead rfl

end

end Mend
