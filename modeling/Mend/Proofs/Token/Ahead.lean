import Mend.Reader

/-!
# Tokens ahead

A search looks at the tokens to come one after another and looks over the documentation between
them. What it looks at are then the tokens ahead without the documentation; and since the end of
the input is never passed, there are always as many of these as are asked for.
-/

namespace Mend

namespace Reader

variable (r : Reader) {place n k : Nat} {t : Token}

/-- Some tokens from a place ahead on, documentation set apart. The end of the input is never
passed, so it is repeated as often as need be. -/
def upcoming (r : Reader) (place n : Nat) : List Token :=
  ((r.ahead.drop (place - 1)).filter (·.kind != .documentationString) ++
    List.replicate n r.last).take n

theorem peekN_eq (k : Nat) : r.peekN k = (r.ahead.drop (k - 1)).headD r.last := by
  rw [peekN, List.headD_eq_head?_getD, List.head?_drop, List.getD_eq_getElem?_getD]

theorem skipDocumentation_eq (hplace : 1 ≤ place) :
    r.skipDocumentation place = place + r.documentationAt place := by
  unfold skipDocumentation
  split <;> omega

/-- Looking over documentation drops it. -/
theorem drop_skipDocumentation (hplace : 1 ≤ place) :
    r.ahead.drop (r.skipDocumentation place - 1) =
      (r.ahead.drop (place - 1)).dropWhile (·.kind == .documentationString) := by
  have hstep : r.skipDocumentation place - 1 = place - 1 + r.documentationAt place := by
    rw [skipDocumentation_eq r hplace]
    omega
  rw [hstep, ← List.drop_drop, documentationAt]
  induction r.ahead.drop (place - 1) with
  | nil => rfl
  | cons t rest ih =>
    cases ht : t.kind == .documentationString with
    | true => simpa [ht] using ih
    | false => simp [ht]

/-- No documentation is left where it has been looked over. -/
theorem skipDocumentation_skipDocumentation (hplace : 1 ≤ place) :
    r.skipDocumentation (r.skipDocumentation place) = r.skipDocumentation place := by
  have hle := r.skipDocumentation_eq hplace
  rw [skipDocumentation_eq r (by omega), documentationAt, drop_skipDocumentation r hplace]
  induction r.ahead.drop (place - 1) with
  | nil => rfl
  | cons t rest ih =>
    cases ht : t.kind == .documentationString with
    | true => simpa [ht] using ih
    | false => simp [ht]

/-- The first of some tokens to come is the one behind the documentation. -/
theorem upcoming_succ (hplace : 1 ≤ place) :
    r.upcoming place (n + 1) =
      r.peekN (r.skipDocumentation place) :: r.upcoming (r.skipDocumentation place + 1) n := by
  have hle := r.skipDocumentation_eq hplace
  have hnext : r.ahead.drop (r.skipDocumentation place + 1 - 1) =
      ((r.ahead.drop (place - 1)).dropWhile (·.kind == .documentationString)).tail := by
    rw [← drop_skipDocumentation r hplace, List.tail_drop]
    congr 1
    omega
  rw [upcoming, upcoming, peekN_eq, drop_skipDocumentation r hplace, hnext]
  induction r.ahead.drop (place - 1) with
  | nil => simp [List.take_replicate, List.replicate_succ]
  | cons t rest ih =>
    cases ht : t.kind == .documentationString with
    | true => simpa [ht, bne] using ih
    | false => simp [ht, bne, List.take_append, List.take_replicate]; omega

theorem upcoming_zero : r.upcoming place 0 = [] := List.take_zero

theorem upcoming_skipDocumentation (hplace : 1 ≤ place) :
    r.upcoming (r.skipDocumentation place) n = r.upcoming place n := by
  have hle := r.skipDocumentation_eq hplace
  cases n with
  | zero => rw [upcoming_zero, upcoming_zero]
  | succ n =>
    rw [upcoming_succ r (by omega), upcoming_succ r hplace,
      skipDocumentation_skipDocumentation r hplace]

/-- None of them is documentation. -/
theorem kind_ne_of_mem_upcoming (hlast : r.last.kind ≠ .documentationString)
    (h : t ∈ r.upcoming place n) : t.kind ≠ .documentationString := by
  rcases List.mem_append.1 (List.mem_of_mem_take h) with hmem | hmem
  · simpa using (List.mem_filter.1 hmem).2
  · rwa [List.eq_of_mem_replicate hmem]

/-! ## How far to look -/

/-- Looking over documentation stops behind it. -/
theorem kind_skipDocumentation (hlast : r.last.kind ≠ .documentationString) (hplace : 1 ≤ place) :
    (r.peekN (r.skipDocumentation place)).kind ≠ .documentationString := by
  have hmem : r.peekN (r.skipDocumentation place) ∈ r.upcoming place 1 := by
    rw [r.upcoming_succ hplace]
    exact List.mem_cons_self
  exact r.kind_ne_of_mem_upcoming hlast hmem

/-- Nothing but documentation is looked over. -/
theorem kind_of_lt_skipDocumentation (hplace : 1 ≤ place) (hle : place ≤ k)
    (hlt : k < r.skipDocumentation place) : (r.peekN k).kind = .documentationString := by
  have hbefore (ts : List Token) : ∀ i < (ts.takeWhile (·.kind == .documentationString)).length,
      (ts.getD i r.last).kind = .documentationString := by
    induction ts with
    | nil => simp
    | cons t rest ih =>
      intro i hi
      cases ht : t.kind == .documentationString with
      | false => simp [ht] at hi
      | true =>
        cases i with
        | zero => simpa using ht
        | succ i =>
          simp only [List.takeWhile_cons, ht, if_true, List.length_cons] at hi
          exact ih i (by omega)
  rw [r.skipDocumentation_eq hplace, documentationAt] at hlt
  have hkind := hbefore (r.ahead.drop (place - 1)) (k - place) (by omega)
  rwa [List.getD_eq_getElem?_getD, List.getElem?_drop, ← List.getD_eq_getElem?_getD,
    show place - 1 + (k - place) = k - 1 by omega] at hkind

/-- Documentation is looked over one token after another. -/
theorem skipDocumentation_succ (hlast : r.last.kind ≠ .documentationString)
    (h : (r.peekN place).kind = .documentationString) :
    r.skipDocumentation (place + 1) = r.skipDocumentation place := by
  cases hahead : r.ahead.drop (place - 1) with
  | nil =>
    rw [r.peekN_eq, hahead] at h
    exact absurd h hlast
  | cons t rest =>
    have ht : (t.kind == .documentationString) = true := by
      rw [r.peekN_eq, hahead] at h
      simpa using h
    have hmany : r.documentationAt place =
        (rest.takeWhile (·.kind == .documentationString)).length + 1 := by
      simp [documentationAt, hahead, ht]
    rw [r.skipDocumentation_eq (Nat.le_add_left 1 place)]
    cases place with
    | zero =>
      -- Looking at place 0 and at place 1 is the same.
      have hsame : r.documentationAt (0 + 1) = r.documentationAt 0 := rfl
      simp [skipDocumentation, hsame, hmany]
    | succ place =>
      have hrest : r.ahead.drop (place + 1) = rest := by
        rw [← List.drop_drop, List.drop_one, show r.ahead.drop place = t :: rest from hahead]
        rfl
      have hfewer : r.documentationAt (place + 1 + 1) =
          (rest.takeWhile (·.kind == .documentationString)).length := by
        simp [documentationAt, hrest]
      rw [r.skipDocumentation_eq (Nat.le_add_left 1 place), hmany, hfewer]
      omega

theorem le_skipDocumentation (place : Nat) : place ≤ r.skipDocumentation place := by
  unfold skipDocumentation
  split <;> omega

theorem skipDocumentation_mono (hlast : r.last.kind ≠ .documentationString) (hplace : 1 ≤ place)
    (hle : place ≤ k) : r.skipDocumentation place ≤ r.skipDocumentation k := by
  have hk := r.skipDocumentation_eq (Nat.le_trans hplace hle)
  refine Nat.le_of_not_lt fun hlt => ?_
  exact r.kind_skipDocumentation hlast (Nat.le_trans hplace hle)
    (r.kind_of_lt_skipDocumentation hplace (by omega) hlt)

/-- The place of the n-th token to come, documentation set apart. -/
def upcomingPlace (r : Reader) : Nat → Nat
  | 0 => 0
  | n + 1 => r.skipDocumentation (r.upcomingPlace n + 1)

theorem upcomingPlace_lt_succ (n : Nat) : r.upcomingPlace n < r.upcomingPlace (n + 1) := by
  have hskip := r.skipDocumentation_eq (Nat.le_add_left 1 (r.upcomingPlace n))
  rw [upcomingPlace]
  omega

theorem upcomingPlace_mono {m : Nat} (hle : m ≤ n) : r.upcomingPlace m ≤ r.upcomingPlace n := by
  induction hle with
  | refl => exact Nat.le_refl _
  | step _ ih => exact Nat.le_trans ih (Nat.le_of_lt (r.upcomingPlace_lt_succ _))

end Reader

end Mend
