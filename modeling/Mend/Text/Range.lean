/-!
# Sets of characters as ranges of code points

A character property is kept as an ascending list of closed ranges of code points. Because the
ranges ascend, a lookup stops at the first range that starts above the code point it looks for.
-/

namespace Mend.Text

/-- An ascending list of closed ranges of code points. -/
abbrev Ranges := List (Nat × Nat)

namespace Ranges

/-- Whether `code` lies in one of the ranges. -/
def contains (code : Nat) : Ranges → Bool
  | [] => false
  | (low, high) :: rest =>
    if code < low then false else if code ≤ high then true else contains code rest

/-- What a lookup finds lies in a listed range. -/
theorem exists_mem_of_contains {code : Nat} {ranges : Ranges} (h : contains code ranges = true) :
    ∃ range ∈ ranges, range.1 ≤ code ∧ code ≤ range.2 := by
  induction ranges with
  | nil => simp [contains] at h
  | cons range rest ih =>
    obtain ⟨low, high⟩ := range
    unfold contains at h
    split at h
    · cases h
    · rename_i hlow
      split at h
      · rename_i hhigh
        exact ⟨(low, high), by simp, by simp; omega, hhigh⟩
      · obtain ⟨found, hmem, hin⟩ := ih h
        exact ⟨found, by simp [hmem], hin⟩

end Ranges

end Mend.Text
