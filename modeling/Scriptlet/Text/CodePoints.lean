/-!
# Sets of code points

A set is an ascending list of disjoint ranges, both ends included, searched from the front.
-/

namespace Scriptlet.Text

/-- Membership in an ascending list of ranges; the search ends at the first range above `n`. -/
def inRanges (n : Nat) : List (Nat × Nat) → Bool
  | [] => false
  | (lo, hi) :: ranges => if n < lo then false else if n ≤ hi then true else inRanges n ranges

theorem exists_of_inRanges {n : Nat} {ranges : List (Nat × Nat)} (h : inRanges n ranges = true) :
    ∃ r ∈ ranges, r.1 ≤ n ∧ n ≤ r.2 := by
  induction ranges with
  | nil => cases h
  | cons r ranges ih =>
    obtain ⟨lo, hi⟩ := r
    unfold inRanges at h
    split at h
    · cases h
    · split at h
      · exact ⟨(lo, hi), by simp, by simp only; omega⟩
      · obtain ⟨r, hr, hn⟩ := ih h
        exact ⟨r, by simp [hr], hn⟩

end Scriptlet.Text
