/-!
# Ranges of code points

A property of characters is given by an ascending list of ranges of code points.
`Ranges.contains` looks a code point up and stops at the first range beyond it.
-/

namespace StylePrune.Text

/-- Ascending ranges of code points, both ends included. -/
abbrev Ranges := List (Nat × Nat)

/-- Whether a code point lies in one of the ranges. -/
def Ranges.contains : Ranges → Nat → Bool
  | [], _ => false
  | (lo, hi) :: rest, n => if n < lo then false else n ≤ hi || contains rest n

/-- A code point found in a list of ranges lies between the ends of one of them. -/
theorem Ranges.exists_of_contains {r : Ranges} {n : Nat} (h : r.contains n = true) :
  ∃ p ∈ r, p.1 ≤ n ∧ n ≤ p.2
  := by
  induction r with
  | nil => simp [contains] at h
  | cons p rest ih =>
    obtain ⟨lo, hi⟩ := p
    unfold contains at h
    split at h
    · simp at h
    · simp only [Bool.or_eq_true, decide_eq_true_eq] at h
      rcases h with h | h
      · exact ⟨(lo, hi), by simp, by omega, h⟩
      · obtain ⟨p, hp, hb⟩ := ih h
        exact ⟨p, List.mem_cons_of_mem _ hp, hb⟩

end StylePrune.Text
