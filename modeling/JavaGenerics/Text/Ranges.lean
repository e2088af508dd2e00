/-!
# Ranges of characters

A class of characters that a standard lists is a list of ranges of code points.
-/

namespace JavaGenerics

/-- Whether the code point of a character lies in one of some ranges, ends included. -/
def inRanges (ranges : List (Nat × Nat)) (c : Char) : Bool :=
  ranges.any fun (lo, hi) => lo ≤ c.toNat && c.toNat ≤ hi

/-- A character is in the ranges exactly if it is in one of them. -/
theorem inRanges_iff {ranges : List (Nat × Nat)} {c : Char} :
    inRanges ranges c = true ↔ ∃ r ∈ ranges, r.1 ≤ c.toNat ∧ c.toNat ≤ r.2 := by
  simp [inRanges]

end JavaGenerics
