/-!
# Classes of characters given by ranges

A property of characters that a standard fixes by listing code points is kept as a list of closed
ranges in increasing order. Membership is a plain search: the tables are short and are consulted
only for characters outside ASCII.
-/

namespace GemLang.Text

/-- Whether the code point of `c` lies in one of the closed ranges. -/
def inRanges (ranges : List (Nat × Nat)) (c : Char) : Bool :=
  ranges.any fun r ↦ r.1 ≤ c.toNat && c.toNat ≤ r.2

theorem inRanges_iff {ranges : List (Nat × Nat)} {c : Char} :
    inRanges ranges c = true ↔ ∃ r ∈ ranges, r.1 ≤ c.toNat ∧ c.toNat ≤ r.2 := by
  simp [inRanges]

end GemLang.Text
