/-
# Sets of characters given by ranges

A property of characters is stored as the list of the ranges of code points that have it, in
rising order and without overlaps.
-/

namespace BoolQuery
namespace Unicode

/-- A set of characters, as inclusive ranges of code points. -/
structure CharSet where
  ranges : List (Nat × Nat)

/-- A character belongs to the set if one of the ranges holds its code point. -/
def CharSet.contains (s : CharSet) (c : Char) : Bool :=
  s.ranges.any fun r => r.1 ≤ c.toNat && c.toNat ≤ r.2

/-- A set holds the characters in its ranges and no others. -/
theorem CharSet.contains_iff {s : CharSet} {c : Char} :
    s.contains c = true ↔ ∃ r ∈ s.ranges, r.1 ≤ c.toNat ∧ c.toNat ≤ r.2 := by
  simp [contains]

end Unicode
end BoolQuery
