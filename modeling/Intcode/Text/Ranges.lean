/-!
# Sets of characters given by ranges

Character properties are tables of code point ranges, ends included.
-/

namespace Intcode.Text

/-- A set of code points: a list of ranges, both ends included. -/
abbrev Ranges := List (Nat × Nat)

/-- Whether a character's code point lies in one of the ranges. -/
def Ranges.contains (ranges : Ranges) (c : Char) : Bool :=
  ranges.any fun (low, high) => low ≤ c.toNat && c.toNat ≤ high

theorem Ranges.contains_iff {ranges : Ranges} {c : Char} :
    ranges.contains c ↔ ∃ r ∈ ranges, r.1 ≤ c.toNat ∧ c.toNat ≤ r.2 := by
  simp [contains]

end Intcode.Text
