/-!
# Machine words

A word is a signed 64-bit integer. Arithmetic on words is exact: results are
computed in `Int`, and `ofInt?` admits only those that fit a word, so no
operation of this library ever wraps around. `ofInt?_eq_some_iff` is the one
fact needed to reason about it.
-/

namespace Intcode

/-- A signed 64-bit machine word. -/
abbrev Word := Int64

namespace Word

/-- The word with value `i`, or `none` if `i` does not fit. -/
def ofInt? (i : Int) : Option Word :=
  if -0x8000000000000000 ≤ i ∧ i < 0x8000000000000000 then some (Int64.ofInt i) else none

theorem le_toInt (w : Word) : -0x8000000000000000 ≤ w.toInt :=
  Int64.le_toInt w

theorem toInt_lt (w : Word) : w.toInt < 0x8000000000000000 :=
  Int64.toInt_lt w

theorem ofInt?_eq_some_iff {i : Int} {w : Word} : ofInt? i = some w ↔ w.toInt = i := by
  unfold ofInt?
  split
  next h =>
    rw [Option.some.injEq]
    constructor
    · rintro rfl
      exact Int64.toInt_ofInt_of_le h.1 h.2
    · rintro rfl
      exact Int64.ofInt_toInt w
  next h =>
    refine ⟨nofun, fun hw => absurd ⟨?_, ?_⟩ h⟩
    · exact hw ▸ le_toInt w
    · exact hw ▸ toInt_lt w

theorem ofInt?_eq_none_iff {i : Int} :
    ofInt? i = none ↔ i < -0x8000000000000000 ∨ 0x8000000000000000 ≤ i := by
  unfold ofInt?
  split
  next h => simp only [reduceCtorEq, false_iff]; omega
  next h => simp only [true_iff]; omega

@[simp]
theorem ofInt?_toInt (w : Word) : ofInt? w.toInt = some w :=
  ofInt?_eq_some_iff.mpr rfl

/-- The sum of two words, if it fits. -/
def add? (a b : Word) : Option Word :=
  ofInt? (a.toInt + b.toInt)

/-- The product of two words, if it fits. -/
def mul? (a b : Word) : Option Word :=
  ofInt? (a.toInt * b.toInt)

/-- The negation of a word, if it fits: only the least word has none. -/
def neg? (a : Word) : Option Word :=
  ofInt? (-a.toInt)

/-- The address a word names: its value, unless that is negative. -/
def toAddress? (w : Word) : Option Nat :=
  if 0 ≤ w.toInt then some w.toInt.toNat else none

theorem toAddress?_eq_some_iff {w : Word} {a : Nat} : w.toAddress? = some a ↔ w.toInt = a := by
  unfold toAddress?
  split
  next h => rw [Option.some.injEq]; omega
  next h => simp only [reduceCtorEq, false_iff]; omega

theorem toAddress?_eq_none_iff {w : Word} : w.toAddress? = none ↔ w.toInt < 0 := by
  unfold toAddress?
  split
  next h => simp only [reduceCtorEq, false_iff]; omega
  next h => simp only [true_iff]; omega

/-- Every address that a word names is below 2^63. -/
theorem lt_of_toAddress? {w : Word} {a : Nat} (h : w.toAddress? = some a) :
    a < 0x8000000000000000 := by
  have := toInt_lt w
  have := toAddress?_eq_some_iff.mp h
  omega

/-- The truth value of a comparison: one if it holds, zero otherwise. -/
def ofBool (b : Bool) : Word :=
  if b then 1 else 0

end Word

end Intcode
