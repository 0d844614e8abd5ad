/-!
# Addressing modes

How a parameter word stands for a value or a cell.
-/

namespace Intcode

/-- How an instruction uses a parameter word. -/
inductive Mode where
  /-- The word is the address of a cell. -/
  | positional
  /-- The word is the value itself. -/
  | immediate
  /-- The word plus the relative base is the address of a cell. -/
  | relative
deriving DecidableEq, Repr

namespace Mode

/-- The digit that spells a mode in an instruction word. -/
def digit : Mode → Nat
  | positional => 0
  | immediate => 1
  | relative => 2

/-- The mode a digit spells: every digit but 0 and 2 takes the word as it is. -/
def ofDigit : Nat → Mode
  | 0 => positional
  | 2 => relative
  | _ => immediate

/-- The name of a mode in the description of an instruction. -/
def name : Mode → String
  | positional => "positional"
  | immediate => "immediate"
  | relative => "relative"

@[simp]
theorem ofDigit_digit (mode : Mode) : ofDigit mode.digit = mode := by
  cases mode <;> rfl

theorem digit_le (mode : Mode) : mode.digit ≤ 2 := by
  cases mode <;> decide

/-- A mode's own digit is the least that spells it. -/
theorem digit_ofDigit_le : (d : Nat) → (ofDigit d).digit ≤ d
  | 0 | 1 | 2 => by decide
  | d + 3 => by simp only [ofDigit, digit]; omega

end Mode

end Intcode
