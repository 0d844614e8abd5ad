/-!
# Opcodes

The ten operations of the machine, with their two-digit codes, their names in
assembly text, and the shape of their parameter lists.
-/

namespace Intcode

/-- An operation of the machine. -/
inductive Opcode where
  | add
  | multiply
  | input
  | output
  | jumpIfTrue
  | jumpIfFalse
  | lessThan
  | equals
  | adjustBase
  | halt
deriving DecidableEq, Repr

namespace Opcode

/-- Every opcode, by ascending code. -/
def all : List Opcode :=
  [add, multiply, input, output, jumpIfTrue, jumpIfFalse, lessThan, equals, adjustBase, halt]

/-- The last two decimal digits of an instruction word. -/
def code : Opcode → Nat
  | add => 1
  | multiply => 2
  | input => 3
  | output => 4
  | jumpIfTrue => 5
  | jumpIfFalse => 6
  | lessThan => 7
  | equals => 8
  | adjustBase => 9
  | halt => 99

/-- The opcode with the given code. -/
def ofCode? : Nat → Option Opcode
  | 1 => some add
  | 2 => some multiply
  | 3 => some input
  | 4 => some output
  | 5 => some jumpIfTrue
  | 6 => some jumpIfFalse
  | 7 => some lessThan
  | 8 => some equals
  | 9 => some adjustBase
  | 99 => some halt
  | _ => none

/-- The name of an opcode in assembly text. -/
def mnemonic : Opcode → String
  | add => "add"
  | multiply => "mul"
  | input => "in"
  | output => "out"
  | jumpIfTrue => "jnz"
  | jumpIfFalse => "jz"
  | lessThan => "lt"
  | equals => "eq"
  | adjustBase => "arb"
  | halt => "halt"

/-- The opcode with the given name, in upper or lower case. -/
def ofMnemonic? (name : String) : Option Opcode :=
  let lower := String.ofList (name.toList.map Char.toLower)
  all.find? fun op => op.mnemonic = lower

/-- How many parameter words follow the instruction word. -/
def parameterCount : Opcode → Nat
  | add | multiply | lessThan | equals => 3
  | jumpIfTrue | jumpIfFalse => 2
  | input | output | adjustBase => 1
  | halt => 0

/-- How many words an instruction takes, its own word included. -/
def width (op : Opcode) : Nat :=
  1 + op.parameterCount

/-- The index of the parameter that names the cell to write, if there is one. -/
def destination? : Opcode → Option Nat
  | add | multiply | lessThan | equals => some 2
  | input => some 0
  | output | jumpIfTrue | jumpIfFalse | adjustBase | halt => none

@[simp]
theorem ofCode?_code (op : Opcode) : ofCode? op.code = some op := by
  cases op <;> rfl

theorem ofCode?_eq_some_iff {n : Nat} {op : Opcode} : ofCode? n = some op ↔ n = op.code := by
  refine ⟨fun h => ?_, fun h => h ▸ ofCode?_code op⟩
  unfold ofCode? at h
  split at h <;> cases h <;> rfl

theorem code_lt (op : Opcode) : op.code < 100 := by
  cases op <;> decide

theorem parameterCount_le (op : Opcode) : op.parameterCount ≤ 3 := by
  cases op <;> decide

end Opcode

end Intcode
