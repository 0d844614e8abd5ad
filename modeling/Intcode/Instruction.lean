import Intcode.Mode
import Intcode.Opcode

/-!
# Instructions

An instruction is an opcode with an addressing mode for each of three parameter
places. Its parameter words are not part of it: they are read from memory when
it executes. Modes of places beyond the opcode's parameters are kept but mean
nothing; `modes` lists those that count.
-/

namespace Intcode

/-- An opcode and the addressing modes of its parameters. -/
structure Instruction where
  opcode : Opcode
  first : Mode
  second : Mode
  third : Mode
deriving DecidableEq, Repr

namespace Instruction

/-- The instruction with all parameters in positional mode. -/
def positional (opcode : Opcode) : Instruction :=
  ⟨opcode, .positional, .positional, .positional⟩

/-- The instruction with the listed modes, and positional mode where the list ends early. -/
def ofModes (opcode : Opcode) (modes : List Mode) : Instruction :=
  ⟨opcode, modes.getD 0 .positional, modes.getD 1 .positional, modes.getD 2 .positional⟩

/-- The modes of the opcode's parameters, in order. -/
def modes (i : Instruction) : List Mode :=
  [i.first, i.second, i.third].take i.opcode.parameterCount

/-- How many words the instruction takes in memory. -/
def width (i : Instruction) : Nat :=
  i.opcode.width

/-- The mode of the parameter that names the cell to write, if there is one. -/
def destinationMode? (i : Instruction) : Option Mode :=
  i.opcode.destination?.bind fun place => i.modes[place]?

/-- Whether the parameter that names the cell to write is in immediate mode. -/
def hasImmediateDestination (i : Instruction) : Bool :=
  i.destinationMode? = some .immediate

/-- The mnemonic and, in parentheses, the modes of the parameters. -/
def describe (i : Instruction) : String :=
  match i.modes with
  | [] => i.opcode.mnemonic
  | modes => i.opcode.mnemonic ++ " (" ++ ", ".intercalate (modes.map Mode.name) ++ ")"

@[simp]
theorem length_modes (i : Instruction) : i.modes.length = i.opcode.parameterCount := by
  simp only [modes, List.length_take, List.length_cons, List.length_nil]
  have := i.opcode.parameterCount_le
  omega

end Instruction

end Intcode
