import Intcode.Instruction
import Intcode.Word.Text

/-!
# Instruction words

An instruction is packed into one word by decimal digits: the opcode's code in
the last two, then one mode digit per parameter, the first parameter's lowest.
The sign of the word is ignored, and so are the mode digits beyond the opcode's
parameters, so many words spell one instruction. `toWord` picks one of them, and
a word that `toWord` can give is *canonical*.
-/

namespace Intcode

/-- The word of the error spells no instruction. -/
structure InvalidOperation where
  word : Word
deriving DecidableEq

/-- The text of the error. -/
def InvalidOperation.message (e : InvalidOperation) : String :=
  "Invalid operation: " ++ e.word.toText

namespace Instruction

/-- The largest magnitude of a word that can spell an instruction. -/
def maxMagnitude : Nat := 22299

/-- The two-digit code at the end of a word. -/
def codeField (w : Word) : Nat :=
  w.toInt.natAbs % 100

/-- The value of the decimal place of a parameter's mode, parameters counted from zero. -/
def modePlace : Nat → Nat
  | 0 => 100
  | parameter + 1 => 10 * modePlace parameter

/-- The digit of a word at the place of a parameter's mode. -/
def modeDigit (w : Word) (parameter : Nat) : Nat :=
  w.toInt.natAbs / modePlace parameter % 10

/-- The instruction that a word spells. -/
def ofWord? (w : Word) : Option Instruction :=
  if w.toInt.natAbs ≤ maxMagnitude then
    (Opcode.ofCode? (codeField w)).map fun opcode =>
      { opcode
        first := .ofDigit (modeDigit w 0)
        second := .ofDigit (modeDigit w 1)
        third := .ofDigit (modeDigit w 2) }
  else
    none

/-- The instruction that a word spells, or the error that it spells none. -/
def ofWord (w : Word) : Except InvalidOperation Instruction :=
  match ofWord? w with
  | some i => .ok i
  | none => .error ⟨w⟩

/-- The digits of a list of modes as a number, the first mode lowest. -/
def modesNumber : List Mode → Nat
  | [] => 0
  | mode :: modes => mode.digit + 10 * modesNumber modes

/-- The magnitude of the canonical word of an instruction. -/
def toNat (i : Instruction) : Nat :=
  i.opcode.code + 100 * modesNumber i.modes

/-- The canonical word of an instruction. -/
def toWord (i : Instruction) : Word :=
  Int64.ofNat i.toNat

/-- Whether a word is the canonical word of the instruction it spells. -/
def isCanonical (w : Word) : Bool :=
  match ofWord? w with
  | some i => i.toWord = w
  | none => false

end Instruction

end Intcode
