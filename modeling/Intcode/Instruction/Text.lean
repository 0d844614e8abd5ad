import Intcode.Instruction
import Intcode.Word.Text

/-!
# Instructions as assembly text

An instruction is written as its mnemonic and its operands. The brackets around
an operand tell its mode: `[n]` is a cell, `[rb+n]` a cell relative to the base,
and a bare number stands for itself.
-/

namespace Intcode

/-- A parameter word written in its mode. -/
def Mode.operandText (mode : Mode) (raw : Word) : String :=
  match mode with
  | .positional => "[" ++ raw.toText ++ "]"
  | .immediate => raw.toText
  | .relative =>
    if raw.toInt = 0 then "[rb]"
    else if raw.toInt < 0 then "[rb" ++ raw.toText ++ "]"
    else "[rb+" ++ raw.toText ++ "]"

namespace Instruction

/-- One operand for each mode, with a question mark where the words have run out. -/
def operandTexts : List Mode → List Word → List String
  | [], _ => []
  | mode :: modes, raw :: raws => mode.operandText raw :: operandTexts modes raws
  | _ :: modes, [] => "?" :: operandTexts modes []

/-- The instruction with the given parameter words, in assembly text. -/
def text (i : Instruction) (operands : List Word) : String :=
  match operandTexts i.modes operands with
  | [] => i.opcode.mnemonic
  | texts => i.opcode.mnemonic ++ " " ++ ", ".intercalate texts

@[simp]
theorem length_operandTexts (modes : List Mode) (raws : List Word) :
    (operandTexts modes raws).length = modes.length := by
  fun_induction operandTexts modes raws <;> simp_all

end Instruction

end Intcode
