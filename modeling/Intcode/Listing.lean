import Intcode.Instruction.Encoding
import Intcode.Instruction.Text

/-!
# Listings

A listing shows the words of a program as assembly text, one block to a line: an
instruction with its operands where the words spell one, a single data word
otherwise. The sweep is linear: a block starts where the one before it ends.

Only words that assembling would give back are shown as instructions, so an
instruction has to be in its canonical word, must not write to an immediate
operand, and needs all of its parameter words. The blocks of a program hold its
words and nothing else (`flatMap_words_blocks`).
-/

namespace Intcode.Listing

/-- What one line of a listing shows. -/
inductive Block where
  | instruction (instruction : Instruction) (operands : List Word)
  | data (word : Word)
deriving DecidableEq

namespace Block

/-- The words a block stands for. -/
def words : Block → List Word
  | instruction i operands => i.toWord :: operands
  | data w => [w]

/-- A block in assembly text. -/
def text : Block → String
  | instruction i operands => i.text operands
  | data w => ".word " ++ w.toText

end Block

/-- The instruction to show for a word with the given words after it, if there is one. -/
def instruction? (w : Word) (rest : List Word) : Option Instruction :=
  (Instruction.ofWord? w).filter fun i =>
    i.toWord = w && !i.hasImmediateDestination && i.opcode.parameterCount ≤ rest.length

/-- Cuts a program into blocks. -/
def blocks : List Word → List Block
  | [] => []
  | w :: rest =>
    match instruction? w rest with
    | some i =>
      .instruction i (rest.take i.opcode.parameterCount)
        :: blocks (rest.drop i.opcode.parameterCount)
    | none => .data w :: blocks rest
termination_by words => words.length
decreasing_by
  · rw [List.length_drop, List.length_cons]
    omega
  · exact Nat.lt_succ_self _

/-- A text followed by spaces up to the given width. -/
def padEnd (width : Nat) (text : String) : String :=
  text ++ String.ofList (List.replicate (width - text.length) ' ')

/-- The width of the column that holds the assembly text. -/
def textWidth : Nat := 28

/-- The line of a block: its text, and its address and words as a comment. -/
def line (address : Nat) (block : Block) : String :=
  "    " ++ padEnd textWidth block.text ++ "; " ++ Text.Decimal.padded 4 address ++ ": "
    ++ ",".intercalate (block.words.map Word.toText)

/-- The lines of consecutive blocks, the first of them at the given address. -/
def lines (address : Nat) : List Block → List String
  | [] => []
  | block :: blocks => line address block :: lines (address + block.words.length) blocks

/-- The comment lines above a listing, and the blank line after them. -/
def header (size : Nat) : List String :=
  ["; Intcode disassembly", "; " ++ Text.Decimal.ofNat size ++ " words", ""]

/-- The listing of a program. -/
def render (words : List Word) : String :=
  String.join ((header words.length ++ lines 0 (blocks words)).map (· ++ "\n"))

/-! ## The words of the blocks -/

theorem instruction?_eq_some_iff {w : Word} {rest : List Word} {i : Instruction} :
    instruction? w rest = some i ↔
      Instruction.ofWord? w = some i ∧ i.toWord = w ∧ i.hasImmediateDestination = false
        ∧ i.opcode.parameterCount ≤ rest.length := by
  simp [instruction?, Option.filter_eq_some_iff, and_assoc]

/-- The blocks of a program hold its words, in order. -/
theorem flatMap_words_blocks (words : List Word) : (blocks words).flatMap Block.words = words := by
  fun_induction blocks words with
  | case1 => rfl
  | case2 w rest i h ih =>
    obtain ⟨-, hw, -, -⟩ := instruction?_eq_some_iff.mp h
    rw [List.flatMap_cons, ih, Block.words, hw, List.cons_append, List.take_append_drop]
  | case3 w rest h ih =>
    rw [List.flatMap_cons, ih]
    rfl

end Intcode.Listing
