import Intcode.Text.Quoted
import Intcode.Text.WhiteSpace
import Intcode.Word.Text

/-!
# Programs as text

A program is a list of words. Its text is one decimal number per word, separated
by commas; white space around the numbers is free when the text is read.
-/

namespace Intcode

/-- A program: the words loaded into memory from address zero. -/
structure Program where
  words : List Word
deriving DecidableEq

namespace Program

/-- Why a text is no program. -/
inductive TextError where
  /-- The text is blank. -/
  | emptyProgram
  /-- The piece at this position, counted from zero, is no word. -/
  | invalidLiteral (position : Nat) (literal : List Char)
deriving DecidableEq

/-- The text of the error. -/
def TextError.message : TextError → String
  | emptyProgram => "Empty program"
  | invalidLiteral position literal =>
    "Invalid program literal " ++ Text.quote literal ++ " at position "
      ++ Text.Decimal.ofNat position

/-- Reads the pieces between the commas, the first of them at the given position. -/
def ofPieces (position : Nat) : List (List Char) → Except TextError (List Word)
  | [] => .ok []
  | piece :: pieces =>
    match Word.ofText? (Text.trim piece) with
    | none => .error (.invalidLiteral position (Text.trim piece))
    | some w => (ofPieces (position + 1) pieces).map (w :: ·)

/-- Reads a program from its text. -/
def ofText (text : String) : Except TextError Program :=
  match Text.trim text.toList with
  | [] => .error .emptyProgram
  | body => (ofPieces 0 (body.splitOn ',')).map Program.mk

/-- The text of a program. -/
def toText (p : Program) : String :=
  ",".intercalate (p.words.map Word.toText)

end Program

end Intcode
