import Intcode.Assembly.Token

/-!
# Errors of assembly text

A `Problem` is what is wrong with a line on its own; an `Error` is a problem with
the number of its line, or a label that does not fit the rest of the source. The
wording is here and nowhere else.
-/

namespace Intcode.Assembly

/-- What a line needs at some place. -/
inductive Expected where
  | token (token : Token)
  | statement
  | expression

/-- Why a line does not follow the grammar at some place. -/
inductive Misfit where
  /-- No token can be read here. -/
  | unreadable (text : List Char)
  /-- Something else stands here, or the line ends. -/
  | missing (expected : Expected) (found : Option Token)
  /-- The name of the relative base is defined as a label. -/
  | reservedLabel
  /-- The name of the relative base stands outside brackets. -/
  | baseOutsideBrackets
  /-- The relative base is not followed by an offset. -/
  | missingOffset
  /-- A lone minus sign is not followed by a number. -/
  | missingDifference
  /-- The number after a lone minus sign has no negation. -/
  | offsetOutOfRange (value : Word)

/-- What is wrong with a line. -/
inductive Problem where
  | misfit (column : Nat) (misfit : Misfit)
  | unknownInstruction (mnemonic : String)
  | operandCount (mnemonic : String) (expected found : Nat)
  | immediateDestination (mnemonic : String)
  | invalidDirective (name : String)

/-- What is wrong with a source. -/
inductive Error where
  | onLine (line : Nat) (problem : Problem)
  | undefinedLabel (name : String)
  | duplicateLabel (name : String)

deriving instance DecidableEq for Expected, Misfit, Problem, Error

/-! ## Wording -/

/-- The name of what a line needs. -/
def Expected.describe : Expected → String
  | token t => t.describe
  | statement => "instruction or directive"
  | expression => "number or label"

/-- The text of the reason. -/
def Misfit.message : Misfit → String
  | unreadable text => "Unexpected input " ++ Text.quote text
  | missing expected found =>
    "Expected " ++ expected.describe ++ ", found "
      ++ (found.map Token.describe).getD "end of line"
  | reservedLabel => "rb is reserved and cannot be a label"
  | baseOutsideBrackets => "rb is only valid inside brackets"
  | missingOffset => "Expected '+', '-' or ']' after rb"
  | missingDifference => "Expected number after '-'"
  | offsetOutOfRange value => "Offset out of range: -" ++ value.toText

/-- The text of a problem on the line with the given number. -/
def Problem.message (line : Nat) : Problem → String
  | misfit column m =>
    "Syntax error at line " ++ Text.Decimal.ofNat line ++ ", column "
      ++ Text.Decimal.ofNat column ++ ": " ++ m.message
  | unknownInstruction mnemonic =>
    "Unknown instruction at line " ++ Text.Decimal.ofNat line ++ ": " ++ mnemonic
  | operandCount mnemonic expected found =>
    "Wrong operand count at line " ++ Text.Decimal.ofNat line ++ ": " ++ mnemonic ++ " takes "
      ++ Text.Decimal.ofNat expected ++ ", found " ++ Text.Decimal.ofNat found
  | immediateDestination mnemonic =>
    "Immediate destination at line " ++ Text.Decimal.ofNat line ++ ": " ++ mnemonic
  | invalidDirective name => "Invalid directive: " ++ name

/-- The text of an error. -/
def Error.message : Error → String
  | onLine line problem => problem.message line
  | undefinedLabel name => "Undefined label: " ++ name
  | duplicateLabel name => "Duplicate label: " ++ name

end Intcode.Assembly
