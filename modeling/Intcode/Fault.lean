import Intcode.Word.Text

/-!
# Faults

What stops a run that cannot go on.
-/

namespace Intcode

/-- Why an instruction cannot be executed. -/
inductive Fault where
  /-- The word at an address spells no instruction. -/
  | invalidOperation (word : Word) (address : Nat)
  /-- A negative word is used as an address. -/
  | invalidAddress (word : Word)
  /-- There is no value for the input instruction at an address. -/
  | inputExhausted (address : Nat)
  /-- A sum or product of the instruction at an address is no word. -/
  | overflow (address : Nat)
deriving DecidableEq

/-- The text of a fault. -/
def Fault.message : Fault → String
  | invalidOperation word address =>
    "Invalid operation " ++ word.toText ++ " at address " ++ Text.Decimal.ofNat address
  | invalidAddress word => "Invalid address: " ++ word.toText
  | inputExhausted address => "Input exhausted at address " ++ Text.Decimal.ofNat address
  | overflow address => "Arithmetic overflow at address " ++ Text.Decimal.ofNat address

end Intcode
