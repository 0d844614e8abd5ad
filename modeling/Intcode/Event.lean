import Intcode.Device.Literal
import Intcode.Fault
import Intcode.Instruction.Text
import Intcode.Text.Utf8

/-!
# Events

What a machine and its devices report while they work. An event has a level, a
message, and fields that give its particulars as text.
-/

namespace Intcode

/-- Why a run ended without a fault. -/
inductive HaltReason where
  /-- The halt instruction was executed. -/
  | halt
  /-- The cursor left the extent of memory. -/
  | endOfProgram
  /-- As many instructions were executed as the run is allowed. -/
  | cycleLimit
deriving DecidableEq

/-- The name of a reason in reports. -/
def HaltReason.name : HaltReason → String
  | halt => "Halt"
  | endOfProgram => "EndOfProgram"
  | cycleLimit => "CycleLimit"

/-- How much an event matters. -/
inductive Level where
  | trace
  | debug
  | warn
deriving DecidableEq

/-- The name of a level in reports. -/
def Level.name : Level → String
  | trace => "TRACE"
  | debug => "DEBUG"
  | warn => "WARN"

/-- Something that happened during a run. -/
inductive Event where
  /-- A run of a program with this many words begins. -/
  | starting (programLength : Nat)
  /-- An instruction with these parameter words is about to be executed. -/
  | executing (instruction : Instruction) (operands : List Word) (address cycle : Nat)
  /-- The halt instruction at this address was executed. -/
  | halting (address : Nat)
  /-- The run ended. -/
  | halted (cycles : Nat) (reason : HaltReason)
  /-- The run ended with a fault. -/
  | faulted (cursor : Nat) (fault : Fault)
  /-- The prompt could not be written. -/
  | promptFailed (error : String)
  /-- There is no more input. -/
  | inputClosed
  /-- A line of input is no text. -/
  | inputFailed
  /-- A line of input is no literal, and is asked for again. -/
  | reprompting (error : MalformedLiteral)
  /-- An output value could not be written. -/
  | outputFailed (error : String) (value : Word)
deriving DecidableEq

namespace Event

/-- The level of an event. -/
def level : Event → Level
  | executing .. => .trace
  | starting _ | halting _ | halted .. | faulted .. | inputClosed | reprompting _ => .debug
  | promptFailed _ | inputFailed | outputFailed .. => .warn

/-- The message of an event. -/
def message : Event → String
  | starting _ => "starting run"
  | executing i operands _ _ => i.text operands
  | halting address => "HALT at " ++ Text.Decimal.ofNat address
  | halted .. => "halted"
  | faulted .. => "faulted"
  | promptFailed _ => "failed to write input prompt"
  | inputClosed => "input stream closed"
  | inputFailed => "failed to read input"
  | reprompting _ => "re-prompting"
  | outputFailed .. => "failed to write output"

/-- The particulars of an event, by name and in the order in which they are shown. -/
def fields : Event → List (String × String)
  | starting programLength => [("program_len", Text.Decimal.ofNat programLength)]
  | executing _ _ address cycle =>
    [("cycle", Text.Decimal.ofNat cycle), ("address", Text.Decimal.ofNat address)]
  | halting _ => []
  | halted cycles reason =>
    [("halt_reason", reason.name), ("cycles", Text.Decimal.ofNat cycles)]
  | faulted cursor fault =>
    [("error", fault.message), ("cursor", Text.Decimal.ofNat cursor)]
  | promptFailed error => [("error", error)]
  | inputClosed => []
  | inputFailed => [("error", Text.invalidUtf8)]
  | reprompting error => [("error", error.message)]
  | outputFailed error value => [("error", error), ("value", value.toText)]

end Event

end Intcode
