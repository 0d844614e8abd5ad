import Intcode.Device
import Intcode.Memory

/-!
# The machine

A machine has memory, a few registers, a device for input and output, and a log
of what it has reported. This module holds its parts and the small operations on
them; `Intcode.Machine.Effect` says what an instruction does, and
`Intcode.Machine.Run` how a program is run.
-/

namespace Intcode

/-- Whether a machine goes on. -/
inductive Status where
  | running
  | halted (reason : HaltReason)
  | faulted
deriving DecidableEq

/-- The registers of a machine. -/
structure Registers where
  /-- The address of the next word to fetch. -/
  cursor : Nat
  /-- The base of relative addresses. -/
  base : Word
  /-- How many instructions were executed. -/
  cycles : Nat
  status : Status
deriving DecidableEq

/-- The registers before the first instruction. -/
def Registers.initial : Registers :=
  ⟨0, 0, 0, .running⟩

/-- A machine with a device of type `δ`. -/
structure Machine (δ : Type) where
  memory : Memory
  registers : Registers
  device : δ
  /-- What was reported, in order. -/
  log : Array Event

namespace Machine

variable {δ : Type}

/-- A machine with empty memory. -/
def new (device : δ) : Machine δ :=
  ⟨.empty, .initial, device, #[]⟩

/-- Puts a program into memory in place of all that it held, and resets the registers. -/
def load (m : Machine δ) (words : List Word) : Machine δ :=
  { m with memory := .load words, registers := .initial }

/-- A machine with a program in memory. -/
def ofProgram (words : List Word) (device : δ) : Machine δ :=
  (new device).load words

/-- Adds events to the log. -/
def report (m : Machine δ) (events : List Event) : Machine δ :=
  { m with log := m.log ++ events }

/-- Moves the cursor. -/
def moveTo (m : Machine δ) (cursor : Nat) : Machine δ :=
  { m with registers := { m.registers with cursor } }

/-- Changes the relative base. -/
def rebase (m : Machine δ) (base : Word) : Machine δ :=
  { m with registers := { m.registers with base } }

/-- Changes the status. -/
def become (m : Machine δ) (status : Status) : Machine δ :=
  { m with registers := { m.registers with status } }

/-- Counts an instruction. -/
def countCycle (m : Machine δ) : Machine δ :=
  { m with registers := { m.registers with cycles := m.registers.cycles + 1 } }

/-- Asks the device for a value. -/
def request [Source δ] (m : Machine δ) : Option Word × Machine δ :=
  let reply := Source.request m.device
  (reply.value?, { m with device := reply.device }.report reply.events)

/-- Gives the device a value. -/
def emit [Sink δ] (m : Machine δ) (value : Word) : Machine δ :=
  let delivery := Sink.emit m.device value
  { m with device := delivery.device }.report delivery.events

end Machine

end Intcode
