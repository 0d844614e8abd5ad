import Intcode.Instruction.Encoding
import Intcode.Machine

/-!
# What an instruction does

An instruction is executed in two stages. First its parameters are fetched and
resolved one after the other, which moves the cursor but changes nothing else,
and gives the *effect* of the instruction. Then the effect is performed. Each
stage can fault: while a parameter is resolved the cursor stays behind that
parameter, and a fault of the second stage finds it behind the last one.
-/

namespace Intcode

/-- What is left to do for an instruction when its parameters are known. -/
inductive Effect where
  /-- Store a value at the address a word names. -/
  | store (target value : Word)
  /-- Ask for a value and store it at the address a word names. -/
  | input (target : Word)
  /-- Give out a value. -/
  | output (value : Word)
  /-- Go on at the address a word names. -/
  | jump (target : Word)
  /-- Go on after the parameters. -/
  | proceed
  /-- Change the relative base. -/
  | rebase (base : Word)
  /-- Stop. -/
  | halt
deriving DecidableEq

/-! ## Fetching parameters -/

/-- What an instruction sees of the machine while it fetches its parameters. -/
structure Frame where
  memory : Memory
  base : Word
  /-- The address of the instruction. -/
  address : Nat

/-- A computation that fetches words at a cursor, moves it on, and may fault. -/
abbrev Fetch := EStateM Fault Nat

namespace Frame

/-- Fetches the word at the cursor. -/
def next (f : Frame) : Fetch Word :=
  modifyGet fun cursor => (f.memory.get cursor, cursor + 1)

/-- A result that has to be a word. -/
def checked (f : Frame) : Option Word → Fetch Word
  | some value => pure value
  | none => throw (.overflow f.address)

/-- The word in the cell that a word names. -/
def read (f : Frame) (address : Word) : Fetch Word :=
  match f.memory.read address with
  | .ok value => pure value
  | .error fault => throw fault

/-- Fetches a parameter that stands for a value. -/
def operand (f : Frame) (mode : Mode) : Fetch Word := do
  let raw ← f.next
  match mode with
  | .positional => f.read raw
  | .immediate => pure raw
  | .relative => f.read (← f.checked (raw.add? f.base))

/-- Fetches a parameter that names the cell to write. Immediate mode is no different from
positional mode here. -/
def target (f : Frame) (mode : Mode) : Fetch Word := do
  let raw ← f.next
  match mode with
  | .positional | .immediate => pure raw
  | .relative => f.checked (raw.add? f.base)

/-- Combines two operands and stores the result. -/
def combine (f : Frame) (i : Instruction) (op : Word → Word → Option Word) : Fetch Effect := do
  let a ← f.operand i.first
  let b ← f.operand i.second
  let target ← f.target i.third
  let value ← f.checked (op a b)
  return .store target value

/-- Jumps to the second operand if the first satisfies a condition. -/
def branch (f : Frame) (i : Instruction) (condition : Word → Bool) : Fetch Effect := do
  let a ← f.operand i.first
  let target ← f.operand i.second
  return if condition a then .jump target else .proceed

/-- The effect of an instruction. -/
def effect (f : Frame) (i : Instruction) : Fetch Effect :=
  match i.opcode with
  | .add => f.combine i Word.add?
  | .multiply => f.combine i Word.mul?
  | .lessThan => f.combine i fun a b => some (.ofBool (a.toInt < b.toInt))
  | .equals => f.combine i fun a b => some (.ofBool (a.toInt = b.toInt))
  | .input => return .input (← f.target i.first)
  | .output => return .output (← f.operand i.first)
  | .jumpIfTrue => f.branch i (·.toInt ≠ 0)
  | .jumpIfFalse => f.branch i (·.toInt = 0)
  | .adjustBase => do
    let a ← f.operand i.first
    return .rebase (← f.checked (f.base.add? a))
  | .halt => return .halt

end Frame

/-! ## Performing effects -/

/-- A machine after an instruction, and the fault if there was one. -/
structure Outcome (δ : Type) where
  machine : Machine δ
  fault? : Option Fault

namespace Machine

variable {δ : Type}

/-- What an instruction at an address sees of the machine. -/
def frame (m : Machine δ) (address : Nat) : Frame :=
  ⟨m.memory, m.registers.base, address⟩

/-- Stores a value at the address a word names. -/
def store (m : Machine δ) (target value : Word) : Outcome δ :=
  match m.memory.write target value with
  | .ok memory => ⟨{ m with memory }, none⟩
  | .error fault => ⟨m, some fault⟩

/-- Performs the effect of the instruction at an address. -/
def perform [Source δ] [Sink δ] (m : Machine δ) (address : Nat) : Effect → Outcome δ
  | .store target value => m.store target value
  | .input target =>
    match m.request with
    | (some value, m) => m.store target value
    | (none, m) => ⟨m, some (.inputExhausted address)⟩
  | .output value => ⟨m.emit value, none⟩
  | .jump target =>
    match target.toAddress? with
    | some cursor => ⟨m.moveTo cursor, none⟩
    | none => ⟨m, some (.invalidAddress target)⟩
  | .proceed => ⟨m, none⟩
  | .rebase base => ⟨m.rebase base, none⟩
  | .halt => ⟨(m.report [.halting address]).become (.halted .halt), none⟩

/-- Executes the instruction that stands at an address, with the cursor just behind its word. -/
def execute [Source δ] [Sink δ] (m : Machine δ) (i : Instruction) (address : Nat) : Outcome δ :=
  match (m.frame address).effect i m.registers.cursor with
  | .ok effect cursor => (m.moveTo cursor).perform address effect
  | .error fault cursor => ⟨m.moveTo cursor, some fault⟩

end Machine

end Intcode
