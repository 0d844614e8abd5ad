import Intcode.Device.Script
import Intcode.Machine.Effect

/-!
# Running programs

A run executes one instruction after the other until the halt instruction, the
end of the extent of memory, the limit on the number of instructions, or a fault.
A run need not end, so `runFor` takes a bound on the number of turns and gives no
result when it is reached; a bound that suffices has no influence on the result
(`runFor_of_le`).
-/

namespace Intcode

/-- How a program is run. -/
structure Config where
  /-- Whether every instruction is reported before it is executed. -/
  trace : Bool
  /-- How many instructions may be executed. -/
  maxCycles : Option Nat
deriving DecidableEq

/-- A run without a limit and without reports on single instructions. -/
def Config.plain : Config :=
  ⟨false, none⟩

/-- How a run ended. -/
abbrev Ending := Except Fault HaltReason

/-- What is said of a run that ended without a fault. -/
structure Summary where
  /-- How many instructions were executed, the halt instruction included. -/
  cycles : Nat
  reason : HaltReason
deriving DecidableEq

/-- The result of a run. -/
abbrev RunResult := Except Fault Summary

namespace Machine

variable {δ : Type}

/-- The report on the instruction `i` at an address, before it is executed. -/
def traceEvent (m : Machine δ) (i : Instruction) (address : Nat) : Event :=
  .executing i (m.memory.slice (address + 1) i.opcode.parameterCount) address m.registers.cycles

/-- Fetches the instruction at the cursor and executes it. -/
def step [Source δ] [Sink δ] (trace : Bool) (m : Machine δ) : Outcome δ :=
  let address := m.registers.cursor
  let word := m.memory.get address
  let m := m.moveTo (address + 1)
  match Instruction.ofWord? word with
  | none => ⟨m, some (.invalidOperation word address)⟩
  | some i =>
    let m := if trace then m.report [m.traceEvent i address] else m
    let outcome := m.execute i address
    match outcome.fault? with
    | none => { outcome with machine := outcome.machine.countCycle }
    | some _ => outcome

/-- Executes the next instruction, unless the run is at its end. -/
def turn [Source δ] [Sink δ] (config : Config) (m : Machine δ) : Machine δ × Option Ending :=
  if m.registers.status ≠ .running then (m, some (.ok .halt))
  else if config.maxCycles.any (· ≤ m.registers.cycles) then (m, some (.ok .cycleLimit))
  else if m.memory.extent ≤ m.registers.cursor then (m, some (.ok .endOfProgram))
  else
    let outcome := m.step config.trace
    (outcome.machine, outcome.fault?.map .error)

/-- The machine at the start of a run: only memory and device are kept. -/
def start (m : Machine δ) : Machine δ :=
  { m with registers := .initial }.report [.starting m.memory.loadedLength]

/-- The machine after a run with the given ending. -/
def finish (m : Machine δ) : Ending → Machine δ
  | .ok reason => (m.become (.halted reason)).report [.halted m.registers.cycles reason]
  | .error fault => (m.become .faulted).report [.faulted m.registers.cursor fault]

/-- The result of a run with the given ending: the count is the machine's own. -/
def result (m : Machine δ) : Ending → RunResult
  | .ok reason => .ok ⟨m.registers.cycles, reason⟩
  | .error fault => .error fault

/-- Takes turns until the run ends, but no more than the given number. -/
def runFor [Source δ] [Sink δ] (config : Config) : Nat → Machine δ → Option (Machine δ × Ending)
  | 0, _ => none
  | turns + 1, m =>
    match m.turn config with
    | (m, some ending) => some (m.finish ending, ending)
    | (m, none) => runFor config turns m

/-- Runs the program in memory from its start, within the given number of turns. -/
def run [Source δ] [Sink δ] (config : Config) (turns : Nat) (m : Machine δ) :
    Option (Machine δ × RunResult) :=
  (runFor config turns m.start).map fun (m, ending) => (m, m.result ending)

/-- A run that ends within some number of turns ends in the same way within any greater one. -/
theorem runFor_of_le [Source δ] [Sink δ] {config : Config} {m : Machine δ} {n k : Nat}
    {result : Machine δ × Ending} (h : runFor config n m = some result) (hle : n ≤ k) :
    runFor config k m = some result := by
  induction n generalizing m k with
  | zero => cases h
  | succ n ih =>
    obtain ⟨k, rfl⟩ : ∃ j, k = j + 1 := ⟨k - 1, by omega⟩
    rw [runFor] at h ⊢
    split
    next hturn => rwa [hturn] at h
    next hturn =>
      rw [hturn] at h
      exact ih h (by omega)

theorem run_of_le [Source δ] [Sink δ] {config : Config} {m : Machine δ} {n k : Nat}
    {result : Machine δ × RunResult} (h : m.run config n = some result) (hle : n ≤ k) :
    m.run config k = some result := by
  obtain ⟨ended, hended, hresult⟩ := Option.map_eq_some_iff.mp h
  rw [run, runFor_of_le hended hle, ← hresult]
  rfl

end Machine

/-- The values a program gives out when its input is the given list. -/
def outputs (turns : Nat) (words inputs : List Word) : Option (Except Fault (List Word)) :=
  ((Machine.ofProgram words (Script.mk inputs, Collector.plain)).run .plain turns).map
    fun (m, result) => result.map fun _ => m.device.2.values.toList

end Intcode
