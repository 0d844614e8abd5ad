import Intcode.Proofs.OperationTable
import Intcode.Proofs.Runs

/-!
# What a fault says about the machine

A run that ends with a fault reports it after the fact, and the program may have
overwritten itself many times by then. The report can be trusted all the same:
an instruction that fails has changed no memory, so what is said about it can
still be read off the machine it leaves (`run_fault`).

`Failure` lists the ways in which an instruction can fail, each with the number
of parameter words that were fetched by then. Parameters are resolved one after
the other, so a parameter that cannot be resolved is the last one fetched;
whatever goes wrong later finds all of them fetched (`failure_of_execute`).
-/

namespace Intcode

/-! ## The ways to fail -/

/-- A parameter cannot be resolved: the relative base takes it out of the range of words,
or it names no cell. -/
def Mode.Unresolved (mode : Mode) (address : Nat) (fault : Fault) : Prop :=
  (mode = .relative ∧ fault = .overflow address)
    ∨ (mode ≠ .immediate ∧ ∃ w, fault = .invalidAddress w ∧ w.toInt < 0)

/-- The instruction at an address can fail with this fault while so many parameter words
are fetched. -/
inductive Instruction.FetchFailure (i : Instruction) (address : Nat) : Fault → Nat → Prop
  | parameter {place : Nat} {mode : Mode} {fault : Fault} (hmode : i.modes[place]? = some mode)
      (hfault : mode.Unresolved address fault) : FetchFailure i address fault (place + 1)
  | arithmetic (hop : i.opcode = .add ∨ i.opcode = .multiply ∨ i.opcode = .adjustBase) :
      FetchFailure i address (.overflow address) i.opcode.parameterCount

/-- The instruction at an address can fail with this fault after so many parameter words. -/
inductive Instruction.Failure (i : Instruction) (address : Nat) : Fault → Nat → Prop
  | fetch {fault : Fault} {fetched : Nat} (h : i.FetchFailure address fault fetched) :
      Failure i address fault fetched
  | negative {w : Word} (hw : w.toInt < 0) :
      Failure i address (.invalidAddress w) i.opcode.parameterCount
  | exhausted (hop : i.opcode = .input) :
      Failure i address (.inputExhausted address) i.opcode.parameterCount

namespace Instruction

variable {i : Instruction} {address fetched : Nat} {fault : Fault}

theorem FetchFailure.fetched_le (h : i.FetchFailure address fault fetched) :
    0 < fetched ∧ fetched ≤ i.opcode.parameterCount := by
  cases h with
  | parameter hmode _ =>
      refine ⟨Nat.zero_lt_succ _, ?_⟩
      rw [← i.length_modes]
      exact (List.getElem?_eq_some_iff.mp hmode).1
  | arithmetic hop =>
      refine ⟨?_, Nat.le_refl _⟩
      rcases hop with hop | hop | hop <;> rw [hop] <;> decide

/-- Fetching fails by an overflow, for which the opcode or a mode is to blame, or by a
negative address. -/
theorem FetchFailure.cases_fault (h : i.FetchFailure address fault fetched) :
    (fault = .overflow address
        ∧ (i.opcode = .add ∨ i.opcode = .multiply ∨ i.opcode = .adjustBase
          ∨ .relative ∈ i.modes))
      ∨ ∃ w, fault = .invalidAddress w ∧ w.toInt < 0 := by
  cases h with
  | parameter hmode hfault =>
      rcases hfault with ⟨rfl, rfl⟩ | ⟨-, hnegative⟩
      · exact .inl ⟨rfl, .inr (.inr (.inr (List.mem_of_getElem? hmode)))⟩
      · exact .inr hnegative
  | arithmetic hop =>
      refine .inl ⟨rfl, ?_⟩
      rcases hop with hop | hop | hop <;> simp [hop]

end Instruction

/-! ## Fetching -/

/-- The opcodes of the instructions that can have an effect. -/
def Effect.opcodes : Effect → List Opcode
  | store _ _ => [.add, .multiply, .lessThan, .equals]
  | input _ => [.input]
  | output _ => [.output]
  | jump _ | proceed => [.jumpIfTrue, .jumpIfFalse]
  | rebase _ => [.adjustBase]
  | halt => [.halt]

theorem Fetch.bind_eq_error_iff {α β : Type} {x : Fetch α} {g : α → Fetch β}
    {cursor cursor' : Nat} {fault : Fault} :
    (x >>= g) cursor = .error fault cursor' ↔
      x cursor = .error fault cursor'
        ∨ ∃ a mid, x cursor = .ok a mid ∧ g a mid = .error fault cursor' := by
  show EStateM.bind x g cursor = _ ↔ _
  rw [EStateM.bind]
  cases hx : x cursor with
  | ok a mid =>
      constructor
      · intro h
        exact .inr ⟨a, mid, rfl, h⟩
      · rintro (⟨⟨⟩⟩ | ⟨a, mid, ⟨⟩, h⟩)
        exact h
  | error e mid => simp

namespace Frame

variable {f : Frame} {cursor cursor' : Nat} {fault : Fault} {i : Instruction}

theorem checked_eq_error {value : Option Word}
    (h : f.checked value cursor = .error fault cursor') :
    value = none ∧ fault = .overflow f.address ∧ cursor' = cursor := by
  cases value with
  | some w => cases h
  | none =>
      cases h
      exact ⟨rfl, rfl, rfl⟩

theorem read_eq_error {w : Word} (h : f.read w cursor = .error fault cursor') :
    fault = .invalidAddress w ∧ w.toInt < 0 ∧ cursor' = cursor := by
  rw [read, Memory.read] at h
  cases haddress : w.toAddress? with
  | some a =>
      rw [haddress] at h
      cases h
  | none =>
      rw [haddress] at h
      cases h
      exact ⟨rfl, Word.toAddress?_eq_none_iff.mp haddress, rfl⟩

theorem target_eq_error {mode : Mode} (h : f.target mode cursor = .error fault cursor') :
    mode.Unresolved f.address fault ∧ cursor' = cursor + 1 := by
  rw [target, next_bind] at h
  cases mode with
  | positional | immediate => cases h
  | relative =>
      obtain ⟨-, rfl, rfl⟩ := checked_eq_error h
      exact ⟨.inl ⟨rfl, rfl⟩, rfl⟩

theorem operand_eq_error {mode : Mode} (h : f.operand mode cursor = .error fault cursor') :
    mode.Unresolved f.address fault ∧ cursor' = cursor + 1 := by
  rw [operand, next_bind] at h
  cases mode with
  | immediate => cases h
  | positional =>
      obtain ⟨rfl, hneg, rfl⟩ := read_eq_error h
      exact ⟨.inr ⟨by decide, _, rfl, hneg⟩, rfl⟩
  | relative =>
      rcases Fetch.bind_eq_error_iff.mp h with h | ⟨w, mid, hw, h⟩
      · obtain ⟨-, rfl, rfl⟩ := checked_eq_error h
        exact ⟨.inl ⟨rfl, rfl⟩, rfl⟩
      · obtain ⟨-, rfl⟩ := checked_eq_ok_iff.mp hw
        obtain ⟨rfl, hneg, rfl⟩ := read_eq_error h
        exact ⟨.inr ⟨by decide, _, rfl, hneg⟩, rfl⟩

theorem combine_eq_error {op : Word → Word → Option Word} (hcount : i.opcode.parameterCount = 3)
    (hop : (∃ a b, op a b = none) → i.opcode = .add ∨ i.opcode = .multiply)
    (h : f.combine i op cursor = .error fault cursor') :
    ∃ fetched, i.FetchFailure f.address fault fetched ∧ cursor' = cursor + fetched := by
  have hmodes : i.modes = [i.first, i.second, i.third] := by rw [Instruction.modes, hcount]; rfl
  simp only [combine, Fetch.bind_eq_error_iff] at h
  rcases h with h | ⟨a, _, ha, h | ⟨b, _, hb, h | ⟨target, _, ht, h | ⟨value, _, hv, h⟩⟩⟩⟩
  · obtain ⟨hfault, rfl⟩ := operand_eq_error h
    exact ⟨1, .parameter (by rw [hmodes]; rfl) hfault, rfl⟩
  · obtain ⟨-, rfl⟩ := operand_eq_ok_iff.mp ha
    obtain ⟨hfault, rfl⟩ := operand_eq_error h
    exact ⟨2, .parameter (by rw [hmodes]; rfl) hfault, rfl⟩
  · obtain ⟨-, rfl⟩ := operand_eq_ok_iff.mp ha
    obtain ⟨-, rfl⟩ := operand_eq_ok_iff.mp hb
    obtain ⟨hfault, rfl⟩ := target_eq_error h
    exact ⟨3, .parameter (by rw [hmodes]; rfl) hfault, rfl⟩
  · obtain ⟨-, rfl⟩ := operand_eq_ok_iff.mp ha
    obtain ⟨-, rfl⟩ := operand_eq_ok_iff.mp hb
    obtain ⟨-, rfl⟩ := target_eq_ok_iff.mp ht
    obtain ⟨hnone, rfl, rfl⟩ := checked_eq_error h
    have harith := hop ⟨a, b, hnone⟩
    exact ⟨_, .arithmetic (harith.imp_right Or.inl), by rw [hcount]⟩
  · cases h

theorem branch_eq_error {condition : Word → Bool} (hcount : i.opcode.parameterCount = 2)
    (h : f.branch i condition cursor = .error fault cursor') :
    ∃ fetched, i.FetchFailure f.address fault fetched ∧ cursor' = cursor + fetched := by
  have hmodes : i.modes = [i.first, i.second] := by rw [Instruction.modes, hcount]; rfl
  simp only [branch, Fetch.bind_eq_error_iff] at h
  rcases h with h | ⟨a, _, ha, h | ⟨target, _, ht, h⟩⟩
  · obtain ⟨hfault, rfl⟩ := operand_eq_error h
    exact ⟨1, .parameter (by rw [hmodes]; rfl) hfault, rfl⟩
  · obtain ⟨-, rfl⟩ := operand_eq_ok_iff.mp ha
    obtain ⟨hfault, rfl⟩ := operand_eq_error h
    exact ⟨2, .parameter (by rw [hmodes]; rfl) hfault, rfl⟩
  · cases h

/-- What goes wrong while parameters are fetched, one case for each shape of effect. -/
theorem effect_eq_error (h : f.effect i cursor = .error fault cursor') :
    ∃ fetched, i.FetchFailure f.address fault fetched ∧ cursor' = cursor + fetched := by
  have hfirst : 0 < i.opcode.parameterCount → i.modes[0]? = some i.first := by
    intro hpos
    rw [Instruction.modes, List.getElem?_take_of_lt hpos]
    rfl
  cases hop : i.opcode with
  | add | multiply =>
      rw [effect, hop] at h
      exact combine_eq_error (by rw [hop]; rfl) (fun _ => by simp [hop]) h
  | lessThan | equals =>
      rw [effect, hop] at h
      exact combine_eq_error (by rw [hop]; rfl) (by simp) h
  | jumpIfTrue | jumpIfFalse =>
      rw [effect, hop] at h
      exact branch_eq_error (by rw [hop]; rfl) h
  | input =>
      simp only [effect, hop, Fetch.bind_eq_error_iff] at h
      rcases h with h | ⟨target, _, ht, h⟩
      · obtain ⟨hfault, rfl⟩ := target_eq_error h
        exact ⟨1, .parameter (hfirst (by rw [hop]; decide)) hfault, rfl⟩
      · cases h
  | output =>
      simp only [effect, hop, Fetch.bind_eq_error_iff] at h
      rcases h with h | ⟨a, _, ha, h⟩
      · obtain ⟨hfault, rfl⟩ := operand_eq_error h
        exact ⟨1, .parameter (hfirst (by rw [hop]; decide)) hfault, rfl⟩
      · cases h
  | adjustBase =>
      simp only [effect, hop, Fetch.bind_eq_error_iff] at h
      rcases h with h | ⟨a, _, ha, h | ⟨base, _, hbase, h⟩⟩
      · obtain ⟨hfault, rfl⟩ := operand_eq_error h
        exact ⟨1, .parameter (hfirst (by rw [hop]; decide)) hfault, rfl⟩
      · obtain ⟨-, rfl⟩ := operand_eq_ok_iff.mp ha
        obtain ⟨-, rfl, rfl⟩ := checked_eq_error h
        exact ⟨_, .arithmetic (.inr (.inr hop)), by rw [hop]; rfl⟩
      · cases h
  | halt =>
      rw [effect, hop] at h
      cases h

/-- Once the effect is known all parameters were fetched, and the effect is one that the
opcode has. -/
theorem effect_eq_ok {e : Effect} (h : f.effect i cursor = .ok e cursor') :
    cursor' = cursor + i.opcode.parameterCount ∧ i.opcode ∈ e.opcodes := by
  cases hop : i.opcode with
  | add | multiply =>
      rw [effect, hop] at h
      obtain ⟨_, _, _, _, -, -, -, -, rfl, rfl⟩ := combine_eq_ok_iff.mp h
      exact ⟨rfl, by simp [Effect.opcodes]⟩
  | lessThan | equals =>
      simp only [effect, hop, Machine.some_ofBool] at h
      obtain ⟨_, _, _, _, -, -, -, -, rfl, rfl⟩ := combine_eq_ok_iff.mp h
      exact ⟨rfl, by simp [Effect.opcodes]⟩
  | jumpIfTrue | jumpIfFalse =>
      rw [effect, hop] at h
      obtain ⟨_, _, -, -, rfl, rfl⟩ := branch_eq_ok_iff.mp h
      refine ⟨rfl, ?_⟩
      split <;> simp [Effect.opcodes]
  | input =>
      simp only [effect, hop, Fetch.bind_eq_ok_iff, target_eq_ok_iff, Fetch.pure_eq_ok_iff] at h
      obtain ⟨_, _, ⟨-, rfl⟩, rfl, rfl⟩ := h
      exact ⟨rfl, by simp [Effect.opcodes]⟩
  | output =>
      simp only [effect, hop, Fetch.bind_eq_ok_iff, operand_eq_ok_iff, Fetch.pure_eq_ok_iff] at h
      obtain ⟨_, _, ⟨-, rfl⟩, rfl, rfl⟩ := h
      exact ⟨rfl, by simp [Effect.opcodes]⟩
  | adjustBase =>
      simp only [effect, hop, Fetch.bind_eq_ok_iff, operand_eq_ok_iff, Word.add?,
        checked_eq_ok_iff, Fetch.pure_eq_ok_iff] at h
      obtain ⟨_, _, ⟨-, rfl⟩, _, _, ⟨-, rfl⟩, rfl, rfl⟩ := h
      exact ⟨rfl, by simp [Effect.opcodes]⟩
  | halt =>
      rw [effect, hop] at h
      cases h
      exact ⟨rfl, by simp [Effect.opcodes]⟩

end Frame

/-! ## Performing -/

namespace Machine

variable {δ : Type} {m m' : Machine δ} {i : Instruction} {address : Nat} {fault : Fault}

theorem store_eq_fault {target value : Word} (h : m.store target value = ⟨m', some fault⟩) :
    m' = m ∧ fault = .invalidAddress target ∧ target.toInt < 0 := by
  rw [store, Memory.write] at h
  cases haddress : target.toAddress? with
  | some a =>
      rw [haddress] at h
      cases h
  | none =>
      rw [haddress] at h
      cases h
      exact ⟨rfl, rfl, Word.toAddress?_eq_none_iff.mp haddress⟩

variable [Source δ] [Sink δ]

/-- The failures of the second stage. The device may have been asked for a value in vain,
or for one that cannot be stored. -/
theorem perform_eq_fault {e : Effect} (h : m.perform address e = ⟨m', some fault⟩) :
    (m' = m ∧ ∃ w, fault = .invalidAddress w ∧ w.toInt < 0)
      ∨ ∃ target, e = .input target ∧ m' = m.request.2
        ∧ ((∃ w, fault = .invalidAddress w ∧ w.toInt < 0)
          ∨ (fault = .inputExhausted address ∧ m.request.1 = none)) := by
  cases e with
  | store target value =>
      obtain ⟨rfl, hfault, hneg⟩ := store_eq_fault h
      exact .inl ⟨rfl, target, hfault, hneg⟩
  | input target =>
      refine .inr ⟨target, rfl, ?_⟩
      rw [perform] at h
      split at h
      next value m₁ heq =>
        obtain ⟨rfl, hfault, hneg⟩ := store_eq_fault h
        rw [heq]
        exact ⟨rfl, .inl ⟨target, hfault, hneg⟩⟩
      next m₁ heq =>
        cases h
        rw [heq]
        exact ⟨rfl, .inr ⟨rfl, rfl⟩⟩
  | jump target =>
      rw [perform] at h
      split at h
      next => cases h
      next haddress =>
        cases h
        exact .inl ⟨rfl, target, rfl, Word.toAddress?_eq_none_iff.mp haddress⟩
  | output | proceed | rebase | halt => cases h

/-- An instruction that fails has changed no memory and no register but the cursor, which
is behind the parameter words that were fetched. -/
theorem failure_of_execute (h : m.execute i address = ⟨m', some fault⟩) :
    m'.memory = m.memory
      ∧ ∃ fetched, i.Failure address fault fetched
        ∧ m'.registers = { m.registers with cursor := m.registers.cursor + fetched } := by
  rw [execute] at h
  split at h
  next e cursor heffect =>
    obtain ⟨rfl, hop⟩ := Frame.effect_eq_ok heffect
    rcases perform_eq_fault h with ⟨rfl, w, rfl, hneg⟩
      | ⟨target, rfl, rfl, ⟨w, rfl, hneg⟩ | ⟨rfl, -⟩⟩
    · exact ⟨rfl, _, .negative hneg, rfl⟩
    · exact ⟨rfl, _, .negative hneg, rfl⟩
    · exact ⟨rfl, _, .exhausted (List.mem_singleton.mp hop), rfl⟩
  next fault' cursor heffect =>
    cases h
    obtain ⟨fetched, hfailure, rfl⟩ := Frame.effect_eq_error heffect
    exact ⟨rfl, fetched, .fetch hfailure, rfl⟩

/-! ## Runs -/

/-- A step that fails leaves memory alone, and its cursor and its fault are explained by the
word at the old cursor. -/
theorem failure_of_step {trace : Bool} (h : m.step trace = ⟨m', some fault⟩) :
    m'.memory = m.memory
      ∧ ((∃ word, m.memory.get m.registers.cursor = word ∧ Instruction.ofWord? word = none
          ∧ fault = .invalidOperation word m.registers.cursor
          ∧ m'.registers.cursor = m.registers.cursor + 1)
        ∨ ∃ i fetched, Instruction.ofWord? (m.memory.get m.registers.cursor) = some i
          ∧ i.Failure m.registers.cursor fault fetched
          ∧ m'.registers.cursor = m.registers.cursor + 1 + fetched) := by
  rcases step_cases trace m with ⟨word, hword, hnone, hstep⟩
    | ⟨i, hi, ⟨_, -, hstep⟩ | ⟨m₁, fault₁, hexecute, hstep⟩⟩
  · rw [hstep] at h
    cases h
    exact ⟨rfl, .inl ⟨word, hword, hnone, rfl, rfl⟩⟩
  · rw [hstep] at h
    cases h
  · rw [hstep] at h
    cases h
    obtain ⟨hmemory, fetched, hfailure, hregisters⟩ := failure_of_execute hexecute
    have hfetched : (m.fetched trace i).memory = m.memory
        ∧ (m.fetched trace i).registers.cursor = m.registers.cursor + 1 := by
      cases trace <;> exact ⟨rfl, rfl⟩
    refine ⟨hmemory.trans hfetched.1, .inr ⟨i, fetched, hi, hfailure, ?_⟩⟩
    rw [hregisters, hfetched.2]

/-- A run that ends with a fault has completed as many instructions as it counts, and the
next one gives the fault. -/
theorem step_of_run_fault {config : Config} {turns : Nat}
    (h : m.run config turns = some (m', .error fault)) :
    ∃ mid last, m.start.after config m'.registers.cycles = some mid
      ∧ mid.registers.cursor < mid.memory.extent
      ∧ mid.step config.trace = ⟨last, some fault⟩
      ∧ m' = last.finish (.error fault) := by
  obtain ⟨k, mid, last, ending, -, hafter, hturn, hrun⟩ := run_eq_some_iff.mp h
  obtain ⟨rfl, hresult⟩ := Prod.mk.inj hrun
  obtain rfl := result_eq_error_iff.mp hresult.symm
  have hcycles : (last.finish (.error fault)).registers.cycles = k := by
    rw [finish_cycles, cycles_of_ending hturn, cycles_of_after_start hafter]
  rcases turn_cases hturn with ⟨⟨⟩, -⟩ | ⟨-, ⟨⟩, -⟩ | ⟨-, -, ⟨⟩, -⟩ | ⟨-, -, hextent, _, ⟨⟩, hstep⟩
  exact ⟨mid, last, by rw [hcycles, hafter], hextent, hstep, rfl⟩

/-- What the machine that a fault leaves shows of it. -/
def Justifies (m : Machine δ) : Fault → Prop
  | .invalidOperation word address =>
    m.memory.get address = word ∧ Instruction.ofWord? word = none
      ∧ address < m.memory.extent ∧ m.registers.cursor = address + 1
  | .inputExhausted address =>
    (∃ i, Instruction.ofWord? (m.memory.get address) = some i ∧ i.opcode = .input)
      ∧ m.registers.cursor = address + 2
  | .overflow address =>
    ∃ i, Instruction.ofWord? (m.memory.get address) = some i
      ∧ (i.opcode = .add ∨ i.opcode = .multiply ∨ i.opcode = .adjustBase
        ∨ .relative ∈ i.modes)
      ∧ address + 2 ≤ m.registers.cursor
      ∧ m.registers.cursor ≤ address + 1 + i.opcode.parameterCount
  | .invalidAddress word => word.toInt < 0

theorem justifies_of_step {trace : Bool} (hextent : m.registers.cursor < m.memory.extent)
    (h : m.step trace = ⟨m', some fault⟩) : m'.Justifies fault := by
  obtain ⟨hmemory, hcases⟩ := failure_of_step h
  rcases hcases with ⟨word, hword, hnone, rfl, hcursor⟩ | ⟨i, fetched, hi, hfailure, hcursor⟩
  · exact ⟨by rw [hmemory, hword], hnone, by rw [hmemory]; exact hextent, hcursor⟩
  · rw [← hmemory] at hi
    cases hfailure with
    | fetch hfetch =>
        obtain ⟨hpos, hle⟩ := hfetch.fetched_le
        rcases hfetch.cases_fault with ⟨rfl, hop⟩ | ⟨w, rfl, hneg⟩
        · exact ⟨i, hi, hop, by omega, by omega⟩
        · exact hneg
    | negative hneg => exact hneg
    | exhausted hop =>
        refine ⟨⟨i, hi, hop⟩, ?_⟩
        rw [hcursor, hop]
        rfl

/-- **Faults.** Whatever was loaded, run and plugged in before: a run that ends with a fault
leaves a faulted machine that shows what the fault says, and the count of the instructions
that were completed before the one that failed. -/
theorem run_fault (config : Config) (turns : Nat) (m m' : Machine δ) (fault : Fault)
    (h : m.run config turns = some (m', .error fault)) :
    m'.registers.status = .faulted
      ∧ (∃ mid, m.start.after config m'.registers.cycles = some mid
        ∧ (mid.step config.trace).fault? = some fault)
      ∧ m'.Justifies fault := by
  obtain ⟨mid, last, hafter, hextent, hstep, rfl⟩ := step_of_run_fault h
  refine ⟨rfl, ⟨mid, hafter, by rw [hstep]⟩, ?_⟩
  have hjustifies := justifies_of_step hextent hstep
  cases fault <;> exact hjustifies

/-- The second instruction writes the third, whose first address is beyond the last word. -/
def overwritten : Machine (Script × Collector) :=
  ofProgram [109, 1, 1101, 1201, 0, 6, 0, 0x7fffffffffffffff, 0, 0] (⟨[]⟩, .plain)

/-- The word that is blamed was not there when the run began. -/
theorem run_fault_overwritten :
    overwritten.memory.get 6 = 0
      ∧ ∃ m', overwritten.run .plain 3 = some (m', .error (.overflow 6))
        ∧ m'.registers.status = .faulted ∧ m'.registers.cycles = 2
        ∧ m'.registers.cursor = 8 ∧ m'.Justifies (.overflow 6) := by
  obtain ⟨m', hrun, hcycles, hcursor⟩ : ∃ m',
      overwritten.run .plain 3 = some (m', .error (.overflow 6))
        ∧ m'.registers.cycles = 2 ∧ m'.registers.cursor = 8 := ⟨_, rfl, rfl, rfl⟩
  obtain ⟨hstatus, -, hjustifies⟩ := run_fault .plain 3 overwritten m' (.overflow 6) hrun
  exact ⟨rfl, m', hrun, hstatus, hcycles, hcursor, hjustifies⟩

end Machine

end Intcode
