import Intcode.Proofs.Counters
import Intcode.Proofs.Truncation

/-!
# What an ending says about the machine

A run takes it that the halt instruction was executed when it finds a machine
that is not running any more. That is right: of all instructions only the halt
instruction changes the status, and it changes neither memory nor, once it was
fetched, the cursor (`status_of_step`). So the word in front of the cursor still
spells it when the run is over. The other two reasons are seen from the registers
and the extent (`run_halted`).
-/

namespace Intcode.Machine

variable {δ : Type}

/-- What the machine that a run leaves shows of the reason why it ended. -/
def Explains (config : Config) (m : Machine δ) : HaltReason → Prop
  | .halt =>
    1 ≤ m.registers.cursor
      ∧ ∃ word i, m.memory.cells[m.registers.cursor - 1]? = some word
        ∧ Instruction.ofWord? word = some i ∧ i.opcode = .halt
  | .endOfProgram =>
    m.memory.extent ≤ m.registers.cursor
      ∧ ∀ n, config.maxCycles = some n → m.registers.cycles < n
  | .cycleLimit => config.maxCycles = some m.registers.cycles

/-- A cell that spells an instruction is stored, since zero spells none. -/
theorem stored_of_ofWord? {memory : Memory} {a : Nat} {i : Instruction}
    (h : Instruction.ofWord? (memory.get a) = some i) :
    memory.cells[a]? = some (memory.get a) := by
  rw [Memory.get, Std.TreeMap.getD_eq_getD_getElem?] at h ⊢
  cases hcell : memory.cells[a]? with
  | some word => rfl
  | none =>
      rw [hcell] at h
      cases h

theorem back?_log_finish (m : Machine δ) (reason : HaltReason) :
    (m.finish (.ok reason)).log.back? = some (.halted m.registers.cycles reason) := by
  simp [finish, become, report]

variable [Source δ] [Sink δ] {config : Config} {m m' mid last : Machine δ}

/-- The run completes the instruction, after `k` others. -/
def Completes (config : Config) (m : Machine δ) (k : Nat) (i : Instruction) : Prop :=
  ∃ mid mid', m.start.after config k = some mid ∧ mid.turn config = (mid', none)
    ∧ Instruction.ofWord? (mid.memory.get mid.registers.cursor) = some i

/-! ## The halt instruction -/

theorem ofWord?_of_step {trace : Bool} (h : m.step trace = ⟨m', none⟩) :
    ∃ i, Instruction.ofWord? (m.memory.get m.registers.cursor) = some i := by
  rcases step_cases trace m with ⟨word, -, -, hstep⟩ | ⟨i, hi, -⟩
  · rw [hstep] at h
    cases h
  · exact ⟨i, hi⟩

/-- The halt instruction stops the machine, and no other one does. -/
theorem status_of_step {trace : Bool} {i : Instruction} (hrunning : m.registers.status = .running)
    (hi : Instruction.ofWord? (m.memory.get m.registers.cursor) = some i)
    (h : m.step trace = ⟨m', none⟩) :
    (i.opcode = .halt ∧ m'.registers.status = .halted .halt ∧ m'.memory = m.memory
        ∧ m'.registers.cursor = m.registers.cursor + 1)
      ∨ (i.opcode ≠ .halt ∧ m'.registers.status = .running) := by
  rcases step_cases trace m with ⟨_, rfl, hnone, -⟩
    | ⟨i', hi', ⟨m₁, hexecute, hstep⟩ | ⟨_, _, -, hstep⟩⟩
  · rw [hi] at hnone
    cases hnone
  · obtain rfl := Option.some.inj (hi.symm.trans hi')
    rw [hstep] at h
    cases h
    have hrow := (execute_eq_ok_iff (by rw [fetched_registers])).mp hexecute
    by_cases hop : i.opcode = .halt
    · simp only [Operation, hop] at hrow
      subst hrow
      exact .inl ⟨hop, rfl, fetched_memory trace m i, rfl⟩
    · refine .inr ⟨hop, ?_⟩
      rcases hrow.footprint.status with hstatus | ⟨hhalt, -⟩
      · show m₁.registers.status = .running
        rw [hstatus, fetched_registers, hrunning]
      · exact absurd hhalt hop
  · rw [hstep] at h
    cases h

/-! ## The last instruction -/

theorem exists_last {k : Nat} (h : m.after config (k + 1) = some mid) :
    ∃ prev, m.after config k = some prev ∧ prev.turn config = (mid, none) := by
  induction k generalizing m with
  | zero =>
      rw [after] at h
      split at h
      next m₁ hturn =>
        obtain rfl := Option.some.inj h
        exact ⟨m, rfl, hturn⟩
      next => cases h
  | succ k ih =>
      rw [after] at h
      split at h
      next m₁ hturn =>
        obtain ⟨prev, hprev, hlast⟩ := ih h
        exact ⟨prev, by rw [after_succ hturn, hprev], hlast⟩
      next => cases h

theorem after_of_le {j k : Nat} (h : m.after config k = some mid) (hle : j ≤ k) :
    ∃ x, m.after config j = some x := by
  cases hj : m.after config j with
  | some x => exact ⟨x, rfl⟩
  | none =>
      obtain ⟨i, x, last, ending, hi, hx, hturn⟩ := after_eq_none hj
      have := le_of_ending hx hturn h
      omega

theorem completes_iff {k : Nat} :
    (∃ i, m.Completes config k i) ↔ ∃ x, m.start.after config (k + 1) = some x := by
  constructor
  · rintro ⟨i, mid, mid', hafter, hturn, -⟩
    exact ⟨mid', by rw [after_add hafter, after_succ hturn]; rfl⟩
  · rintro ⟨x, hx⟩
    obtain ⟨prev, hprev, hturn⟩ := exists_last hx
    obtain ⟨i, hi⟩ := ofWord?_of_step (step_of_turn hturn).2.2.2
    exact ⟨i, prev, x, hprev, hturn, hi⟩

/-- A machine that is not running any more has just executed the halt instruction. -/
theorem halt_of_after {k : Nat} (h : m.start.after config k = some mid)
    (hstatus : mid.registers.status ≠ .running) :
    ∃ j i, k = j + 1 ∧ m.Completes config j i ∧ i.opcode = .halt
      ∧ 1 ≤ mid.registers.cursor
      ∧ Instruction.ofWord? (mid.memory.get (mid.registers.cursor - 1)) = some i := by
  cases k with
  | zero =>
      obtain rfl := Option.some.inj h
      exact absurd rfl hstatus
  | succ k =>
      obtain ⟨prev, hprev, hturn⟩ := exists_last h
      obtain ⟨hrunning, -, -, hstep⟩ := step_of_turn hturn
      obtain ⟨i, hi⟩ := ofWord?_of_step hstep
      rcases status_of_step hrunning hi hstep with ⟨hop, -, hmemory, hcursor⟩ | ⟨-, hrunning'⟩
      · refine ⟨k, i, rfl, ⟨prev, mid, hprev, hturn, hi⟩, hop, by omega, ?_⟩
        rw [hmemory, hcursor, Nat.add_sub_cancel]
        exact hi
      · exact absurd hrunning' hstatus

/-- After the halt instruction the next turn ends the run. -/
theorem halted_of_completes {k : Nat} {i : Instruction} (h : m.Completes config k i)
    (hop : i.opcode = .halt) :
    ∃ x, m.start.after config (k + 1) = some x ∧ x.turn config = (x, some (.ok .halt)) := by
  obtain ⟨mid, x, hafter, hturn, hi⟩ := h
  obtain ⟨hrunning, -, -, hstep⟩ := step_of_turn hturn
  refine ⟨x, by rw [after_add hafter, after_succ hturn]; rfl, ?_⟩
  rcases status_of_step hrunning hi hstep with ⟨-, hstatus, -⟩ | ⟨hne, -⟩
  · exact turn_of_halted (by rw [hstatus]; nofun)
  · exact absurd hop hne

theorem cycles_le_of_after {k n : Nat} (h : m.start.after config k = some mid)
    (hn : config.maxCycles = some n) : mid.registers.cycles ≤ n := by
  rw [cycles_of_after_start h]
  cases k with
  | zero => exact Nat.zero_le n
  | succ k =>
      obtain ⟨prev, hprev, hturn⟩ := exists_last h
      have hlt := lt_of_not_limitReached (step_of_turn hturn).2.1 hn
      rw [cycles_of_after_start hprev] at hlt
      exact hlt

/-! ## Runs -/

theorem explains_of_turn {k : Nat} {reason : HaltReason}
    (hafter : m.start.after config k = some mid)
    (hturn : mid.turn config = (last, some (.ok reason))) :
    (last.finish (.ok reason)).Explains config reason := by
  rcases turn_cases hturn with ⟨⟨⟩, rfl, hstatus⟩ | ⟨-, ⟨⟩, rfl, hlimit⟩
    | ⟨-, hlimit, ⟨⟩, rfl, hextent⟩ | ⟨-, -, -, _, ⟨⟩, -⟩
  · obtain ⟨j, i, -, -, hop, hcursor, hi⟩ := halt_of_after hafter hstatus
    exact ⟨hcursor, _, i, stored_of_ofWord? hi, hi, hop⟩
  · cases hn : config.maxCycles with
    | none => simp [LimitReached, hn] at hlimit
    | some n =>
        have hle := cycles_le_of_after hafter hn
        have hge : n ≤ last.registers.cycles := by simpa [LimitReached, hn] using hlimit
        exact hn.trans (congrArg some (Nat.le_antisymm hge hle))
  · exact ⟨hextent, fun n hn => lt_of_not_limitReached hlimit hn⟩

/-- **Endings.** Whatever was loaded, run and plugged in before: a run counts the
instructions that it completes. If it ends without a fault, its result has this count, which
is also reported, and the machine it leaves has the status and shows the reason that the result
gives. The reason is the halt instruction exactly if that was executed, and it was the last one
then. -/
theorem run_halted (config : Config) (turns : Nat) (m m' : Machine δ) (result : RunResult)
    (h : m.run config turns = some (m', result)) :
    (∀ k, (∃ i, m.Completes config k i) ↔ k < m'.registers.cycles)
      ∧ (∀ summary, result = .ok summary →
          summary.cycles = m'.registers.cycles
            ∧ m'.registers.status = .halted summary.reason ∧ m'.Explains config summary.reason
            ∧ m'.log.back? = some (.halted m'.registers.cycles summary.reason))
      ∧ ((∃ cycles, result = .ok ⟨cycles, .halt⟩) ↔
          ∃ k i, m.Completes config k i ∧ i.opcode = .halt)
      ∧ ∀ k i, m.Completes config k i → i.opcode = .halt → k + 1 = m'.registers.cycles := by
  obtain ⟨n, mid, last, ending, -, hafter, hturn, ⟨⟩⟩ := run_eq_some_iff.mp h
  have hcycles : (last.finish ending).registers.cycles = n := by
    rw [finish_cycles, cycles_of_ending hturn, cycles_of_after_start hafter]
  -- a run that has executed the halt instruction is at its end
  have hhalt : ∀ k i, m.Completes config k i → i.opcode = .halt →
      k + 1 = n ∧ ending = .ok .halt := by
    intro k i hi hop
    obtain ⟨x, hx, hend⟩ := halted_of_completes hi hop
    obtain rfl : k + 1 = n :=
      Nat.le_antisymm (le_of_ending hafter hturn hx) (le_of_ending hx hend hafter)
    obtain rfl := Option.some.inj (hx.symm.trans hafter)
    rw [hend] at hturn
    cases hturn
    exact ⟨rfl, rfl⟩
  rw [hcycles]
  refine ⟨?_, ?_, ?_, ?_⟩
  · intro k
    rw [completes_iff]
    constructor
    · rintro ⟨x, hx⟩
      exact le_of_ending hafter hturn hx
    · intro hk
      exact after_of_le hafter hk
  · rintro ⟨cycles, reason⟩ hresult
    obtain ⟨rfl, rfl⟩ := result_eq_ok_iff.mp hresult
    rw [← hcycles, finish_cycles]
    exact ⟨rfl, rfl, explains_of_turn hafter hturn, back?_log_finish last reason⟩
  · constructor
    · rintro ⟨cycles, hresult⟩
      obtain ⟨rfl, -⟩ := result_eq_ok_iff.mp hresult
      rcases turn_cases hturn with ⟨-, rfl, hstatus⟩ | ⟨-, ⟨⟩, -⟩ | ⟨-, -, ⟨⟩, -⟩
        | ⟨-, -, -, _, ⟨⟩, -⟩
      obtain ⟨j, i, -, hcompletes, hop, -⟩ := halt_of_after hafter hstatus
      exact ⟨j, i, hcompletes, hop⟩
    · rintro ⟨k, i, hi, hop⟩
      exact ⟨_, result_eq_ok_iff.mpr ⟨(hhalt k i hi hop).2, rfl⟩⟩
  · intro k i hi hop
    exact (hhalt k i hi hop).1

/-- The first instruction writes the second. -/
def haltWritten : Machine (Script × Collector) :=
  ofProgram [1101, 90, 9, 4, 0] (⟨[]⟩, .plain)

theorem run_halted_haltWritten :
    haltWritten.memory.get 4 = 0
      ∧ ∃ m', haltWritten.run ⟨false, some 2⟩ 3 = some (m', .ok ⟨2, .halt⟩)
        ∧ m'.registers.status = .halted .halt ∧ m'.registers.cycles = 2
        ∧ m'.memory.get (m'.registers.cursor - 1) = 99
        ∧ m'.Explains ⟨false, some 2⟩ .halt
        ∧ ∃ i, haltWritten.Completes ⟨false, some 2⟩ 1 i := by
  obtain ⟨m', hrun, hcycles, hword⟩ : ∃ m',
      haltWritten.run ⟨false, some 2⟩ 3 = some (m', .ok ⟨2, .halt⟩) ∧ m'.registers.cycles = 2
        ∧ m'.memory.get (m'.registers.cursor - 1) = 99 := ⟨_, rfl, rfl, rfl⟩
  obtain ⟨hcount, hreason, -, -⟩ := run_halted ⟨false, some 2⟩ 3 haltWritten m' _ hrun
  obtain ⟨-, hstatus, hexplains, -⟩ := hreason ⟨2, .halt⟩ rfl
  exact ⟨rfl, m', hrun, hstatus, hcycles, hword, hexplains, (hcount 1).mpr (by omega)⟩

end Intcode.Machine
