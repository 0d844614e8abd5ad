import Intcode.Machine.Run

/-!
# Runs as sequences of completed instructions

A turn either completes an instruction or ends the run. So a run that has not
ended is described by the number of instructions it has completed and the
machine it has reached (`after`), and a run that ends completes some
instructions and then takes one turn more, which gives the ending
(`run_eq_some_iff`). This is how statements about runs of any length are
proved: what a turn preserves is preserved by `after` (`invariant_of_after`,
and `simulation_of_after` for two machines), and the ending is a matter of the
last turn.

The number of completed instructions is what the machine counts
(`cycles_of_after`): executing an instruction leaves the count alone, and
a step adds one to it unless there is a fault.
-/

namespace Intcode.Machine

variable {δ : Type}

/-! ## The count of instructions -/

theorem store_cycles (m : Machine δ) (target value : Word) :
    (m.store target value).machine.registers.cycles = m.registers.cycles := by
  unfold store
  split <;> rfl

theorem perform_cycles [Source δ] [Sink δ] (m : Machine δ) (address : Nat)
    (effect : Effect) :
    (m.perform address effect).machine.registers.cycles = m.registers.cycles := by
  cases effect with
  | store target value => exact store_cycles m target value
  | input target =>
      have hrequest : m.request.2.registers.cycles = m.registers.cycles := rfl
      rw [perform]
      split
      next heq => rw [store_cycles, ← hrequest, heq]
      next heq => rw [← hrequest, heq]
  | jump target =>
      rw [perform]
      split <;> rfl
  | output value => rfl
  | proceed => rfl
  | rebase base => rfl
  | halt => rfl

theorem execute_cycles [Source δ] [Sink δ] (m : Machine δ) (i : Instruction)
    (address : Nat) :
    (m.execute i address).machine.registers.cycles = m.registers.cycles := by
  rw [execute]
  split
  · rw [perform_cycles]
    rfl
  · rfl

theorem finish_cycles (m : Machine δ) (ending : Ending) :
    (m.finish ending).registers.cycles = m.registers.cycles := by
  cases ending <;> rfl

/-! ## Results -/

/-- Of the machine, only the count is part of a result. -/
theorem result_congr {ε : Type} {m : Machine δ} {n : Machine ε}
    (h : n.registers.cycles = m.registers.cycles) (ending : Ending) :
    n.result ending = m.result ending := by
  cases ending with
  | ok reason => rw [result, result, h]
  | error fault => rfl

theorem result_finish (m : Machine δ) (ending : Ending) :
    (m.finish ending).result ending = m.result ending :=
  result_congr (finish_cycles m ending) ending

/-- A result without a fault has the machine's count, and the reason why the run ended. -/
theorem result_eq_ok_iff {m : Machine δ} {ending : Ending} {summary : Summary} :
    m.result ending = .ok summary ↔
      ending = .ok summary.reason ∧ summary.cycles = m.registers.cycles := by
  obtain ⟨cycles, reason⟩ := summary
  cases ending with
  | ok reason' => simp [result, and_comm, eq_comm]
  | error fault => simp [result]

theorem result_eq_error_iff {m : Machine δ} {ending : Ending} {fault : Fault} :
    m.result ending = .error fault ↔ ending = .error fault := by
  cases ending <;> simp [result]

/-! ## Steps -/

/-- The machine that executes an instruction: the cursor is behind the instruction's
word, and the instruction was reported if every instruction is. -/
def fetched (trace : Bool) (m : Machine δ) (i : Instruction) : Machine δ :=
  let start := m.moveTo (m.registers.cursor + 1)
  if trace then start.report [start.traceEvent i m.registers.cursor] else start

theorem fetched_cycles (trace : Bool) (m : Machine δ) (i : Instruction) :
    (m.fetched trace i).registers.cycles = m.registers.cycles := by
  cases trace <;> rfl

variable [Source δ] [Sink δ]

/-- Everything a step can do: the word at the cursor spells no instruction, or its
instruction is executed and counted, or it is executed with a fault. -/
theorem step_cases (trace : Bool) (m : Machine δ) :
    (∃ word, m.memory.get m.registers.cursor = word
        ∧ Instruction.ofWord? word = none
        ∧ m.step trace = ⟨m.moveTo (m.registers.cursor + 1),
            some (.invalidOperation word m.registers.cursor)⟩)
      ∨ ∃ i, Instruction.ofWord? (m.memory.get m.registers.cursor) = some i
          ∧ ((∃ m', (m.fetched trace i).execute i m.registers.cursor = ⟨m', none⟩
                ∧ m.step trace = ⟨m'.countCycle, none⟩)
              ∨ ∃ m' fault, (m.fetched trace i).execute i m.registers.cursor = ⟨m', some fault⟩
                ∧ m.step trace = ⟨m', some fault⟩) := by
  cases hi : Instruction.ofWord? (m.memory.get m.registers.cursor) with
  | none =>
      refine Or.inl ⟨_, rfl, hi, ?_⟩
      rw [step, hi]
  | some i =>
      refine Or.inr ⟨i, rfl, ?_⟩
      cases hexecute : (m.fetched trace i).execute i m.registers.cursor with
      | mk m' fault? =>
          rw [fetched] at hexecute
          cases fault? with
          | none =>
              refine Or.inl ⟨m', rfl, ?_⟩
              simp only [step, hi, hexecute]
          | some fault =>
              refine Or.inr ⟨m', fault, rfl, ?_⟩
              simp only [step, hi, hexecute]

theorem cycles_of_step {trace : Bool} {m m' : Machine δ}
    (h : m.step trace = ⟨m', none⟩) : m'.registers.cycles = m.registers.cycles + 1 := by
  rcases step_cases trace m with ⟨_, -, -, hstep⟩
    | ⟨i, -, ⟨m₁, hexecute, hstep⟩ | ⟨_, _, -, hstep⟩⟩
  · rw [hstep] at h
    cases h
  · rw [hstep] at h
    cases h
    have hcycles := execute_cycles (m.fetched trace i) i m.registers.cursor
    rw [hexecute, fetched_cycles] at hcycles
    exact congrArg (· + 1) hcycles
  · rw [hstep] at h
    cases h

theorem cycles_of_fault {trace : Bool} {m m' : Machine δ} {fault : Fault}
    (h : m.step trace = ⟨m', some fault⟩) : m'.registers.cycles = m.registers.cycles := by
  rcases step_cases trace m with ⟨_, -, -, hstep⟩
    | ⟨i, -, ⟨_, -, hstep⟩ | ⟨m₁, _, hexecute, hstep⟩⟩
  · rw [hstep] at h
    cases h
    rfl
  · rw [hstep] at h
    cases h
  · rw [hstep] at h
    cases h
    have hcycles := execute_cycles (m.fetched trace i) i m.registers.cursor
    rw [hexecute, fetched_cycles] at hcycles
    exact hcycles

/-! ## Turns -/

/-- The limit on the number of instructions is reached. -/
def LimitReached (config : Config) (m : Machine δ) : Prop :=
  config.maxCycles.any (· ≤ m.registers.cycles) = true

variable {config : Config}

/-- A turn that does not end the run completes an instruction. -/
theorem step_of_turn {m m' : Machine δ} (h : m.turn config = (m', none)) :
    m.registers.status = .running ∧ ¬m.LimitReached config
      ∧ m.registers.cursor < m.memory.extent ∧ m.step config.trace = ⟨m', none⟩ := by
  unfold turn at h
  split at h
  next => cases h
  next hrunning =>
    split at h
    next => cases h
    next hlimit =>
      split at h
      next => cases h
      next hextent =>
        refine ⟨Decidable.not_not.mp hrunning, hlimit, Nat.lt_of_not_le hextent, ?_⟩
        obtain ⟨hmachine, hfault⟩ := Prod.mk.inj h
        rw [← hmachine, ← Option.map_eq_none_iff.mp hfault]

/-- Everything a turn that ends the run can do. -/
theorem turn_cases {m m' : Machine δ} {ending : Ending}
    (h : m.turn config = (m', some ending)) :
    (ending = .ok .halt ∧ m' = m ∧ m.registers.status ≠ .running)
      ∨ (m.registers.status = .running ∧ ending = .ok .cycleLimit ∧ m' = m
          ∧ m.LimitReached config)
      ∨ (m.registers.status = .running ∧ ¬m.LimitReached config
          ∧ ending = .ok .endOfProgram ∧ m' = m ∧ m.memory.extent ≤ m.registers.cursor)
      ∨ (m.registers.status = .running ∧ ¬m.LimitReached config
          ∧ m.registers.cursor < m.memory.extent
          ∧ ∃ fault, ending = .error fault ∧ m.step config.trace = ⟨m', some fault⟩) := by
  unfold turn at h
  split at h
  next hstatus =>
    cases h
    exact Or.inl ⟨rfl, rfl, hstatus⟩
  next hstatus =>
    have hrunning := Decidable.not_not.mp hstatus
    split at h
    next hlimit =>
      cases h
      exact Or.inr (Or.inl ⟨hrunning, rfl, rfl, hlimit⟩)
    next hlimit =>
      split at h
      next hextent =>
        cases h
        exact Or.inr (Or.inr (Or.inl ⟨hrunning, hlimit, rfl, rfl, hextent⟩))
      next hextent =>
        obtain ⟨hmachine, hfault⟩ := Prod.mk.inj h
        obtain ⟨fault, hsome, rfl⟩ := Option.map_eq_some_iff.mp hfault
        refine Or.inr (Or.inr (Or.inr ⟨hrunning, hlimit, Nat.lt_of_not_le hextent, fault, rfl, ?_⟩))
        rw [← hmachine, ← hsome]

theorem turn_of_limitReached {m : Machine δ} (hrunning : m.registers.status = .running)
    (hlimit : m.LimitReached config) : m.turn config = (m, some (.ok .cycleLimit)) := by
  rw [turn, if_neg (not_not_intro hrunning)]
  exact if_pos hlimit

theorem turn_of_outside {m : Machine δ} (hrunning : m.registers.status = .running)
    (hlimit : ¬m.LimitReached config) (hextent : m.memory.extent ≤ m.registers.cursor) :
    m.turn config = (m, some (.ok .endOfProgram)) := by
  rw [turn, if_neg (not_not_intro hrunning)]
  exact (if_neg hlimit).trans (if_pos hextent)

theorem turn_of_inside {m : Machine δ} (hrunning : m.registers.status = .running)
    (hlimit : ¬m.LimitReached config) (hextent : m.registers.cursor < m.memory.extent) :
    m.turn config = ((m.step config.trace).machine, (m.step config.trace).fault?.map .error) := by
  rw [turn, if_neg (not_not_intro hrunning)]
  exact (if_neg hlimit).trans (if_neg (Nat.not_le_of_lt hextent))

/-- A turn that ends the run counts no instruction. -/
theorem cycles_of_ending {m m' : Machine δ} {ending : Ending}
    (h : m.turn config = (m', some ending)) : m'.registers.cycles = m.registers.cycles := by
  rcases turn_cases h with ⟨-, rfl, -⟩ | ⟨-, -, rfl, -⟩ | ⟨-, -, -, rfl, -⟩
    | ⟨-, -, -, fault, -, hstep⟩
  · rfl
  · rfl
  · rfl
  · exact cycles_of_fault hstep

/-! ## Completed instructions -/

/-- The machine after a number of completed instructions, if the run gets so far. -/
def after (config : Config) : Nat → Machine δ → Option (Machine δ)
  | 0, m => some m
  | k + 1, m =>
    match m.turn config with
    | (m, none) => after config k m
    | (_, some _) => none

theorem after_succ {m m' : Machine δ} (h : m.turn config = (m', none)) (k : Nat) :
    m.after config (k + 1) = m'.after config k := by
  rw [after, h]

theorem after_add {m mid : Machine δ} {j : Nat} (h : m.after config j = some mid) (k : Nat) :
    m.after config (j + k) = mid.after config k := by
  induction j generalizing m with
  | zero =>
      obtain rfl := Option.some.inj h
      rw [Nat.zero_add]
  | succ j ih =>
      rw [after] at h
      split at h
      next m₁ hturn =>
        rw [Nat.succ_add, after_succ hturn]
        exact ih h
      next => cases h

/-- What every completed instruction keeps, any number of them keeps. -/
theorem invariant_of_after {P : Machine δ → Prop}
    (hP : ∀ {m m'}, m.turn config = (m', none) → P m → P m') {m mid : Machine δ} (h : P m)
    {k : Nat} (hafter : m.after config k = some mid) : P mid := by
  induction k generalizing m with
  | zero =>
      obtain rfl := Option.some.inj hafter
      exact h
  | succ k ih =>
      rw [after] at hafter
      split at hafter
      next m₁ hturn => exact ih (hP hturn h) hafter
      next => cases hafter

/-- Machines that match instruction by instruction match after any number of them. -/
theorem simulation_of_after {ε : Type} [Source ε] [Sink ε] {config' : Config}
    {R : Machine δ → Machine ε → Prop}
    (hR : ∀ {m m' n}, R m n → m.turn config = (m', none) →
      ∃ n', n.turn config' = (n', none) ∧ R m' n')
    {m mid : Machine δ} {n : Machine ε} (h : R m n) {k : Nat}
    (hafter : m.after config k = some mid) :
    ∃ mid', n.after config' k = some mid' ∧ R mid mid' := by
  induction k generalizing m n with
  | zero =>
      obtain rfl := Option.some.inj hafter
      exact ⟨n, rfl, h⟩
  | succ k ih =>
      rw [after] at hafter
      split at hafter
      next m₁ hturn =>
        obtain ⟨n₁, hturn', h₁⟩ := hR h hturn
        rw [after_succ hturn']
        exact ih h₁ hafter
      next => cases hafter

/-- A run does not end before an instruction that it completes. -/
theorem le_of_ending {m mid last x : Machine δ} {j k : Nat} {ending : Ending}
    (hj : m.after config j = some mid) (hturn : mid.turn config = (last, some ending))
    (hk : m.after config k = some x) : k ≤ j := by
  refine Nat.le_of_not_lt fun hlt => ?_
  obtain ⟨i, rfl⟩ : ∃ i, k = j + (i + 1) := ⟨k - j - 1, by omega⟩
  rw [after_add hj, after, hturn] at hk
  cases hk

theorem cycles_of_after {m mid : Machine δ} {k : Nat} (h : m.after config k = some mid) :
    mid.registers.cycles = m.registers.cycles + k := by
  induction k generalizing m with
  | zero =>
      obtain rfl := Option.some.inj h
      rfl
  | succ k ih =>
      rw [after] at h
      split at h
      next m₁ hturn =>
        have hcycles := cycles_of_step (step_of_turn hturn).2.2.2
        rw [ih h, hcycles]
        omega
      next => cases h

/-- A run completes as many instructions as one likes, or it ends before. -/
theorem after_eq_none {m : Machine δ} {n : Nat} (h : m.after config n = none) :
    ∃ k mid last ending, k < n ∧ m.after config k = some mid
      ∧ mid.turn config = (last, some ending) := by
  induction n generalizing m with
  | zero => cases h
  | succ n ih =>
      rw [after] at h
      split at h
      next m₁ hturn =>
        obtain ⟨k, mid, last, ending, hk, hafter, hending⟩ := ih h
        exact ⟨k + 1, mid, last, ending, Nat.succ_lt_succ hk,
          by rw [after_succ hturn, hafter], hending⟩
      next last ending hturn =>
        exact ⟨0, m, last, ending, Nat.zero_lt_succ n, rfl, hturn⟩

/-! ## Runs -/

/-- A run that ends completes some instructions, and its last turn gives the ending. -/
theorem runFor_eq_some_iff {m : Machine δ} {turns : Nat} {result : Machine δ × Ending} :
    runFor config turns m = some result ↔
      ∃ k mid last ending, k < turns ∧ m.after config k = some mid
        ∧ mid.turn config = (last, some ending)
        ∧ result = (last.finish ending, ending) := by
  induction turns generalizing m with
  | zero =>
      constructor
      · nofun
      · rintro ⟨k, _, _, _, hk, -⟩
        cases hk
  | succ turns ih =>
      rw [runFor]
      split
      next last ending hturn =>
        constructor
        · rintro ⟨⟩
          exact ⟨0, m, last, ending, Nat.zero_lt_succ turns, rfl, hturn, rfl⟩
        · rintro ⟨k, mid, last', ending', -, hafter, hending, rfl⟩
          cases k with
          | zero =>
              obtain rfl := Option.some.inj hafter
              rw [hturn] at hending
              cases hending
              rfl
          | succ k =>
              rw [after, hturn] at hafter
              cases hafter
      next m₁ hturn =>
        rw [ih]
        constructor
        · rintro ⟨k, mid, last, ending, hk, hafter, hrest⟩
          exact ⟨k + 1, mid, last, ending, Nat.succ_lt_succ hk,
            by rw [after_succ hturn, hafter], hrest⟩
        · rintro ⟨k, mid, last, ending, hk, hafter, hending, hresult⟩
          cases k with
          | zero =>
              obtain rfl := Option.some.inj hafter
              rw [hturn] at hending
              cases hending
          | succ k =>
              rw [after_succ hturn] at hafter
              exact ⟨k, mid, last, ending, Nat.lt_of_succ_lt_succ hk, hafter, hending, hresult⟩

/-- A run that ends has the result that its last turn gives. -/
theorem run_eq_some_iff {m : Machine δ} {turns : Nat} {result : Machine δ × RunResult} :
    m.run config turns = some result ↔
      ∃ k mid last ending, k < turns ∧ m.start.after config k = some mid
        ∧ mid.turn config = (last, some ending)
        ∧ result = (last.finish ending, last.result ending) := by
  rw [run, Option.map_eq_some_iff]
  constructor
  · rintro ⟨ended, hended, rfl⟩
    obtain ⟨k, mid, last, ending, hk, hafter, hturn, rfl⟩ := runFor_eq_some_iff.mp hended
    exact ⟨k, mid, last, ending, hk, hafter, hturn, congrArg _ (result_finish last ending)⟩
  · rintro ⟨k, mid, last, ending, hk, hafter, hturn, rfl⟩
    exact ⟨_, runFor_eq_some_iff.mpr ⟨k, mid, last, ending, hk, hafter, hturn, rfl⟩,
      congrArg _ (result_finish last ending)⟩

/-- The result of a run that ends with the turn after `k` instructions. -/
theorem run_of_turn {m mid last : Machine δ} {k turns : Nat}
    {ending : Ending} (hk : k < turns) (hafter : m.start.after config k = some mid)
    (hturn : mid.turn config = (last, some ending)) :
    m.run config turns = some (last.finish ending, last.result ending) :=
  run_eq_some_iff.mpr ⟨k, mid, last, ending, hk, hafter, hturn, rfl⟩

theorem cycles_of_after_start {m mid : Machine δ} {k : Nat}
    (h : m.start.after config k = some mid) : mid.registers.cycles = k :=
  (cycles_of_after h).trans (Nat.zero_add k)

/-- A run has one result, however many turns it is given. -/
theorem run_unique {m : Machine δ} {turns turns' : Nat} {r r' : Machine δ × RunResult}
    (h : m.run config turns = some r) (h' : m.run config turns' = some r') : r = r' := by
  have hmax := run_of_le h (Nat.le_max_left turns turns')
  have hmax' := run_of_le h' (Nat.le_max_right turns turns')
  exact Option.some.inj (hmax.symm.trans hmax')

end Intcode.Machine
