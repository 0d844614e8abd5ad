import Intcode.Proofs.Runs

/-!
# Limited runs

A run that is limited to `n` instructions is the run without a limit, cut off
after its `n`th instruction (`run_limit`). As long as fewer than `n`
instructions were counted the limit has no influence on a turn
(`turn_limit_of_lt`), so both runs go through the same machines. At the `n`th
the order of the checks decides: a machine that was halted by its `n`th
instruction has halted, and any other has reached the limit, even if the next
turn of the run without a limit would find the end of the program or a fault.
-/

namespace Intcode.Machine

variable {δ : Type} {trace : Bool} {n : Nat}

/-! ## Below the limit -/

theorem not_limitReached_none (m : Machine δ) : ¬m.LimitReached ⟨trace, none⟩ :=
  nofun

variable [Source δ] [Sink δ]

theorem turn_limit_of_lt {m : Machine δ} (h : m.registers.cycles < n) :
    m.turn ⟨trace, some n⟩ = m.turn ⟨trace, none⟩ := by
  have hlimit : ¬n ≤ m.registers.cycles := Nat.not_le_of_lt h
  simp only [turn, Option.any_some, Option.any_none, hlimit, decide_false]

theorem after_limit {m : Machine δ} {k : Nat} (h : m.registers.cycles + k ≤ n) :
    m.after ⟨trace, some n⟩ k = m.after ⟨trace, none⟩ k := by
  induction k generalizing m with
  | zero => rfl
  | succ k ih =>
      rw [after, after, turn_limit_of_lt (by omega)]
      split
      next m₁ hturn =>
        have hcycles := cycles_of_step (step_of_turn hturn).2.2.2
        exact ih (by omega)
      next => rfl

/-! ## At the limit -/

theorem turn_of_halted {m : Machine δ} {config : Config} (h : m.registers.status ≠ .running) :
    m.turn config = (m, some (.ok .halt)) :=
  if_pos h

theorem turn_at_limit {m : Machine δ} (h : m.registers.status = .running)
    (hcycles : m.registers.cycles = n) :
    m.turn ⟨trace, some n⟩ = (m, some (.ok .cycleLimit)) := by
  have hlimit : n ≤ m.registers.cycles := Nat.le_of_eq hcycles.symm
  exact turn_of_limitReached h (decide_eq_true hlimit)

/-! ## The two runs -/

/-- Whether a run without a limit that has this result, with so many instructions counted,
ends before a limit of `n` instructions has an influence. -/
def EndsWithin (n cycles : Nat) : RunResult → Prop
  | .ok ⟨_, .halt⟩ => cycles ≤ n
  | .ok ⟨_, .endOfProgram⟩ => cycles < n
  | .ok ⟨_, .cycleLimit⟩ => False
  | .error _ => cycles < n

/-- What ends a run before the `n`th instruction is not the limit. -/
theorem endsWithin_of_lt {m last : Machine δ} {ending : Ending}
    (hturn : m.turn ⟨trace, none⟩ = (last, some ending)) {cycles : Nat} (h : cycles < n) :
    EndsWithin n cycles (last.result ending) := by
  rcases turn_cases hturn with ⟨rfl, -⟩ | ⟨-, -, -, hlimit⟩ | ⟨-, -, rfl, -⟩
    | ⟨-, -, -, fault, rfl, -⟩
  · exact Nat.le_of_lt h
  · exact absurd hlimit (not_limitReached_none m)
  · exact h
  · exact h

theorem after_start_limit {m : Machine δ} {k : Nat} (h : k ≤ n) :
    m.start.after ⟨trace, some n⟩ k = m.start.after ⟨trace, none⟩ k :=
  after_limit (Nat.le_trans (Nat.le_of_eq (Nat.zero_add k)) h)

theorem run_limit_of_lt {m mid last : Machine δ} {k : Nat} {ending : Ending} (hk : k < n)
    (hafter : m.start.after ⟨trace, none⟩ k = some mid)
    (hturn : mid.turn ⟨trace, none⟩ = (last, some ending)) :
    m.run ⟨trace, some n⟩ (n + 1) = some (last.finish ending, last.result ending) := by
  have hmid := cycles_of_after_start hafter
  rw [← after_start_limit (Nat.le_of_lt hk)] at hafter
  rw [← turn_limit_of_lt (hmid ▸ hk)] at hturn
  exact run_of_turn (Nat.lt_succ_of_lt hk) hafter hturn

/-- A result within the limit is the result of the limited run. -/
theorem run_limit_of_endsWithin {m m' : Machine δ} {turns : Nat} {result : RunResult}
    (hrun : m.run ⟨trace, none⟩ turns = some (m', result))
    (hwithin : EndsWithin n m'.registers.cycles result) :
    m.run ⟨trace, some n⟩ (n + 1) = some (m', result) := by
  obtain ⟨k, mid, last, ending, -, hafter, hturn, ⟨⟩⟩ := run_eq_some_iff.mp hrun
  rw [finish_cycles, cycles_of_ending hturn, cycles_of_after_start hafter] at hwithin
  rcases turn_cases hturn with ⟨rfl, rfl, hstatus⟩ | ⟨-, -, -, hlimit⟩ | ⟨-, -, rfl, -⟩
    | ⟨-, -, -, fault, rfl, -⟩
  · have hle : k ≤ n := hwithin
    rw [← after_start_limit hle] at hafter
    exact run_of_turn (Nat.lt_succ_of_le hle) hafter (turn_of_halted hstatus)
  · exact absurd hlimit (not_limitReached_none mid)
  · exact run_limit_of_lt hwithin hafter hturn
  · exact run_limit_of_lt hwithin hafter hturn

/-- A run with no ending within the limit completes `n` instructions and is still running. -/
theorem running_of_not_endsWithin {m : Machine δ}
    (h : ∀ turns m' result, m.run ⟨trace, none⟩ turns = some (m', result) →
      ¬EndsWithin n m'.registers.cycles result) :
    ∃ mid, m.start.after ⟨trace, none⟩ n = some mid ∧ mid.registers.status = .running := by
  cases hafter : m.start.after ⟨trace, none⟩ n with
  | none =>
      obtain ⟨k, mid, last, ending, hk, hmid, hturn⟩ := after_eq_none hafter
      have hcycles : (last.finish ending).registers.cycles = k := by
        rw [finish_cycles, cycles_of_ending hturn, cycles_of_after_start hmid]
      exact absurd (endsWithin_of_lt hturn (hcycles ▸ hk))
        (h _ _ _ (run_of_turn (Nat.lt_succ_self k) hmid hturn))
  | some mid =>
      refine ⟨mid, rfl, Decidable.byContradiction fun hstatus => ?_⟩
      have hrun := run_of_turn (Nat.lt_succ_self n) hafter (turn_of_halted hstatus)
      have hcycles : (mid.finish (.ok .halt)).registers.cycles = n := by
        rw [finish_cycles, cycles_of_after_start hafter]
      exact h _ _ _ hrun (Nat.le_of_eq hcycles)

/-- **Truncation.** A run limited to `n` instructions ends within `n + 1` turns. If the run
without a limit ends before the limit has an influence, it has the same result and leaves the
same machine. In every other case it reaches the limit, with the machine that the run
without a limit has after its `n`th instruction. -/
theorem run_limit (trace : Bool) (n : Nat) (m : Machine δ) :
    (∀ turns m' result, m.run ⟨trace, none⟩ turns = some (m', result) →
        EndsWithin n m'.registers.cycles result →
        m.run ⟨trace, some n⟩ (n + 1) = some (m', result))
      ∧ ((∀ turns m' result, m.run ⟨trace, none⟩ turns = some (m', result) →
            ¬EndsWithin n m'.registers.cycles result) →
          ∃ mid m', m.start.after ⟨trace, none⟩ n = some mid
            ∧ m.run ⟨trace, some n⟩ (n + 1) = some (m', .ok ⟨n, .cycleLimit⟩)
            ∧ m'.memory = mid.memory ∧ m'.device = mid.device
            ∧ m'.registers = { mid.registers with status := .halted .cycleLimit }
            ∧ m'.registers.cycles = n) := by
  refine ⟨fun turns m' result => run_limit_of_endsWithin, fun h => ?_⟩
  obtain ⟨mid, hafter, hrunning⟩ := running_of_not_endsWithin h
  have hcycles := cycles_of_after_start hafter
  refine ⟨mid, mid.finish (.ok .cycleLimit), hafter, ?_, rfl, rfl, rfl, hcycles⟩
  rw [← after_start_limit (Nat.le_refl n)] at hafter
  have hrun := run_of_turn (Nat.lt_succ_self n) hafter (turn_at_limit hrunning hcycles)
  rwa [result, hcycles] at hrun

/-- Two instructions, of which the first gives out a value and the second halts. -/
def outputAndHalt : Machine (Script × Collector) :=
  ofProgram [104, 7, 99] (⟨[]⟩, .plain)

/-- A limit of two instructions lets the run halt, and a limit of one cuts it off after
the value was given out. -/
theorem run_limit_outputAndHalt :
    (∃ m', outputAndHalt.run ⟨false, none⟩ 3 = some (m', .ok ⟨2, .halt⟩)
        ∧ outputAndHalt.run ⟨false, some 2⟩ 3 = some (m', .ok ⟨2, .halt⟩))
      ∧ ∃ m', outputAndHalt.run ⟨false, some 1⟩ 2 = some (m', .ok ⟨1, .cycleLimit⟩)
          ∧ m'.device.2.values = #[7] ∧ m'.registers.cycles = 1 := by
  obtain ⟨halted, hrun, hcycles⟩ : ∃ m', outputAndHalt.run ⟨false, none⟩ 3
      = some (m', .ok ⟨2, .halt⟩) ∧ m'.registers.cycles = 2 := ⟨_, rfl, rfl⟩
  constructor
  · refine ⟨halted, hrun, (run_limit false 2 outputAndHalt).1 3 halted _ hrun ?_⟩
    exact Nat.le_of_eq hcycles
  · obtain ⟨mid, m', hafter, hlimited, -, hdevice, -, hcount⟩ :=
      (run_limit false 1 outputAndHalt).2 (by
        intro turns m' result h
        obtain ⟨rfl, rfl⟩ := Prod.mk.inj (run_unique h hrun)
        show ¬m'.registers.cycles ≤ 1
        omega)
    obtain rfl := Option.some.inj hafter
    refine ⟨m', hlimited, ?_, hcount⟩
    rw [hdevice]
    rfl

end Intcode.Machine
