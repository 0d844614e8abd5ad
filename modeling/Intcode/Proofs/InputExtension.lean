import Intcode.Proofs.Devices

/-!
# Longer input

A run on a script and the same run on a script with more values behind it go
through the same machines, up to the values that are still to come
(`mirrors_extends`). They can part only where the shorter script has no value
left. So a run that ends for another reason has not noticed the end of its
script; and a run that ends there has taken the whole script, and all that it
has given out is given out by the longer run too (`run_extend`).

`received` is what a run takes from its source, as the instructions tell:
nothing but the input instruction takes a value. On a script these are the
values in front of the queue (`queue_of_after`), in order.
-/

namespace Intcode.Machine

/-! ## Values received -/

section Received

variable {δ : Type} [Source δ] [Sink δ]

/-- The values that the instruction at the cursor takes from its source. -/
def intake (m : Machine δ) : List Word :=
  match Instruction.ofWord? (m.memory.get m.registers.cursor) with
  | some i => if i.opcode = .input then (Source.request m.device).value?.toList else []
  | none => []

/-- The values that so many instructions take, in order. -/
def received (config : Config) : Nat → Machine δ → List Word
  | 0, _ => []
  | k + 1, m =>
    match m.turn config with
    | (m', none) => m.intake ++ received config k m'
    | (_, some _) => []

end Received

/-! ## Scripts -/

variable {τ : Type}

/-- The machine with more values behind those of its script. -/
def extend (ys : List Word) (m : Machine (Script × τ)) : Machine (Script × τ) :=
  { m with device := (⟨m.device.1.queue ++ ys⟩, m.device.2) }

/-- The second script has more values behind those of the first. -/
def Extends (ys : List Word) (d e : Script × τ) : Prop :=
  e = (⟨d.1.queue ++ ys⟩, d.2)

theorem alike_extend (ys : List Word) (m : Machine (Script × τ)) :
    Alike (Extends ys) m (m.extend ys) :=
  ⟨rfl, rfl, rfl⟩

theorem request_script (s : Script) (t : τ) :
    (Source.request (s, t)).value? = s.queue.head?
      ∧ (Source.request (s, t)).device = (⟨s.queue.tail⟩, t) := by
  obtain ⟨_ | ⟨value, queue⟩⟩ := s <;> exact ⟨rfl, rfl⟩

variable [Sink τ]

theorem mirrors_extends (ys : List Word) :
    Mirrors (Extends ys : Script × τ → Script × τ → Prop) where
  request := by
    rintro ⟨⟨queue⟩, t⟩ _ value rfl hvalue
    cases queue with
    | nil => cases hvalue
    | cons v queue =>
        cases hvalue
        exact ⟨rfl, rfl⟩
  emit := by
    rintro ⟨⟨queue⟩, t⟩ _ rfl value
    rfl

theorem queue_of_step {trace : Bool} {m m' : Machine (Script × τ)}
    (h : m.step trace = ⟨m', none⟩) :
    m.device.1.queue = m.intake ++ m'.device.1.queue := by
  rcases step_cases trace m with ⟨word, -, -, hstep⟩
    | ⟨i, hi, ⟨m₁, hexecute, hstep⟩ | ⟨_, _, -, hstep⟩⟩
  · rw [hstep] at h
    cases h
  · rw [hstep] at h
    cases h
    have hcursor : (m.fetched trace i).registers.cursor = m.registers.cursor + 1 := by
      cases trace <;> rfl
    have hdevice := fetched_device trace m i
    have hrow := (execute_eq_ok_iff hcursor).mp hexecute
    obtain ⟨hvalue, hrest⟩ := request_script m.device.1 m.device.2
    by_cases hop : i.opcode = .input
    · simp only [Operation, hop, hdevice] at hrow
      obtain ⟨value, cell, hsome, -, rfl⟩ := hrow
      simp only [intake, hi, hop, if_true, hsome, Option.toList_some]
      obtain ⟨queue, hqueue⟩ := List.head?_eq_some_iff.mp (hvalue.symm.trans hsome)
      show m.device.1.queue = [value] ++ (Source.request m.device).device.1.queue
      rw [hrest, hqueue]
      rfl
    · simp only [intake, hi, hop, if_false]
      rcases hrow.footprint.device with heq | ⟨hinput, -⟩ | ⟨-, value, heq⟩
      · show m.device.1.queue = m₁.device.1.queue
        rw [heq, hdevice]
      · exact absurd hinput hop
      · show m.device.1.queue = m₁.device.1.queue
        rw [heq, hdevice]
        rfl
  · rw [hstep] at h
    cases h

variable {config : Config}

/-- A run takes the values of its script from the front. -/
theorem queue_of_after {m mid : Machine (Script × τ)} {k : Nat}
    (h : m.after config k = some mid) :
    m.device.1.queue = m.received config k ++ mid.device.1.queue := by
  induction k generalizing m with
  | zero =>
      obtain rfl := Option.some.inj h
      rfl
  | succ k ih =>
      rw [after] at h
      split at h
      next m₁ hturn =>
        rw [received, hturn, List.append_assoc, ← ih h]
        exact queue_of_step (step_of_turn hturn).2.2.2
      next => cases h

theorem queue_of_exhausted {trace : Bool} {m m' : Machine (Script × τ)} {a : Nat}
    (h : m.step trace = ⟨m', some (.inputExhausted a)⟩) :
    m.device.1.queue = [] ∧ m'.device = m.device := by
  obtain ⟨hnone, hdevice⟩ := device_of_exhausted h
  obtain ⟨hvalue, hrest⟩ := request_script m.device.1 m.device.2
  have hnil : m.device.1.queue = [] := List.head?_eq_none_iff.mp (hvalue.symm.trans hnone)
  refine ⟨hnil, ?_⟩
  rw [hdevice, hrest, hnil]
  exact Prod.ext (congrArg Script.mk hnil.symm) rfl

/-! ## Outputs -/

/-- The values that were given out, in order. -/
def emitted (m : Machine (Script × Collector)) : List Word :=
  m.device.2.values.toList

/-- What was given out stays. -/
theorem kept_emitted (values : List Word) :
    Kept fun d : Script × Collector => values <+: d.2.values.toList where
  request := by
    rintro ⟨⟨queue⟩, c⟩ h
    cases queue <;> exact h
  emit := by
    rintro ⟨s, c⟩ value h
    have hpush : (Sink.emit (s, c) value).device.2.values.toList
        = c.values.toList ++ [c.view value] := Array.toList_push
    rw [hpush]
    exact h.trans (List.prefix_append _ _)

/-- What was given out when an instruction was completed is given out ever after. -/
theorem emitted_of_run {m mid m' : Machine (Script × Collector)} {k turns : Nat}
    {result : RunResult} (hafter : m.start.after config k = some mid)
    (hrun : m.run config turns = some (m', result)) : mid.emitted <+: m'.emitted := by
  obtain ⟨j, x, last, ending, -, hx, hturn, ⟨⟩⟩ := run_eq_some_iff.mp hrun
  have hle : k ≤ j := le_of_ending hx hturn hafter
  obtain ⟨i, rfl⟩ : ∃ i, j = k + i := ⟨j - k, by omega⟩
  rw [after_add hafter] at hx
  have hkept := kept_emitted mid.emitted
  have hlast := device_of_ending hkept (device_of_after hkept (List.prefix_refl _) hx) hturn
  rw [← finish_device last ending] at hlast
  exact hlast

/-! ## The two runs -/

/-- A run that finds its script empty has taken all of it, and the run on the longer script
completes the same instructions with the same outputs. -/
theorem run_extend_of_exhausted {m m' : Machine (Script × τ)} {turns a : Nat}
    (h : m.run config turns = some (m', .error (.inputExhausted a))) (ys : List Word) :
    m'.device.1.queue = []
      ∧ m.start.received config m'.registers.cycles = m.device.1.queue
      ∧ ∃ mid, (m.extend ys).start.after config m'.registers.cycles = some mid
        ∧ mid.device.2 = m'.device.2 := by
  obtain ⟨mid, last, hafter, -, hstep, rfl⟩ := step_of_run_fault h
  obtain ⟨hnil, hlast⟩ := queue_of_exhausted hstep
  obtain ⟨mid', hafter', hmid⟩ :=
    (alike_extend ys m).start.after (mirrors_extends ys) config.trace hafter
  have hreceived := queue_of_after hafter
  rw [hnil, List.append_nil] at hreceived
  rw [finish_device, hlast]
  refine ⟨hnil, hreceived.symm, mid', hafter', ?_⟩
  rw [hmid.device]

/-- **Input extension.** A run that does not end for want of input is the same run on any
longer script. A run that ends for want of input has received its script, in order, and
whatever it has given out is given out first by the run on a longer script. -/
theorem run_extend (config : Config) (m m' : Machine (Script × Collector)) (turns : Nat)
    (result : RunResult) (ys : List Word) (h : m.run config turns = some (m', result)) :
    ((∀ a, result ≠ .error (.inputExhausted a)) →
        ∃ n', (m.extend ys).run config turns = some (n', result)
          ∧ n'.registers = m'.registers ∧ n'.memory = m'.memory ∧ n'.emitted = m'.emitted
          ∧ m'.device.1.queue <:+ m.device.1.queue
          ∧ n'.device.1.queue = m'.device.1.queue ++ ys)
      ∧ ∀ a, result = .error (.inputExhausted a) →
        m'.device.1.queue = []
          ∧ m.start.received config m'.registers.cycles = m.device.1.queue
          ∧ (∃ mid, (m.extend ys).start.after config m'.registers.cycles = some mid)
          ∧ (∀ k mid, m'.registers.cycles ≤ k →
              (m.extend ys).start.after config k = some mid → m'.emitted <+: mid.emitted)
          ∧ ∀ turns n' result', (m.extend ys).run config turns = some (n', result') →
              m'.emitted <+: n'.emitted := by
  constructor
  · intro hne
    obtain ⟨n', hrun, hn'⟩ := (alike_extend ys m).run (mirrors_extends ys) config.trace h hne
    have hsuffix : Kept fun d : Script × Collector => d.1.queue <:+ m.device.1.queue :=
      { request := by
          rintro ⟨⟨_ | ⟨v, queue⟩⟩, c⟩ hd
          · exact hd
          · exact (List.suffix_cons v queue).trans hd
        emit := fun _ _ hd => hd }
    refine ⟨n', hrun, hn'.registers, hn'.memory, ?_, ?_, ?_⟩
    · rw [emitted, hn'.device]
      rfl
    · exact device_of_run hsuffix (List.suffix_refl _) h
    · rw [hn'.device]
  · rintro a rfl
    obtain ⟨hnil, hreceived, mid, hmid, hsink⟩ := run_extend_of_exhausted h ys
    have hsame : m'.emitted = mid.emitted := by rw [emitted, emitted, hsink]
    refine ⟨hnil, hreceived, ⟨mid, hmid⟩, ?_, ?_⟩
    · intro k x hk hx
      obtain ⟨i, rfl⟩ : ∃ i, k = m'.registers.cycles + i := ⟨k - m'.registers.cycles, by omega⟩
      rw [after_add hmid] at hx
      rw [hsame]
      exact device_of_after (kept_emitted mid.emitted) (List.prefix_refl _) hx
    · intro turns n' result' hrun
      rw [hsame]
      exact emitted_of_run hmid hrun

/-- Gives out what it takes in, and halts at the first zero. -/
def echo (xs : List Word) : Machine (Script × Collector) :=
  ofProgram [3, 20, 1006, 20, 10, 4, 20, 1105, 1, 0, 99] (⟨xs⟩, .plain)

/-- A script with a zero makes more values irrelevant; without one the run ends for want of
input, and goes on from there if there is more. -/
theorem run_extend_echo :
    (∃ m' n', (echo [5, 0, 8]).run .plain 8 = some (m', .ok ⟨7, .halt⟩)
        ∧ (echo [5, 0, 8, 9]).run .plain 8 = some (n', .ok ⟨7, .halt⟩)
        ∧ n'.memory = m'.memory ∧ n'.emitted = [5] ∧ n'.device.1.queue = [8, 9])
      ∧ ∃ m', (echo [5]).run .plain 5 = some (m', .error (.inputExhausted 0))
        ∧ (echo [5]).start.received .plain 4 = [5]
        ∧ ∀ turns n' result, (echo [5, 6]).run .plain turns = some (n', result) →
            [5] <+: n'.emitted := by
  constructor
  · obtain ⟨m', hrun, hemitted, hqueue⟩ : ∃ m', (echo [5, 0, 8]).run .plain 8
        = some (m', .ok ⟨7, .halt⟩) ∧ m'.emitted = [5] ∧ m'.device.1.queue = [8] :=
      ⟨_, rfl, rfl, rfl⟩
    obtain ⟨n', hrun', -, hmemory, hemitted', -, hqueue'⟩ :=
      (run_extend .plain (echo [5, 0, 8]) m' 8 _ [9] hrun).1 nofun
    exact ⟨m', n', hrun, hrun', hmemory, hemitted'.trans hemitted, by rw [hqueue', hqueue]; rfl⟩
  · obtain ⟨m', hrun, hemitted, hcycles⟩ : ∃ m', (echo [5]).run .plain 5
        = some (m', .error (.inputExhausted 0)) ∧ m'.emitted = [5] ∧ m'.registers.cycles = 4 :=
      ⟨_, rfl, rfl, rfl⟩
    obtain ⟨-, hreceived, -, -, hfinal⟩ :=
      (run_extend .plain (echo [5]) m' 5 _ [6] hrun).2 0 rfl
    rw [hcycles] at hreceived
    rw [hemitted] at hfinal
    exact ⟨m', hrun, hreceived, hfinal⟩

end Intcode.Machine
