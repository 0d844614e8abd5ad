import Intcode.Proofs.Faults

/-!
# Runs and their devices

A machine sees its device through requests and deliveries only. This has two
consequences, and statements about input and output rest on them.

Whatever requests and deliveries preserve of a device, a run preserves
(`device_of_after`, `device_of_run`).

And two devices that answer requests alike cannot be told apart: machines that
agree in memory and registers stay so (`Alike`), whether their instructions are
reported or not. The second device needs to answer only the requests that the
first one answers (`Mirrors`), so the runs can part where the first device has
no value, but nowhere else (`Alike.after`, `Alike.run`). If the second device has
no value there either, they never part (`Answers`, `Alike.run_of_answers`).
-/

namespace Intcode.Machine

/-! ## What happens to a device -/

section Device

variable {δ : Type}

theorem store_device (m : Machine δ) (target value : Word) :
    (m.store target value).machine.device = m.device := by
  unfold store
  split <;> rfl

theorem fetched_device (trace : Bool) (m : Machine δ) (i : Instruction) :
    (m.fetched trace i).device = m.device := by
  cases trace <;> rfl

theorem finish_device (m : Machine δ) (ending : Ending) : (m.finish ending).device = m.device := by
  cases ending <;> rfl

variable [Source δ] [Sink δ]

/-- The device is left alone, asked once, or given one value. -/
theorem perform_device (m : Machine δ) (address : Nat) (e : Effect) :
    (m.perform address e).machine.device = m.device
      ∨ (m.perform address e).machine.device = (Source.request m.device).device
      ∨ ∃ value, (m.perform address e).machine.device = (Sink.emit m.device value).device := by
  cases e with
  | store target value => exact .inl (store_device m target value)
  | input target =>
      have hrequest : m.request.2.device = (Source.request m.device).device := rfl
      refine .inr (.inl ?_)
      rw [perform]
      split
      next heq => rw [store_device, ← hrequest, heq]
      next heq => rw [← hrequest, heq]
  | output value => exact .inr (.inr ⟨value, rfl⟩)
  | jump target =>
      rw [perform]
      split <;> exact .inl rfl
  | proceed | rebase | halt => exact .inl rfl

/-- Only the input instruction is ever without input, and it has fetched its parameter then. -/
theorem input_of_exhausted {m m' : Machine δ} {i : Instruction} {address a : Nat}
    (h : m.execute i address = ⟨m', some (.inputExhausted a)⟩) :
    a = address
      ∧ ∃ target cursor, (m.frame address).effect i m.registers.cursor = .ok (.input target) cursor
        ∧ (m.moveTo cursor).request.1 = none ∧ m' = (m.moveTo cursor).request.2 := by
  rw [execute] at h
  split at h
  next e cursor heffect =>
    rcases perform_eq_fault h with ⟨-, _, hfault, -⟩
      | ⟨target, rfl, hm', ⟨_, hfault, -⟩ | ⟨hfault, hnone⟩⟩
    · cases hfault
    · cases hfault
    · cases hfault
      exact ⟨rfl, target, cursor, heffect, hnone, hm'⟩
  next fault cursor heffect =>
    cases h
    obtain ⟨fetched, hfailure, -⟩ := Frame.effect_eq_error heffect
    rcases hfailure.cases_fault with ⟨hfault, -⟩ | ⟨_, hfault, -⟩ <;> cases hfault

/-- Where there is no input, the device was asked and had no value. -/
theorem device_of_exhausted {trace : Bool} {m m' : Machine δ} {a : Nat}
    (h : m.step trace = ⟨m', some (.inputExhausted a)⟩) :
    (Source.request m.device).value? = none
      ∧ m'.device = (Source.request m.device).device := by
  rcases step_cases trace m with ⟨word, -, -, hstep⟩
    | ⟨i, -, ⟨_, -, hstep⟩ | ⟨m₁, fault, hexecute, hstep⟩⟩
  · rw [hstep] at h
    cases h
  · rw [hstep] at h
    cases h
  · rw [hstep] at h
    cases h
    obtain ⟨-, target, cursor, -, hnone, rfl⟩ := input_of_exhausted hexecute
    rw [← fetched_device trace m i]
    exact ⟨hnone, rfl⟩

/-- A property of devices that requests and deliveries keep. -/
structure Kept (P : δ → Prop) : Prop where
  request : ∀ d, P d → P (Source.request d).device
  emit : ∀ d value, P d → P (Sink.emit d value).device

variable {P : δ → Prop} {config : Config}

theorem Kept.execute (hP : Kept P) {m : Machine δ} (h : P m.device) (i : Instruction)
    (address : Nat) : P (m.execute i address).machine.device := by
  rw [Machine.execute]
  split
  next e cursor heffect =>
    have hdevice : (m.moveTo cursor).device = m.device := rfl
    rcases perform_device (m.moveTo cursor) address e with heq | heq | ⟨value, heq⟩
    · rw [heq]
      exact h
    · rw [heq, hdevice]
      exact hP.request _ h
    · rw [heq, hdevice]
      exact hP.emit _ value h
  next => exact h

theorem Kept.step (hP : Kept P) {m : Machine δ} (h : P m.device) (trace : Bool) :
    P (m.step trace).machine.device := by
  rcases step_cases trace m with ⟨word, -, -, hstep⟩
    | ⟨i, -, ⟨m', hexecute, hstep⟩ | ⟨m', fault, hexecute, hstep⟩⟩
  · rw [hstep]
    exact h
  all_goals
    have hm' := hP.execute (m := m.fetched trace i) (by rwa [fetched_device]) i m.registers.cursor
    rw [hexecute] at hm'
    rw [hstep]
    exact hm'

theorem device_of_after (hP : Kept P) {m mid : Machine δ} (h : P m.device) {k : Nat}
    (hafter : m.after config k = some mid) : P mid.device := by
  refine invariant_of_after (P := fun m => P m.device) (fun hturn hdevice => ?_) h hafter
  have hstep := hP.step hdevice config.trace
  rwa [(step_of_turn hturn).2.2.2] at hstep

theorem device_of_ending (hP : Kept P) {m last : Machine δ} (h : P m.device) {ending : Ending}
    (hturn : m.turn config = (last, some ending)) : P last.device := by
  rcases turn_cases hturn with ⟨-, rfl, -⟩ | ⟨-, -, rfl, -⟩ | ⟨-, -, -, rfl, -⟩
    | ⟨-, -, -, fault, -, hstep⟩
  · exact h
  · exact h
  · exact h
  · have hlast := hP.step h config.trace
    rw [hstep] at hlast
    exact hlast

theorem device_of_run (hP : Kept P) {m m' : Machine δ} (h : P m.device) {turns : Nat}
    {result : RunResult} (hrun : m.run config turns = some (m', result)) : P m'.device := by
  obtain ⟨k, mid, last, ending, -, hafter, hturn, ⟨⟩⟩ := run_eq_some_iff.mp hrun
  rw [finish_device]
  exact device_of_ending hP (device_of_after (m := m.start) hP h hafter) hturn

end Device

/-! ## Devices that answer alike -/

variable {δ ε : Type}

/-- The machines agree in memory and registers, and their devices are related. -/
structure Alike (R : δ → ε → Prop) (m : Machine δ) (n : Machine ε) : Prop where
  memory : n.memory = m.memory
  registers : n.registers = m.registers
  device : R m.device n.device

/-- The outcomes are the same fault or none, and machines that are alike. -/
structure AlikeOutcome (R : δ → ε → Prop) (o : Outcome δ) (p : Outcome ε) : Prop where
  fault? : p.fault? = o.fault?
  machine : Alike R o.machine p.machine

/-- Where the first of two related devices has a value the second has the same, and they
stay related. -/
structure Mirrors [Source δ] [Sink δ] [Source ε] [Sink ε] (R : δ → ε → Prop) : Prop where
  request : ∀ {d e value}, R d e → (Source.request d).value? = some value →
    (Source.request e).value? = some value
      ∧ R (Source.request d).device (Source.request e).device
  emit : ∀ {d e}, R d e → ∀ value, R (Sink.emit d value).device (Sink.emit e value).device

/-- The outcome of an instruction, counted if there is no fault. -/
def counted (o : Outcome δ) : Outcome δ :=
  match o.fault? with
  | none => { o with machine := o.machine.countCycle }
  | some _ => o

theorem counted_fault? (o : Outcome δ) : (counted o).fault? = o.fault? := by
  obtain ⟨machine, _ | fault⟩ := o <;> rfl

theorem step_of_ofWord? [Source δ] [Sink δ] {trace : Bool} {m : Machine δ} {i : Instruction}
    (hi : Instruction.ofWord? (m.memory.get m.registers.cursor) = some i) :
    m.step trace = counted ((m.fetched trace i).execute i m.registers.cursor) := by
  simp only [step, hi]
  rfl

namespace Alike

variable {R : δ → ε → Prop} {m : Machine δ} {n : Machine ε}

theorem moveTo (h : Alike R m n) (cursor : Nat) : Alike R (m.moveTo cursor) (n.moveTo cursor) where
  memory := h.memory
  registers := by simp only [Machine.moveTo, h.registers]
  device := h.device

theorem rebase (h : Alike R m n) (base : Word) : Alike R (m.rebase base) (n.rebase base) where
  memory := h.memory
  registers := by simp only [Machine.rebase, h.registers]
  device := h.device

theorem store (h : Alike R m n) (target value : Word) :
    AlikeOutcome R (m.store target value) (n.store target value) := by
  rw [Machine.store, Machine.store, h.memory]
  cases m.memory.write target value with
  | ok memory => exact ⟨rfl, rfl, h.registers, h.device⟩
  | error fault => exact ⟨rfl, h⟩

theorem fetched (h : Alike R m n) (trace trace' : Bool) (i : Instruction) :
    Alike R (m.fetched trace i) (n.fetched trace' i) where
  memory := by cases trace <;> cases trace' <;> exact h.memory
  registers := by
    cases trace <;> cases trace' <;>
      simp [Machine.fetched, Machine.moveTo, Machine.report, h.registers]
  device := by rw [fetched_device, fetched_device]; exact h.device

theorem countCycle (h : Alike R m n) : Alike R m.countCycle n.countCycle where
  memory := h.memory
  registers := by simp only [Machine.countCycle, h.registers]
  device := h.device

theorem counted {o : Outcome δ} {p : Outcome ε} (h : AlikeOutcome R o p) :
    AlikeOutcome R (Machine.counted o) (Machine.counted p) := by
  rw [Machine.counted, Machine.counted, h.fault?]
  cases o.fault? with
  | none => exact ⟨rfl, h.machine.countCycle⟩
  | some fault => exact h

theorem start (h : Alike R m n) : Alike R m.start n.start :=
  ⟨h.memory, rfl, h.device⟩

theorem become (h : Alike R m n) (status : Status) :
    Alike R (m.become status) (n.become status) where
  memory := h.memory
  registers := by simp only [Machine.become, h.registers]
  device := h.device

/-- Reports make no difference. -/
theorem report (h : Alike R m n) (events events' : List Event) :
    Alike R (m.report events) (n.report events') :=
  ⟨h.memory, h.registers, h.device⟩

theorem finish (h : Alike R m n) (ending : Ending) :
    Alike R (m.finish ending) (n.finish ending) := by
  cases ending with
  | ok reason => exact (h.become _).report _ _
  | error fault => exact (h.become _).report _ _

theorem result (h : Alike R m n) (ending : Ending) : n.result ending = m.result ending :=
  result_congr (congrArg Registers.cycles h.registers) ending

variable [Source δ] [Sink δ] [Source ε] [Sink ε]

theorem request (hR : Mirrors R) (h : Alike R m n) {value : Word}
    (hvalue : m.request.1 = some value) :
    n.request.1 = some value ∧ Alike R m.request.2 n.request.2 := by
  obtain ⟨hvalue', hdevice⟩ := hR.request h.device hvalue
  exact ⟨hvalue', h.memory, h.registers, hdevice⟩

theorem perform (hR : Mirrors R) (h : Alike R m n) (address : Nat) (e : Effect)
    (hne : ∀ a, (m.perform address e).fault? ≠ some (.inputExhausted a)) :
    AlikeOutcome R (m.perform address e) (n.perform address e) := by
  cases e with
  | store target value => exact h.store target value
  | input target =>
      rw [Machine.perform] at hne
      rw [Machine.perform, Machine.perform]
      cases hvalue : m.request with
      | mk value? m₁ =>
          cases value? with
          | none =>
              rw [hvalue] at hne
              exact absurd rfl (hne address)
          | some value =>
              have hm : m.request.1 = some value := by rw [hvalue]
              have hm₁ : m.request.2 = m₁ := by rw [hvalue]
              obtain ⟨hn, halike⟩ := h.request hR hm
              rw [show n.request = (some value, n.request.2) from Prod.ext hn rfl]
              exact (hm₁ ▸ halike).store target value
  | output value => exact ⟨rfl, h.memory, h.registers, hR.emit h.device value⟩
  | jump target =>
      rw [Machine.perform, Machine.perform]
      cases target.toAddress? with
      | some cursor => exact ⟨rfl, h.moveTo cursor⟩
      | none => exact ⟨rfl, h⟩
  | proceed => exact ⟨rfl, h⟩
  | rebase base => exact ⟨rfl, h.rebase base⟩
  | halt => exact ⟨rfl, (h.report _ _).become _⟩

theorem execute (hR : Mirrors R) (h : Alike R m n) (i : Instruction) (address : Nat)
    (hne : ∀ a, (m.execute i address).fault? ≠ some (.inputExhausted a)) :
    AlikeOutcome R (m.execute i address) (n.execute i address) := by
  have hframe : n.frame address = m.frame address := by
    rw [frame, frame, h.memory, h.registers]
  rw [Machine.execute] at hne
  rw [Machine.execute, Machine.execute, hframe, h.registers]
  cases heffect : (m.frame address).effect i m.registers.cursor with
  | ok e cursor =>
      rw [heffect] at hne
      exact (h.moveTo cursor).perform hR address e hne
  | error fault cursor => exact ⟨rfl, h.moveTo cursor⟩

theorem step (hR : Mirrors R) (h : Alike R m n) (trace trace' : Bool)
    (hne : ∀ a, (m.step trace).fault? ≠ some (.inputExhausted a)) :
    AlikeOutcome R (m.step trace) (n.step trace') := by
  have hfetch : n.memory.get n.registers.cursor = m.memory.get m.registers.cursor := by
    rw [h.memory, h.registers]
  cases hi : Instruction.ofWord? (m.memory.get m.registers.cursor) with
  | none =>
      simp only [Machine.step, h.memory, h.registers, hi]
      exact ⟨rfl, h.moveTo _⟩
  | some i =>
      rw [step_of_ofWord? hi] at hne ⊢
      rw [step_of_ofWord? (hfetch.symm ▸ hi), h.registers]
      refine counted ((h.fetched trace trace' i).execute hR i m.registers.cursor fun a => ?_)
      rw [← counted_fault?]
      exact hne a

variable {trace : Bool} {limit : Option Nat}

/-- A turn does the same on both machines, unless the first has no input. -/
theorem turn (hR : Mirrors R) (h : Alike R m n) (trace' : Bool) {m' : Machine δ}
    {ending? : Option Ending} (hturn : m.turn ⟨trace, limit⟩ = (m', ending?))
    (hne : ∀ a, ending? ≠ some (.error (.inputExhausted a))) :
    ∃ n', n.turn ⟨trace', limit⟩ = (n', ending?) ∧ Alike R m' n' := by
  unfold Machine.turn at hturn ⊢
  rw [h.registers, h.memory]
  split at hturn
  next hstatus =>
    cases hturn
    exact ⟨n, if_pos hstatus, h⟩
  next hstatus =>
    rw [if_neg hstatus]
    split at hturn
    next hlimit =>
      cases hturn
      exact ⟨n, if_pos hlimit, h⟩
    next hlimit =>
      rw [if_neg hlimit]
      split at hturn
      next hextent =>
        cases hturn
        exact ⟨n, if_pos hextent, h⟩
      next hextent =>
        rw [if_neg hextent]
        cases hturn
        have hstep : ∀ a, (m.step trace).fault? ≠ some (.inputExhausted a) := by
          intro a hfault
          exact hne a (by rw [hfault]; rfl)
        obtain ⟨hfault, hmachine⟩ := h.step hR trace trace' hstep
        exact ⟨_, by simp only [hfault], hmachine⟩

/-- As long as instructions are completed, the first machine was never without input. -/
theorem after (hR : Mirrors R) (h : Alike R m n) (trace' : Bool) {k : Nat} {mid : Machine δ}
    (hafter : m.after ⟨trace, limit⟩ k = some mid) :
    ∃ mid', n.after ⟨trace', limit⟩ k = some mid' ∧ Alike R mid mid' :=
  simulation_of_after (fun halike hturn => halike.turn hR trace' hturn nofun) h hafter

/-- A run that does not end for want of input is the same run with the second device. -/
theorem run (hR : Mirrors R) (h : Alike R m n) (trace' : Bool) {turns : Nat} {m' : Machine δ}
    {result : RunResult} (hrun : m.run ⟨trace, limit⟩ turns = some (m', result))
    (hne : ∀ a, result ≠ .error (.inputExhausted a)) :
    ∃ n', n.run ⟨trace', limit⟩ turns = some (n', result) ∧ Alike R m' n' := by
  obtain ⟨k, mid, last, ending, hk, hafter, hturn, ⟨⟩⟩ := run_eq_some_iff.mp hrun
  obtain ⟨mid', hafter', hmid⟩ := h.start.after hR trace' hafter
  have hinput : ∀ a, some ending ≠ some (.error (.inputExhausted a)) := by
    intro a hending
    exact hne a (result_eq_error_iff.mpr (Option.some.inj hending))
  obtain ⟨last', hturn', hlast⟩ := hmid.turn hR trace' hturn hinput
  refine ⟨_, ?_, hlast.finish ending⟩
  rw [run_of_turn hk hafter' hturn', hlast.result]

end Alike

/-! ## Devices that are without a value at the same time -/

/-- Related devices have the same value or none, and stay related. -/
structure Answers [Source δ] [Sink δ] [Source ε] [Sink ε] (R : δ → ε → Prop) : Prop where
  request : ∀ {d e}, R d e → (Source.request e).value? = (Source.request d).value?
    ∧ R (Source.request d).device (Source.request e).device
  emit : ∀ {d e}, R d e → ∀ value, R (Sink.emit d value).device (Sink.emit e value).device

theorem Alike.symm {R : δ → ε → Prop} {m : Machine δ} {n : Machine ε} (h : Alike R m n) :
    Alike (fun e d => R d e) n m :=
  ⟨h.memory.symm, h.registers.symm, h.device⟩

variable [Source δ] [Sink δ] [Source ε] [Sink ε] {R : δ → ε → Prop}

namespace Answers

theorem mirrors (hR : Answers R) : Mirrors R where
  request := by
    intro d e value h hvalue
    obtain ⟨heq, hdevice⟩ := hR.request h
    exact ⟨heq.trans hvalue, hdevice⟩
  emit := hR.emit

theorem symm (hR : Answers R) : Answers fun e d => R d e where
  request := by
    intro e d h
    obtain ⟨heq, hdevice⟩ := hR.request h
    exact ⟨heq.symm, hdevice⟩
  emit := hR.emit

end Answers

namespace Alike

variable {m m' : Machine δ} {n : Machine ε} {trace : Bool} {limit : Option Nat}

theorem execute_exhausted (hR : Answers R) (h : Alike R m n) {i : Instruction} {address a : Nat}
    (hexecute : m.execute i address = ⟨m', some (.inputExhausted a)⟩) :
    ∃ n', n.execute i address = ⟨n', some (.inputExhausted a)⟩ ∧ Alike R m' n' := by
  obtain ⟨rfl, target, cursor, heffect, hnone, rfl⟩ := input_of_exhausted hexecute
  obtain ⟨hvalue, hdevice⟩ := hR.request h.device
  have hframe : n.frame a = m.frame a := by
    rw [frame, frame, h.memory, h.registers]
  have hrequest : (n.moveTo cursor).request = (none, (n.moveTo cursor).request.2) :=
    Prod.ext (hvalue.trans hnone) rfl
  refine ⟨(n.moveTo cursor).request.2, ?_, ?_⟩
  · rw [Machine.execute, hframe, h.registers, heffect]
    simp only [Machine.perform]
    rw [hrequest]
  · exact ⟨h.memory, (h.moveTo cursor).registers, hdevice⟩

theorem step_exhausted (hR : Answers R) (h : Alike R m n) (trace' : Bool) {a : Nat}
    (hstep : m.step trace = ⟨m', some (.inputExhausted a)⟩) :
    ∃ n', n.step trace' = ⟨n', some (.inputExhausted a)⟩ ∧ Alike R m' n' := by
  rcases step_cases trace m with ⟨word, -, -, heq⟩
    | ⟨i, hi, ⟨_, -, heq⟩ | ⟨m₁, fault, hexecute, heq⟩⟩
  · rw [heq] at hstep
    cases hstep
  · rw [heq] at hstep
    cases hstep
  · rw [heq] at hstep
    cases hstep
    obtain ⟨n', hn', halike⟩ := (h.fetched trace trace' i).execute_exhausted hR hexecute
    refine ⟨n', ?_, halike⟩
    have hi' : Instruction.ofWord? (n.memory.get n.registers.cursor) = some i := by
      rw [h.memory, h.registers, hi]
    rw [step_of_ofWord? hi', h.registers, hn']
    rfl

/-- A turn does the same on both machines, whatever it does. -/
theorem turn_of_answers (hR : Answers R) (h : Alike R m n) (trace' : Bool)
    {ending? : Option Ending} (hturn : m.turn ⟨trace, limit⟩ = (m', ending?)) :
    ∃ n', n.turn ⟨trace', limit⟩ = (n', ending?) ∧ Alike R m' n' := by
  by_cases hexhausted : ∃ a, ending? = some (.error (.inputExhausted a))
  · obtain ⟨a, rfl⟩ := hexhausted
    rcases turn_cases hturn with ⟨⟨⟩, -⟩ | ⟨-, ⟨⟩, -⟩ | ⟨-, -, ⟨⟩, -⟩
      | ⟨hrunning, hlimit, hextent, _, ⟨⟩, hstep⟩
    obtain ⟨n', hn', halike⟩ := h.step_exhausted hR trace' hstep
    refine ⟨n', ?_, halike⟩
    rw [turn_of_inside (by rw [h.registers, hrunning])
      (by rw [LimitReached, h.registers]; exact hlimit)
      (by rw [h.registers, h.memory]; exact hextent), hn']
    rfl
  · exact h.turn hR.mirrors trace' hturn fun a ha => hexhausted ⟨a, ha⟩

/-- A run is the same run with the second device, however it ends. -/
theorem run_of_answers (hR : Answers R) (h : Alike R m n) (trace' : Bool) {turns : Nat}
    {result : RunResult} (hrun : m.run ⟨trace, limit⟩ turns = some (m', result)) :
    ∃ n', n.run ⟨trace', limit⟩ turns = some (n', result) ∧ Alike R m' n' := by
  obtain ⟨k, mid, last, ending, hk, hafter, hturn, ⟨⟩⟩ := run_eq_some_iff.mp hrun
  obtain ⟨mid', hafter', hmid⟩ := h.start.after hR.mirrors trace' hafter
  obtain ⟨last', hturn', hlast⟩ := hmid.turn_of_answers hR trace' hturn
  refine ⟨_, ?_, hlast.finish ending⟩
  rw [run_of_turn hk hafter' hturn', hlast.result]

/-- What is made of the results of the two runs is the same, if it is the same for machines that
are alike. Neither run can end without the other. -/
theorem bind_run {α : Type} (hR : Answers R) (h : Alike R m n) (config : Config) (turns : Nat)
    {f : Machine δ × RunResult → Option α} {g : Machine ε × RunResult → Option α}
    (hfg : ∀ {m' n'} (result : RunResult), Alike R m' n' → f (m', result) = g (n', result)) :
    (m.run config turns).bind f = (n.run config turns).bind g := by
  cases hm : m.run config turns with
  | some result =>
      obtain ⟨n', hn, hn'⟩ := h.run_of_answers hR config.trace hm
      rw [hn]
      exact hfg _ hn'
  | none =>
      cases hn : n.run config turns with
      | none => rfl
      | some result =>
          obtain ⟨m', hrun, -⟩ := h.symm.run_of_answers hR.symm config.trace hn
          rw [hm] at hrun
          cases hrun

end Alike

end Intcode.Machine
