import Intcode.Proofs.Counters
import Intcode.Proofs.Devices
import Intcode.Proofs.Truncation

/-!
# Programs with zeros behind them

A cell that was never stored holds zero, so zeros behind a program change nothing
that a cell shows; they only make the extent reach further. An instruction sees
memory cell by cell, wherever its parameters stand, and so both programs go
through machines that differ in the extent alone (`Pads.turn`). The extent is
seen where a run would leave it. There the padded program finds a zero, which
spells no instruction, unless its own extent ends there too (`run_padded`).
-/

namespace Intcode

/-! ## Memory seen cell by cell -/

theorem Memory.get_append_replicate (words : List Word) (k a : Nat) :
    (load (words ++ List.replicate k 0)).get a = (load words).get a := by
  rw [get_load, get_load, List.getD_eq_getElem?_getD, List.getD_eq_getElem?_getD,
    List.getElem?_append]
  by_cases ha : a < words.length
  · rw [if_pos ha]
  · rw [if_neg ha, List.getElem?_replicate, List.getElem?_eq_none (Nat.le_of_not_lt ha)]
    split <;> rfl

theorem Memory.Sound.get_of_extent_le {m : Memory} (h : m.Sound) {a : Nat} (ha : m.extent ≤ a) :
    m.get a = 0 := by
  refine Std.TreeMap.getD_eq_fallback fun hmem => ?_
  have := h.below a hmem
  omega

namespace Frame

/-- An instruction sees the same of both machines. -/
structure Same (f g : Frame) : Prop where
  get : ∀ a, g.memory.get a = f.memory.get a
  base : g.base = f.base
  address : g.address = f.address

namespace Same

variable {f g : Frame}

theorem next (h : Same f g) : g.next = f.next := by
  simp only [Frame.next, h.get]

theorem checked (h : Same f g) : g.checked = f.checked := by
  funext value
  cases value with
  | some w => rfl
  | none => simp only [Frame.checked, h.address]

theorem read (h : Same f g) : g.read = f.read := by
  funext address
  simp only [Frame.read, Memory.read, h.get]

theorem operand (h : Same f g) : g.operand = f.operand := by
  funext mode
  simp only [Frame.operand, h.next, h.read, h.checked, h.base]

theorem target (h : Same f g) : g.target = f.target := by
  funext mode
  simp only [Frame.target, h.next, h.checked, h.base]

theorem combine (h : Same f g) : g.combine = f.combine := by
  funext i op
  simp only [Frame.combine, h.operand, h.target, h.checked]

theorem branch (h : Same f g) : g.branch = f.branch := by
  funext i condition
  simp only [Frame.branch, h.operand]

theorem effect (h : Same f g) : g.effect = f.effect := by
  funext i
  simp only [Frame.effect, h.combine, h.branch, h.operand, h.target, h.checked, h.base]

end Same

end Frame

/-! ## Machines that differ in the extent -/

namespace Machine

variable {δ : Type}

/-- The machines agree in every cell, in the registers and in the device. The second may
reach further. -/
structure Pads (m n : Machine δ) : Prop where
  get : ∀ a, n.memory.get a = m.memory.get a
  extent : m.memory.extent ≤ n.memory.extent
  registers : n.registers = m.registers
  device : n.device = m.device

structure PadsOutcome (o p : Outcome δ) : Prop where
  fault? : p.fault? = o.fault?
  machine : Pads o.machine p.machine

namespace Pads

variable {m n : Machine δ}

theorem moveTo (h : Pads m n) (cursor : Nat) : Pads (m.moveTo cursor) (n.moveTo cursor) :=
  ⟨h.get, h.extent, by simp only [Machine.moveTo, h.registers], h.device⟩

theorem rebase (h : Pads m n) (base : Word) : Pads (m.rebase base) (n.rebase base) :=
  ⟨h.get, h.extent, by simp only [Machine.rebase, h.registers], h.device⟩

theorem become (h : Pads m n) (status : Status) : Pads (m.become status) (n.become status) :=
  ⟨h.get, h.extent, by simp only [Machine.become, h.registers], h.device⟩

theorem countCycle (h : Pads m n) : Pads m.countCycle n.countCycle :=
  ⟨h.get, h.extent, by simp only [Machine.countCycle, h.registers], h.device⟩

theorem report (h : Pads m n) (events events' : List Event) :
    Pads (m.report events) (n.report events') :=
  ⟨h.get, h.extent, h.registers, h.device⟩

theorem start (h : Pads m n) : Pads m.start n.start :=
  ⟨h.get, h.extent, rfl, h.device⟩

theorem finish (h : Pads m n) (ending : Ending) : Pads (m.finish ending) (n.finish ending) := by
  cases ending with
  | ok reason => exact (h.become _).report _ _
  | error fault => exact (h.become _).report _ _

theorem result (h : Pads m n) (ending : Ending) : n.result ending = m.result ending :=
  result_congr (congrArg Registers.cycles h.registers) ending

theorem fetched (h : Pads m n) (trace : Bool) (i : Instruction) :
    Pads (m.fetched trace i) (n.fetched trace i) := by
  rw [Machine.fetched, Machine.fetched, h.registers]
  cases trace with
  | false => exact h.moveTo _
  | true => exact (h.moveTo _).report _ _

theorem frame (h : Pads m n) (address : Nat) : (m.frame address).Same (n.frame address) :=
  ⟨h.get, by rw [Machine.frame, Machine.frame, h.registers], rfl⟩

/-- A write makes both extents reach behind its cell. -/
theorem store (h : Pads m n) (target value : Word) :
    PadsOutcome (m.store target value) (n.store target value) := by
  rw [Machine.store, Machine.store, Memory.write, Memory.write]
  cases target.toAddress? with
  | none => exact ⟨rfl, h⟩
  | some cell =>
      refine ⟨rfl, ?_, ?_, h.registers, h.device⟩
      · intro a
        simp only [Memory.get_set, h.get]
      · simp only [Memory.extent_set]
        have := h.extent
        omega

theorem limitReached (h : Pads m n) {config : Config} :
    n.LimitReached config ↔ m.LimitReached config := by
  rw [LimitReached, LimitReached, h.registers]

theorem request [Source δ] (h : Pads m n) :
    n.request.1 = m.request.1 ∧ Pads m.request.2 n.request.2 := by
  have hrequest : Source.request n.device = Source.request m.device := by rw [h.device]
  refine ⟨congrArg Reply.value? hrequest, h.get, h.extent, h.registers, ?_⟩
  exact congrArg Reply.device hrequest

variable [Source δ] [Sink δ]

theorem perform (h : Pads m n) (address : Nat) (e : Effect) :
    PadsOutcome (m.perform address e) (n.perform address e) := by
  cases e with
  | store target value => exact h.store target value
  | input target =>
      obtain ⟨hvalue, hrequest⟩ := h.request
      rw [Machine.perform, Machine.perform]
      cases hm : m.request with
      | mk value? m₁ =>
          rw [hm] at hvalue hrequest
          rw [show n.request = (value?, n.request.2) from Prod.ext hvalue rfl]
          cases value? with
          | some value => exact hrequest.store target value
          | none => exact ⟨rfl, hrequest⟩
  | output value =>
      refine ⟨rfl, h.get, h.extent, h.registers, ?_⟩
      simp only [Machine.perform, Machine.emit, Machine.report, h.device]
  | jump target =>
      rw [Machine.perform, Machine.perform]
      cases target.toAddress? with
      | some cursor => exact ⟨rfl, h.moveTo cursor⟩
      | none => exact ⟨rfl, h⟩
  | proceed => exact ⟨rfl, h⟩
  | rebase base => exact ⟨rfl, h.rebase base⟩
  | halt => exact ⟨rfl, (h.report _ _).become _⟩

theorem execute (h : Pads m n) (i : Instruction) (address : Nat) :
    PadsOutcome (m.execute i address) (n.execute i address) := by
  rw [Machine.execute, Machine.execute, (h.frame address).effect, h.registers]
  cases (m.frame address).effect i m.registers.cursor with
  | ok e cursor => exact (h.moveTo cursor).perform address e
  | error fault cursor => exact ⟨rfl, h.moveTo cursor⟩

theorem step (h : Pads m n) (trace : Bool) : PadsOutcome (m.step trace) (n.step trace) := by
  have hword : n.memory.get n.registers.cursor = m.memory.get m.registers.cursor := by
    rw [h.get, h.registers]
  cases hi : Instruction.ofWord? (m.memory.get m.registers.cursor) with
  | none =>
      simp only [Machine.step, h.registers, h.get, hi]
      exact ⟨rfl, h.moveTo _⟩
  | some i =>
      obtain ⟨hfault, hmachine⟩ := (h.fetched trace i).execute i m.registers.cursor
      rw [step_of_ofWord? hi, step_of_ofWord? (hword.symm ▸ hi), h.registers, counted, counted,
        hfault]
      cases ((m.fetched trace i).execute i m.registers.cursor).fault? with
      | none => exact ⟨rfl, hmachine.countCycle⟩
      | some fault => exact ⟨hfault, hmachine⟩

/-! ## Runs -/

variable {config : Config} {m' : Machine δ}

theorem turn_of_cursor_lt (h : Pads m n) (hrunning : m.registers.status = .running)
    (hlimit : ¬m.LimitReached config) (hextent : m.registers.cursor < m.memory.extent)
    {fault? : Option Fault} (hstep : m.step config.trace = ⟨m', fault?⟩) :
    ∃ n', n.turn config = (n', fault?.map .error) ∧ Pads m' n' := by
  obtain ⟨hfault, hmachine⟩ := h.step config.trace
  rw [hstep] at hfault hmachine
  refine ⟨_, ?_, hmachine⟩
  have hinside : n.registers.cursor < n.memory.extent := by
    rw [h.registers]
    exact Nat.lt_of_lt_of_le hextent h.extent
  rw [turn_of_inside (by rw [h.registers, hrunning]) (mt h.limitReached.mp hlimit) hinside, hfault]

/-- As long as the first machine is inside its extent, a turn does the same on both. -/
theorem turn (h : Pads m n) {ending? : Option Ending} (hturn : m.turn config = (m', ending?))
    (hne : ending? ≠ some (.ok .endOfProgram)) :
    ∃ n', n.turn config = (n', ending?) ∧ Pads m' n' := by
  cases ending? with
  | none =>
      obtain ⟨hrunning, hlimit, hextent, hstep⟩ := step_of_turn hturn
      exact h.turn_of_cursor_lt hrunning hlimit hextent hstep
  | some ending =>
      rcases turn_cases hturn with ⟨rfl, rfl, hstatus⟩ | ⟨hrunning, rfl, rfl, hlimit⟩
        | ⟨-, -, rfl, -⟩ | ⟨hrunning, hlimit, hextent, fault, rfl, hstep⟩
      · exact ⟨n, turn_of_halted (by rwa [h.registers]), h⟩
      · exact ⟨n, turn_of_limitReached (by rwa [h.registers]) (h.limitReached.mpr hlimit), h⟩
      · exact absurd rfl hne
      · exact h.turn_of_cursor_lt hrunning hlimit hextent hstep

/-- Where the first machine leaves its extent, the second leaves its own or finds a zero. -/
theorem turn_endOfProgram (h : Pads m n) (hsound : m.memory.Sound)
    (hturn : m.turn config = (m', some (.ok .endOfProgram))) :
    m' = m
      ∧ ((n.memory.extent ≤ m.registers.cursor
          ∧ n.turn config = (n, some (.ok .endOfProgram)))
        ∨ (m.registers.cursor < n.memory.extent
          ∧ n.turn config = (n.moveTo (m.registers.cursor + 1),
            some (.error (.invalidOperation 0 m.registers.cursor))))) := by
  rcases turn_cases hturn with ⟨⟨⟩, -⟩ | ⟨-, ⟨⟩, -⟩ | ⟨hrunning, hlimit, -, rfl, hextent⟩
    | ⟨-, -, -, _, ⟨⟩, -⟩
  have hrunning' : n.registers.status = .running := by rw [h.registers, hrunning]
  have hlimit' : ¬n.LimitReached config := mt h.limitReached.mp hlimit
  refine ⟨rfl, ?_⟩
  by_cases hend : n.memory.extent ≤ m'.registers.cursor
  · exact .inl ⟨hend, turn_of_outside hrunning' hlimit' (by rwa [h.registers])⟩
  · have hinside : m'.registers.cursor < n.memory.extent := Nat.lt_of_not_le hend
    have hzero : n.memory.get m'.registers.cursor = 0 := by
      rw [h.get, hsound.get_of_extent_le hextent]
    refine .inr ⟨hinside, ?_⟩
    rw [turn_of_inside hrunning' hlimit' (by rwa [h.registers])]
    simp only [Machine.step, h.registers, hzero]
    rfl

theorem after (h : Pads m n) {k : Nat} {mid : Machine δ}
    (hafter : m.after config k = some mid) :
    ∃ mid', n.after config k = some mid' ∧ Pads mid mid' :=
  simulation_of_after (fun hpads hturn => hpads.turn hturn nofun) h hafter

theorem run (h : Pads m n) {turns : Nat} {result : RunResult}
    (hrun : m.run config turns = some (m', result))
    (hne : ∀ cycles, result ≠ .ok ⟨cycles, .endOfProgram⟩) :
    ∃ n', n.run config turns = some (n', result) ∧ Pads m' n' := by
  obtain ⟨k, mid, last, ending, hk, hafter, hturn, ⟨⟩⟩ := run_eq_some_iff.mp hrun
  obtain ⟨mid', hafter', hmid⟩ := h.start.after hafter
  have hinside : some ending ≠ some (.ok .endOfProgram) := fun hending =>
    hne _ (result_eq_ok_iff.mpr ⟨Option.some.inj hending, rfl⟩)
  obtain ⟨last', hturn', hlast⟩ := hmid.turn hturn hinside
  refine ⟨_, ?_, hlast.finish ending⟩
  rw [run_of_turn hk hafter' hturn', hlast.result]

end Pads

/-- What is left of a run that goes on behind the extent of another one: it ends there too,
or it fails at a zero. -/
def EndsBehind (m n : Machine δ) (result : RunResult) : Prop :=
  (∀ a, n.memory.get a = m.memory.get a) ∧ n.device = m.device
    ∧ ((n.memory.extent ≤ m.registers.cursor
        ∧ result = .ok ⟨m.registers.cycles, .endOfProgram⟩ ∧ n.registers = m.registers)
      ∨ (m.registers.cursor < n.memory.extent
        ∧ result = .error (.invalidOperation 0 m.registers.cursor)
        ∧ n.registers = ⟨m.registers.cursor + 1, m.registers.base, m.registers.cycles, .faulted⟩))

theorem Pads.run_endOfProgram [Source δ] [Sink δ] {m n m' : Machine δ} {config : Config}
    {turns cycles : Nat} (h : Pads m n) (hsound : m.memory.Sound)
    (hrun : m.run config turns = some (m', .ok ⟨cycles, .endOfProgram⟩)) :
    ∃ n' result, n.run config turns = some (n', result) ∧ m'.EndsBehind n' result := by
  obtain ⟨k, mid, last, ending, hk, hafter, hturn, hended⟩ := run_eq_some_iff.mp hrun
  obtain ⟨rfl, hresult⟩ := Prod.mk.inj hended
  obtain ⟨rfl, -⟩ := result_eq_ok_iff.mp hresult.symm
  have hsound' : mid.memory.Sound :=
    memory_of_after (fun _ _ hwrote => hwrote.sound) (m := m.start) hsound hafter
  obtain ⟨mid', hafter', hmid⟩ := h.start.after hafter
  obtain ⟨rfl, ⟨hextent, hturn'⟩ | ⟨hextent, hturn'⟩⟩ := hmid.turn_endOfProgram hsound' hturn
  · have hfinish := hmid.finish (.ok .endOfProgram)
    exact ⟨_, _, run_of_turn hk hafter' hturn', hfinish.get, hfinish.device,
      .inl ⟨hextent, hmid.result _, hfinish.registers⟩⟩
  · refine ⟨_, _, run_of_turn hk hafter' hturn', hmid.get, hmid.device,
      .inr ⟨hextent, rfl, ?_⟩⟩
    show (⟨_, mid'.registers.base, mid'.registers.cycles, .faulted⟩ : Registers) = _
    rw [hmid.registers]
    rfl

theorem pads_ofProgram (words : List Word) (k : Nat) (device : δ) :
    Pads (ofProgram words device) (ofProgram (words ++ List.replicate k 0) device) where
  get := Memory.get_append_replicate words k
  extent := by
    show words.length ≤ (words ++ List.replicate k 0).length
    rw [List.length_append]
    exact Nat.le_add_right _ _
  registers := rfl
  device := rfl

/-- **Zero padding.** A program and the same program with zeros behind it complete the same
instructions with the same effects. If the run of the first ends inside its extent, the
second has the same result and leaves the same machine, cell by cell. If it ends at the end
of its extent, the second ends there as well, or fails at the zero that it finds there. -/
theorem run_padded [Source δ] [Sink δ] (config : Config) (words : List Word) (k : Nat)
    (device : δ) :
    (∀ j mid, (ofProgram words device).start.after config j = some mid →
        ∃ mid', (ofProgram (words ++ List.replicate k 0) device).start.after config j
            = some mid' ∧ mid.Pads mid')
      ∧ ∀ turns m' result, (ofProgram words device).run config turns = some (m', result) →
          ((∀ cycles, result ≠ .ok ⟨cycles, .endOfProgram⟩) →
            ∃ n', (ofProgram (words ++ List.replicate k 0) device).run config turns
                = some (n', result) ∧ m'.Pads n')
          ∧ ∀ cycles, result = .ok ⟨cycles, .endOfProgram⟩ →
            ∃ n' result', (ofProgram (words ++ List.replicate k 0) device).run config turns
                = some (n', result') ∧ m'.EndsBehind n' result' := by
  have hpads := pads_ofProgram words k device
  refine ⟨fun j mid hafter => hpads.start.after hafter, fun turns m' result hrun => ⟨?_, ?_⟩⟩
  · intro hne
    exact hpads.run hrun hne
  · rintro cycles rfl
    exact hpads.run_endOfProgram (Memory.sound_load words) hrun

/-- Gives out a value and ends there. -/
def outputOnly : Machine (Script × Collector) :=
  ofProgram [104, 7] (⟨[]⟩, .plain)

/-- With zeros behind it the program fails, after the same value. -/
theorem run_padded_outputOnly :
    (∃ m', outputOnly.run .plain 2 = some (m', .ok ⟨1, .endOfProgram⟩)
        ∧ m'.registers.cursor = 2)
      ∧ ∃ n', (ofProgram [104, 7, 0, 0] outputOnly.device).run .plain 2
          = some (n', .error (.invalidOperation 0 2))
        ∧ n'.device.2.values = #[7] ∧ n'.registers.cycles = 1 := by
  obtain ⟨m', hrun, hcursor, hvalues, hcycles⟩ : ∃ m',
      outputOnly.run .plain 2 = some (m', .ok ⟨1, .endOfProgram⟩) ∧ m'.registers.cursor = 2
        ∧ m'.device.2.values = #[7] ∧ m'.registers.cycles = 1 := ⟨_, rfl, rfl, rfl, rfl⟩
  refine ⟨⟨m', hrun, hcursor⟩, ?_⟩
  obtain ⟨n', result', hrun', -, hdevice, hends⟩ :=
    ((run_padded .plain [104, 7] 2 outputOnly.device).2 2 m' _ hrun).2 1 rfl
  have hresult : ((ofProgram [104, 7, 0, 0] outputOnly.device).run .plain 2).map Prod.snd
      = some (.error (.invalidOperation 0 2)) := rfl
  rw [show [104, 7] ++ List.replicate 2 0 = ([104, 7, 0, 0] : List Word) from rfl] at hrun'
  rw [hrun'] at hresult
  obtain rfl := Option.some.inj hresult
  rcases hends with ⟨-, ⟨⟩, -⟩ | ⟨-, -, hregisters⟩
  exact ⟨n', hrun', by rw [hdevice, hvalues], by rw [hregisters, hcycles]⟩

end Machine

end Intcode
