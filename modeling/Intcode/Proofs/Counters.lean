import Intcode.Proofs.Faults

/-!
# Counters of 64 bits

Cursors, addresses and counts of instructions are natural numbers here, but none
of them ever needs more than 64 bits (`run_bounded`). The reason is spread over
the machine. A word names no cell from 2^63 on, so memory that was filled by
loads and writes ends there (`Reachable.extent_le`). A jump leads to a cell that
a word names. And an instruction is fetched only from below the extent, with at
most three parameter words behind it, so the cursor gets past the last cell by
three words and no more.

The points of a run are not only those between two instructions: `Advances` says
through which places a computation moves the cursor while it fetches.
-/

namespace Intcode

/-! ## Memory -/

namespace Memory

/-- The loaded cells are stored, and all stored cells are below the extent. -/
structure Sound (m : Memory) : Prop where
  loadedLength_le : m.loadedLength ≤ m.extent
  loaded : ∀ a < m.loadedLength, a ∈ m.cells
  below : ∀ a ∈ m.cells, a < m.extent

/-- The program stays the same, and no cell that is stored is lost. -/
structure Grows (m m' : Memory) : Prop where
  loadedLength : m'.loadedLength = m.loadedLength
  extent : m.extent ≤ m'.extent
  cells : ∀ a ∈ m.cells, a ∈ m'.cells

theorem mem_cells_load {words : List Word} {a : Nat} :
    a ∈ (load words).cells ↔ a < words.length := by
  rw [Std.TreeMap.mem_iff_isSome_getElem?, getElem?_cells_load]
  simp

theorem mem_cells_set {m : Memory} {address a : Nat} {value : Word} :
    a ∈ (m.set address value).cells ↔ address = a ∨ a ∈ m.cells := by
  rw [set, Std.TreeMap.mem_insert, Nat.compare_eq_eq]

theorem sound_empty : Sound empty where
  loadedLength_le := Nat.le_refl 0
  loaded := nofun
  below := fun _ ha => absurd ha Std.TreeMap.not_mem_emptyc

theorem sound_load (words : List Word) : Sound (load words) where
  loadedLength_le := Nat.le_refl words.length
  loaded := fun _ ha => mem_cells_load.mpr ha
  below := fun _ ha => mem_cells_load.mp ha

variable {m m' m'' : Memory}

theorem Sound.set (h : Sound m) (address : Nat) (value : Word) : Sound (m.set address value) where
  loadedLength_le := by
    rw [loadedLength_set, extent_set]
    exact Nat.le_trans h.loadedLength_le (Nat.le_max_left _ _)
  loaded := by
    intro a ha
    exact mem_cells_set.mpr (.inr (h.loaded a ha))
  below := by
    intro a ha
    rw [extent_set]
    rcases mem_cells_set.mp ha with rfl | ha
    · omega
    · have := h.below a ha
      omega

theorem Grows.refl (m : Memory) : Grows m m :=
  ⟨rfl, Nat.le_refl _, fun _ ha => ha⟩

theorem Grows.trans (h : Grows m m') (h' : Grows m' m'') : Grows m m'' where
  loadedLength := h'.loadedLength.trans h.loadedLength
  extent := Nat.le_trans h.extent h'.extent
  cells := fun a ha => h'.cells a (h.cells a ha)

theorem grows_set (m : Memory) (address : Nat) (value : Word) : Grows m (m.set address value) where
  loadedLength := rfl
  extent := Nat.le_max_left _ _
  cells := fun _ ha => mem_cells_set.mpr (.inr ha)

/-- Nothing was written, or one cell that a word can name. -/
def Wrote (m m' : Memory) : Prop :=
  m' = m ∨ ∃ cell value, cell < 0x8000000000000000 ∧ m' = m.set cell value

theorem Wrote.grows (h : Wrote m m') : Grows m m' := by
  rcases h with rfl | ⟨cell, value, -, rfl⟩
  · exact .refl _
  · exact grows_set m cell value

theorem Wrote.sound (h : Wrote m m') (hm : Sound m) : Sound m' := by
  rcases h with rfl | ⟨cell, value, -, rfl⟩
  · exact hm
  · exact hm.set cell value

theorem Wrote.extent_le (h : Wrote m m') (hm : m.extent ≤ 0x8000000000000000) :
    m'.extent ≤ 0x8000000000000000 := by
  rcases h with rfl | ⟨cell, value, hcell, rfl⟩
  · exact hm
  · rw [extent_set]
    omega

end Memory

/-! ## Where the cursor goes -/

/-- Run from a cursor, the computation moves it to these places, one after the other. -/
inductive Fetch.Advances : {α : Type} → Fetch α → Nat → List Nat → Prop
  | pure {α : Type} (a : α) (cursor : Nat) : Advances (pure a : Fetch α) cursor []
  | throw {α : Type} (fault : Fault) (cursor : Nat) : Advances (throw fault : Fetch α) cursor []
  | next (f : Frame) (cursor : Nat) : Advances f.next cursor [cursor + 1]
  | bind {α β : Type} {x : Fetch α} {g : α → Fetch β} {cursor mid : Nat} {a : α}
      {places places' : List Nat} (hx : Advances x cursor places) (hok : x cursor = .ok a mid)
      (hg : Advances (g a) mid places') : Advances (x >>= g) cursor (places ++ places')
  | stop {α β : Type} {x : Fetch α} {g : α → Fetch β} {cursor mid : Nat} {fault : Fault}
      {places : List Nat} (hx : Advances x cursor places) (herror : x cursor = .error fault mid) :
      Advances (x >>= g) cursor places

namespace Fetch

variable {α β : Type}

/-- The cursor when a computation is over. -/
def final (x : Fetch α) (cursor : Nat) : Nat :=
  match x cursor with
  | .ok _ cursor' => cursor'
  | .error _ cursor' => cursor'

theorem final_of_ok {x : Fetch α} {cursor cursor' : Nat} {a : α} (h : x cursor = .ok a cursor') :
    x.final cursor = cursor' := by
  rw [final, h]

theorem final_of_error {x : Fetch α} {cursor cursor' : Nat} {fault : Fault}
    (h : x cursor = .error fault cursor') : x.final cursor = cursor' := by
  rw [final, h]

theorem final_bind_of_ok {x : Fetch α} {g : α → Fetch β} {cursor mid : Nat} {a : α}
    (h : x cursor = .ok a mid) : (x >>= g).final cursor = (g a).final mid := by
  show final (EStateM.bind x g) cursor = _
  simp only [final, EStateM.bind, h]

theorem final_bind_of_error {x : Fetch α} {g : α → Fetch β} {cursor mid : Nat} {fault : Fault}
    (h : x cursor = .error fault mid) : (x >>= g).final cursor = mid := by
  show final (EStateM.bind x g) cursor = _
  simp only [final, EStateM.bind, h]

/-- However a computation is put together, it moves the cursor on by one word at a time. -/
theorem Advances.eq_range' {x : Fetch α} {cursor : Nat} {places : List Nat}
    (h : x.Advances cursor places) :
    x.final cursor = cursor + places.length
      ∧ places = List.range' (cursor + 1) places.length := by
  induction h with
  | pure | throw => exact ⟨rfl, rfl⟩
  | next f cursor => exact ⟨rfl, rfl⟩
  | bind hx hok hg ihx ihg =>
      rw [final_of_ok hok] at ihx
      obtain ⟨rfl, hplaces⟩ := ihx
      obtain ⟨hfinal, hplaces'⟩ := ihg
      rw [final_bind_of_ok hok, hfinal, List.length_append]
      refine ⟨by omega, ?_⟩
      rw [← List.range'_append_1, ← hplaces, Nat.add_right_comm, ← hplaces']
  | stop hx herror ihx =>
      rw [final_of_error herror] at ihx
      rw [final_bind_of_error herror]
      exact ihx

theorem Advances.le_final {x : Fetch α} {cursor place : Nat} {places : List Nat}
    (h : x.Advances cursor places) (hplace : place ∈ places) : place ≤ x.final cursor := by
  obtain ⟨hfinal, hplaces⟩ := h.eq_range'
  rw [hplaces, List.mem_range'_1] at hplace
  omega

/-- A computation that is put together from fetches. -/
def Tracked (x : Fetch α) : Prop :=
  ∀ cursor, ∃ places, x.Advances cursor places

theorem tracked_pure (a : α) : Tracked (pure a : Fetch α) :=
  fun cursor => ⟨_, .pure a cursor⟩

theorem tracked_throw (fault : Fault) : Tracked (throw fault : Fetch α) :=
  fun cursor => ⟨_, .throw fault cursor⟩

theorem Tracked.bind {x : Fetch α} {g : α → Fetch β} (hx : x.Tracked) (hg : ∀ a, (g a).Tracked) :
    (x >>= g).Tracked := by
  intro cursor
  obtain ⟨places, hplaces⟩ := hx cursor
  cases hresult : x cursor with
  | ok a mid =>
      obtain ⟨places', hplaces'⟩ := hg a mid
      exact ⟨_, .bind hplaces hresult hplaces'⟩
  | error fault mid => exact ⟨_, .stop hplaces hresult⟩

end Fetch

namespace Frame

variable (f : Frame)

theorem tracked_next : f.next.Tracked :=
  fun cursor => ⟨_, .next f cursor⟩

theorem tracked_checked (value : Option Word) : (f.checked value).Tracked := by
  cases value with
  | some w => exact Fetch.tracked_pure w
  | none => exact Fetch.tracked_throw _

theorem tracked_read (address : Word) : (f.read address).Tracked := by
  rw [read]
  cases f.memory.read address with
  | ok w => exact Fetch.tracked_pure w
  | error fault => exact Fetch.tracked_throw fault

theorem tracked_operand (mode : Mode) : (f.operand mode).Tracked := by
  refine f.tracked_next.bind fun raw => ?_
  cases mode with
  | positional => exact f.tracked_read raw
  | immediate => exact Fetch.tracked_pure raw
  | relative => exact (f.tracked_checked _).bind f.tracked_read

theorem tracked_target (mode : Mode) : (f.target mode).Tracked := by
  refine f.tracked_next.bind fun raw => ?_
  cases mode with
  | positional | immediate => exact Fetch.tracked_pure raw
  | relative => exact f.tracked_checked _

theorem tracked_combine (i : Instruction) (op : Word → Word → Option Word) :
    (f.combine i op).Tracked := by
  refine (f.tracked_operand i.first).bind fun a => ?_
  refine (f.tracked_operand i.second).bind fun b => ?_
  refine (f.tracked_target i.third).bind fun target => ?_
  exact (f.tracked_checked (op a b)).bind fun value => Fetch.tracked_pure _

theorem tracked_branch (i : Instruction) (condition : Word → Bool) :
    (f.branch i condition).Tracked := by
  refine (f.tracked_operand i.first).bind fun a => ?_
  exact (f.tracked_operand i.second).bind fun target => Fetch.tracked_pure _

theorem tracked_effect (i : Instruction) : (f.effect i).Tracked := by
  rw [effect]
  cases i.opcode with
  | add | multiply | lessThan | equals => exact f.tracked_combine i _
  | jumpIfTrue | jumpIfFalse => exact f.tracked_branch i _
  | input => exact (f.tracked_target i.first).bind fun target => Fetch.tracked_pure _
  | output => exact (f.tracked_operand i.first).bind fun value => Fetch.tracked_pure _
  | adjustBase =>
      refine (f.tracked_operand i.first).bind fun a => ?_
      exact (f.tracked_checked _).bind fun base => Fetch.tracked_pure _
  | halt => exact Fetch.tracked_pure _

theorem final_effect_le (i : Instruction) (cursor : Nat) :
    (f.effect i).final cursor ≤ cursor + 3 := by
  have hcount := i.opcode.parameterCount_le
  cases heffect : f.effect i cursor with
  | ok e cursor' =>
      obtain ⟨rfl, -⟩ := effect_eq_ok heffect
      rw [Fetch.final_of_ok heffect]
      omega
  | error fault cursor' =>
      obtain ⟨fetched, hfailure, rfl⟩ := effect_eq_error heffect
      have := hfailure.fetched_le
      rw [Fetch.final_of_error heffect]
      omega

end Frame

/-! ## What an instruction moves and writes -/

namespace Machine

variable {δ ε : Type}

theorem wrote_store (m : Machine δ) (target value : Word) :
    m.memory.Wrote (m.store target value).machine.memory := by
  rw [store, Memory.write]
  cases haddress : target.toAddress? with
  | some a => exact .inr ⟨a, value, Word.lt_of_toAddress? haddress, rfl⟩
  | none => exact .inl rfl

theorem store_registers (m : Machine δ) (target value : Word) :
    (m.store target value).machine.registers = m.registers := by
  unfold store
  split <;> rfl

theorem fetched_memory (trace : Bool) (m : Machine δ) (i : Instruction) :
    (m.fetched trace i).memory = m.memory := by
  cases trace <;> rfl

theorem fetched_registers (trace : Bool) (m : Machine δ) (i : Instruction) :
    (m.fetched trace i).registers = { m.registers with cursor := m.registers.cursor + 1 } := by
  cases trace <;> rfl

theorem finish_memory (m : Machine δ) (ending : Ending) : (m.finish ending).memory = m.memory := by
  cases ending <;> rfl

section Steps

variable [Source δ] [Sink δ]

theorem wrote_perform (m : Machine δ) (address : Nat) (e : Effect) :
    m.memory.Wrote (m.perform address e).machine.memory := by
  cases e with
  | store target value => exact wrote_store m target value
  | input target =>
      have hrequest : m.request.2.memory = m.memory := rfl
      rw [perform]
      split
      next value m₁ heq =>
        rw [heq] at hrequest
        rw [← hrequest]
        exact wrote_store m₁ target value
      next m₁ heq =>
        rw [heq] at hrequest
        exact .inl hrequest
  | jump target =>
      rw [perform]
      split <;> exact .inl rfl
  | output | proceed | rebase | halt => exact .inl rfl

/-- Only a jump moves the cursor, and it leads to a cell that a word names. -/
theorem perform_cursor (m : Machine δ) (address : Nat) (e : Effect) :
    (m.perform address e).machine.registers.cursor = m.registers.cursor
      ∨ (m.perform address e).machine.registers.cursor < 0x8000000000000000 := by
  cases e with
  | store target value =>
      rw [perform, store_registers]
      exact .inl rfl
  | input target =>
      have hrequest : m.request.2.registers = m.registers := rfl
      refine .inl ?_
      rw [perform]
      split
      next heq => rw [store_registers, ← hrequest, heq]
      next heq => rw [← hrequest, heq]
  | jump target =>
      rw [perform]
      split
      next haddress => exact .inr (Word.lt_of_toAddress? haddress)
      next => exact .inl rfl
  | output | proceed | rebase | halt => exact .inl rfl

theorem wrote_execute (m : Machine δ) (i : Instruction) (address : Nat) :
    m.memory.Wrote (m.execute i address).machine.memory := by
  rw [execute]
  split
  next e cursor heffect => exact wrote_perform (m.moveTo cursor) address e
  next => exact .inl rfl

theorem execute_cursor_le (m : Machine δ) (i : Instruction) (address : Nat) :
    (m.execute i address).machine.registers.cursor
      ≤ max (m.registers.cursor + 3) 0x8000000000000000 := by
  have hfinal := (m.frame address).final_effect_le i m.registers.cursor
  rw [execute]
  split
  next e cursor heffect =>
    rw [Fetch.final_of_ok heffect] at hfinal
    have hmoved : (m.moveTo cursor).registers.cursor = cursor := rfl
    rcases perform_cursor (m.moveTo cursor) address e with hcursor | hcursor <;> omega
  next fault cursor heffect =>
    rw [Fetch.final_of_error heffect] at hfinal
    exact Nat.le_trans hfinal (Nat.le_max_left _ _)

theorem wrote_step (trace : Bool) (m : Machine δ) :
    m.memory.Wrote (m.step trace).machine.memory := by
  rcases step_cases trace m with ⟨word, -, -, hstep⟩
    | ⟨i, -, ⟨m', hexecute, hstep⟩ | ⟨m', fault, hexecute, hstep⟩⟩
  · rw [hstep]
    exact .inl rfl
  all_goals
    have hwrote := wrote_execute (m.fetched trace i) i m.registers.cursor
    rw [hexecute, fetched_memory] at hwrote
    rw [hstep]
    exact hwrote

theorem step_cursor_le {trace : Bool} {m : Machine δ}
    (h : m.registers.cursor < 0x8000000000000000) :
    (m.step trace).machine.registers.cursor ≤ 0x8000000000000003 := by
  rcases step_cases trace m with ⟨word, -, -, hstep⟩
    | ⟨i, -, ⟨m', hexecute, hstep⟩ | ⟨m', fault, hexecute, hstep⟩⟩
  · rw [hstep]
    show m.registers.cursor + 1 ≤ _
    omega
  all_goals
    have hcursor := execute_cursor_le (m.fetched trace i) i m.registers.cursor
    rw [hexecute, fetched_registers] at hcursor
    rw [hstep]
    refine Nat.le_trans hcursor ?_
    simp only
    omega

theorem step_cycles_le (trace : Bool) (m : Machine δ) :
    (m.step trace).machine.registers.cycles ≤ m.registers.cycles + 1 := by
  cases hstep : m.step trace with
  | mk m' fault? =>
      cases fault? with
      | none => exact Nat.le_of_eq (cycles_of_step hstep)
      | some fault =>
          have := cycles_of_fault hstep
          simp only
          omega

end Steps

/-! ## Machines in use -/

/-- Replaces the device. -/
def plug (m : Machine δ) (device : ε) : Machine ε :=
  ⟨m.memory, m.registers, device, m.log⟩

/-- The machines that are reached from new ones by loading programs of a possible size,
running them, and replacing the device. -/
inductive Reachable : {δ : Type} → Machine δ → Prop
  | new {δ : Type} (device : δ) : Reachable (new device)
  | load {δ : Type} {m : Machine δ} (h : Reachable m) (words : List Word)
      (hlength : words.length < 0x8000000000000000) : Reachable (m.load words)
  | run {δ : Type} [Source δ] [Sink δ] {m m' : Machine δ} (h : Reachable m) (config : Config)
      (turns : Nat) (result : RunResult) (hrun : m.run config turns = some (m', result)) :
      Reachable m'
  | plug {δ ε : Type} {m : Machine δ} (h : Reachable m) (device : ε) : Reachable (m.plug device)

/-- A turn executes an instruction. -/
def Active (config : Config) (m : Machine δ) : Prop :=
  m.registers.status = .running ∧ ¬m.LimitReached config
    ∧ m.registers.cursor < m.memory.extent

/-- A machine while it fetches the instruction at its cursor. -/
inductive Fetching (trace : Bool) (m : Machine δ) : Machine δ → Prop
  | word : Fetching trace m (m.moveTo (m.registers.cursor + 1))
  | parameter {i : Instruction} {places : List Nat} {place : Nat}
      (hi : Instruction.ofWord? (m.memory.get m.registers.cursor) = some i)
      (hplaces : ((m.frame m.registers.cursor).effect i).Advances
        (m.registers.cursor + 1) places)
      (hplace : place ∈ places) : Fetching trace m ((m.fetched trace i).moveTo place)

/-- What holds at every point of a run. -/
structure Bounded (config : Config) (m : Machine δ) : Prop where
  sound : m.memory.Sound
  extent_le : m.memory.extent ≤ 0x8000000000000000
  cursor_le : m.registers.cursor ≤ 0x8000000000000003
  cycles_le : ∀ n, config.maxCycles = some n → m.registers.cycles ≤ n

section Bounded

variable {config : Config} {m p : Machine δ}

theorem lt_of_not_limitReached (h : ¬m.LimitReached config) {n : Nat}
    (hn : config.maxCycles = some n) : m.registers.cycles < n := by
  simpa [LimitReached, hn] using h

theorem bounded_start (hsound : m.memory.Sound)
    (hextent : m.memory.extent ≤ 0x8000000000000000) : Bounded config m.start :=
  ⟨hsound, hextent, Nat.zero_le _, fun n _ => Nat.zero_le n⟩

theorem Bounded.fetching (h : Bounded config m) (hactive : m.Active config)
    (hp : m.Fetching config.trace p) : Bounded config p := by
  have hcursor := Nat.lt_of_lt_of_le hactive.2.2 h.extent_le
  cases hp with
  | word =>
      refine ⟨h.sound, h.extent_le, ?_, h.cycles_le⟩
      show m.registers.cursor + 1 ≤ _
      omega
  | @parameter i places place hi hplaces hplace =>
      have hfinal := (m.frame m.registers.cursor).final_effect_le i (m.registers.cursor + 1)
      have hle := hplaces.le_final hplace
      have hmemory : ((m.fetched config.trace i).moveTo place).memory = m.memory :=
        fetched_memory config.trace m i
      have hcycles : ((m.fetched config.trace i).moveTo place).registers.cycles
          = m.registers.cycles := fetched_cycles config.trace m i
      refine ⟨by rw [hmemory]; exact h.sound, by rw [hmemory]; exact h.extent_le, ?_, ?_⟩
      · show place ≤ _
        omega
      · rw [hcycles]
        exact h.cycles_le

theorem Bounded.of_countCycle (h : Bounded config m.countCycle) : Bounded config m :=
  ⟨h.sound, h.extent_le, h.cursor_le, fun n hn => Nat.le_of_succ_le (h.cycles_le n hn)⟩

theorem Bounded.finish (h : Bounded config m) (ending : Ending) :
    Bounded config (m.finish ending) := by
  cases ending <;> exact ⟨h.sound, h.extent_le, h.cursor_le, h.cycles_le⟩

end Bounded

section Runs

variable [Source δ] [Sink δ]

/-- A machine at some point of a run, with `k` instructions completed, of which the last may
not have been counted yet. -/
inductive Point (config : Config) (m : Machine δ) (k : Nat) : Machine δ → Prop
  | uncounted {p : Machine δ} (h : m.start.after config k = some p.countCycle) :
      Point config m k p
  | between {mid : Machine δ} (h : m.start.after config k = some mid) : Point config m k mid
  | within {mid p : Machine δ} (h : m.start.after config k = some mid)
      (hactive : mid.Active config) (hp : mid.Fetching config.trace p) : Point config m k p
  | ending {mid last : Machine δ} {ending : Ending} (h : m.start.after config k = some mid)
      (hturn : mid.turn config = (last, some ending)) : Point config m k last
  | ended {mid last : Machine δ} {ending : Ending} (h : m.start.after config k = some mid)
      (hturn : mid.turn config = (last, some ending)) : Point config m k (last.finish ending)

/-- No sum that a step computes needs more than 64 bits. -/
structure SumsFit (config : Config) (m : Machine δ) : Prop where
  /-- The cursor moves on behind the instruction word, -/
  word : m.registers.cursor + 1 < 0x10000000000000000
  /-- and behind every parameter word that is fetched. -/
  parameters : ∀ i, Instruction.ofWord? (m.memory.get m.registers.cursor) = some i →
    ∃ places, ((m.frame m.registers.cursor).effect i).Advances (m.registers.cursor + 1) places
      ∧ ∀ place ∈ places, place < 0x10000000000000000
  /-- The operands in a report stand behind the instruction word. -/
  operands : ∀ i, Instruction.ofWord? (m.memory.get m.registers.cursor) = some i →
    m.registers.cursor + i.opcode.parameterCount < 0x10000000000000000
  /-- A write makes the extent reach behind its cell. -/
  write : ∀ cell value, (m.step config.trace).machine.memory = m.memory.set cell value →
    cell + 1 < 0x10000000000000000
  count : ∀ n, config.maxCycles = some n → m.registers.cycles + 1 ≤ n

variable {config : Config} {m p : Machine δ}

theorem Bounded.step (h : Bounded config m) (hactive : m.Active config) :
    Bounded config (m.step config.trace).machine := by
  obtain ⟨-, hlimit, hcursor⟩ := hactive
  have hwrote := wrote_step config.trace m
  refine ⟨hwrote.sound h.sound, hwrote.extent_le h.extent_le, ?_, ?_⟩
  · exact step_cursor_le (Nat.lt_of_lt_of_le hcursor h.extent_le)
  · intro n hn
    have hlt := lt_of_not_limitReached hlimit hn
    have := step_cycles_le config.trace m
    omega

theorem active_of_turn {m' : Machine δ} (h : m.turn config = (m', none)) : m.Active config :=
  ⟨(step_of_turn h).1, (step_of_turn h).2.1, (step_of_turn h).2.2.1⟩

theorem Bounded.after (h : Bounded config m) {k : Nat} {mid : Machine δ}
    (hafter : m.after config k = some mid) : Bounded config mid := by
  refine invariant_of_after (fun hturn hbounded => ?_) h hafter
  have hstep := hbounded.step (active_of_turn hturn)
  rwa [(step_of_turn hturn).2.2.2] at hstep

/-- A turn that ends the run is one that executes nothing, or one that fails. -/
theorem Bounded.ending (h : Bounded config m) {last : Machine δ} {ending : Ending}
    (hturn : m.turn config = (last, some ending)) : Bounded config last := by
  rcases turn_cases hturn with ⟨-, rfl, -⟩ | ⟨-, -, rfl, -⟩ | ⟨-, -, -, rfl, -⟩
    | ⟨hrunning, hlimit, hcursor, fault, -, hstep⟩
  · exact h
  · exact h
  · exact h
  · have hlast := h.step ⟨hrunning, hlimit, hcursor⟩
    rw [hstep] at hlast
    exact hlast

theorem Bounded.sumsFit (h : Bounded config m) (hactive : m.Active config) :
    SumsFit config m := by
  obtain ⟨-, hlimit, hextent⟩ := hactive
  have hcursor := Nat.lt_of_lt_of_le hextent h.extent_le
  refine ⟨by omega, ?_, ?_, ?_, ?_⟩
  · intro i hi
    obtain ⟨places, hplaces⟩ :=
      (m.frame m.registers.cursor).tracked_effect i (m.registers.cursor + 1)
    refine ⟨places, hplaces, fun place hplace => ?_⟩
    have hfinal := (m.frame m.registers.cursor).final_effect_le i (m.registers.cursor + 1)
    have := hplaces.le_final hplace
    omega
  · intro i hi
    have := i.opcode.parameterCount_le
    omega
  · intro cell value hset
    have hle := (wrote_step config.trace m).extent_le h.extent_le
    rw [hset, Memory.extent_set] at hle
    omega
  · intro n hn
    exact lt_of_not_limitReached hlimit hn

/-! ## Runs -/

/-- What single writes keep of memory, runs keep. -/
theorem memory_of_after {P : Memory → Prop}
    (hP : ∀ memory memory', memory.Wrote memory' → P memory → P memory') (h : P m.memory)
    {k : Nat} {mid : Machine δ} (hafter : m.after config k = some mid) : P mid.memory := by
  refine invariant_of_after (P := fun m => P m.memory) (fun {m₁ _} hturn hmemory => ?_) h hafter
  have hwrote := wrote_step config.trace m₁
  rw [(step_of_turn hturn).2.2.2] at hwrote
  exact hP _ _ hwrote hmemory

theorem grows_of_after {k : Nat} {mid : Machine δ} (hafter : m.after config k = some mid) :
    m.memory.Grows mid.memory :=
  memory_of_after (fun _ _ hwrote h => h.trans hwrote.grows) (.refl m.memory) hafter

theorem memory_of_ending {last : Machine δ} {ending : Ending}
    (hturn : m.turn config = (last, some ending)) : last.memory = m.memory := by
  rcases turn_cases hturn with ⟨-, rfl, -⟩ | ⟨-, -, rfl, -⟩ | ⟨-, -, -, rfl, -⟩
    | ⟨-, -, -, fault, -, hstep⟩
  · rfl
  · rfl
  · rfl
  · exact (failure_of_step hstep).1

/-- Memory changes only when an instruction is completed. -/
theorem Point.memory {k : Nat} (h : m.Point config k p) :
    ∃ mid, m.start.after config k = some mid ∧ p.memory = mid.memory := by
  cases h with
  | uncounted hafter => exact ⟨_, hafter, rfl⟩
  | between hafter => exact ⟨_, hafter, rfl⟩
  | within hafter _ hp =>
      refine ⟨_, hafter, ?_⟩
      cases hp with
      | word => rfl
      | parameter => exact fetched_memory _ _ _
  | ending hafter hturn => exact ⟨_, hafter, memory_of_ending hturn⟩
  | ended hafter hturn =>
      refine ⟨_, hafter, ?_⟩
      rw [finish_memory, memory_of_ending hturn]

end Runs

/-- Memory that was filled by loads and runs ends where words cease to name cells. -/
theorem Reachable.extent_le {m : Machine δ} (h : Reachable m) :
    m.memory.Sound ∧ m.memory.extent ≤ 0x8000000000000000 := by
  induction h with
  | new device => exact ⟨Memory.sound_empty, Nat.zero_le _⟩
  | load _ words hlength _ => exact ⟨Memory.sound_load words, Nat.le_of_lt hlength⟩
  | run _ config turns result hrun ih =>
      obtain ⟨k, mid, last, ending, -, hafter, hturn, ⟨⟩⟩ := run_eq_some_iff.mp hrun
      have hlast := ((bounded_start ih.1 ih.2).after hafter).ending hturn
      rw [finish_memory]
      exact ⟨hlast.sound, hlast.extent_le⟩
  | plug _ device ih => exact ih

/-- **Counters.** Whatever was loaded, run and plugged in before: at every point of a run the
cursor, the extent and the count of instructions are bounded, memory has lost nothing since
any earlier point, and no sum that the run computes needs more than 64 bits. -/
theorem run_bounded [Source δ] [Sink δ] (m : Machine δ) (h : m.Reachable) (config : Config) :
    (∀ k p, m.Point config k p →
        p.Bounded config ∧ p.memory.loadedLength = m.memory.loadedLength)
      ∧ (∀ j k p q, j ≤ k → m.Point config j p → m.Point config k q →
          p.memory.Grows q.memory)
      ∧ ∀ k mid, m.start.after config k = some mid → mid.Active config →
          mid.SumsFit config := by
  have hstart : Bounded config m.start := bounded_start h.extent_le.1 h.extent_le.2
  refine ⟨?_, ?_, ?_⟩
  · intro k p hp
    refine ⟨?_, ?_⟩
    · cases hp with
      | uncounted hafter => exact (hstart.after hafter).of_countCycle
      | between hafter => exact hstart.after hafter
      | within hafter hactive hp => exact (hstart.after hafter).fetching hactive hp
      | ending hafter hturn => exact (hstart.after hafter).ending hturn
      | ended hafter hturn => exact ((hstart.after hafter).ending hturn).finish _
    · obtain ⟨mid, hafter, hmemory⟩ := hp.memory
      rw [hmemory]
      exact (grows_of_after hafter).loadedLength
  · intro j k p q hle hp hq
    obtain ⟨mid, hafter, hmemory⟩ := hp.memory
    obtain ⟨mid', hafter', hmemory'⟩ := hq.memory
    obtain ⟨i, rfl⟩ : ∃ i, k = j + i := ⟨k - j, by omega⟩
    rw [after_add hafter] at hafter'
    rw [hmemory, hmemory']
    exact grows_of_after hafter'
  · intro k mid hafter hactive
    exact (hstart.after hafter).sumsFit hactive

/-- Writes an addition into the last cell and jumps there. -/
def lastCellAdds : Machine (Script × Collector) :=
  ofProgram [1101, 1101, 0, 0x7fffffffffffffff, 1106, 0, 0x7fffffffffffffff] (⟨[]⟩, .plain)

/-- The parameters of the addition are behind the last cell, so the bounds are reached. -/
theorem run_bounded_lastCellAdds :
    lastCellAdds.Reachable
      ∧ ∃ m', lastCellAdds.run .plain 4 = some (m', .ok ⟨3, .endOfProgram⟩)
        ∧ m'.registers.cursor = 0x8000000000000003 ∧ m'.memory.extent = 0x8000000000000000
        ∧ m'.Bounded .plain := by
  have hreachable : lastCellAdds.Reachable := .load (.new _) _ (by decide)
  obtain ⟨m', hrun, hcursor, hextent⟩ : ∃ m',
      lastCellAdds.run .plain 4 = some (m', .ok ⟨3, .endOfProgram⟩)
        ∧ m'.registers.cursor = 0x8000000000000003
        ∧ m'.memory.extent = 0x8000000000000000 := ⟨_, rfl, rfl, rfl⟩
  refine ⟨hreachable, m', hrun, hcursor, hextent, ?_⟩
  obtain ⟨k, mid, last, ending, -, hafter, hturn, hresult⟩ := run_eq_some_iff.mp hrun
  obtain ⟨rfl, -⟩ := Prod.mk.inj hresult
  exact ((run_bounded lastCellAdds hreachable .plain).1 k _ (.ended hafter hturn)).1

end Machine

end Intcode
