import Intcode.Device.Script
import Intcode.Machine.Effect

/-!
# The operation table

What each instruction does, said without cursors and fetches: a parameter word
in a mode names a cell or denotes a value, and every opcode has a row in a table
that relates the machine before it to the machine after it (`Operation`). All
arithmetic of the table is on integers, so a row applies only if every sum,
product and address that it mentions is a word.

Executing an instruction succeeds exactly when its row applies, and then leaves
the machine of the row (`execute_eq_ok_iff`). The parameters are fetched one
after the other, but fetching changes nothing that a later parameter depends on,
so each of them is a fact about the machine before the instruction.
-/

namespace Intcode

/-! ## Parameters -/

/-- Where a parameter word points to: by itself, or as an offset of the relative base. -/
def Mode.location (mode : Mode) (base raw : Word) : Int :=
  match mode with
  | .positional | .immediate => raw.toInt
  | .relative => raw.toInt + base.toInt

/-- A parameter word names a cell: it points there, and the address of the cell is a word. -/
def Mode.Names (mode : Mode) (base raw : Word) (cell : Nat) : Prop :=
  mode.location base raw = cell ∧ cell < 0x8000000000000000

/-- A parameter word denotes a value: itself, or what is in the cell that it names. -/
def Mode.Denotes (mode : Mode) (memory : Memory) (base raw value : Word) : Prop :=
  match mode with
  | .immediate => value = raw
  | .positional | .relative => ∃ cell, mode.Names base raw cell ∧ value = memory.get cell

/-! ## The table -/

namespace Machine

variable {δ : Type}

/-- A parameter word of the instruction at an address, parameters counted from zero. -/
def parameter (m : Machine δ) (address place : Nat) : Word :=
  m.memory.get (address + 1 + place)

/-- The third parameter names a cell, and what a relation allows for the values of the
first two is stored there. -/
def Stores (m : Machine δ) (address : Nat) (i : Instruction)
    (result : Word → Word → Word → Prop) (m' : Machine δ) : Prop :=
  ∃ a b value cell,
    i.first.Denotes m.memory m.registers.base (m.parameter address 0) a
      ∧ i.second.Denotes m.memory m.registers.base (m.parameter address 1) b
      ∧ i.third.Names m.registers.base (m.parameter address 2) cell
      ∧ result a b value
      ∧ m' = { m.moveTo (address + 4) with memory := m.memory.set cell value }

/-- The value of the second parameter is where to go on if that of the first satisfies a
condition. It has to have a value in any case, but needs to be an address only then. -/
def Branches (m : Machine δ) (address : Nat) (i : Instruction) (condition : Word → Prop)
    (m' : Machine δ) : Prop :=
  ∃ a target,
    i.first.Denotes m.memory m.registers.base (m.parameter address 0) a
      ∧ i.second.Denotes m.memory m.registers.base (m.parameter address 1) target
      ∧ ((condition a ∧ ∃ cursor : Nat, target.toInt = cursor ∧ m' = m.moveTo cursor)
          ∨ (¬condition a ∧ m' = m.moveTo (address + 3)))

/-- What the instruction at an address does: the machine `m` becomes `m'`. -/
def Operation [Source δ] [Sink δ] (m : Machine δ) (address : Nat) (i : Instruction)
    (m' : Machine δ) : Prop :=
  match i.opcode with
  | .add => m.Stores address i (fun a b c => c.toInt = a.toInt + b.toInt) m'
  | .multiply => m.Stores address i (fun a b c => c.toInt = a.toInt * b.toInt) m'
  | .lessThan =>
    m.Stores address i (fun a b c => c.toInt = if a.toInt < b.toInt then 1 else 0) m'
  | .equals =>
    m.Stores address i (fun a b c => c.toInt = if a.toInt = b.toInt then 1 else 0) m'
  | .input =>
    ∃ value cell,
      (Source.request m.device).value? = some value
        ∧ i.first.Names m.registers.base (m.parameter address 0) cell
        ∧ m' = { m.moveTo (address + 2) with
            memory := m.memory.set cell value
            device := (Source.request m.device).device
            log := m.log ++ (Source.request m.device).events }
  | .output =>
    ∃ a, i.first.Denotes m.memory m.registers.base (m.parameter address 0) a
      ∧ m' = { m.moveTo (address + 2) with
          device := (Sink.emit m.device a).device
          log := m.log ++ (Sink.emit m.device a).events }
  | .jumpIfTrue => m.Branches address i (fun a => a.toInt ≠ 0) m'
  | .jumpIfFalse => m.Branches address i (fun a => a.toInt = 0) m'
  | .adjustBase =>
    ∃ a base, i.first.Denotes m.memory m.registers.base (m.parameter address 0) a
      ∧ base.toInt = m.registers.base.toInt + a.toInt
      ∧ m' = (m.moveTo (address + 2)).rebase base
  | .halt =>
    m' = ((m.moveTo (address + 1)).report [.halting address]).become (.halted .halt)

/-- What an instruction leaves alone: every part of the machine is as before, unless the
opcode is one of those that may change it. -/
structure Footprint [Source δ] [Sink δ] (m : Machine δ) (address : Nat) (i : Instruction)
    (m' : Machine δ) : Prop where
  /-- At most one cell is written, and a comparison writes zero or one. -/
  memory : m'.memory = m.memory
    ∨ i.opcode.destination? ≠ none
      ∧ ∃ cell value, m'.memory = m.memory.set cell value
        ∧ (i.opcode = .lessThan ∨ i.opcode = .equals → value.toInt = 0 ∨ value.toInt = 1) := by
    exact .inl rfl
  cursor : m'.registers.cursor = address + i.width
    ∨ i.opcode = .jumpIfTrue ∨ i.opcode = .jumpIfFalse
  base : m'.registers.base = m.registers.base ∨ i.opcode = .adjustBase := by exact .inl rfl
  cycles : m'.registers.cycles = m.registers.cycles := by rfl
  status : m'.registers.status = m.registers.status
    ∨ i.opcode = .halt ∧ m'.registers.status = .halted .halt := by exact .inl rfl
  /-- One value is taken by input, one is given by output. -/
  device : m'.device = m.device
    ∨ i.opcode = .input ∧ m'.device = (Source.request m.device).device
    ∨ i.opcode = .output ∧ ∃ value, m'.device = (Sink.emit m.device value).device := by
    exact .inl rfl

end Machine

/-! ## Fetching

The result of a fetch is taken apart by `bind_eq_ok_iff`; after that every
parameter is described by its own lemma. -/

theorem Fetch.bind_eq_ok_iff {α β : Type} {x : Fetch α} {g : α → Fetch β}
    {cursor cursor' : Nat} {b : β} :
    (x >>= g) cursor = .ok b cursor' ↔
      ∃ a mid, x cursor = .ok a mid ∧ g a mid = .ok b cursor' := by
  show EStateM.bind x g cursor = _ ↔ _
  rw [EStateM.bind]
  cases hx : x cursor with
  | ok a mid =>
      constructor
      · intro h
        exact ⟨a, mid, rfl, h⟩
      · rintro ⟨a, mid, ⟨⟩, h⟩
        exact h
  | error e mid => simp

theorem Fetch.pure_eq_ok_iff {α : Type} {a b : α} {cursor cursor' : Nat} :
    (pure a : Fetch α) cursor = .ok b cursor' ↔ b = a ∧ cursor' = cursor := by
  show EStateM.Result.ok a cursor = _ ↔ _
  rw [EStateM.Result.ok.injEq, eq_comm, eq_comm (a := cursor)]

/-- A parameter word names a cell exactly if it points to where a word points to that is
the address of the cell. -/
theorem Mode.names_iff {mode : Mode} {base raw : Word} {cell : Nat} :
    mode.Names base raw cell ↔
      ∃ target : Word, target.toInt = mode.location base raw ∧ target.toInt = cell := by
  constructor
  · rintro ⟨hcell, hlt⟩
    cases hw : Word.ofInt? cell with
    | none =>
        have := Word.ofInt?_eq_none_iff.mp hw
        omega
    | some target =>
        have htarget := Word.ofInt?_eq_some_iff.mp hw
        exact ⟨target, htarget.trans hcell.symm, htarget⟩
  · rintro ⟨target, hlocation, hcell⟩
    have := target.toInt_lt
    exact ⟨hlocation.symm.trans hcell, by omega⟩

/-- A word is the address of one cell or of none. -/
theorem Word.toAddress?_cases (w : Word) :
    (∃ a, w.toAddress? = some a ∧ ∀ cell : Nat, w.toInt = cell ↔ cell = a)
      ∨ w.toAddress? = none ∧ ∀ cell : Nat, w.toInt ≠ cell := by
  cases haddress : w.toAddress? with
  | none =>
      have := Word.toAddress?_eq_none_iff.mp haddress
      exact .inr ⟨rfl, fun cell => by omega⟩
  | some a =>
      have := Word.toAddress?_eq_some_iff.mp haddress
      exact .inl ⟨a, rfl, fun cell => by omega⟩

namespace Frame

variable {f : Frame} {cursor cursor' : Nat}

theorem next_bind {α : Type} {g : Word → Fetch α} :
    (f.next >>= g) cursor = g (f.memory.get cursor) (cursor + 1) :=
  rfl

theorem checked_eq_ok_iff {i : Int} {w : Word} :
    f.checked (Word.ofInt? i) cursor = .ok w cursor' ↔ w.toInt = i ∧ cursor' = cursor := by
  rw [← Word.ofInt?_eq_some_iff]
  cases Word.ofInt? i with
  | none => exact ⟨nofun, nofun⟩
  | some value =>
      rw [Option.some.injEq, eq_comm (a := value)]
      exact Fetch.pure_eq_ok_iff

theorem read_eq_ok_iff {address w : Word} :
    f.read address cursor = .ok w cursor' ↔
      (∃ cell : Nat, address.toInt = cell ∧ w = f.memory.get cell) ∧ cursor' = cursor := by
  rw [read, Memory.read]
  rcases address.toAddress?_cases with ⟨a, ha, hcell⟩ | ⟨hnone, hne⟩
  · simp only [ha, hcell, exists_eq_left]
    exact Fetch.pure_eq_ok_iff
  · simp only [hnone, hne, false_and, exists_false]
    exact ⟨nofun, nofun⟩

theorem target_eq_ok_iff {mode : Mode} {w : Word} :
    f.target mode cursor = .ok w cursor' ↔
      w.toInt = mode.location f.base (f.memory.get cursor) ∧ cursor' = cursor + 1 := by
  rw [target, next_bind]
  cases mode with
  | positional | immediate => rw [Mode.location, Int64.toInt_inj, Fetch.pure_eq_ok_iff]
  | relative => rw [Mode.location, Word.add?, checked_eq_ok_iff]

theorem read_target_iff {mode : Mode} {raw w : Word} :
    (∃ target : Word, target.toInt = mode.location f.base raw
        ∧ f.read target cursor = .ok w cursor') ↔
      (∃ cell, mode.Names f.base raw cell ∧ w = f.memory.get cell) ∧ cursor' = cursor := by
  simp only [read_eq_ok_iff, Mode.names_iff]
  constructor
  · rintro ⟨target, hlocation, ⟨cell, hcell, hw⟩, hcursor⟩
    exact ⟨⟨cell, ⟨target, hlocation, hcell⟩, hw⟩, hcursor⟩
  · rintro ⟨⟨cell, ⟨target, hlocation, hcell⟩, hw⟩, hcursor⟩
    exact ⟨target, hlocation, ⟨cell, hcell, hw⟩, hcursor⟩

theorem operand_eq_ok_iff {mode : Mode} {w : Word} :
    f.operand mode cursor = .ok w cursor' ↔
      mode.Denotes f.memory f.base (f.memory.get cursor) w ∧ cursor' = cursor + 1 := by
  rw [operand, next_bind]
  cases mode with
  | immediate => exact Fetch.pure_eq_ok_iff
  | positional =>
      rw [Mode.Denotes, ← read_target_iff]
      simp only [Mode.location, Int64.toInt_inj, exists_eq_left]
  | relative =>
      rw [Mode.Denotes, ← read_target_iff, Fetch.bind_eq_ok_iff]
      simp only [Word.add?, checked_eq_ok_iff, Mode.location]
      constructor
      · rintro ⟨target, _, ⟨hlocation, rfl⟩, hread⟩
        exact ⟨target, hlocation, hread⟩
      · rintro ⟨target, hlocation, hread⟩
        exact ⟨target, _, ⟨hlocation, rfl⟩, hread⟩

theorem combine_eq_ok_iff {i : Instruction} {op : Word → Word → Int} {e : Effect} :
    f.combine i (fun a b => Word.ofInt? (op a b)) cursor = .ok e cursor' ↔
      ∃ a b target value,
        i.first.Denotes f.memory f.base (f.memory.get cursor) a
          ∧ i.second.Denotes f.memory f.base (f.memory.get (cursor + 1)) b
          ∧ target.toInt = i.third.location f.base (f.memory.get (cursor + 2))
          ∧ value.toInt = op a b
          ∧ e = .store target value ∧ cursor' = cursor + 3 := by
  rw [combine, Fetch.bind_eq_ok_iff]
  simp only [Fetch.bind_eq_ok_iff, operand_eq_ok_iff, target_eq_ok_iff, checked_eq_ok_iff,
    Fetch.pure_eq_ok_iff]
  constructor
  · rintro ⟨a, _, ⟨ha, rfl⟩, b, _, ⟨hb, rfl⟩, target, _, ⟨ht, rfl⟩, value, _, ⟨hv, rfl⟩, he, rfl⟩
    exact ⟨a, b, target, value, ha, hb, ht, hv, he, rfl⟩
  · rintro ⟨a, b, target, value, ha, hb, ht, hv, he, rfl⟩
    exact ⟨a, _, ⟨ha, rfl⟩, b, _, ⟨hb, rfl⟩, target, _, ⟨ht, rfl⟩, value, _, ⟨hv, rfl⟩, he, rfl⟩

theorem branch_eq_ok_iff {i : Instruction} {condition : Word → Bool} {e : Effect} :
    f.branch i condition cursor = .ok e cursor' ↔
      ∃ a target,
        i.first.Denotes f.memory f.base (f.memory.get cursor) a
          ∧ i.second.Denotes f.memory f.base (f.memory.get (cursor + 1)) target
          ∧ e = (if condition a then .jump target else .proceed) ∧ cursor' = cursor + 2 := by
  rw [branch, Fetch.bind_eq_ok_iff]
  simp only [Fetch.bind_eq_ok_iff, operand_eq_ok_iff, Fetch.pure_eq_ok_iff]
  constructor
  · rintro ⟨a, _, ⟨ha, rfl⟩, target, _, ⟨ht, rfl⟩, he, rfl⟩
    exact ⟨a, target, ha, ht, he, rfl⟩
  · rintro ⟨a, target, ha, ht, he, rfl⟩
    exact ⟨a, _, ⟨ha, rfl⟩, target, _, ⟨ht, rfl⟩, he, rfl⟩

end Frame

/-! ## Performing -/

namespace Machine

variable {δ : Type} {m m' : Machine δ} {i : Instruction} {address : Nat}

theorem execute_eq_ok_iff_effect [Source δ] [Sink δ] :
    m.execute i address = ⟨m', none⟩ ↔
      ∃ e cursor, (m.frame address).effect i m.registers.cursor = .ok e cursor
        ∧ (m.moveTo cursor).perform address e = ⟨m', none⟩ := by
  rw [execute]
  cases heffect : (m.frame address).effect i m.registers.cursor with
  | ok e cursor =>
      constructor
      · intro h
        exact ⟨e, cursor, rfl, h⟩
      · rintro ⟨e, cursor, ⟨⟩, h⟩
        exact h
  | error fault cursor => simp

theorem store_eq_ok_iff {target value : Word} :
    m.store target value = ⟨m', none⟩ ↔
      ∃ cell : Nat, target.toInt = cell
        ∧ m' = { m with memory := m.memory.set cell value } := by
  rw [store, Memory.write]
  rcases target.toAddress?_cases with ⟨a, ha, hcell⟩ | ⟨hnone, hne⟩
  · simp only [ha, hcell, exists_eq_left, Outcome.mk.injEq, and_true]
    exact eq_comm
  · simp [hnone, hne]

variable [Source δ] [Sink δ]

theorem perform_jump_eq_ok_iff {target : Word} :
    m.perform address (.jump target) = ⟨m', none⟩ ↔
      ∃ cursor : Nat, target.toInt = cursor ∧ m' = m.moveTo cursor := by
  rw [perform]
  rcases target.toAddress?_cases with ⟨a, ha, hcell⟩ | ⟨hnone, hne⟩
  · simp only [ha, hcell, exists_eq_left, Outcome.mk.injEq, and_true]
    exact eq_comm
  · simp [hnone, hne]

theorem perform_input_eq_ok_iff {target : Word} :
    m.perform address (.input target) = ⟨m', none⟩ ↔
      ∃ value, (Source.request m.device).value? = some value
        ∧ m.request.2.store target value = ⟨m', none⟩ := by
  rw [perform]
  have hvalue : m.request.1 = (Source.request m.device).value? := rfl
  rw [← hvalue]
  rcases m.request with ⟨_ | value, after⟩
  · simp
  · simp

/-! ## The rows -/

theorem execute_combine_iff {op : Word → Word → Int}
    (heffect : (m.frame address).effect i =
      (m.frame address).combine i fun a b => Word.ofInt? (op a b))
    (h : m.registers.cursor = address + 1) :
    m.execute i address = ⟨m', none⟩ ↔
      m.Stores address i (fun a b c => c.toInt = op a b) m' := by
  rw [execute_eq_ok_iff_effect, heffect, h]
  simp only [Frame.combine_eq_ok_iff, Stores, Mode.names_iff]
  constructor
  · rintro ⟨_, _, ⟨a, b, target, value, ha, hb, htarget, hvalue, rfl, rfl⟩, hperform⟩
    obtain ⟨cell, hcell, rfl⟩ := store_eq_ok_iff.mp hperform
    exact ⟨a, b, value, cell, ha, hb, ⟨target, htarget, hcell⟩, hvalue, rfl⟩
  · rintro ⟨a, b, value, cell, ha, hb, ⟨target, htarget, hcell⟩, hvalue, rfl⟩
    exact ⟨_, _, ⟨a, b, target, value, ha, hb, htarget, hvalue, rfl, rfl⟩,
      store_eq_ok_iff.mpr ⟨cell, hcell, rfl⟩⟩

theorem execute_branch_iff {condition : Word → Prop} [DecidablePred condition]
    (heffect : (m.frame address).effect i =
      (m.frame address).branch i fun a => decide (condition a))
    (h : m.registers.cursor = address + 1) :
    m.execute i address = ⟨m', none⟩ ↔ m.Branches address i condition m' := by
  rw [execute_eq_ok_iff_effect, heffect, h]
  simp only [Frame.branch_eq_ok_iff, Branches, decide_eq_true_eq]
  constructor
  · rintro ⟨_, _, ⟨a, target, ha, htarget, rfl, rfl⟩, hperform⟩
    refine ⟨a, target, ha, htarget, ?_⟩
    split at hperform
    next htaken =>
      obtain ⟨cursor, hcursor, rfl⟩ := perform_jump_eq_ok_iff.mp hperform
      exact .inl ⟨htaken, cursor, hcursor, rfl⟩
    next htaken =>
      cases hperform
      exact .inr ⟨htaken, rfl⟩
  · rintro ⟨a, target, ha, htarget, ⟨htaken, cursor, hcursor, rfl⟩ | ⟨htaken, rfl⟩⟩
    · refine ⟨_, _, ⟨a, target, ha, htarget, rfl, rfl⟩, ?_⟩
      rw [if_pos htaken]
      exact perform_jump_eq_ok_iff.mpr ⟨cursor, hcursor, rfl⟩
    · refine ⟨_, _, ⟨a, target, ha, htarget, rfl, rfl⟩, ?_⟩
      rw [if_neg htaken]
      rfl

theorem execute_input_iff (hop : i.opcode = .input) (h : m.registers.cursor = address + 1) :
    m.execute i address = ⟨m', none⟩ ↔ m.Operation address i m' := by
  simp only [execute_eq_ok_iff_effect, Operation, hop, Frame.effect, h, Fetch.bind_eq_ok_iff,
    Frame.target_eq_ok_iff, Fetch.pure_eq_ok_iff, Mode.names_iff]
  constructor
  · rintro ⟨_, _, ⟨target, _, ⟨htarget, rfl⟩, rfl, rfl⟩, hperform⟩
    obtain ⟨value, hvalue, hstore⟩ := perform_input_eq_ok_iff.mp hperform
    obtain ⟨cell, hcell, rfl⟩ := store_eq_ok_iff.mp hstore
    exact ⟨value, cell, hvalue, ⟨target, htarget, hcell⟩, rfl⟩
  · rintro ⟨value, cell, hvalue, ⟨target, htarget, hcell⟩, rfl⟩
    refine ⟨_, _, ⟨target, _, ⟨htarget, rfl⟩, rfl, rfl⟩, ?_⟩
    refine perform_input_eq_ok_iff.mpr ⟨value, hvalue, ?_⟩
    exact store_eq_ok_iff.mpr ⟨cell, hcell, rfl⟩

theorem execute_output_iff (hop : i.opcode = .output) (h : m.registers.cursor = address + 1) :
    m.execute i address = ⟨m', none⟩ ↔ m.Operation address i m' := by
  simp only [execute_eq_ok_iff_effect, Operation, hop, Frame.effect, h, Fetch.bind_eq_ok_iff,
    Frame.operand_eq_ok_iff, Fetch.pure_eq_ok_iff]
  constructor
  · rintro ⟨_, _, ⟨a, _, ⟨ha, rfl⟩, rfl, rfl⟩, ⟨⟩⟩
    exact ⟨a, ha, rfl⟩
  · rintro ⟨a, ha, rfl⟩
    exact ⟨_, _, ⟨a, _, ⟨ha, rfl⟩, rfl, rfl⟩, rfl⟩

theorem execute_adjustBase_iff (hop : i.opcode = .adjustBase)
    (h : m.registers.cursor = address + 1) :
    m.execute i address = ⟨m', none⟩ ↔ m.Operation address i m' := by
  simp only [execute_eq_ok_iff_effect, Operation, hop, Frame.effect, h, Fetch.bind_eq_ok_iff,
    Frame.operand_eq_ok_iff, Word.add?, Frame.checked_eq_ok_iff, Fetch.pure_eq_ok_iff]
  constructor
  · rintro ⟨_, _, ⟨a, _, ⟨ha, rfl⟩, base, _, ⟨hbase, rfl⟩, rfl, rfl⟩, ⟨⟩⟩
    exact ⟨a, base, ha, hbase, rfl⟩
  · rintro ⟨a, base, ha, hbase, rfl⟩
    exact ⟨_, _, ⟨a, _, ⟨ha, rfl⟩, base, _, ⟨hbase, rfl⟩, rfl, rfl⟩, rfl⟩

theorem execute_halt_iff (hop : i.opcode = .halt) (h : m.registers.cursor = address + 1) :
    m.execute i address = ⟨m', none⟩ ↔ m.Operation address i m' := by
  simp only [execute_eq_ok_iff_effect, Operation, hop, Frame.effect, h, Fetch.pure_eq_ok_iff]
  constructor
  · rintro ⟨_, _, ⟨rfl, rfl⟩, ⟨⟩⟩
    rfl
  · rintro rfl
    exact ⟨_, _, ⟨rfl, rfl⟩, rfl⟩

theorem some_ofBool (p : Prop) [Decidable p] :
    some (Word.ofBool (decide p)) = Word.ofInt? (if p then 1 else 0) := by
  by_cases hp : p
  · rw [decide_eq_true hp, if_pos hp]
    rfl
  · rw [decide_eq_false hp, if_neg hp]
    rfl

theorem execute_eq_ok_iff (h : m.registers.cursor = address + 1) :
    m.execute i address = ⟨m', none⟩ ↔ m.Operation address i m' := by
  cases hop : i.opcode with
  | add =>
      simp only [Operation, hop]
      exact execute_combine_iff (by rw [Frame.effect, hop]; rfl) h
  | multiply =>
      simp only [Operation, hop]
      exact execute_combine_iff (by rw [Frame.effect, hop]; rfl) h
  | lessThan =>
      simp only [Operation, hop]
      exact execute_combine_iff (by simp only [Frame.effect, hop, some_ofBool]) h
  | equals =>
      simp only [Operation, hop]
      exact execute_combine_iff (by simp only [Frame.effect, hop, some_ofBool]) h
  | jumpIfTrue =>
      simp only [Operation, hop]
      exact execute_branch_iff (by rw [Frame.effect, hop]) h
  | jumpIfFalse =>
      simp only [Operation, hop]
      exact execute_branch_iff (by rw [Frame.effect, hop]) h
  | input => exact execute_input_iff hop h
  | output => exact execute_output_iff hop h
  | adjustBase => exact execute_adjustBase_iff hop h
  | halt => exact execute_halt_iff hop h

/-! ## What the rows leave alone -/

theorem Stores.footprint {result : Word → Word → Word → Prop}
    (hstores : m.Stores address i result m') (hdestination : i.opcode.destination? ≠ none)
    (hwidth : i.width = 4)
    (hcomparison : i.opcode = .lessThan ∨ i.opcode = .equals →
      ∀ a b c, result a b c → c.toInt = 0 ∨ c.toInt = 1) :
    m.Footprint address i m' := by
  obtain ⟨a, b, value, cell, -, -, -, hvalue, rfl⟩ := hstores
  have hbit := fun hop => hcomparison hop a b value hvalue
  exact
    { memory := .inr ⟨hdestination, cell, value, rfl, hbit⟩
      cursor := .inl (by rw [hwidth]; rfl) }

theorem Branches.footprint {condition : Word → Prop}
    (hbranches : m.Branches address i condition m')
    (hop : i.opcode = .jumpIfTrue ∨ i.opcode = .jumpIfFalse) : m.Footprint address i m' := by
  obtain ⟨cursor, rfl⟩ : ∃ cursor, m' = m.moveTo cursor := by
    obtain ⟨a, target, -, -, ⟨-, cursor, -, hm'⟩ | ⟨-, hm'⟩⟩ := hbranches
    · exact ⟨cursor, hm'⟩
    · exact ⟨_, hm'⟩
  exact { cursor := .inr hop }

theorem Operation.footprint (h : m.Operation address i m') : m.Footprint address i m' := by
  have hwidth : i.width = 1 + i.opcode.parameterCount := rfl
  cases hop : i.opcode with
  | add | multiply =>
      rw [hop] at hwidth
      simp only [Operation, hop] at h
      exact h.footprint (by simp [hop, Opcode.destination?]) hwidth (by simp [hop])
  | lessThan | equals =>
      rw [hop] at hwidth
      simp only [Operation, hop] at h
      refine h.footprint (by simp [hop, Opcode.destination?]) hwidth ?_
      intro _ a b c hc
      split at hc
      · exact .inr hc
      · exact .inl hc
  | jumpIfTrue =>
      simp only [Operation, hop] at h
      exact h.footprint (.inl hop)
  | jumpIfFalse =>
      simp only [Operation, hop] at h
      exact h.footprint (.inr hop)
  | input =>
      rw [hop] at hwidth
      simp only [Operation, hop] at h
      obtain ⟨value, cell, -, -, rfl⟩ := h
      exact
        { memory := .inr ⟨by simp [hop, Opcode.destination?], cell, value, rfl, by simp [hop]⟩
          cursor := .inl (by rw [hwidth]; rfl)
          device := .inr (.inl ⟨hop, rfl⟩) }
  | output =>
      rw [hop] at hwidth
      simp only [Operation, hop] at h
      obtain ⟨a, -, rfl⟩ := h
      exact
        { cursor := .inl (by rw [hwidth]; rfl)
          device := .inr (.inr ⟨hop, a, rfl⟩) }
  | adjustBase =>
      rw [hop] at hwidth
      simp only [Operation, hop] at h
      obtain ⟨a, base, -, -, rfl⟩ := h
      exact
        { cursor := .inl (by rw [hwidth]; rfl)
          base := .inr hop }
  | halt =>
      rw [hop] at hwidth
      simp only [Operation, hop] at h
      subst h
      exact
        { cursor := .inl (by rw [hwidth]; rfl)
          status := .inr ⟨hop, rfl⟩ }

/-! ## Execution and the table -/

end Machine

end Intcode
