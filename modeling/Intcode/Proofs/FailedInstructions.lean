import Mathlib.Data.List.Forall2
import Intcode.Proofs.Faults

/-!
# Instructions that fail

An instruction makes its checks in a fixed order. Each parameter has to resolve, in
turn; then the result has to be a word, there has to be input, and what names a
cell or a place to go on must not be negative. `Fails` says at which check an
instruction fails, by what holds before it is executed: the check does not pass, and
all checks before it do. The check decides all that the instruction leaves behind
(`Abandoned`), and nothing else than a check makes it fail (`execute_eq_fault_iff`).

The checks on parameters are the same for all opcodes. So the effect of an
instruction is taken apart into a list of parameters, along which the induction
goes, and a conclusion that depends on the opcode (`effect_eq`).
-/

namespace Intcode

/-! ## Checks -/

/-- A number that is no word. -/
def Word.OutOfRange (n : Int) : Prop :=
  n < -0x8000000000000000 ∨ 0x8000000000000000 ≤ n

/-- How a parameter word is used: as a value, or as what names the cell to write. -/
structure Slot where
  mode : Mode
  isDestination : Bool

/-- The uses of the parameter words of an instruction, in order. -/
def Instruction.slots (i : Instruction) : List Slot :=
  i.modes.mapIdx fun place mode => ⟨mode, i.opcode.destination? = some place⟩

/-- A parameter word resolves: an operand has a value, and a destination points to where a
word points to, whether that is negative or not. -/
def Slot.Resolves (s : Slot) (memory : Memory) (base raw w : Word) : Prop :=
  if s.isDestination then w.toInt = s.mode.location base raw
  else s.mode.Denotes memory base raw w

/-- A parameter word does not resolve: the relative base takes it out of the range of words,
or it is an operand and points to a negative address. -/
def Slot.Unresolved (s : Slot) (base raw : Word) (address : Nat) (fault : Fault) : Prop :=
  (Word.OutOfRange (s.mode.location base raw) ∧ fault = .overflow address)
    ∨ (s.isDestination = false ∧ s.mode ≠ .immediate
      ∧ ∃ w : Word, w.toInt = s.mode.location base raw ∧ w.toInt < 0
        ∧ fault = .invalidAddress w)

/-- The number that an instruction computes from the values of its parameters, if it is one
that need not be a word. -/
def Opcode.computed? (base : Word) : Opcode → List Word → Option Int
  | .add, [a, b, _] => some (a.toInt + b.toInt)
  | .multiply, [a, b, _] => some (a.toInt * b.toInt)
  | .adjustBase, [a] => some (base.toInt + a.toInt)
  | _, _ => none

/-- Where an instruction jumps to, given the values of its parameters. -/
def Opcode.jump? : Opcode → List Word → Option Word
  | .jumpIfTrue, [a, target] => if a.toInt ≠ 0 then some target else none
  | .jumpIfFalse, [a, target] => if a.toInt = 0 then some target else none
  | _, _ => none

/-- What an instruction has to check. -/
inductive Check where
  /-- The parameter at a place resolves. -/
  | parameter (place : Nat)
  /-- What is computed is a word. -/
  | arithmetic
  /-- There is a value to take in. -/
  | input
  /-- The cell to write has an address. -/
  | destination
  /-- The place to jump to has an address. -/
  | jump

namespace Check

/-- How many parameter words were fetched when the check is made. -/
def fetched (opcode : Opcode) : Check → Nat
  | parameter place => place + 1
  | arithmetic | input | destination | jump => opcode.parameterCount

/-- Whether the source was asked for a value when the check is made. -/
def asks (opcode : Opcode) : Check → Bool
  | input => true
  | destination => opcode = .input
  | parameter _ | arithmetic | jump => false

end Check

/-! ## Parameters -/

namespace Frame

/-- Consecutive parameter words resolve to these values, from the cursor on. -/
def Values (f : Frame) (cursor : Nat) (slots : List Slot) (values : List Word) : Prop :=
  List.Forall₂ (fun p w => p.1.Resolves f.memory f.base (f.memory.get p.2) w)
    (slots.zipIdx cursor) values

/-- What the instruction computes is no word. -/
def Overflows (f : Frame) (opcode : Opcode) (values : List Word) : Prop :=
  ∃ n, opcode.computed? f.base values = some n ∧ Word.OutOfRange n

/-- Fetches a parameter. -/
def parameter (f : Frame) (s : Slot) : Fetch Word :=
  if s.isDestination then f.target s.mode else f.operand s.mode

/-- Fetches parameters one after the other. -/
def parameters (f : Frame) : List Slot → Fetch (List Word)
  | [] => pure []
  | s :: slots => do
    let w ← f.parameter s
    let ws ← f.parameters slots
    return w :: ws

/-- The effect of an instruction, given the values of its parameters. -/
def conclude (f : Frame) : Opcode → List Word → Fetch Effect
  | .add, [a, b, target] => do return .store target (← f.checked (a.add? b))
  | .multiply, [a, b, target] => do return .store target (← f.checked (a.mul? b))
  | .lessThan, [a, b, target] => return .store target (.ofBool (a.toInt < b.toInt))
  | .equals, [a, b, target] => return .store target (.ofBool (a.toInt = b.toInt))
  | .input, [target] => return .input target
  | .output, [a] => return .output a
  | .jumpIfTrue, [a, target] => return if a.toInt ≠ 0 then .jump target else .proceed
  | .jumpIfFalse, [a, target] => return if a.toInt = 0 then .jump target else .proceed
  | .adjustBase, [a] => do return .rebase (← f.checked (f.base.add? a))
  | _, _ => return .halt

theorem effect_eq (f : Frame) (i : Instruction) :
    f.effect i = f.parameters i.slots >>= f.conclude i.opcode := by
  obtain ⟨opcode, first, second, third⟩ := i
  cases opcode <;>
    simp [effect, combine, branch, Instruction.slots, Instruction.modes, Opcode.parameterCount,
      Opcode.destination?, parameters, parameter, conclude, checked]

variable {f : Frame} {cursor cursor' : Nat} {fault : Fault}

theorem checked_eq_error_iff {n : Int} :
    f.checked (Word.ofInt? n) cursor = .error fault cursor' ↔
      Word.OutOfRange n ∧ fault = .overflow f.address ∧ cursor' = cursor := by
  constructor
  · intro h
    obtain ⟨hnone, hfault, hcursor⟩ := checked_eq_error h
    exact ⟨Word.ofInt?_eq_none_iff.mp hnone, hfault, hcursor⟩
  · rintro ⟨hrange, rfl, rfl⟩
    rw [Word.ofInt?_eq_none_iff.mpr hrange]
    rfl

theorem read_eq_error_iff {w : Word} :
    f.read w cursor = .error fault cursor' ↔
      w.toInt < 0 ∧ fault = .invalidAddress w ∧ cursor' = cursor := by
  constructor
  · intro h
    obtain ⟨hfault, hneg, hcursor⟩ := read_eq_error h
    exact ⟨hneg, hfault, hcursor⟩
  · rintro ⟨hneg, rfl, rfl⟩
    rw [read, Memory.read, Word.toAddress?_eq_none_iff.mpr hneg]
    rfl

/-- Only the relative base can take a parameter out of the range of words. -/
theorem not_outOfRange_toInt (w : Word) : ¬Word.OutOfRange w.toInt := by
  have := w.le_toInt
  have := w.toInt_lt
  rw [Word.OutOfRange]
  omega

theorem parameter_eq_ok_iff {s : Slot} {w : Word} :
    f.parameter s cursor = .ok w cursor' ↔
      s.Resolves f.memory f.base (f.memory.get cursor) w ∧ cursor' = cursor + 1 := by
  rw [parameter, Slot.Resolves]
  split
  · exact target_eq_ok_iff
  · exact operand_eq_ok_iff

theorem target_eq_error_iff {mode : Mode} :
    f.target mode cursor = .error fault cursor' ↔
      (Word.OutOfRange (mode.location f.base (f.memory.get cursor)) ∧ fault = .overflow f.address)
        ∧ cursor' = cursor + 1 := by
  rw [target, next_bind]
  cases mode with
  | positional | immediate =>
      constructor
      · intro h
        cases h
      · rintro ⟨⟨hrange, -⟩, -⟩
        exact absurd hrange (not_outOfRange_toInt _)
  | relative => rw [Word.add?, checked_eq_error_iff, Mode.location, and_assoc]

theorem operand_eq_error_iff {mode : Mode} :
    f.operand mode cursor = .error fault cursor' ↔
      ((Word.OutOfRange (mode.location f.base (f.memory.get cursor))
            ∧ fault = .overflow f.address)
          ∨ (mode ≠ .immediate
            ∧ ∃ w : Word, w.toInt = mode.location f.base (f.memory.get cursor) ∧ w.toInt < 0
              ∧ fault = .invalidAddress w))
        ∧ cursor' = cursor + 1 := by
  rw [operand, next_bind]
  cases mode with
  | immediate =>
      constructor
      · intro h
        cases h
      · rintro ⟨⟨hrange, -⟩ | ⟨hmode, -⟩, -⟩
        · exact absurd hrange (not_outOfRange_toInt _)
        · exact absurd rfl hmode
  | positional =>
      simp only [Mode.location, not_outOfRange_toInt, read_eq_error_iff, Int64.toInt_inj,
        exists_eq_left, false_and, false_or, ne_eq, reduceCtorEq, not_false_eq_true, true_and,
        and_assoc]
  | relative =>
      simp only [Fetch.bind_eq_error_iff, Word.add?, checked_eq_error_iff, checked_eq_ok_iff,
        read_eq_error_iff, Mode.location]
      constructor
      · rintro (⟨hrange, hfault, hcursor⟩ | ⟨w, _, ⟨hw, rfl⟩, hneg, hfault, hcursor⟩)
        · exact ⟨.inl ⟨hrange, hfault⟩, hcursor⟩
        · exact ⟨.inr ⟨by decide, w, hw, hneg, hfault⟩, hcursor⟩
      · rintro ⟨⟨hrange, hfault⟩ | ⟨-, w, hw, hneg, hfault⟩, hcursor⟩
        · exact .inl ⟨hrange, hfault, hcursor⟩
        · exact .inr ⟨w, _, ⟨hw, rfl⟩, hneg, hfault, hcursor⟩

theorem parameter_eq_error_iff {s : Slot} :
    f.parameter s cursor = .error fault cursor' ↔
      s.Unresolved f.base (f.memory.get cursor) f.address fault ∧ cursor' = cursor + 1 := by
  rw [parameter, Slot.Unresolved]
  by_cases hs : s.isDestination = true
  · simp [hs, target_eq_error_iff]
  · simp [hs, operand_eq_error_iff]

/-! ## Lists of parameters -/

theorem parameters_eq_ok_iff {slots : List Slot} {values : List Word} :
    f.parameters slots cursor = .ok values cursor' ↔
      f.Values cursor slots values ∧ cursor' = cursor + slots.length := by
  induction slots generalizing cursor cursor' values with
  | nil => simp [parameters, Values, Fetch.pure_eq_ok_iff]
  | cons s slots ih =>
      simp only [parameters, Fetch.bind_eq_ok_iff, parameter_eq_ok_iff, ih, Fetch.pure_eq_ok_iff,
        Values, List.zipIdx_cons, List.length_cons]
      constructor
      · rintro ⟨w, _, ⟨hw, rfl⟩, ws, _, ⟨hws, rfl⟩, rfl, rfl⟩
        exact ⟨.cons hw hws, by omega⟩
      · rintro ⟨hvalues, rfl⟩
        cases hvalues with
        | cons hw hws => exact ⟨_, _, ⟨hw, rfl⟩, _, _, ⟨hws, rfl⟩, rfl, by omega⟩

/-- The first parameter that does not resolve decides, and is the last one fetched. -/
theorem parameters_eq_error_iff {slots : List Slot} :
    f.parameters slots cursor = .error fault cursor' ↔
      ∃ place s values, slots[place]? = some s ∧ f.Values cursor (slots.take place) values
        ∧ s.Unresolved f.base (f.memory.get (cursor + place)) f.address fault
        ∧ cursor' = cursor + (place + 1) := by
  induction slots generalizing cursor with
  | nil =>
      refine ⟨nofun, ?_⟩
      rintro ⟨_, _, _, hs, -⟩
      cases hs
  | cons s slots ih =>
      simp only [parameters, Fetch.bind_eq_error_iff, parameter_eq_error_iff,
        parameter_eq_ok_iff, ih]
      constructor
      · rintro (⟨hs, rfl⟩
          | ⟨w, _, ⟨hw, rfl⟩, ⟨place, s', ws, hs', hws, hfails, rfl⟩ | ⟨_, _, -, ⟨⟩⟩⟩)
        · exact ⟨0, s, [], rfl, .nil, hs, rfl⟩
        · refine ⟨place + 1, s', w :: ws, hs', .cons hw hws, ?_, by omega⟩
          rwa [Nat.add_assoc, Nat.add_comm 1] at hfails
      · rintro ⟨place, s', ws, hs', hws, hfails, rfl⟩
        cases place with
        | zero =>
            obtain rfl := Option.some.inj hs'
            exact .inl ⟨hfails, rfl⟩
        | succ place =>
            rw [List.take_succ_cons, Values, List.zipIdx_cons] at hws
            cases hws with
            | @cons _ w _ ws hw hws =>
                refine .inr ⟨w, _, ⟨hw, rfl⟩, .inl ⟨place, s', ws, hs', hws, ?_, by omega⟩⟩
                rwa [Nat.add_assoc, Nat.add_comm 1]

/-! ## Conclusions -/

theorem checked_bind_eq_error_iff {n : Int} {g : Word → Effect} :
    (f.checked (Word.ofInt? n) >>= fun w => pure (g w)) cursor = .error fault cursor' ↔
      Word.OutOfRange n ∧ fault = .overflow f.address ∧ cursor' = cursor := by
  rw [Fetch.bind_eq_error_iff, checked_eq_error_iff]
  refine or_iff_left ?_
  rintro ⟨_, _, -, ⟨⟩⟩

theorem conclude_eq_error_iff {opcode : Opcode} {values : List Word} :
    f.conclude opcode values cursor = .error fault cursor' ↔
      f.Overflows opcode values ∧ fault = .overflow f.address ∧ cursor' = cursor := by
  have hnone : opcode.computed? f.base values = none → ¬f.Overflows opcode values := by
    rintro hnone ⟨n, hn, -⟩
    rw [hnone] at hn
    cases hn
  unfold conclude
  split
  case h_1 | h_2 | h_9 =>
    simp only [Overflows, Opcode.computed?, Option.some.injEq, exists_eq_left']
    exact checked_bind_eq_error_iff
  all_goals
    refine ⟨nofun, fun h => absurd h.1 (hnone ?_)⟩
    simp_all [Opcode.computed?]

theorem Values.length_eq {slots : List Slot} {values : List Word}
    (h : f.Values cursor slots values) : values.length = slots.length := by
  rw [← List.Forall₂.length_eq h, List.length_zipIdx]

end Frame

theorem Instruction.length_slots (i : Instruction) : i.slots.length = i.opcode.parameterCount := by
  rw [slots, List.length_mapIdx, length_modes]

/-- The word that has to name a cell for the effect to be performed. -/
def Effect.address? : Effect → Option Word
  | store target _ => some target
  | input target => some target
  | jump target => some target
  | output _ | proceed | rebase _ | halt => none

def Effect.takesInput : Effect → Bool
  | input _ => true
  | store .. | output _ | jump _ | proceed | rebase _ | halt => false

/-- The word that the instruction takes for an address, given the values of its parameters. -/
def Opcode.address? (opcode : Opcode) (values : List Word) : Option Word :=
  (opcode.destination?.bind fun place => values[place]?).or (opcode.jump? values)

namespace Frame

variable {f : Frame} {cursor cursor' : Nat}

theorem conclude_eq_ok {opcode : Opcode} {values : List Word} {e : Effect}
    (hlength : values.length = opcode.parameterCount)
    (h : f.conclude opcode values cursor = .ok e cursor') :
    cursor' = cursor ∧ e.takesInput = decide (opcode = .input)
      ∧ e.address? = opcode.address? values := by
  cases opcode with
  | add | multiply =>
      obtain ⟨a, b, target, rfl⟩ := List.length_eq_three.mp hlength
      obtain ⟨w, _, hw, hpure⟩ := Fetch.bind_eq_ok_iff.mp h
      obtain ⟨-, rfl⟩ := checked_eq_ok_iff.mp hw
      obtain ⟨rfl, rfl⟩ := Fetch.pure_eq_ok_iff.mp hpure
      exact ⟨rfl, rfl, rfl⟩
  | lessThan | equals =>
      obtain ⟨a, b, target, rfl⟩ := List.length_eq_three.mp hlength
      obtain ⟨rfl, rfl⟩ := Fetch.pure_eq_ok_iff.mp h
      exact ⟨rfl, rfl, rfl⟩
  | input | output =>
      obtain ⟨a, rfl⟩ := List.length_eq_one_iff.mp hlength
      obtain ⟨rfl, rfl⟩ := Fetch.pure_eq_ok_iff.mp h
      exact ⟨rfl, rfl, rfl⟩
  | jumpIfTrue | jumpIfFalse =>
      obtain ⟨a, target, rfl⟩ := List.length_eq_two.mp hlength
      obtain ⟨rfl, rfl⟩ := Fetch.pure_eq_ok_iff.mp h
      refine ⟨rfl, ?_, ?_⟩
      · split <;> rfl
      · simp only [Opcode.address?, Opcode.destination?, Opcode.jump?]
        split <;> rfl
  | adjustBase =>
      obtain ⟨a, rfl⟩ := List.length_eq_one_iff.mp hlength
      obtain ⟨w, _, hw, hpure⟩ := Fetch.bind_eq_ok_iff.mp h
      obtain ⟨-, rfl⟩ := checked_eq_ok_iff.mp hw
      obtain ⟨rfl, rfl⟩ := Fetch.pure_eq_ok_iff.mp hpure
      exact ⟨rfl, rfl, rfl⟩
  | halt =>
      obtain rfl := List.eq_nil_of_length_eq_zero hlength
      obtain ⟨rfl, rfl⟩ := Fetch.pure_eq_ok_iff.mp h
      exact ⟨rfl, rfl, rfl⟩

theorem effect_of_values {i : Instruction} {values : List Word}
    (h : f.Values cursor i.slots values) :
    f.effect i cursor = f.conclude i.opcode values (cursor + i.opcode.parameterCount) := by
  have hparameters := parameters_eq_ok_iff.mpr ⟨h, rfl⟩
  rw [effect_eq]
  show EStateM.bind _ _ cursor = _
  rw [EStateM.bind, hparameters, i.length_slots]

theorem exists_conclude {opcode : Opcode} {values : List Word} (h : ¬f.Overflows opcode values)
    (cursor : Nat) : ∃ e cursor', f.conclude opcode values cursor = .ok e cursor' := by
  cases hconclude : f.conclude opcode values cursor with
  | ok e cursor' => exact ⟨e, cursor', rfl⟩
  | error fault cursor' => exact absurd (conclude_eq_error_iff.mp hconclude).1 h

end Frame

/-! ## The failing check -/

namespace Machine

variable {δ : Type}

/-- The instruction fails at the check: it does not pass, and all checks before it do. The
cursor is on the first parameter word. -/
inductive Fails [Source δ] (m : Machine δ) (i : Instruction) (address : Nat) :
    Check → Fault → Prop
  | parameter {place : Nat} {s : Slot} {values : List Word} {fault : Fault}
      (hs : i.slots[place]? = some s)
      (hvalues : (m.frame address).Values m.registers.cursor (i.slots.take place) values)
      (hfault : s.Unresolved m.registers.base (m.memory.get (m.registers.cursor + place))
        address fault) :
      Fails m i address (.parameter place) fault
  | arithmetic {values : List Word}
      (hvalues : (m.frame address).Values m.registers.cursor i.slots values)
      (hoverflows : (m.frame address).Overflows i.opcode values) :
      Fails m i address .arithmetic (.overflow address)
  | input {values : List Word}
      (hvalues : (m.frame address).Values m.registers.cursor i.slots values)
      (hop : i.opcode = .input) (hnone : (Source.request m.device).value? = none) :
      Fails m i address .input (.inputExhausted address)
  | destination {values : List Word} {place : Nat} {w : Word}
      (hvalues : (m.frame address).Values m.registers.cursor i.slots values)
      (hfits : ¬(m.frame address).Overflows i.opcode values)
      (hinput : i.opcode = .input → (Source.request m.device).value? ≠ none)
      (hplace : i.opcode.destination? = some place) (hw : values[place]? = some w)
      (hneg : w.toInt < 0) :
      Fails m i address .destination (.invalidAddress w)
  | jump {values : List Word} {target : Word}
      (hvalues : (m.frame address).Values m.registers.cursor i.slots values)
      (hjump : i.opcode.jump? values = some target) (hneg : target.toInt < 0) :
      Fails m i address .jump (.invalidAddress target)

/-- What an instruction that fails at the check leaves of the machine. Nothing is changed or
given out, and the source was asked once or not at all. -/
structure Abandoned [Source δ] (m : Machine δ) (opcode : Opcode) (check : Check)
    (m' : Machine δ) : Prop where
  memory : m'.memory = m.memory
  base : m'.registers.base = m.registers.base
  cycles : m'.registers.cycles = m.registers.cycles
  status : m'.registers.status = m.registers.status
  cursor : m'.registers.cursor = m.registers.cursor + check.fetched opcode
  unasked : check.asks opcode = false → m'.device = m.device ∧ m'.log = m.log
  asked : check.asks opcode = true → m'.device = (Source.request m.device).device
    ∧ m'.log = m.log ++ (Source.request m.device).events

/-- The machine that an instruction leaves when it fails at a check. -/
def abandon [Source δ] (m : Machine δ) (opcode : Opcode) (check : Check) : Machine δ :=
  let moved := m.moveTo (m.registers.cursor + check.fetched opcode)
  if check.asks opcode then moved.request.2 else moved

variable {m m' : Machine δ} {i : Instruction} {address : Nat} {fault : Fault}

theorem abandoned_iff [Source δ] {opcode : Opcode} {check : Check} :
    m.Abandoned opcode check m' ↔ m' = m.abandon opcode check := by
  constructor
  · intro h
    obtain ⟨memory, ⟨cursor, base, cycles, status⟩, device, log⟩ := m'
    obtain ⟨rfl, rfl, rfl, rfl, rfl, hunasked, hasked⟩ := h
    rw [abandon]
    by_cases hasks : check.asks opcode = true
    · obtain ⟨rfl, rfl⟩ := hasked hasks
      rw [if_pos hasks]
      rfl
    · obtain ⟨rfl, rfl⟩ := hunasked (Bool.eq_false_iff.mpr hasks)
      rw [if_neg hasks]
      rfl
  · rintro rfl
    rw [abandon]
    by_cases hasks : check.asks opcode = true
    · rw [if_pos hasks]
      exact ⟨rfl, rfl, rfl, rfl, rfl, by simp [hasks], fun _ => ⟨rfl, rfl⟩⟩
    · rw [if_neg hasks]
      exact ⟨rfl, rfl, rfl, rfl, rfl, fun _ => ⟨rfl, rfl⟩, by simp [hasks]⟩

theorem not_overflows_of_input {f : Frame} {opcode : Opcode} {values : List Word}
    (h : opcode = .input) : ¬f.Overflows opcode values := by
  rintro ⟨n, hn, -⟩
  simp [h, Opcode.computed?] at hn

theorem not_overflows_of_jump? {f : Frame} {opcode : Opcode} {values : List Word} {target : Word}
    (h : opcode.jump? values = some target) : ¬f.Overflows opcode values := by
  rintro ⟨n, hn, -⟩
  cases opcode <;> simp [Opcode.jump?, Opcode.computed?] at h hn

theorem address?_of_jump? {opcode : Opcode} {values : List Word} {target : Word}
    (h : opcode.jump? values = some target) :
    opcode.address? values = some target ∧ opcode ≠ .input := by
  rw [Opcode.address?, h]
  cases opcode <;> simp [Opcode.jump?, Opcode.destination?] at h ⊢

/-! ## Input that is lost -/

/-- The only parameter of the input instruction is its destination. -/
theorem values_of_input (hop : i.opcode = .input) {values : List Word} :
    (m.frame address).Values m.registers.cursor i.slots values ↔
      ∃ w : Word, w.toInt = i.first.location m.registers.base (m.memory.get m.registers.cursor)
        ∧ values = [w] := by
  have hslots : i.slots = [⟨i.first, true⟩] := by
    simp [Instruction.slots, Instruction.modes, hop, Opcode.parameterCount, Opcode.destination?]
  rw [hslots]
  constructor
  · intro h
    cases h with
    | cons hw hrest =>
        cases hrest
        exact ⟨_, hw, rfl⟩
  · rintro ⟨w, hw, rfl⟩
    exact .cons hw .nil

theorem input_of_asks [Source δ] {check : Check} (h : m.Fails i address check fault)
    (hasks : check.asks i.opcode = true) :
    i.opcode = .input ∧ ∃ w : Word,
      w.toInt = i.first.location m.registers.base (m.memory.get m.registers.cursor) := by
  cases h with
  | parameter | arithmetic | jump => cases hasks
  | input hvalues hop hnone =>
      obtain ⟨w, hw, -⟩ := (values_of_input hop).mp hvalues
      exact ⟨hop, w, hw⟩
  | destination hvalues =>
      have hop : i.opcode = .input := of_decide_eq_true hasks
      obtain ⟨w, hw, -⟩ := (values_of_input hop).mp hvalues
      exact ⟨hop, w, hw⟩

/-- A value is taken by an instruction that fails exactly if it cannot be stored. -/
theorem exists_fails_asks_iff [Source δ] {value : Word}
    (hvalue : (Source.request m.device).value? = some value) :
    (∃ check fault, m.Fails i address check fault ∧ check.asks i.opcode = true) ↔
      i.opcode = .input ∧ ∃ w : Word,
        w.toInt = i.first.location m.registers.base (m.memory.get m.registers.cursor)
          ∧ w.toInt < 0 := by
  constructor
  · rintro ⟨check, fault, hfails, hasks⟩
    obtain ⟨hop, -⟩ := input_of_asks hfails hasks
    refine ⟨hop, ?_⟩
    cases hfails with
    | parameter | arithmetic | jump => cases hasks
    | input _ _ hnone =>
        rw [hvalue] at hnone
        cases hnone
    | @destination _ place _ hvalues _ _ hplace hw hneg =>
        obtain ⟨w, hlocation, rfl⟩ := (values_of_input hop).mp hvalues
        rw [hop] at hplace
        cases hplace
        cases hw
        exact ⟨_, hlocation, hneg⟩
  · rintro ⟨hop, w, hlocation, hneg⟩
    have hvalues : (m.frame address).Values m.registers.cursor i.slots [w] :=
      (values_of_input hop).mpr ⟨w, hlocation, rfl⟩
    refine ⟨.destination, _, .destination hvalues (not_overflows_of_input hop) ?_
      (by rw [hop]; rfl) rfl hneg, decide_eq_true hop⟩
    intro _ hnone
    rw [hvalue] at hnone
    cases hnone

/-! ## Execution -/

theorem store_eq_fault_iff {target value : Word} :
    m.store target value = ⟨m', some fault⟩ ↔
      target.toInt < 0 ∧ fault = .invalidAddress target ∧ m' = m := by
  constructor
  · intro h
    obtain ⟨hm', hfault, hneg⟩ := store_eq_fault h
    exact ⟨hneg, hfault, hm'⟩
  · rintro ⟨hneg, rfl, rfl⟩
    rw [store, Memory.write, Word.toAddress?_eq_none_iff.mpr hneg]

variable [Source δ] [Sink δ]

/-- An effect fails for want of input, or because of a negative address. Input is asked for
first. -/
theorem perform_eq_fault_iff {e : Effect} :
    m.perform address e = ⟨m', some fault⟩ ↔
      (e.takesInput = true ∧ (Source.request m.device).value? = none
          ∧ fault = .inputExhausted address ∧ m' = m.request.2)
        ∨ ∃ w, e.address? = some w ∧ w.toInt < 0 ∧ fault = .invalidAddress w
          ∧ (e.takesInput = true → (Source.request m.device).value? ≠ none)
          ∧ m' = if e.takesInput then m.request.2 else m := by
  cases e with
  | store target value =>
      simp [perform, store_eq_fault_iff, Effect.takesInput, Effect.address?]
  | input target =>
      have hvalue : m.request.1 = (Source.request m.device).value? := rfl
      rw [perform, ← hvalue]
      rcases m.request with ⟨_ | value, after⟩
      · simp [Effect.takesInput, Effect.address?, eq_comm, and_comm]
      · simp [Effect.takesInput, Effect.address?, store_eq_fault_iff]
  | jump target =>
      rw [perform]
      cases haddress : target.toAddress? with
      | some cursor =>
          have hcursor := Word.toAddress?_eq_some_iff.mp haddress
          have hneg : ¬target.toInt < 0 := by omega
          simp [Effect.takesInput, Effect.address?, hneg]
      | none =>
          have hneg := Word.toAddress?_eq_none_iff.mp haddress
          simp [Effect.takesInput, Effect.address?, hneg, eq_comm, and_comm]
  | output | proceed | rebase | halt => simp [perform, Effect.takesInput, Effect.address?]

theorem execute_of_unresolved {place : Nat} {s : Slot} {values : List Word}
    (hs : i.slots[place]? = some s)
    (hvalues : (m.frame address).Values m.registers.cursor (i.slots.take place) values)
    (hfault : s.Unresolved m.registers.base (m.memory.get (m.registers.cursor + place)) address
      fault) :
    m.execute i address = ⟨m.abandon i.opcode (.parameter place), some fault⟩ := by
  have hparameters := Frame.parameters_eq_error_iff.mpr ⟨place, s, values, hs, hvalues, hfault, rfl⟩
  rw [execute, Frame.effect_eq, Fetch.bind_eq_error_iff.mpr (.inl hparameters)]
  rfl

theorem execute_of_overflows {values : List Word}
    (hvalues : (m.frame address).Values m.registers.cursor i.slots values)
    (hoverflows : (m.frame address).Overflows i.opcode values) :
    m.execute i address = ⟨m.abandon i.opcode .arithmetic, some (.overflow address)⟩ := by
  rw [execute, Frame.effect_of_values hvalues,
    Frame.conclude_eq_error_iff.mpr ⟨hoverflows, rfl, rfl⟩]
  rfl

/-- With all values known and in range, only input and addresses are left to check. -/
theorem execute_of_values {values : List Word}
    (hvalues : (m.frame address).Values m.registers.cursor i.slots values)
    (hfits : ¬(m.frame address).Overflows i.opcode values) :
    m.execute i address = ⟨m', some fault⟩ ↔
      (i.opcode = .input ∧ (Source.request m.device).value? = none
          ∧ fault = .inputExhausted address ∧ m' = m.abandon i.opcode .input)
        ∨ ∃ w, i.opcode.address? values = some w ∧ w.toInt < 0 ∧ fault = .invalidAddress w
          ∧ (i.opcode = .input → (Source.request m.device).value? ≠ none)
          ∧ m' = m.abandon i.opcode .destination := by
  have hlength := hvalues.length_eq.trans i.length_slots
  obtain ⟨e, cursor, hconclude⟩ :=
    Frame.exists_conclude hfits (m.registers.cursor + i.opcode.parameterCount)
  obtain ⟨rfl, hinput, haddress⟩ := Frame.conclude_eq_ok hlength hconclude
  rw [execute, Frame.effect_of_values hvalues, hconclude]
  simp only [perform_eq_fault_iff, hinput, haddress, decide_eq_true_eq, abandon, Check.asks,
    Check.fetched, if_true]
  rfl

theorem fails_of_execute (h : m.execute i address = ⟨m', some fault⟩) :
    ∃ check, m.Fails i address check fault ∧ m' = m.abandon i.opcode check := by
  cases hparameters : (m.frame address).parameters i.slots m.registers.cursor with
  | error fault' cursor =>
      obtain ⟨place, s, values, hs, hvalues, hfault, -⟩ :=
        Frame.parameters_eq_error_iff.mp hparameters
      rw [execute_of_unresolved hs hvalues hfault] at h
      cases h
      exact ⟨.parameter place, .parameter hs hvalues hfault, rfl⟩
  | ok values cursor =>
      obtain ⟨hvalues, -⟩ := Frame.parameters_eq_ok_iff.mp hparameters
      by_cases hoverflows : (m.frame address).Overflows i.opcode values
      · rw [execute_of_overflows hvalues hoverflows] at h
        cases h
        exact ⟨.arithmetic, .arithmetic hvalues hoverflows, rfl⟩
      · rcases (execute_of_values hvalues hoverflows).mp h with ⟨hop, hnone, rfl, rfl⟩
          | ⟨w, hw, hneg, rfl, hinput, rfl⟩
        · exact ⟨.input, .input hvalues hop hnone, rfl⟩
        · rcases Option.or_eq_some_iff.mp hw with hw | ⟨-, hjump⟩
          · obtain ⟨place, hplace, hw⟩ := Option.bind_eq_some_iff.mp hw
            exact ⟨.destination, .destination hvalues hoverflows hinput hplace hw hneg, rfl⟩
          · have hop := (address?_of_jump? hjump).2
            refine ⟨.jump, .jump hvalues hjump hneg, ?_⟩
            simp [abandon, Check.asks, Check.fetched, hop]

theorem execute_of_fails {check : Check} (h : m.Fails i address check fault) :
    m.execute i address = ⟨m.abandon i.opcode check, some fault⟩ := by
  cases h with
  | parameter hs hvalues hfault => exact execute_of_unresolved hs hvalues hfault
  | arithmetic hvalues hoverflows => exact execute_of_overflows hvalues hoverflows
  | input hvalues hop hnone =>
      refine (execute_of_values hvalues (not_overflows_of_input hop)).mpr (.inl ?_)
      exact ⟨hop, hnone, rfl, rfl⟩
  | destination hvalues hfits hinput hplace hw hneg =>
      refine (execute_of_values hvalues hfits).mpr (.inr ⟨_, ?_, hneg, rfl, hinput, rfl⟩)
      rw [Opcode.address?, hplace, Option.bind_some, hw, Option.some_or]
  | jump hvalues hjump hneg =>
      obtain ⟨haddress, hop⟩ := address?_of_jump? hjump
      refine (execute_of_values hvalues (not_overflows_of_jump? hjump)).mpr
        (.inr ⟨_, haddress, hneg, rfl, fun hinput => absurd hinput hop, ?_⟩)
      simp [abandon, Check.asks, Check.fetched, hop]

theorem execute_eq_fault_iff :
    m.execute i address = ⟨m', some fault⟩ ↔
      ∃ check, m.Fails i address check fault ∧ m.Abandoned i.opcode check m' := by
  simp only [abandoned_iff]
  constructor
  · exact fails_of_execute
  · rintro ⟨check, hfails, rfl⟩
    exact execute_of_fails hfails

/-- **Atomicity.** An instruction fails exactly if one of its checks does, and the check says
with which fault and what is left: memory and registers are as before, but for the cursor,
which is behind the words fetched for the check, and nothing was given out. The source was
asked only by an input instruction whose destination had been resolved. If it had a value,
the value is lost exactly if the destination is negative. -/
theorem execute_atomic (m : Machine δ) (i : Instruction) (address : Nat) :
    (∀ m' fault, m.execute i address = ⟨m', some fault⟩ ↔
        ∃ check, m.Fails i address check fault ∧ m.Abandoned i.opcode check m')
      ∧ (∀ check fault, m.Fails i address check fault → check.asks i.opcode = true →
          i.opcode = .input ∧ ∃ w : Word,
            w.toInt = i.first.location m.registers.base (m.memory.get m.registers.cursor))
      ∧ ∀ value, (Source.request m.device).value? = some value →
          ((∃ check fault, m.Fails i address check fault ∧ check.asks i.opcode = true) ↔
            i.opcode = .input ∧ ∃ w : Word,
              w.toInt = i.first.location m.registers.base (m.memory.get m.registers.cursor)
                ∧ w.toInt < 0) := by
  refine ⟨?_, ?_, ?_⟩
  · intro m' fault
    exact execute_eq_fault_iff
  · intro check fault hfails hasks
    exact input_of_asks hfails hasks
  · intro value hvalue
    exact exists_fails_asks_iff hvalue

/-- An input instruction with a negative destination, and a value to take. -/
def unstorable : Machine (Script × Collector) :=
  (ofProgram [3, -1] (⟨[7]⟩, .plain)).moveTo 1

theorem execute_atomic_unstorable :
    (Source.request unstorable.device).value? = some 7
      ∧ ∃ check m', unstorable.execute (.positional .input) 0 = ⟨m', some (.invalidAddress (-1))⟩
        ∧ unstorable.Fails (.positional .input) 0 check (.invalidAddress (-1))
        ∧ unstorable.Abandoned .input check m' ∧ m'.registers.cursor = 2
        ∧ m'.device.1.queue = []
        ∧ ∃ check fault, unstorable.Fails (.positional .input) 0 check fault
          ∧ check.asks .input = true := by
  obtain ⟨m', hexecute, hcursor, hqueue⟩ : ∃ m',
      unstorable.execute (.positional .input) 0 = ⟨m', some (.invalidAddress (-1))⟩
        ∧ m'.registers.cursor = 2 ∧ m'.device.1.queue = [] := ⟨_, rfl, rfl, rfl⟩
  obtain ⟨hfault, -, hlost⟩ := execute_atomic unstorable (.positional .input) 0
  obtain ⟨check, hfails, habandoned⟩ := (hfault m' _).mp hexecute
  exact ⟨rfl, check, m', hexecute, hfails, habandoned, hcursor, hqueue,
    (hlost 7 rfl).mpr ⟨rfl, -1, rfl, by decide⟩⟩

end Machine

end Intcode
