import Intcode.Proofs.FailedInstructions
import Intcode.Proofs.InstructionWord

/-!
# Canonical words

Many words spell one instruction. To normalise a word is to take the canonical word
of the instruction that it spells: the sign goes, so do the mode digits that the
opcode does not use, and of the digits that are left those from 3 on become 1. Every
digit stays or gets smaller, so the result is at most the magnitude of the word
(`toNat_le_natAbs`), and it is the magnitude exactly if that was canonical. The
canonical words are those that some instruction has (`isCanonical_iff`).

None of this changes what the instruction does. It has the same opcode, the same
modes where they are used, and these are all that is fetched (`parameters_congr`).
There is even more freedom: a destination in immediate mode is the same as one in
positional mode (`Interchangeable.execute_eq`).
-/

namespace Intcode

namespace Instruction

/-! ## Magnitudes -/

theorem ofWord?_eq_some_iff {w : Word} {i : Instruction} :
    ofWord? w = some i ↔
      w.toInt.natAbs ≤ maxMagnitude ∧ i.opcode.code = codeField w
        ∧ i.first = .ofDigit (modeDigit w 0) ∧ i.second = .ofDigit (modeDigit w 1)
        ∧ i.third = .ofDigit (modeDigit w 2) := by
  obtain ⟨opcode, first, second, third⟩ := i
  rw [ofWord?]
  split
  next hle =>
    simp only [Option.map_eq_some_iff, Opcode.ofCode?_eq_some_iff, mk.injEq, hle, true_and]
    constructor
    · rintro ⟨_, hcode, rfl, rfl, rfl, rfl⟩
      exact ⟨hcode.symm, rfl, rfl, rfl⟩
    · rintro ⟨hcode, rfl, rfl, rfl⟩
      exact ⟨opcode, hcode.symm, rfl, rfl, rfl, rfl⟩
  next hgt => simp only [reduceCtorEq, hgt, false_and]

/-- Words of one magnitude spell the same. -/
theorem ofWord?_of_natAbs_eq {v w : Word} (h : v.toInt.natAbs = w.toInt.natAbs) :
    ofWord? v = ofWord? w := by
  simp only [ofWord?, codeField, modeDigit, h]

theorem modesNumber_take_le (modes : List Mode) (count : Nat) :
    modesNumber (modes.take count) ≤ modesNumber modes := by
  induction modes generalizing count with
  | nil => exact Nat.le_of_eq (congrArg modesNumber List.take_nil)
  | cons mode modes ih =>
      cases count with
      | zero => exact Nat.zero_le _
      | succ count =>
          have := ih count
          simp only [List.take_succ_cons, modesNumber]
          omega

/-- The digits of a mode's canonical spelling are no larger than those it was read from. -/
theorem toNat_le_natAbs {w : Word} {i : Instruction} (h : ofWord? w = some i) :
    i.toNat ≤ w.toInt.natAbs := by
  obtain ⟨-, hcode, hfirst, hsecond, hthird⟩ := ofWord?_eq_some_iff.mp h
  have hused : modesNumber i.modes ≤ modesNumber [i.first, i.second, i.third] :=
    modesNumber_take_le _ _
  have hdigits := And.intro (Mode.digit_ofDigit_le (modeDigit w 0))
    (And.intro (Mode.digit_ofDigit_le (modeDigit w 1)) (Mode.digit_ofDigit_le (modeDigit w 2)))
  rw [← hfirst, ← hsecond, ← hthird] at hdigits
  simp only [modesNumber, modeDigit, modePlace] at hused hdigits
  rw [toNat, hcode, codeField]
  omega

/-! ## Canonical words -/

theorem isCanonical_toWord (i : Instruction) : isCanonical i.toWord = true := by
  rw [isCanonical, ofWord?_toWord]
  exact decide_eq_true (toWord_ofModes i)

theorem toWord_of_isCanonical {w : Word} {i : Instruction} (h : isCanonical w = true)
    (hi : ofWord? w = some i) : i.toWord = w := by
  rw [isCanonical, hi] at h
  exact of_decide_eq_true h

/-- The canonical words are those of the instructions. -/
theorem isCanonical_iff {w : Word} : isCanonical w = true ↔ ∃ i : Instruction, w = i.toWord := by
  constructor
  · intro h
    cases hi : ofWord? w with
    | none => rw [isCanonical, hi] at h; cases h
    | some i => exact ⟨i, (toWord_of_isCanonical h hi).symm⟩
  · rintro ⟨i, rfl⟩
    exact isCanonical_toWord i

/-- A word that spells an instruction has a magnitude that is a word. -/
theorem exists_magnitude {w : Word} {i : Instruction} (h : ofWord? w = some i) :
    ∃ v : Word, v.toInt = w.toInt.natAbs := by
  have hle := (ofWord?_eq_some_iff.mp h).1
  rw [maxMagnitude] at hle
  exact ⟨_, Int64.toInt_ofNat_of_lt (by omega)⟩

/-- The canonical word of an instruction is the magnitude it was read from, if that is
canonical. -/
theorem toWord_eq_iff {v w : Word} {i : Instruction} (h : ofWord? w = some i)
    (hv : v.toInt = w.toInt.natAbs) : i.toWord = v ↔ isCanonical v = true := by
  constructor
  · rintro rfl
    exact isCanonical_toWord i
  · intro hcanonical
    have hspells : ofWord? v = some i := by
      rw [← h]
      exact ofWord?_of_natAbs_eq (by rw [hv, Int.natAbs_natCast])
    exact toWord_of_isCanonical hcanonical hspells

/-! ## Instructions that do the same -/

/-- The same opcode with the same modes where they are used, except that the cell to write may
be named in positional mode by one and in immediate mode by the other. -/
structure Interchangeable (i j : Instruction) : Prop where
  opcode : i.opcode = j.opcode
  modes : ∀ place a b, i.modes[place]? = some a → j.modes[place]? = some b →
    a = b ∨ i.opcode.destination? = some place
      ∧ (a = .positional ∧ b = .immediate ∨ a = .immediate ∧ b = .positional)

theorem interchangeable_of_modes_eq {i j : Instruction} (hopcode : i.opcode = j.opcode)
    (hmodes : i.modes = j.modes) : i.Interchangeable j := by
  refine ⟨hopcode, ?_⟩
  intro place a b ha hb
  rw [hmodes, hb] at ha
  cases ha
  exact .inl rfl

end Instruction

namespace Frame

/-- A destination is never looked up, so it does not matter that it is immediate. -/
theorem parameter_immediate (f : Frame) :
    f.parameter ⟨.immediate, true⟩ = f.parameter ⟨.positional, true⟩ :=
  rfl

/-- What is fetched depends on how each parameter is fetched, and on nothing else. -/
theorem parameters_congr {f : Frame} {slots slots' : List Slot}
    (h : slots.map f.parameter = slots'.map f.parameter) :
    f.parameters slots = f.parameters slots' := by
  induction slots generalizing slots' with
  | nil =>
      obtain rfl := List.map_eq_nil_iff.mp h.symm
      rfl
  | cons s slots ih =>
      obtain ⟨s', slots', rfl, hs, hslots⟩ := List.map_eq_cons_iff.mp h.symm
      rw [parameters, parameters, hs, ih hslots.symm]

end Frame

namespace Instruction.Interchangeable

variable {i j : Instruction}

theorem parameter_eq (h : i.Interchangeable j) (f : Frame) :
    i.slots.map f.parameter = j.slots.map f.parameter := by
  have hlength : i.modes.length = j.modes.length := by
    rw [length_modes, length_modes, h.opcode]
  refine List.ext_getElem? fun place => ?_
  simp only [slots, List.getElem?_map, List.getElem?_mapIdx, Option.map_map]
  by_cases hplace : place < i.modes.length
  · have ha := List.getElem?_eq_getElem hplace
    have hb := List.getElem?_eq_getElem (hlength ▸ hplace)
    rw [ha, hb]
    simp only [Option.map_some, Function.comp_apply, ← h.opcode]
    rcases h.modes place _ _ ha hb with heq | ⟨hdestination, ⟨hi, hj⟩ | ⟨hi, hj⟩⟩
    · rw [heq]
    · rw [hi, hj, decide_eq_true hdestination, f.parameter_immediate]
    · rw [hi, hj, decide_eq_true hdestination, f.parameter_immediate]
  · rw [List.getElem?_eq_none (Nat.not_lt.mp hplace),
      List.getElem?_eq_none (hlength ▸ Nat.not_lt.mp hplace)]
    rfl

theorem effect_eq (h : i.Interchangeable j) (f : Frame) : f.effect i = f.effect j := by
  rw [Frame.effect_eq, Frame.effect_eq, Frame.parameters_congr (h.parameter_eq f), h.opcode]

/-- Interchangeable instructions do the same on every machine, faults included. -/
theorem execute_eq {δ : Type} [Source δ] [Sink δ] (h : i.Interchangeable j) (m : Machine δ)
    (address : Nat) : m.execute i address = m.execute j address := by
  rw [Machine.execute, Machine.execute, h.effect_eq]

end Instruction.Interchangeable

namespace Instruction

/-- **Normalising instruction words.** The canonical word of what a word spells is canonical, is
at most the magnitude of the word, and is the magnitude exactly if that is canonical. It spells
an instruction with the same opcode and the same modes where they are used. Instructions that
are interchangeable do the same on every machine. The canonical words are those of the
instructions. -/
theorem toWord_normalises :
    (∀ (w : Word) (i : Instruction), ofWord? w = some i →
        isCanonical i.toWord = true
          ∧ (∃ v : Word, v.toInt = w.toInt.natAbs ∧ i.toWord.toInt ≤ v.toInt
            ∧ (i.toWord = v ↔ isCanonical v = true))
          ∧ ∃ j, ofWord? i.toWord = some j ∧ j.opcode = i.opcode ∧ j.modes = i.modes
            ∧ i.Interchangeable j)
      ∧ (∀ (δ : Type) [Source δ] [Sink δ] (i j : Instruction), i.Interchangeable j →
          ∀ (m : Machine δ) (address : Nat), m.execute i address = m.execute j address)
      ∧ ∀ w : Word, isCanonical w = true ↔ ∃ i : Instruction, w = i.toWord := by
  refine ⟨?_, ?_, fun w => isCanonical_iff⟩
  · intro w i h
    obtain ⟨v, hv⟩ := exists_magnitude h
    have hle : i.toWord.toInt ≤ v.toInt := by
      rw [toInt_toWord, hv]
      exact Int.ofNat_le.mpr (toNat_le_natAbs h)
    have hmodes : (ofModes i.opcode i.modes).modes = i.modes := modes_ofModes i.length_modes
    exact ⟨isCanonical_toWord i, ⟨v, hv, hle, toWord_eq_iff h hv⟩, _, ofWord?_toWord i, rfl,
      hmodes, interchangeable_of_modes_eq rfl hmodes.symm⟩
  · intro δ _ _ i j h m address
    exact h.execute_eq m address

/-- What the word -19303 spells. Its canonical word is 103. -/
def inputImmediate : Instruction :=
  ⟨.input, .immediate, .immediate, .immediate⟩

theorem toWord_normalises_inputImmediate :
    ofWord? (-19303) = some inputImmediate ∧ inputImmediate.toWord = 103
      ∧ isCanonical inputImmediate.toWord = true ∧ isCanonical 19303 = false
      ∧ inputImmediate.Interchangeable (positional .input)
      ∧ (Machine.ofProgram [-19303, 5] ((⟨[7]⟩ : Script), Collector.plain)).execute
          inputImmediate 0
        = (Machine.ofProgram [-19303, 5] ((⟨[7]⟩ : Script), Collector.plain)).execute
          (positional .input) 0 := by
  have hspells : ofWord? (-19303) = some inputImmediate := by decide
  have hsame : inputImmediate.Interchangeable (positional .input) := by
    refine ⟨rfl, ?_⟩
    intro place a b ha hb
    match place with
    | 0 =>
        cases ha
        cases hb
        exact .inr ⟨rfl, .inr ⟨rfl, rfl⟩⟩
    | place + 1 => cases ha
  obtain ⟨hcanonical, -, -⟩ := toWord_normalises.1 _ _ hspells
  exact ⟨hspells, by decide, hcanonical, by decide, hsame,
    toWord_normalises.2.1 _ _ _ hsame _ 0⟩

end Instruction

end Intcode
