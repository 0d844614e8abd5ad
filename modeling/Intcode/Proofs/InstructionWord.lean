import Intcode.Instruction.Encoding

/-!
# Reading instruction words back

The canonical word of an instruction spells it again. `toWord` writes the code
and one digit per used mode, so what is read back has the same opcode and the
same used modes, and positional mode in the places that are not used
(`ofWord?_toWord`). All of this is about decimal places: cutting the lowest
mode digits off a word drops the first modes (`toNat_div_modePlace`).
-/

namespace Intcode.Instruction

/-! ## Lists of modes -/

theorem modes_ofModes {opcode : Opcode} {modes : List Mode}
    (h : modes.length = opcode.parameterCount) :
    (ofModes opcode modes).modes = modes := by
  have hle := opcode.parameterCount_le
  rw [Instruction.modes, show (ofModes opcode modes).opcode = opcode from rfl, ← h]
  -- there are at most three modes, and as many places for them
  rcases modes with _ | ⟨a, _ | ⟨b, _ | ⟨c, _ | ⟨d, rest⟩⟩⟩⟩
  · rfl
  · rfl
  · rfl
  · rfl
  · simp only [List.length_cons] at h
    omega

theorem toWord_ofModes (i : Instruction) :
    (ofModes i.opcode i.modes).toWord = i.toWord := by
  have h : (ofModes i.opcode i.modes).modes = i.modes := modes_ofModes i.length_modes
  rw [toWord, toNat, h]
  rfl

/-! ## Decimal places -/

theorem modesNumber_mod (modes : List Mode) :
    modesNumber modes % 10 = (modes.getD 0 .positional).digit := by
  cases modes with
  | nil => rfl
  | cons mode modes =>
      have := mode.digit_le
      rw [modesNumber, List.getD_cons_zero]
      omega

theorem modesNumber_div (modes : List Mode) :
    modesNumber modes / 10 = modesNumber modes.tail := by
  cases modes with
  | nil => rfl
  | cons mode modes =>
      have := mode.digit_le
      rw [modesNumber, List.tail_cons]
      omega

theorem modesNumber_le {modes : List Mode} (h : modes.length ≤ 3) :
    modesNumber modes ≤ 222 := by
  match modes with
  | [] => exact Nat.zero_le _
  | [a] =>
      have := a.digit_le
      simp only [modesNumber]
      omega
  | [a, b] =>
      have := a.digit_le
      have := b.digit_le
      simp only [modesNumber]
      omega
  | [a, b, c] =>
      have := a.digit_le
      have := b.digit_le
      have := c.digit_le
      simp only [modesNumber]
      omega
  | a :: b :: c :: d :: rest =>
      simp only [List.length_cons] at h
      omega

theorem toNat_le (i : Instruction) : i.toNat ≤ maxMagnitude := by
  have hmodes : modesNumber i.modes ≤ 222 :=
    modesNumber_le (by rw [length_modes]; exact i.opcode.parameterCount_le)
  have hcode := i.opcode.code_lt
  rw [toNat, maxMagnitude]
  omega

theorem toNat_mod (i : Instruction) : i.toNat % 100 = i.opcode.code := by
  have := i.opcode.code_lt
  rw [toNat]
  omega

theorem toNat_div_modePlace (i : Instruction) (place : Nat) :
    i.toNat / modePlace place = modesNumber (i.modes.drop place) := by
  induction place with
  | zero =>
      have := i.opcode.code_lt
      rw [modePlace, toNat, List.drop_zero]
      omega
  | succ place ih =>
      rw [modePlace, Nat.mul_comm, ← Nat.div_div_eq_div_mul, ih, modesNumber_div,
        List.tail_drop]

/-! ## The word and its instruction -/

theorem toInt_toWord (i : Instruction) : i.toWord.toInt = i.toNat := by
  have hle := i.toNat_le
  rw [maxMagnitude] at hle
  exact Int64.toInt_ofNat_of_lt (by omega)

theorem natAbs_toWord (i : Instruction) : i.toWord.toInt.natAbs = i.toNat := by
  rw [toInt_toWord, Int.natAbs_natCast]

theorem modeDigit_toWord (i : Instruction) (place : Nat) :
    modeDigit i.toWord place = (i.modes.getD place .positional).digit := by
  rw [modeDigit, natAbs_toWord, toNat_div_modePlace, modesNumber_mod, List.getD_eq_getElem?_getD,
    List.getD_eq_getElem?_getD, List.getElem?_drop, Nat.add_zero]

/-- The canonical word of an instruction spells it, with positional mode in the
places that the opcode does not use. -/
theorem ofWord?_toWord (i : Instruction) :
    ofWord? i.toWord = some (ofModes i.opcode i.modes) := by
  have hcode : codeField i.toWord = i.opcode.code := by
    rw [codeField, natAbs_toWord, toNat_mod]
  have hmagnitude : i.toWord.toInt.natAbs ≤ maxMagnitude := by
    rw [natAbs_toWord]
    exact i.toNat_le
  rw [ofWord?, if_pos hmagnitude, hcode, Opcode.ofCode?_code]
  simp only [modeDigit_toWord, Mode.ofDigit_digit]
  rfl

end Intcode.Instruction
