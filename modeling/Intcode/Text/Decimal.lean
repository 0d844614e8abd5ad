/-!
# Decimal numbers

How numbers are written and read. Writing uses the fewest digits and a minus
sign only; reading is more liberal, and takes leading zeros and, for signed
numbers, an optional plus sign.
-/

namespace Intcode.Text.Decimal

/-- The digits of a natural number, without leading zeros. -/
def ofNat (n : Nat) : String :=
  String.ofList (Nat.toDigits 10 n)

/-- An integer: its magnitude, after a minus sign if it is negative. -/
def ofInt : Int → String
  | .ofNat n => ofNat n
  | .negSucc n => "-" ++ ofNat (n + 1)

/-- The digits of a natural number, with zeros in front up to the given width. -/
def padded (width n : Nat) : String :=
  let digits := Nat.toDigits 10 n
  String.ofList (List.replicate (width - digits.length) '0' ++ digits)

/-- Reads one or more digits. -/
def nat? (text : List Char) : Option Nat :=
  if text ≠ [] ∧ text.all Char.isDigit then some (Nat.ofDigitChars 10 text 0) else none

/-- Reads one or more digits after an optional plus sign. -/
def unsigned? : List Char → Option Nat
  | '+' :: rest => nat? rest
  | text => nat? text

/-- Reads one or more digits after an optional sign. -/
def int? : List Char → Option Int
  | '-' :: rest => (nat? rest).map fun n => -(n : Int)
  | text => (unsigned? text).map Int.ofNat

/-! ## Reading back what was written -/

@[simp]
theorem toList_ofNat (n : Nat) : (ofNat n).toList = Nat.toDigits 10 n :=
  String.toList_ofList

theorem all_isDigit_toDigits (n : Nat) : (Nat.toDigits 10 n).all Char.isDigit :=
  List.all_eq_true.mpr fun _ hc => Nat.isDigit_of_mem_toDigits (by decide) (by decide) hc

@[simp]
theorem nat?_toDigits (n : Nat) : nat? (Nat.toDigits 10 n) = some n := by
  rw [nat?, if_pos ⟨Nat.toDigits_ne_nil, all_isDigit_toDigits n⟩, Nat.ofDigitChars_ten_toDigits]

/-- A text of digits starts with no sign. -/
theorem int?_of_digits {text : List Char} {n : Nat} (h : nat? text = some n) :
    int? text = some (n : Int) := by
  unfold int? unsigned?
  split
  next rest =>
    simp [nat?] at h
  next =>
    split
    next rest => simp [nat?] at h
    next => simp [h]

@[simp]
theorem int?_toDigits (n : Nat) : int? (Nat.toDigits 10 n) = some (n : Int) :=
  int?_of_digits (nat?_toDigits n)

@[simp]
theorem int?_ofInt (i : Int) : int? (ofInt i).toList = some i := by
  cases i with
  | ofNat n => simp [ofInt]
  | negSucc n =>
    have : (ofInt (.negSucc n)).toList = '-' :: Nat.toDigits 10 (n + 1) := by
      simp [ofInt]
    rw [this, int?, nat?_toDigits]
    rfl

end Intcode.Text.Decimal
