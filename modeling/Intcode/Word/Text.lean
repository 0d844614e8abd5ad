import Intcode.Text.Decimal
import Intcode.Word

/-!
# Words as text

Words are written and read in decimal. What is written reads back
(`ofText?_toText`); reading also takes leading zeros and a plus sign.
-/

namespace Intcode.Word

/-- The word a text denotes: an optional sign and digits, with a value in range. -/
def ofText? (text : List Char) : Option Word :=
  (Text.Decimal.int? text).bind ofInt?

/-- A word in decimal. -/
def toText (w : Word) : String :=
  Text.Decimal.ofInt w.toInt

@[simp]
theorem ofText?_toText (w : Word) : ofText? w.toText.toList = some w := by
  simp [ofText?, toText]

/-- A word is written with digits and perhaps a minus sign. -/
theorem mem_toText {w : Word} {c : Char} (h : c ∈ w.toText.toList) :
    c = '-' ∨ c.isDigit = true := by
  have hdigits (n : Nat) : ∀ d ∈ Nat.toDigits 10 n, d.isDigit = true :=
    List.all_eq_true.mp (Text.Decimal.all_isDigit_toDigits n)
  rw [toText] at h
  cases hi : w.toInt with
  | ofNat n =>
    rw [hi, Text.Decimal.ofInt, Text.Decimal.toList_ofNat] at h
    exact .inr (hdigits n c h)
  | negSucc n =>
    rw [hi, Text.Decimal.ofInt, String.toList_append, Text.Decimal.toList_ofNat] at h
    rcases List.mem_append.mp h with h | h
    · exact .inl (List.mem_singleton.mp h)
    · exact .inr (hdigits _ c h)

end Intcode.Word
