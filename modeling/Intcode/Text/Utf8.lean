/-!
# Text in bytes

Text comes from outside as bytes in UTF-8. A stream of bytes is cut into lines
before it is decoded, so a line that is no text does not spoil the others.
-/

namespace Intcode.Text

/-- The text that bytes encode, if they are valid UTF-8. -/
def ofUtf8? (bytes : List UInt8) : Option String :=
  String.fromUTF8? bytes.toByteArray

/-- What is reported of bytes that are no text. -/
def invalidUtf8 : String :=
  "stream did not contain valid UTF-8"

/-- Cuts bytes after each newline. Every line ends in a newline but perhaps the last. -/
def lines : List UInt8 → List (List UInt8)
  | [] => []
  | b :: bytes =>
    if b = 10 then [b] :: lines bytes
    else
      match lines bytes with
      | [] => [[b]]
      | line :: others => (b :: line) :: others

/-- The lines of a stream are its bytes, in order. -/
@[simp]
theorem flatten_lines (bytes : List UInt8) : (lines bytes).flatten = bytes := by
  induction bytes with
  | nil => rfl
  | cons b bytes ih =>
    rw [lines]
    split
    · rw [List.flatten_cons, ih, List.singleton_append]
    · split
      next h =>
        rw [h] at ih
        rw [List.flatten_singleton, ← ih, List.flatten_nil]
      next line others h =>
        rw [h] at ih
        rw [List.flatten_cons, List.cons_append, ← List.flatten_cons, ih]

end Intcode.Text
