import Intcode.Text.Utf8

/-!
# Lines of encoded text

A stream is cut into lines byte by byte, before anything is known of the text in
it. If the stream encodes a text, the lines of bytes are the encodings of the
lines of the text (`lines_encode`): the newline is a byte of its own, and this
byte is part of no other character.
-/

namespace Intcode.Text

/-- The bytes of a text. -/
def encode (text : List Char) : List UInt8 :=
  text.flatMap String.utf8EncodeChar

/-- Puts a piece in front of the first line. -/
def prependLine {α : Type} (piece : List α) : List (List α) → List (List α)
  | [] => [piece]
  | line :: others => (piece ++ line) :: others

/-- Cuts a text after each newline. Every line ends in a newline but perhaps the last. -/
def textLines : List Char → List (List Char)
  | [] => []
  | c :: text => if c = '\n' then [c] :: textLines text else prependLine [c] (textLines text)

/-! ## Bytes of characters -/

theorem encode_cons (c : Char) (text : List Char) :
    encode (c :: text) = String.utf8EncodeChar c ++ encode text :=
  List.flatMap_cons

theorem encode_append (text text' : List Char) :
    encode (text ++ text') = encode text ++ encode text' :=
  List.flatMap_append

/-- Above the first 128 characters all bytes of a character are above those of the first. -/
theorem le_of_mem_utf8EncodeChar {c : Char} {b : UInt8} (hc : 127 < c.val.toNat)
    (hb : b ∈ String.utf8EncodeChar c) : 128 ≤ b.toNat := by
  simp only [String.utf8EncodeChar, if_neg (Nat.not_le_of_lt hc)] at hb
  split at hb
  · simp only [List.mem_cons, List.not_mem_nil, or_false] at hb
    rcases hb with rfl | rfl <;> rw [UInt8.toNat_ofNat'] <;> omega
  · split at hb
    · simp only [List.mem_cons, List.not_mem_nil, or_false] at hb
      rcases hb with rfl | rfl | rfl <;> rw [UInt8.toNat_ofNat'] <;> omega
    · simp only [List.mem_cons, List.not_mem_nil, or_false] at hb
      rcases hb with rfl | rfl | rfl | rfl <;> rw [UInt8.toNat_ofNat'] <;> omega

theorem newline_mem_utf8EncodeChar {c : Char} (h : 10 ∈ String.utf8EncodeChar c) : c = '\n' := by
  by_cases hc : c.val.toNat ≤ 127
  · rw [String.utf8EncodeChar] at h
    simp only [if_pos hc, List.mem_singleton] at h
    have hval := congrArg UInt8.toNat h
    rw [UInt8.toNat_ofNat', Nat.mod_eq_of_lt (by omega)] at hval
    exact Char.ext (UInt32.toNat.inj hval.symm)
  · exact absurd (le_of_mem_utf8EncodeChar (Nat.lt_of_not_le hc) h) (by decide)

theorem utf8EncodeChar_ne_nil (c : Char) : String.utf8EncodeChar c ≠ [] := by
  intro hnil
  have hlength := String.length_utf8EncodeChar c
  rw [hnil] at hlength
  exact absurd hlength (Nat.ne_of_lt c.utf8Size_pos)

/-! ## Decoding -/

theorem ofUtf8?_encode (text : List Char) : ofUtf8? (encode text) = some (String.ofList text) := by
  rw [ofUtf8?, String.fromUTF8?, dif_pos ⟨text, rfl⟩]
  rfl

theorem eq_encode_of_ofUtf8? {bytes : List UInt8} {text : String}
    (h : ofUtf8? bytes = some text) : bytes = encode text.toList := by
  rw [ofUtf8?, String.fromUTF8?] at h
  split at h
  next hvalid =>
    obtain rfl := Option.some.inj h
    have hbytes : (String.fromUTF8 bytes.toByteArray hvalid).toByteArray = bytes.toByteArray := rfl
    rw [← String.utf8Encode_toList] at hbytes
    exact (List.toByteArray_inj.mp hbytes).symm
  next => cases h

/-! ## Lines -/

theorem prependLine_prependLine {α : Type} (piece piece' : List α) (lines : List (List α)) :
    prependLine piece (prependLine piece' lines) = prependLine (piece ++ piece') lines := by
  cases lines with
  | nil => rfl
  | cons line others => simp only [prependLine, List.append_assoc]

theorem lines_cons {b : UInt8} (hb : b ≠ 10) (bytes : List UInt8) :
    lines (b :: bytes) = prependLine [b] (lines bytes) := by
  rw [lines, if_neg hb]
  cases lines bytes with
  | nil => rfl
  | cons line others => rfl

theorem lines_append {bytes : List UInt8} (hne : bytes ≠ []) (h : 10 ∉ bytes)
    (rest : List UInt8) : lines (bytes ++ rest) = prependLine bytes (lines rest) := by
  induction bytes with
  | nil => exact absurd rfl hne
  | cons b bytes ih =>
      rw [List.mem_cons, not_or] at h
      rw [List.cons_append, lines_cons (Ne.symm h.1)]
      by_cases hnil : bytes = []
      · rw [hnil, List.nil_append]
      · rw [ih hnil h.2, prependLine_prependLine, List.singleton_append]

theorem map_encode_prependLine (piece : List Char) (lines : List (List Char)) :
    (prependLine piece lines).map encode = prependLine (encode piece) (lines.map encode) := by
  cases lines with
  | nil => rfl
  | cons line others => simp only [prependLine, List.map_cons, encode_append]

/-- The lines of an encoded text are its encoded lines. -/
theorem lines_encode (text : List Char) : lines (encode text) = (textLines text).map encode := by
  induction text with
  | nil => rfl
  | cons c text ih =>
      rw [encode_cons, textLines]
      split
      next hc =>
        subst hc
        rw [List.map_cons, ← ih]
        rfl
      next hc =>
        have hnewline : 10 ∉ String.utf8EncodeChar c := mt newline_mem_utf8EncodeChar hc
        rw [lines_append (utf8EncodeChar_ne_nil c) hnewline, ih, map_encode_prependLine]
        simp only [encode, List.flatMap_singleton]

end Intcode.Text
