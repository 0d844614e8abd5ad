import Mathlib.Algebra.Group.Nat.Defs
import Mathlib.Data.List.TakeWhile
import Intcode.Text.WhiteSpace
import Intcode.Word.Text

/-!
# Numerals and the white space around them

A numeral is a sign, which may be missing, and one or more decimal digits
(`Numeral`). Its value is that of its digits by their places, and reading a number
finds exactly this value, whatever zeros are in front of it
(`Decimal.int?_eq_some_iff`). A word is read if the value is in range
(`Word.ofText?_eq_some_iff`).

To trim a text is to split it into white space, what is left, and white space again
(`exists_trim`), where what is left has none at its ends; there is only one way to do
this (`trim_eq_iff`). White space on the outside does not matter (`trim_append_left`,
`trim_append_right`). So when a text is cut at a character that is no white space,
the pieces come to the same whether the text was trimmed before or not
(`map_trim_splitOn_trim`).
-/

namespace Intcode.Text

/-! ## Digits -/

/-- One or more decimal digits. -/
def IsDigits (text : List Char) : Prop :=
  text ≠ [] ∧ ∀ c ∈ text, c.isDigit = true

/-- The value of decimal digits: each digit stands for that many times the power of ten of its
place. -/
def digitsValue : List Char → Nat
  | [] => 0
  | c :: text => (c.toNat - '0'.toNat) * 10 ^ text.length + digitsValue text

/-- The text is a numeral with the given value: digits after an optional sign. -/
inductive Numeral : List Char → Int → Prop where
  | plain {digits : List Char} (h : IsDigits digits) : Numeral digits (digitsValue digits)
  | plus {digits : List Char} (h : IsDigits digits) : Numeral ('+' :: digits) (digitsValue digits)
  | minus {digits : List Char} (h : IsDigits digits) :
      Numeral ('-' :: digits) (-(digitsValue digits : Int))

theorem Numeral.ne_nil {text : List Char} {i : Int} (h : Numeral text i) : text ≠ [] := by
  cases h with
  | plain hdigits => exact hdigits.1
  | plus hdigits => exact List.cons_ne_nil _ _
  | minus hdigits => exact List.cons_ne_nil _ _

theorem ofDigitChars_eq_digitsValue (text : List Char) :
    Nat.ofDigitChars 10 text 0 = digitsValue text := by
  induction text with
  | nil => rfl
  | cons c text ih =>
      rw [Nat.ofDigitChars_cons, Nat.ofDigitChars_eq_ofDigitChars_zero, ih, digitsValue,
        Nat.mul_zero, Nat.zero_add, Nat.mul_comm]

namespace Decimal

theorem nat?_eq_some_iff {text : List Char} {n : Nat} :
    nat? text = some n ↔ IsDigits text ∧ digitsValue text = n := by
  rw [nat?, ofDigitChars_eq_digitsValue, IsDigits, ← List.all_eq_true]
  split
  next h => rw [Option.some.injEq, and_iff_right h]
  next h => simp only [reduceCtorEq, h, false_and]

theorem int?_minus (text : List Char) :
    int? ('-' :: text) = (nat? text).map fun n : Nat => -(n : Int) := by
  rw [int?]
  cases nat? text <;> rfl

theorem int?_plus (text : List Char) : int? ('+' :: text) = (nat? text).map Int.ofNat := by
  rw [int?, unsigned?]
  intro rest h
  cases h

theorem int?_of_no_sign {text : List Char} (hminus : ∀ rest, text ≠ '-' :: rest)
    (hplus : ∀ rest, text ≠ '+' :: rest) : int? text = (nat? text).map Int.ofNat := by
  rw [int?, unsigned?]
  · exact hplus
  · exact hminus

/-- Exactly the numerals are read, and as their values. -/
theorem int?_eq_some_iff {text : List Char} {i : Int} : int? text = some i ↔ Numeral text i := by
  constructor
  · intro h
    by_cases hminus : ∃ digits, text = '-' :: digits
    · obtain ⟨digits, rfl⟩ := hminus
      rw [int?_minus] at h
      obtain ⟨n, hn, rfl⟩ := Option.map_eq_some_iff.mp h
      obtain ⟨hdigits, rfl⟩ := nat?_eq_some_iff.mp hn
      exact .minus hdigits
    by_cases hplus : ∃ digits, text = '+' :: digits
    · obtain ⟨digits, rfl⟩ := hplus
      rw [int?_plus] at h
      obtain ⟨n, hn, rfl⟩ := Option.map_eq_some_iff.mp h
      obtain ⟨hdigits, rfl⟩ := nat?_eq_some_iff.mp hn
      exact .plus hdigits
    · rw [int?_of_no_sign (not_exists.mp hminus) (not_exists.mp hplus)] at h
      obtain ⟨n, hn, rfl⟩ := Option.map_eq_some_iff.mp h
      obtain ⟨hdigits, rfl⟩ := nat?_eq_some_iff.mp hn
      exact .plain hdigits
  · intro h
    cases h with
    | plain hdigits => exact int?_of_digits (nat?_eq_some_iff.mpr ⟨hdigits, rfl⟩)
    | plus hdigits =>
        rw [int?_plus, nat?_eq_some_iff.mpr ⟨hdigits, rfl⟩]
        rfl
    | minus hdigits =>
        rw [int?_minus, nat?_eq_some_iff.mpr ⟨hdigits, rfl⟩]
        rfl

end Decimal

/-! ## Trimming -/

/-- The text is white space throughout. -/
def IsWhite (text : List Char) : Prop :=
  ∀ c ∈ text, isWhiteSpace c = true

theorem trim_append_left {lead : List Char} (h : IsWhite lead) (text : List Char) :
    trim (lead ++ text) = trim text := by
  rw [trim, trimStart, List.dropWhile_append_of_pos h]
  rfl

theorem trimEnd_append_right {trail : List Char} (h : IsWhite trail) (text : List Char) :
    trimEnd (text ++ trail) = trimEnd text := by
  have hreverse : ∀ c ∈ trail.reverse, isWhiteSpace c = true :=
    fun c hc => h c (List.mem_reverse.mp hc)
  rw [trimEnd, List.reverse_append, List.dropWhile_append_of_pos hreverse]
  rfl

theorem trimStart_eq_nil_iff {text : List Char} : trimStart text = [] ↔ IsWhite text :=
  List.dropWhile_eq_nil_iff

theorem trim_append_right {trail : List Char} (h : IsWhite trail) (text : List Char) :
    trim (text ++ trail) = trim text := by
  rw [trim, trimStart, List.dropWhile_append]
  split
  next hempty =>
    have hwhite : trimStart text = [] := List.isEmpty_iff.mp hempty
    have htrail : trimStart trail = [] := trimStart_eq_nil_iff.mpr h
    rw [trimStart] at htrail
    rw [htrail, trim, hwhite]
  next => exact trimEnd_append_right h _

/-- Trimming takes white space away, and nothing else. -/
theorem exists_trim (text : List Char) :
    ∃ lead trail, IsWhite lead ∧ IsWhite trail ∧ text = lead ++ (trim text ++ trail) := by
  refine ⟨text.takeWhile isWhiteSpace, ((trimStart text).reverse.takeWhile isWhiteSpace).reverse,
    ?_, ?_, ?_⟩
  · exact List.all_eq_true.mp List.all_takeWhile
  · intro c hc
    exact List.all_eq_true.mp List.all_takeWhile c (List.mem_reverse.mp hc)
  · rw [trim, trimEnd, ← List.reverse_append, List.takeWhile_append_dropWhile,
      List.reverse_reverse, trimStart, List.takeWhile_append_dropWhile]

theorem trim_eq_nil_iff {text : List Char} : trim text = [] ↔ IsWhite text := by
  constructor
  · intro h
    obtain ⟨lead, trail, hlead, htrail, htext⟩ := exists_trim text
    rw [htext, h, List.nil_append]
    intro c hc
    rcases List.mem_append.mp hc with hc | hc
    · exact hlead c hc
    · exact htrail c hc
  · intro h
    have htrim := trim_append_left h []
    rw [List.append_nil] at htrim
    exact htrim

/-- The core is what is left of the text without the white space around it. -/
structure Trimmed (text core : List Char) : Prop where
  around : ∃ lead trail, IsWhite lead ∧ IsWhite trail ∧ text = lead ++ (core ++ trail)
  start : ∀ c ∈ core.head?, isWhiteSpace c = false
  stop : ∀ c ∈ core.getLast?, isWhiteSpace c = false

theorem head?_dropWhile_white (text : List Char) :
    ∀ c ∈ (text.dropWhile isWhiteSpace).head?, isWhiteSpace c = false := by
  intro c hc
  have hnot := List.head?_dropWhile_not isWhiteSpace text
  rw [Option.mem_def.mp hc] at hnot
  exact hnot

theorem trimmed_trim (text : List Char) : Trimmed text (trim text) where
  around := exists_trim text
  start := by
    intro c hc
    obtain ⟨trail, htrail⟩ : trim text <+: trimStart text := by
      rw [trim, trimEnd, ← List.reverse_suffix, List.reverse_reverse]
      exact List.dropWhile_suffix isWhiteSpace
    refine head?_dropWhile_white text c ?_
    show c ∈ (trimStart text).head?
    rw [← htrail, List.head?_append, Option.mem_def.mp hc]
    rfl
  stop := by
    intro c hc
    rw [trim, trimEnd, List.getLast?_reverse] at hc
    exact head?_dropWhile_white _ c hc

theorem trim_eq_self {text : List Char} (hstart : ∀ c ∈ text.head?, isWhiteSpace c = false)
    (hstop : ∀ c ∈ text.getLast?, isWhiteSpace c = false) : trim text = text := by
  have hdrop {cs : List Char} (hcs : ∀ c ∈ cs.head?, isWhiteSpace c = false) :
      cs.dropWhile isWhiteSpace = cs := by
    cases cs with
    | nil => rfl
    | cons c cs =>
        rw [List.dropWhile_cons, hcs c rfl]
        rfl
  rw [← List.head?_reverse] at hstop
  rw [trim, trimEnd, trimStart, hdrop hstart, hdrop hstop, List.reverse_reverse]

/-- There is one way to trim a text. -/
theorem trim_eq_iff {text core : List Char} : trim text = core ↔ Trimmed text core := by
  constructor
  · rintro rfl
    exact trimmed_trim text
  · rintro ⟨⟨lead, trail, hlead, htrail, rfl⟩, hstart, hstop⟩
    rw [trim_append_left hlead, trim_append_right htrail, trim_eq_self hstart hstop]

theorem trim_of_no_white {text : List Char} (h : ∀ c ∈ text, isWhiteSpace c = false) :
    trim text = text :=
  trim_eq_self (fun c hc => h c (List.mem_of_mem_head? hc))
    (fun c hc => h c (List.mem_of_getLast? hc))

/-! ## Pieces -/

section Pieces

variable {x : Char}

theorem splitOn_append_left {lead : List Char} (h : x ∉ lead) (text : List Char) :
    (lead ++ text).splitOn x = (text.splitOn x).modifyHead (lead ++ ·) := by
  induction lead with
  | nil =>
      rw [List.nil_append]
      cases text.splitOn x <;> rfl
  | cons c lead ih =>
      have hc : (c == x) = false := beq_eq_false_iff_ne.mpr fun heq => h (heq ▸ List.mem_cons_self)
      rw [List.cons_append, List.splitOn_cons_eq_if_modifyHead, hc,
        ih fun hx => h (List.mem_cons_of_mem _ hx)]
      cases text.splitOn x <;> rfl

/-- What is added at the end without a cut is added to the last piece. -/
theorem splitOn_append_right {trail : List Char} (h : x ∉ trail) (text : List Char) :
    ∃ front last, text.splitOn x = front ++ [last]
      ∧ (text ++ trail).splitOn x = front ++ [last ++ trail] := by
  induction text with
  | nil => exact ⟨[], [], rfl, List.splitOn_eq_singleton h⟩
  | cons c text ih =>
      obtain ⟨front, last, htext, happend⟩ := ih
      rw [List.cons_append, List.splitOn_cons_eq_if_modifyHead,
        List.splitOn_cons_eq_if_modifyHead, htext, happend]
      split
      · exact ⟨[] :: front, last, rfl, rfl⟩
      · cases front with
        | nil => exact ⟨[], c :: last, rfl, rfl⟩
        | cons piece front => exact ⟨(c :: piece) :: front, last, rfl, rfl⟩

theorem map_trim_splitOn_append_left {lead : List Char} (h : IsWhite lead) (hx : x ∉ lead)
    (text : List Char) :
    ((lead ++ text).splitOn x).map trim = (text.splitOn x).map trim := by
  rw [splitOn_append_left hx]
  cases text.splitOn x with
  | nil => rfl
  | cons piece pieces =>
      rw [List.modifyHead_cons, List.map_cons, List.map_cons, trim_append_left h]

theorem map_trim_splitOn_append_right {trail : List Char} (h : IsWhite trail) (hx : x ∉ trail)
    (text : List Char) :
    ((text ++ trail).splitOn x).map trim = (text.splitOn x).map trim := by
  obtain ⟨front, last, htext, happend⟩ := splitOn_append_right hx text
  rw [htext, happend, List.map_append, List.map_append, List.map_singleton, List.map_singleton,
    trim_append_right h]

/-- Trimming a text before it is cut does not change what its pieces are when they are trimmed. -/
theorem map_trim_splitOn_trim (hx : isWhiteSpace x = false) (text : List Char) :
    ((trim text).splitOn x).map trim = (text.splitOn x).map trim := by
  have hwhite {cs : List Char} (hcs : IsWhite cs) : x ∉ cs := by
    intro hmem
    rw [hcs x hmem] at hx
    cases hx
  obtain ⟨lead, trail, hlead, htrail, htext⟩ := exists_trim text
  calc ((trim text).splitOn x).map trim
      = ((trim text ++ trail).splitOn x).map trim :=
        (map_trim_splitOn_append_right htrail (hwhite htrail) _).symm
    _ = ((lead ++ (trim text ++ trail)).splitOn x).map trim :=
        (map_trim_splitOn_append_left hlead (hwhite hlead) _).symm
    _ = (text.splitOn x).map trim := by rw [← htext]

end Pieces

end Intcode.Text

namespace Intcode.Word

/-- Words are read from the numerals with a value in their range. -/
theorem ofText?_eq_some_iff {text : List Char} {w : Word} :
    ofText? text = some w ↔ Text.Numeral text w.toInt := by
  rw [ofText?, Option.bind_eq_some_iff]
  constructor
  · rintro ⟨i, hi, hw⟩
    rw [ofInt?_eq_some_iff.mp hw]
    exact Text.Decimal.int?_eq_some_iff.mp hi
  · intro h
    exact ⟨w.toInt, Text.Decimal.int?_eq_some_iff.mpr h, ofInt?_toInt w⟩

end Intcode.Word
