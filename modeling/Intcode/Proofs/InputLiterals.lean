import Intcode.Device.Literal
import Intcode.Proofs.ProgramText

/-!
# The texts of input literals

Whether a line of input is a literal is decided by a detour: the line is read as a
liberal reader would, and what was read has to come out the same when it is
written again. What this accepts can be said without it. An integer is written as
a zero, or as a digit other than zero and any more digits, after a minus sign if it
is negative (`Shortest`), and there is no other text of this kind with its value
(`shortest_iff`). So exactly these texts are literals, if their values are in range
(`ofLiteral_by_grammar`).

The programs of one word have more texts than that; they have in addition the
numerals that are not the shortest ones of their values.
-/

namespace Intcode.Text

/-! ## Shortest numerals -/

/-- The text is a shortest numeral with the given value: a zero, or a digit from one to nine and
any more digits, perhaps after a minus sign. -/
inductive Shortest : List Char → Int → Prop where
  | zero : Shortest ['0'] 0
  | positive {c : Char} {digits : List Char} (hc : '1' ≤ c ∧ c ≤ '9')
      (h : ∀ d ∈ digits, d.isDigit = true) : Shortest (c :: digits) (digitsValue (c :: digits))
  | negative {c : Char} {digits : List Char} (hc : '1' ≤ c ∧ c ≤ '9')
      (h : ∀ d ∈ digits, d.isDigit = true) :
      Shortest ('-' :: c :: digits) (-(digitsValue (c :: digits) : Int))

theorem leading_iff {c : Char} : ('1' ≤ c ∧ c ≤ '9') ↔ 49 ≤ c.toNat ∧ c.toNat ≤ 57 :=
  Iff.rfl

theorem digitChar_toNat {c : Char} (h : c.isDigit = true) : (c.toNat - 48).digitChar = c := by
  have hcode : 48 ≤ c.toNat ∧ c.toNat ≤ 57 := Char.isDigit_iff_toNat.mp h
  rw [← Char.toNat_inj, Nat.toNat_digitChar_of_lt_ten (by omega)]
  omega

theorem toDigits_toNat {c : Char} (h : c.isDigit = true) :
    Nat.toDigits 10 (c.toNat - 48) = [c] := by
  have hcode : 48 ≤ c.toNat ∧ c.toNat ≤ 57 := Char.isDigit_iff_toNat.mp h
  rw [Nat.toDigits_of_lt_base (by omega), digitChar_toNat h]

/-- More digits behind those of a number that is not zero are the digits of the greater number. -/
theorem toDigits_append_digits {n : Nat} (hn : 0 < n) {digits : List Char}
    (h : ∀ d ∈ digits, d.isDigit = true) :
    Nat.toDigits 10 n ++ digits = Nat.toDigits 10 (Nat.ofDigitChars 10 digits n) := by
  induction digits generalizing n with
  | nil => simp
  | cons d digits ih =>
      obtain ⟨hd, hdigits⟩ := List.forall_mem_cons.mp h
      have hcode : 48 ≤ d.toNat ∧ d.toNat ≤ 57 := Char.isDigit_iff_toNat.mp hd
      have hone : Nat.toDigits 10 n ++ [d] = Nat.toDigits 10 (10 * n + (d.toNat - 48)) := by
        rw [← toDigits_toNat hd]
        exact Nat.toDigits_append_toDigits (by decide) hn (by omega)
      calc Nat.toDigits 10 n ++ d :: digits
          = (Nat.toDigits 10 n ++ [d]) ++ digits := by simp
        _ = Nat.toDigits 10 (10 * n + (d.toNat - 48)) ++ digits := by rw [hone]
        _ = Nat.toDigits 10 (Nat.ofDigitChars 10 digits (10 * n + (d.toNat - 48))) :=
            ih (by omega) hdigits
        _ = Nat.toDigits 10 (Nat.ofDigitChars 10 (d :: digits) n) := by
            rw [Nat.ofDigitChars_cons]
            rfl

section Leading

variable {c : Char} {digits : List Char}

/-- Digits that do not start with a zero are those of their value. -/
theorem toDigits_digitsValue (hc : '1' ≤ c ∧ c ≤ '9') (h : ∀ d ∈ digits, d.isDigit = true) :
    Nat.toDigits 10 (digitsValue (c :: digits)) = c :: digits := by
  have hcode := leading_iff.mp hc
  have hdigit : c.isDigit = true :=
    Char.isDigit_iff_toNat.mpr ⟨Nat.le_of_succ_le hcode.1, hcode.2⟩
  have hfirst : 10 * 0 + (c.toNat - '0'.toNat) = c.toNat - 48 := Nat.zero_add _
  rw [← ofDigitChars_eq_digitsValue, Nat.ofDigitChars_cons, hfirst,
    ← toDigits_append_digits (by omega) h, toDigits_toNat hdigit]
  rfl

theorem digitsValue_pos (hc : '1' ≤ c ∧ c ≤ '9') : 0 < digitsValue (c :: digits) := by
  have hcode := leading_iff.mp hc
  have hplace : 0 < (c.toNat - '0'.toNat) * 10 ^ digits.length :=
    Nat.mul_pos (Nat.sub_pos_of_lt hcode.1) (Nat.pow_pos (by decide))
  rw [digitsValue]
  omega

end Leading

/-- The digits of a number that is not zero do not start with a zero. -/
theorem exists_leading {n : Nat} (hn : 0 < n) :
    ∃ c digits, Nat.toDigits 10 n = c :: digits ∧ '1' ≤ c ∧ c ≤ '9' := by
  induction n using Nat.strongRecOn with
  | ind n ih =>
      rw [Nat.toDigits_eq_if (by decide)]
      split
      next hlt =>
        refine ⟨n.digitChar, [], rfl, leading_iff.mpr ?_⟩
        rw [Nat.toNat_digitChar_of_lt_ten hlt]
        omega
      next hle =>
        obtain ⟨c, digits, hdigits, hc⟩ := ih (n / 10) (by omega) (by omega)
        exact ⟨c, digits ++ [(n % 10).digitChar], by rw [hdigits, List.cons_append], hc⟩

theorem digitsValue_toDigits (n : Nat) : digitsValue (Nat.toDigits 10 n) = n := by
  rw [← ofDigitChars_eq_digitsValue, Nat.ofDigitChars_ten_toDigits]

theorem toList_ofInt_neg {n : Nat} (hn : 0 < n) :
    (Decimal.ofInt (-(n : Int))).toList = '-' :: Nat.toDigits 10 n := by
  obtain ⟨k, rfl⟩ : ∃ k, n = k + 1 := ⟨n - 1, by omega⟩
  have hneg : (-((k + 1 : Nat) : Int)) = .negSucc k := rfl
  rw [hneg]
  simp [Decimal.ofInt]

/-- The digits of a number that is not zero are a shortest numeral, and so are they with a minus
sign. -/
theorem shortest_toDigits {n : Nat} (hn : 0 < n) :
    Shortest (Nat.toDigits 10 n) n ∧ Shortest ('-' :: Nat.toDigits 10 n) (-(n : Int)) := by
  obtain ⟨c, digits, htext, hc⟩ := exists_leading hn
  have hvalue := digitsValue_toDigits n
  have hdigits := List.all_eq_true.mp (Decimal.all_isDigit_toDigits n)
  rw [htext] at hvalue hdigits ⊢
  have htail : ∀ d ∈ digits, d.isDigit = true := (List.forall_mem_cons.mp hdigits).2
  rw [← hvalue]
  exact ⟨.positive hc htail, .negative hc htail⟩

/-- There is one shortest numeral of each value, and it is what is written. -/
theorem shortest_iff {text : List Char} {i : Int} :
    Shortest text i ↔ text = (Decimal.ofInt i).toList := by
  constructor
  · intro h
    cases h with
    | zero => rfl
    | positive hc hdigits =>
        have hnat (n : Nat) : (Decimal.ofInt n).toList = Nat.toDigits 10 n := Decimal.toList_ofNat n
        rw [hnat, toDigits_digitsValue hc hdigits]
    | negative hc hdigits =>
        rw [toList_ofInt_neg (digitsValue_pos hc), toDigits_digitsValue hc hdigits]
  · rintro rfl
    cases i with
    | ofNat n =>
        rw [Decimal.ofInt, Decimal.toList_ofNat]
        cases n with
        | zero => exact .zero
        | succ n => exact (shortest_toDigits n.succ_pos).1
    | negSucc n =>
        rw [Int.negSucc_eq, ← Int.natCast_succ, toList_ofInt_neg n.succ_pos]
        exact (shortest_toDigits n.succ_pos).2

end Intcode.Text

namespace Intcode.Word

open Text

/-! ## Literals -/

variable {text : String} {w : Word}

theorem shortest_toInt_iff {literal : List Char} :
    Shortest literal w.toInt ↔ literal = w.toText.toList :=
  shortest_iff

/-- What is accepted is what comes out the same when it is written again. -/
theorem ofLiteral_cases (text : String) :
    (∃ v, ofLiteral text = .ok v ∧ trim text.toList = v.toText.toList)
      ∨ ofLiteral text = .error ⟨trim text.toList⟩ := by
  simp only [ofLiteral]
  split
  next v hread =>
    split
    next hsame => exact .inl ⟨v, rfl, hsame.symm⟩
    next => exact .inr rfl
  next => exact .inr rfl

theorem ofLiteral_eq_ok_iff : ofLiteral text = .ok w ↔ trim text.toList = w.toText.toList := by
  constructor
  · intro h
    rcases ofLiteral_cases text with ⟨v, hv, htext⟩ | herror
    · rw [hv] at h
      cases h
      exact htext
    · rw [herror] at h
      cases h
  · intro h
    simp [ofLiteral, h]

theorem ofLiteral_eq_error_iff {e : MalformedLiteral} :
    ofLiteral text = .error e ↔
      (∀ v : Word, trim text.toList ≠ v.toText.toList) ∧ e = ⟨trim text.toList⟩ := by
  rcases ofLiteral_cases text with ⟨v, hv, htext⟩ | herror
  · rw [hv]
    exact ⟨nofun, fun h => absurd htext (h.1 v)⟩
  · have hnone : ∀ v : Word, trim text.toList ≠ v.toText.toList := by
      intro v hv
      rw [ofLiteral_eq_ok_iff.mpr hv] at herror
      cases herror
    rw [herror, and_iff_right hnone, Except.error.injEq, eq_comm]

/-- No word is written as the text exactly if the text is no shortest numeral of a value in
range. -/
theorem forall_ne_toText_iff {literal : List Char} :
    (∀ v : Word, literal ≠ v.toText.toList) ↔
      ∀ i, Shortest literal i → i < -0x8000000000000000 ∨ 0x8000000000000000 ≤ i := by
  constructor
  · intro h i hi
    rw [← ofInt?_eq_none_iff, Option.eq_none_iff_forall_ne_some]
    intro v hv
    rw [← ofInt?_eq_some_iff.mp hv] at hi
    exact h v (shortest_toInt_iff.mp hi)
  · intro h v hv
    have hlow := le_toInt v
    have hhigh := toInt_lt v
    have hrange := h v.toInt (shortest_toInt_iff.mpr hv)
    omega

/-! ## Literals and programs -/

/-- A literal is a program of one word. -/
theorem ofText_of_trim (h : trim text.toList = w.toText.toList) :
    Program.ofText text = .ok ⟨[w]⟩ := by
  obtain ⟨lead, trail, hlead, htrail, htext⟩ := exists_trim text.toList
  have hspaced : Program.spacedText [⟨lead, w, trail⟩] = text := by
    rw [Program.spacedText, ← String.toList_inj, String.toList_ofList, htext, h]
    simp [Program.Spaced.text]
  rw [← hspaced]
  exact Program.ofText_spacedText (List.cons_ne_nil _ _)
    (List.forall_mem_singleton.mpr ⟨hlead, htrail⟩)

/-- A program without a comma has one word. -/
theorem exists_word_of_ofText (hcomma : ',' ∉ text.toList) {p : Program}
    (h : Program.ofText text = .ok p) : ∃ v, p = ⟨[v]⟩ := by
  obtain ⟨words⟩ := p
  have hpieces := Program.ofText_eq_ok_iff.mp h
  rw [List.splitOn_eq_singleton hcomma, List.forall₂_cons_left_iff] at hpieces
  obtain ⟨v, rest, -, hrest, rfl⟩ := hpieces
  obtain rfl := List.forall₂_nil_left_iff.mp hrest
  exact ⟨v, rfl⟩

/-- **Literals.** Without the white space around it a literal is a zero, or an optional minus sign,
a digit from one to nine and any more digits, with a value in the range of words; its value is the
word that is read. Of any other text the error has what is left of it without that white space. A
literal is a program of this one word. A program without a comma has one word, and it is a literal,
with the same word, exactly if it is written as the word is, white space apart. -/
theorem ofLiteral_by_grammar (text : String) :
    (∀ v, ofLiteral text = .ok v ↔ Shortest (trim text.toList) v.toInt)
      ∧ (∀ e, ofLiteral text = .error e ↔
          (∀ i, Shortest (trim text.toList) i →
              i < -0x8000000000000000 ∨ 0x8000000000000000 ≤ i)
            ∧ e = ⟨trim text.toList⟩)
      ∧ (∀ v, ofLiteral text = .ok v → Program.ofText text = .ok ⟨[v]⟩)
      ∧ (',' ∉ text.toList → ∀ p, Program.ofText text = .ok p →
          ∃ v, p = ⟨[v]⟩ ∧ (ofLiteral text = .ok v ↔ trim text.toList = v.toText.toList)) := by
  refine ⟨?_, ?_, ?_, ?_⟩
  · intro v
    rw [ofLiteral_eq_ok_iff, shortest_toInt_iff]
  · intro e
    rw [ofLiteral_eq_error_iff, forall_ne_toText_iff]
  · intro v h
    exact ofText_of_trim (ofLiteral_eq_ok_iff.mp h)
  · intro hcomma p h
    obtain ⟨v, rfl⟩ := exists_word_of_ofText hcomma h
    exact ⟨v, rfl, ofLiteral_eq_ok_iff⟩

/-- The least word in a line of its own is a literal; with a plus sign and zeros a number is still
a program, but no literal. -/
theorem ofLiteral_by_grammar_leastAndSigned :
    ofLiteral "\t-9223372036854775808\n" = .ok (-0x8000000000000000)
      ∧ Program.ofText "\t-9223372036854775808\n" = .ok ⟨[-0x8000000000000000]⟩
      ∧ Program.ofText " +007" = .ok ⟨[7]⟩ ∧ ofLiteral " +007" ≠ .ok 7 := by
  have hleast : ofLiteral "\t-9223372036854775808\n" = .ok (-0x8000000000000000) := by
    decide +kernel
  have hsigned : Program.ofText " +007" = .ok ⟨[7]⟩ := by decide +kernel
  obtain ⟨-, -, hprogram, -⟩ := ofLiteral_by_grammar "\t-9223372036854775808\n"
  obtain ⟨-, -, -, hword⟩ := ofLiteral_by_grammar " +007"
  refine ⟨hleast, hprogram _ hleast, hsigned, ?_⟩
  obtain ⟨v, hv, hiff⟩ := hword (by decide) _ hsigned
  cases hv
  rw [ne_eq, hiff]
  decide

end Intcode.Word
