import Mathlib.Computability.Language
import Intcode.Proofs.Numerals
import Intcode.Proofs.ParseImage

/-!
# The patterns of assembly text

What a piece of assembly text can be is given here without the lexer, by six patterns
(`Pattern.language`): blanks, comments, names, numbers, directives and marks. A text
that matches one of the last four is written for at most one token (`Token.WrittenAs`).

The lexer finds the pattern of a piece by its first character and the one after it. So
the characters after the first in a text of some pattern are those that the rule of the
piece goes on with (`continues_of_mem`), and no text in front of the input that
matches a pattern is longer than the piece which the lexer cuts off
(`length_le_of_mem`).
-/

namespace Intcode.Assembly

open scoped Computability

/-! ## Languages -/

/-- The texts of one character of the class. -/
def oneOf (p : Char → Prop) : Language Char :=
  {text | ∃ c, p c ∧ text = [c]}

theorem mem_kstar_oneOf {p : Char → Prop} {text : List Char} :
    text ∈ (oneOf p)∗ ↔ ∀ c ∈ text, p c := by
  rw [Language.mem_kstar]
  constructor
  · rintro ⟨pieces, rfl, hpieces⟩ c hc
    obtain ⟨piece, hpiece, hc⟩ := List.mem_flatten.mp hc
    obtain ⟨d, hd, rfl⟩ := hpieces piece hpiece
    rw [List.mem_singleton.mp hc]
    exact hd
  · intro h
    refine ⟨text.map ([·]), ?_, ?_⟩
    · rw [← List.flatMap_def, List.flatMap_singleton']
    · intro piece hpiece
      obtain ⟨c, hc, rfl⟩ := List.mem_map.mp hpiece
      exact ⟨c, h c hc, rfl⟩

theorem mem_oneOf_mul {p : Char → Prop} {l : Language Char} {text : List Char} :
    text ∈ oneOf p * l ↔ ∃ c rest, text = c :: rest ∧ p c ∧ rest ∈ l := by
  rw [Language.mem_mul]
  constructor
  · rintro ⟨_, ⟨c, hc, rfl⟩, rest, hrest, rfl⟩
    exact ⟨c, rest, rfl, hc, hrest⟩
  · rintro ⟨c, rest, rfl, hc, hrest⟩
    exact ⟨[c], ⟨c, hc, rfl⟩, rest, hrest, rfl⟩

/-- A character of one class, and then any number of characters of another. -/
theorem cons_mem_oneOf_mul_kstar {p q : Char → Prop} {c : Char} {cs : List Char} :
    c :: cs ∈ oneOf p * (oneOf q)∗ ↔ p c ∧ ∀ x ∈ cs, q x := by
  rw [mem_oneOf_mul]
  constructor
  · rintro ⟨_, _, ⟨⟩, hc, hcs⟩
    exact ⟨hc, mem_kstar_oneOf.mp hcs⟩
  · rintro ⟨hc, hcs⟩
    exact ⟨c, cs, rfl, hc, mem_kstar_oneOf.mpr hcs⟩

/-! ## Patterns -/

/-- What a piece of assembly text can be. -/
inductive Pattern where
  | blanks
  | comment
  | name
  | number
  | directive
  | mark

/-- The characters that are a token, with the token. -/
def marks : List (Char × Token) :=
  [(',', .comma), (':', .colon), ('[', .leftBracket), (']', .rightBracket), ('+', .plus),
   ('-', .minus), ('\n', .newline)]

namespace Pattern

def IsBlank (c : Char) : Prop :=
  c = ' ' ∨ c = '\t' ∨ c = '\r'

def IsDigit (c : Char) : Prop :=
  '0' ≤ c ∧ c ≤ '9'

/-- One or more digits. -/
def digits : Language Char :=
  oneOf IsDigit * (oneOf IsDigit)∗

/-- A letter, and then letters and digits. -/
def names : Language Char :=
  oneOf IsLetter * (oneOf fun c => IsLetter c ∨ IsDigit c)∗

/-- The texts of a pattern. -/
def language : Pattern → Language Char
  | blanks => oneOf IsBlank * (oneOf IsBlank)∗
  | comment => oneOf (fun c => c = '#' ∨ c = ';') * (oneOf (· ≠ '\n'))∗
  | name => names
  | number => (1 + oneOf (· = '-')) * digits
  | directive => oneOf (· = '.') * names
  | mark => oneOf (fun c => ∃ t, (c, t) ∈ marks)

end Pattern

/-- The text is one that the token is written as: names stand for themselves, directives have a
dot in front of their name, numbers are in decimal, and each mark is a character. -/
inductive Token.WrittenAs : Token → List Char → Prop where
  | identifier {text : List Char} (h : text ∈ Pattern.name.language) :
      WrittenAs (.identifier (String.ofList text)) text
  | number {text : List Char} {value : Word} (h : text ∈ Pattern.number.language)
      (hvalue : Text.Numeral text value.toInt) : WrittenAs (.number value) text
  | directive {text : List Char} (h : text ∈ Pattern.name.language) :
      WrittenAs (.directive (String.ofList text)) ('.' :: text)
  | mark {c : Char} {t : Token} (h : (c, t) ∈ marks) : WrittenAs t [c]

/-- The text is blank or a comment. -/
def IsSkipped (text : List Char) : Prop :=
  text ∈ Pattern.blanks.language ∨ text ∈ Pattern.comment.language

/-- The text is a number, and its value is that of no word. -/
structure Overflows (text : List Char) : Prop where
  number : text ∈ Pattern.number.language
  outside : ∃ i, Text.Numeral text i ∧ (i < -0x8000000000000000 ∨ 0x8000000000000000 ≤ i)

/-! ## Texts of a pattern, by their first character -/

theorem isBlank_iff {c : Char} : Pattern.IsBlank c ↔ isBlank c = true := by
  simp [Pattern.IsBlank, isBlank, or_assoc]

theorem mem_marks_iff {c : Char} {t : Token} : (c, t) ∈ marks ↔ mark? c = some t := by
  constructor
  · intro h
    simp only [marks, List.mem_cons, Prod.mk.injEq, List.not_mem_nil, or_false] at h
    rcases h with ⟨rfl, rfl⟩ | ⟨rfl, rfl⟩ | ⟨rfl, rfl⟩ | ⟨rfl, rfl⟩ | ⟨rfl, rfl⟩ | ⟨rfl, rfl⟩
      | ⟨rfl, rfl⟩ <;> rfl
  · intro h
    unfold mark? at h
    split at h <;> cases h <;> simp [marks]

section Cons

variable {c : Char} {cs : List Char}

theorem cons_mem_blanks :
    c :: cs ∈ Pattern.blanks.language ↔ isBlank c = true ∧ ∀ x ∈ cs, isBlank x = true := by
  rw [Pattern.language, cons_mem_oneOf_mul_kstar]
  simp only [isBlank_iff]

theorem cons_mem_comment :
    c :: cs ∈ Pattern.comment.language ↔ opensComment c = true ∧ ∀ x ∈ cs, x ≠ '\n' := by
  rw [Pattern.language, cons_mem_oneOf_mul_kstar]
  simp [opensComment]

theorem cons_mem_names : c :: cs ∈ Pattern.names ↔ isName (c :: cs) = true := by
  rw [Pattern.names, cons_mem_oneOf_mul_kstar, isName, Bool.and_eq_true, List.all_eq_true]
  simp only [startsName_iff, continuesName_iff, Pattern.IsDigit]

theorem mem_digits {text : List Char} : text ∈ Pattern.digits ↔ Text.IsDigits text := by
  rw [Pattern.digits, Text.IsDigits]
  cases text with
  | nil => simp [mem_oneOf_mul]
  | cons c cs =>
      rw [cons_mem_oneOf_mul_kstar]
      simp [Pattern.IsDigit, isDigit_iff]

theorem cons_mem_number :
    c :: cs ∈ Pattern.number.language ↔
      Text.IsDigits (c :: cs) ∨ (c = '-' ∧ Text.IsDigits cs) := by
  rw [Pattern.language, add_mul, one_mul, Language.mem_add, mem_digits, mem_oneOf_mul]
  refine or_congr_right ?_
  constructor
  · rintro ⟨_, _, ⟨⟩, hc, hcs⟩
    exact ⟨hc, mem_digits.mp hcs⟩
  · rintro ⟨hc, hcs⟩
    exact ⟨c, cs, rfl, hc, mem_digits.mpr hcs⟩

theorem mem_names {text : List Char} : text ∈ Pattern.names ↔ isName text = true := by
  cases text with
  | nil => simp [Pattern.names, mem_oneOf_mul, isName]
  | cons c cs => exact cons_mem_names

theorem cons_mem_directive :
    c :: cs ∈ Pattern.directive.language ↔ c = '.' ∧ isName cs = true := by
  rw [Pattern.language, mem_oneOf_mul]
  constructor
  · rintro ⟨_, _, ⟨⟩, hc, hcs⟩
    exact ⟨hc, mem_names.mp hcs⟩
  · rintro ⟨hc, hcs⟩
    exact ⟨c, cs, rfl, hc, mem_names.mpr hcs⟩

theorem cons_mem_mark :
    c :: cs ∈ Pattern.mark.language ↔ (∃ t, mark? c = some t) ∧ cs = [] := by
  simp only [Pattern.language, ← mem_marks_iff]
  constructor
  · rintro ⟨_, hmark, ⟨⟩⟩
    exact ⟨hmark, rfl⟩
  · rintro ⟨hmark, rfl⟩
    exact ⟨c, hmark, rfl⟩

end Cons

theorem nil_not_mem_language (p : Pattern) : [] ∉ p.language := by
  intro h
  cases p with
  | blanks | comment | name | directive =>
      obtain ⟨c, rest, hnil, -⟩ := mem_oneOf_mul.mp h
      cases hnil
  | number =>
      obtain ⟨a, -, b, hb, hnil⟩ := Language.mem_mul.mp h
      exact (mem_digits.mp hb).1 (List.append_eq_nil_iff.mp hnil).2
  | mark =>
      obtain ⟨c, -, hnil⟩ := h
      cases hnil

/-! ## Patterns and rules -/

variable {c : Char} {cs : List Char}

/-- In front of any text, a number is told by its first two characters. -/
theorem rule_of_mem_number (h : c :: cs ∈ Pattern.number.language) (rest : List Char) :
    rule c (cs ++ rest).head? = .number := by
  rcases cons_mem_number.mp h with hdigits | ⟨rfl, hne, hdigits⟩
  · exact rule_of_isDigit (hdigits.2 c List.mem_cons_self) _
  · obtain ⟨d, ds, rfl⟩ := List.exists_cons_of_ne_nil hne
    exact rule_minus (hdigits d List.mem_cons_self)

theorem rule_of_mem_directive (h : c :: cs ∈ Pattern.directive.language) (rest : List Char) :
    rule c (cs ++ rest).head? = .directive := by
  obtain ⟨rfl, hname⟩ := cons_mem_directive.mp h
  cases cs with
  | nil => cases hname
  | cons n cs => exact rule_dot (isName_cons hname).1

/-- The characters after the first are such that the rule of the piece goes on with them. -/
theorem continues_of_mem {p : Pattern} (h : c :: cs ∈ p.language) (rest : List Char) :
    ∀ x ∈ cs, (rule c (cs ++ rest).head?).continues x = true := by
  cases p with
  | blanks =>
      obtain ⟨hc, hcs⟩ := cons_mem_blanks.mp h
      rw [rule_of_isBlank hc]
      exact hcs
  | comment =>
      obtain ⟨hc, hcs⟩ := cons_mem_comment.mp h
      rw [rule_of_opensComment hc]
      exact fun x hx => decide_eq_true (hcs x hx)
  | name =>
      obtain ⟨hc, hcs⟩ := isName_cons (cons_mem_names.mp h)
      rw [rule_of_startsName hc]
      exact hcs
  | number =>
      rw [rule_of_mem_number h]
      rcases cons_mem_number.mp h with hdigits | ⟨-, hdigits⟩
      · exact fun x hx => hdigits.2 x (List.mem_cons_of_mem _ hx)
      · exact hdigits.2
  | directive =>
      rw [rule_of_mem_directive h]
      obtain ⟨-, hname⟩ := cons_mem_directive.mp h
      cases cs with
      | nil => exact List.forall_mem_nil _
      | cons n cs =>
          obtain ⟨hn, hcs⟩ := isName_cons hname
          exact List.forall_mem_cons.mpr ⟨continuesName_of_startsName hn, hcs⟩
  | mark =>
      obtain ⟨-, rfl⟩ := cons_mem_mark.mp h
      exact List.forall_mem_nil _

/-- No text of a pattern that stands at the front is longer than the first piece. -/
theorem length_le_of_mem {p : Pattern} (h : c :: cs ∈ p.language) (rest : List Char) :
    (c :: cs).length ≤ (piece c (cs ++ rest)).length := by
  rw [piece, List.takeWhile_append_of_pos (continues_of_mem h rest), List.length_cons,
    List.length_cons, List.length_append]
  omega

/-- How a piece with the given rule begins. -/
inductive Begins (c : Char) (next? : Option Char) : Rule → Prop where
  | blanks (h : isBlank c = true) : Begins c next? (.skip isBlank)
  | comment (h : opensComment c = true) : Begins c next? (.skip (· ≠ '\n'))
  | name (h : startsName c = true) : Begins c next? .name
  | digit (h : c.isDigit = true) : Begins c next? .number
  | sign (hc : c = '-') (h : next?.any Char.isDigit = true) : Begins c next? .number
  | directive (hc : c = '.') (h : next?.any startsName = true) : Begins c next? .directive
  | mark {t : Token} (h : mark? c = some t) : Begins c next? (.single (.token t))
  | stray (hblank : isBlank c = false) (hcomment : opensComment c = false)
      (hname : startsName c = false) (hdigit : c.isDigit = false)
      (hdot : c = '.' → next?.any startsName = false) (hmark : mark? c = none) :
      Begins c next? (.single .unreadable)

theorem begins_rule (c : Char) (next? : Option Char) : Begins c next? (rule c next?) := by
  unfold rule
  split
  next h => exact .blanks h
  next hblank =>
    split
    next h => exact .comment h
    next hcomment =>
      split
      next h => exact .name h
      next hname =>
        split
        next h =>
          simp only [Bool.or_eq_true, Bool.and_eq_true, decide_eq_true_eq] at h
          rcases h with h | ⟨hc, h⟩
          · exact .digit h
          · exact .sign hc h
        next hnumber =>
          split
          next h =>
            simp only [Bool.and_eq_true, decide_eq_true_eq] at h
            exact .directive h.1 h.2
          next hdirective =>
            split
            next t h => exact .mark h
            next h =>
              simp only [Bool.not_eq_true, Bool.or_eq_false_iff, Bool.and_eq_false_imp,
                decide_eq_true_eq] at hblank hcomment hname hnumber hdirective
              exact .stray hblank hcomment hname hnumber.1 hdirective h

end Intcode.Assembly
