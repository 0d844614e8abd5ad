import Mathlib.Control.Monad.Basic
import Intcode.Proofs.LineSyntax
import Intcode.Proofs.ParseImage
import Intcode.Proofs.Reassembly

/-!
# Subtracting from the relative base

An operand at a distance below the relative base is written with a minus sign. The
sign is part of the number if the digits follow it at once, and a token of its own
if there are blanks between them, and the two go different ways through the parser.
They are read as the same operand, with any blanks and with any zeros in front of
the number (`readsAs_difference`). There is one exception: a sign in a number is
noticed only because the number is negative, so a zero right after its sign is
refused (`not_readsAs_gluedZero`).

How the operand is spelled does not matter to the rest of the line, which is
`ReadsAs.parse_instruction`.
-/

namespace Intcode.Assembly

/-! ## Numbers with zeros in front -/

/-- The digits of a number after so many zeros. -/
def zeroPadded (zeros n : Nat) : List Char :=
  List.replicate zeros '0' ++ Nat.toDigits 10 n

theorem ofDigitChars_zeros (zeros : Nat) (text : List Char) :
    Nat.ofDigitChars 10 (List.replicate zeros '0' ++ text) 0 = Nat.ofDigitChars 10 text 0 := by
  induction zeros with
  | zero => rfl
  | succ zeros ih =>
      rw [List.replicate_succ, List.cons_append, Nat.ofDigitChars_cons]
      exact ih

theorem isDigit_of_mem_zeroPadded {zeros n : Nat} {c : Char} (h : c ∈ zeroPadded zeros n) :
    c.isDigit = true := by
  rcases List.mem_append.mp h with h | h
  · rw [List.eq_of_mem_replicate h]
    rfl
  · exact List.all_eq_true.mp (Text.Decimal.all_isDigit_toDigits n) c h

theorem zeroPadded_ne_nil (zeros n : Nat) : zeroPadded zeros n ≠ [] := by
  intro h
  exact Nat.toDigits_ne_nil (List.append_eq_nil_iff.mp h).2

theorem nat?_zeroPadded (zeros n : Nat) : Text.Decimal.nat? (zeroPadded zeros n) = some n := by
  have hdigits : (zeroPadded zeros n).all Char.isDigit = true :=
    List.all_eq_true.mpr fun c hc => isDigit_of_mem_zeroPadded hc
  rw [Text.Decimal.nat?, if_pos ⟨zeroPadded_ne_nil zeros n, hdigits⟩, zeroPadded,
    ofDigitChars_zeros, Nat.ofDigitChars_ten_toDigits]

theorem ofText?_zeroPadded {n : Nat} {w : Word} (hw : w.toInt = n) (zeros : Nat) :
    Word.ofText? (zeroPadded zeros n) = some w := by
  rw [Word.ofText?, Text.Decimal.int?_of_digits (nat?_zeroPadded zeros n), Option.bind_some]
  exact Word.ofInt?_eq_some_iff.mpr hw

theorem ofText?_minus_zeroPadded {n : Nat} {w : Word} (hw : w.toInt = -n) (zeros : Nat) :
    Word.ofText? ('-' :: zeroPadded zeros n) = some w := by
  have hint : Text.Decimal.int? ('-' :: zeroPadded zeros n) = some (-(n : Int)) := by
    rw [Text.Decimal.int?, nat?_zeroPadded]
    rfl
  rw [Word.ofText?, hint, Option.bind_some]
  exact Word.ofInt?_eq_some_iff.mpr hw

section Lexing

variable {rest : List Char} {us : List Token} {n : Nat} {w : Word}

theorem Spells.zeroPadded (h : Spells rest us) (hstop : Stops Char.isDigit rest)
    (hw : w.toInt = n) (zeros : Nat) :
    Spells (Assembly.zeroPadded zeros n ++ rest) (.number w :: us) := by
  have hread : Rule.number.reading (Assembly.zeroPadded zeros n) = .token (.number w) := by
    simp only [Rule.number, ofText?_zeroPadded hw]
  have hdigits : ∀ c ∈ Assembly.zeroPadded zeros n, c.isDigit = true :=
    fun c hc => isDigit_of_mem_zeroPadded hc
  obtain ⟨d, ds, hds⟩ := List.exists_cons_of_ne_nil (zeroPadded_ne_nil zeros n)
  rw [hds] at hread hdigits ⊢
  obtain ⟨hd, hdigits⟩ := List.forall_mem_cons.mp hdigits
  exact h.token (rule_of_isDigit hd _) hdigits hstop hread

theorem Spells.minus_zeroPadded (h : Spells rest us) (hstop : Stops Char.isDigit rest)
    (hw : w.toInt = -n) (zeros : Nat) :
    Spells ('-' :: (Assembly.zeroPadded zeros n ++ rest)) (.number w :: us) := by
  have hread : Rule.number.reading ('-' :: Assembly.zeroPadded zeros n) = .token (.number w) := by
    simp only [Rule.number, ofText?_minus_zeroPadded hw]
  have hdigits : ∀ c ∈ Assembly.zeroPadded zeros n, c.isDigit = true :=
    fun c hc => isDigit_of_mem_zeroPadded hc
  obtain ⟨d, ds, hds⟩ := List.exists_cons_of_ne_nil (zeroPadded_ne_nil zeros n)
  rw [hds] at hread hdigits ⊢
  exact h.token (rule_minus (hdigits d List.mem_cons_self)) hdigits hstop hread

end Lexing

/-! ## Differences -/

/-- Any number of spaces and tabs. -/
def IsGap (gap : List Char) : Prop :=
  ∀ c ∈ gap, c = ' ' ∨ c = '\t'

/-- The operand so far below the relative base, with gaps around the sign and zeros in front of
the number. -/
def differenceText (gap gap' : List Char) (zeros n : Nat) : List Char :=
  '[' :: 'r' :: 'b' :: (gap ++ '-' :: (gap' ++ (zeroPadded zeros n ++ [']'])))

theorem isGap_nil : IsGap [] := by
  intro c hc
  cases hc

theorem IsGap.isBlank {gap : List Char} (h : IsGap gap) : ∀ c ∈ gap, isBlank c = true := by
  intro c hc
  rcases h c hc with rfl | rfl <;> rfl

/-- A gap ends whatever does not go on with blanks. -/
theorem IsGap.stops {c : Char} {gap : List Char} {p : Char → Bool} (h : IsGap (c :: gap))
    (hspace : p ' ' = false) (htab : p '\t' = false) (rest : List Char) :
    Stops p (c :: gap ++ rest) := by
  refine stops_cons ?_
  rcases h c List.mem_cons_self with rfl | rfl
  · exact hspace
  · exact htab

/-- The tokens of a difference: the sign is part of the number if there is no gap after it. -/
def differenceTokens (gap' : List Char) (distance offset : Word) : List Token :=
  .leftBracket :: .identifier Line.baseName
    :: ((if gap' = [] then [.number offset] else [.minus, .number distance]) ++ [.rightBracket])

section Differences

variable {gap gap' : List Char} {n : Nat} {distance offset : Word}

theorem spells_sign {rest : List Char} {us : List Token} (hgap' : IsGap gap')
    (hdistance : distance.toInt = n) (hoffset : offset.toInt = -n) (zeros : Nat)
    (h : Spells rest us) (hstop : Stops Char.isDigit rest) :
    Spells ('-' :: (gap' ++ (zeroPadded zeros n ++ rest)))
      ((if gap' = [] then [.number offset] else [.minus, .number distance]) ++ us) := by
  split
  next hnil =>
    subst hnil
    exact h.minus_zeroPadded hstop hoffset zeros
  next hne =>
    have hnumber := (h.zeroPadded hstop hdistance zeros).blanks hgap'.isBlank
    obtain ⟨c, tail, rfl⟩ := List.exists_cons_of_ne_nil hne
    exact hnumber.mark rfl fun _ => hgap'.stops rfl rfl _

theorem spells_difference {rest : List Char} {us : List Token} (hgap : IsGap gap)
    (hgap' : IsGap gap') (hdistance : distance.toInt = n) (hoffset : offset.toInt = -n)
    (zeros : Nat) (h : Spells rest us) :
    Spells (differenceText gap gap' zeros n ++ rest)
      (differenceTokens gap' distance offset ++ us) := by
  have hclose : Spells (']' :: rest) (.rightBracket :: us) := h.plainMark rfl (by decide)
  have hsign := spells_sign hgap' hdistance hoffset zeros hclose (stops_cons rfl)
  have hstop : Stops continuesName
      (gap ++ '-' :: (gap' ++ (zeroPadded zeros n ++ ']' :: rest))) := by
    cases gap with
    | nil => exact stops_cons rfl
    | cons c gap => exact hgap.stops rfl rfl _
  have hbase := spells_base (hsign.blanks hgap.isBlank) hstop
  simpa [differenceText, differenceTokens] using hbase

end Differences

/-! ## Operands in a line -/

/-- The parser takes the tokens for the operand, whatever follows them. -/
def TakenAs (ts : List Token) (o : Operand) : Prop :=
  ∀ finish placed left, placed.map Placed.token = ts →
    Line.operand finish (placed ++ left) = .ok (o, left)

/-- The text is read as the operand, whatever readable text follows it. -/
def ReadsAs (text : List Char) (o : Operand) : Prop :=
  ∀ rest us, Spells rest us →
    ∃ ts, Spells (text ++ rest) (ts ++ us) ∧ TakenAs ts o

theorem takenAs_tokens {o : Operand} (ho : o.expr.WellFormed) : TakenAs o.tokens o :=
  fun finish _ left hts => operand_of_tokens finish ho hts left

/-- A text has one list of tokens. -/
theorem Spells.unique {text : List Char} {ts us : List Token} (h : Spells text ts)
    (h' : Spells text us) : ts = us :=
  (List.map_inj_right fun _ _ => Option.some.inj).mp ((h 0).symm.trans (h' 0))

section Differences

variable {gap gap' : List Char} {n : Nat} {distance offset : Word}

/-- A number to negate and a number that is negative come to the same offset. -/
theorem takenAs_difference (hdistance : distance.toInt = n) (hoffset : offset.toInt = -n)
    (h : gap' ≠ [] ∨ n ≠ 0) :
    TakenAs (differenceTokens gap' distance offset) ⟨.relative, .number offset⟩ := by
  intro finish placed left hplaced
  obtain ⟨c, _, rfl, htail⟩ := exists_of_map_cons hplaced
  obtain ⟨c', _, rfl, htail'⟩ := exists_of_map_cons htail
  obtain ⟨vs, _, rfl, hvs, hlast⟩ := List.map_eq_append_iff.mp htail'
  obtain ⟨c'', rfl⟩ := exists_of_map_singleton hlast
  simp only [List.cons_append, List.append_assoc, List.nil_append]
  rw [operand_relative]
  split at hvs
  next hnil =>
    -- The sign is part of the number, and the number has to show it.
    have hneg : offset.toInt < 0 := by
      have hn := h.resolve_left (absurd hnil)
      omega
    obtain ⟨c₁, rfl⟩ := exists_of_map_singleton hvs
    simp only [Line.offsetClosed, List.singleton_append, Line.offset, hneg, if_true]
    rfl
  next hne =>
    have hneg : distance.neg? = some offset := by
      rw [Word.neg?, Word.ofInt?_eq_some_iff, hdistance, hoffset]
    obtain ⟨c₁, _, rfl, hnumber⟩ := exists_of_map_cons hvs
    obtain ⟨c₂, rfl⟩ := exists_of_map_singleton hnumber
    simp only [Line.offsetClosed, List.cons_append, List.nil_append, Line.offset, hneg]
    rfl

theorem not_takenAs_gluedZero {o : Operand} : ¬ TakenAs (differenceTokens [] distance 0) o := by
  intro h
  have hoperand := h 0 [⟨.leftBracket, 1⟩, ⟨.identifier Line.baseName, 2⟩, ⟨.number 0, 4⟩,
    ⟨.rightBracket, 6⟩] [] rfl
  cases hoperand

theorem readsAs_difference (hgap : IsGap gap) (hgap' : IsGap gap')
    (hdistance : distance.toInt = n) (hoffset : offset.toInt = -n) (h : gap' ≠ [] ∨ n ≠ 0)
    (zeros : Nat) :
    ReadsAs (differenceText gap gap' zeros n) ⟨.relative, .number offset⟩ := by
  intro rest us hrest
  exact ⟨differenceTokens gap' distance offset,
    spells_difference hgap hgap' hdistance hoffset zeros hrest,
    takenAs_difference hdistance hoffset h⟩

/-- A zero right after the sign is no offset. -/
theorem not_readsAs_gluedZero (hgap : IsGap gap) (zeros : Nat) (o : Operand) :
    ¬ ReadsAs (differenceText gap [] zeros 0) o := by
  intro h
  obtain ⟨ts, hspells, htaken⟩ := h [] [] Spells.nil
  have htokens : Spells (differenceText gap [] zeros 0 ++ []) (differenceTokens [] 0 0 ++ []) :=
    spells_difference hgap isGap_nil rfl rfl zeros Spells.nil
  rw [List.append_nil, List.append_nil] at hspells htokens
  rw [hspells.unique htokens] at htaken
  exact not_takenAs_gluedZero htaken

end Differences

/-! ## Instructions -/

section Instructions

variable {finish : Nat} {rest : List Placed}

/-- The tokens of operands with a comma after each. -/
def frontTokens (os : List Operand) : List Token :=
  os.flatMap fun o => o.tokens ++ [.comma]

/-- The tokens of operands with a comma in front of each. -/
def backTokens (os : List Operand) : List Token :=
  os.flatMap fun o => .comma :: o.tokens

theorem operands_of_frontTokens {os : List Operand} (hos : ∀ o ∈ os, o.expr.WellFormed)
    {placed : List Placed} (hplaced : placed.map Placed.token = frontTokens os) :
    Line.operands finish (placed ++ rest) = (Line.operands finish rest).map (os ++ ·) := by
  induction os generalizing placed with
  | nil =>
      obtain rfl := List.map_eq_nil_iff.mp hplaced
      cases h : Line.operands finish rest <;> simp [h, Except.map]
  | cons o os ih =>
      obtain ⟨ho, hos⟩ := List.forall_mem_cons.mp hos
      rw [frontTokens, List.flatMap_cons, List.append_assoc] at hplaced
      obtain ⟨us, _, rfl, hus, htail⟩ := List.map_eq_append_iff.mp hplaced
      obtain ⟨c, vs, rfl, hvs⟩ := exists_of_map_cons htail
      rw [List.append_assoc, List.cons_append,
        operands_of_comma finish (operand_of_tokens finish ho hus _), ih hos hvs]
      cases Line.operands finish rest <;> rfl

theorem operands_of_backTokens {ts : List Token} {o : Operand} (ho : TakenAs ts o)
    {os : List Operand} (hos : ∀ o ∈ os, o.expr.WellFormed) {placed : List Placed}
    (hplaced : placed.map Placed.token = ts ++ backTokens os) :
    Line.operands finish placed = .ok (o :: os) := by
  induction os generalizing ts o placed with
  | nil =>
      rw [backTokens, List.flatMap_nil, List.append_nil] at hplaced
      have hlast := ho finish placed [] hplaced
      rw [List.append_nil] at hlast
      exact operands_of_last finish hlast
  | cons o' os ih =>
      obtain ⟨ho', hos⟩ := List.forall_mem_cons.mp hos
      rw [backTokens, List.flatMap_cons] at hplaced
      obtain ⟨us, _, rfl, hus, htail⟩ := List.map_eq_append_iff.mp hplaced
      obtain ⟨c, vs, rfl, hvs⟩ := exists_of_map_cons htail
      rw [operands_of_comma finish (ho finish us _ hus), ih (takenAs_tokens ho') hos hvs]
      rfl

/-- A mnemonic in front of operands is no label. -/
theorem noLabel_of_operands {us : List Placed} {os : List Operand}
    (h : Line.operands finish us = .ok os) (name : String) (c : Nat) :
    NoLabel (⟨.identifier name, c⟩ :: us) := by
  rintro name' c₁ c₂ tail ⟨⟩
  have hcolon : Line.operand finish (⟨.colon, c₂⟩ :: tail)
      = .error (.misfit c₂ (.missing .expression (some .colon))) := rfl
  rw [operands_of_error hcolon] at h
  cases h

theorem content_of_operands {opcode : Opcode} {os : List Operand}
    (hwell : (Body.instruction opcode os).WellFormed) {us : List Placed}
    (h : ∀ finish, Line.operands finish us = .ok os) (c : Nat) :
    Line.content (⟨.identifier opcode.mnemonic, c⟩ :: us)
      = .ok (some ⟨[], some (.instruction opcode os)⟩) := by
  have hinstruction (finish : Nat) :
      Line.instruction finish opcode.mnemonic us = .ok (.instruction opcode os) := by
    refine (instruction_eq_ok_iff finish).mpr ⟨opcode, os, ofMnemonic?_mnemonic opcode, ?_,
      hwell.saturated, hwell.destination, rfl⟩
    cases us with
    | nil => exact absurd (h finish) (operands_nil finish os)
    | cons u us => exact h finish
  rw [Line.content, if_neg (by simp), labels_of_noLabel (noLabel_of_operands (h 0) _ c)]
  simp only [bind, Except.bind, Line.body, hinstruction, Except.map]
  rfl

theorem newline_not_mem_of_isOperand {ts : List Token} (h : IsOperand ts) : .newline ∉ ts := by
  cases h with
  | immediate ht => cases ht <;> simp
  | positional ht => cases ht <;> simp
  | relative hoffset =>
      cases hoffset with
      | plus ht => cases ht <;> simp
      | zero | minus hneg | negative hneg => simp

theorem TakenAs.isOperand {ts : List Token} {o : Operand} (h : TakenAs ts o) : IsOperand ts := by
  have hplaced : (ts.map (Placed.mk · 0)).map Placed.token = ts := by
    simp [Function.comp_def]
  obtain ⟨used, hused, hoperand⟩ := isOperand_of_operand (h 0 _ [] hplaced)
  rw [List.append_nil, List.append_nil] at hused
  rw [← hplaced, hused]
  exact hoperand

/-- The line of an instruction with the given text in the place of one operand. -/
def instructionText (opcode : Opcode) (front : List Operand) (text : List Char)
    (back : List Operand) : List Char :=
  spaced (.identifier opcode.mnemonic :: frontTokens front) ++ (text ++ spaced (backTokens back))

theorem parse_line {text : List Char} {ts : List Token} {content : Content}
    (hspells : Spells text ts) (hnewline : .newline ∉ ts)
    (hread : Line.read text = .ok (some content)) :
    parse (String.ofList text) = .ok [⟨content, 1⟩] := by
  have hline : '\n' ∉ (String.ofList text).toList := by
    rw [String.toList_ofList]
    exact hspells.newline_not_mem hnewline
  rw [parse_of_newline_not_mem hline, String.toList_ofList, hread]

theorem spellable_frontTokens {os : List Operand} (hos : ∀ o ∈ os, o.expr.WellFormed) :
    ∀ t ∈ frontTokens os, t.Spellable := by
  intro t ht
  obtain ⟨o, ho, ht⟩ := List.mem_flatMap.mp ht
  rcases List.mem_append.mp ht with ht | ht
  · exact spellable_of_mem_operand (hos o ho) t ht
  · rw [List.mem_singleton.mp ht]
    trivial

theorem spellable_backTokens {os : List Operand} (hos : ∀ o ∈ os, o.expr.WellFormed) :
    ∀ t ∈ backTokens os, t.Spellable := by
  intro t ht
  obtain ⟨o, ho, ht⟩ := List.mem_flatMap.mp ht
  rcases List.mem_cons.mp ht with rfl | ht
  · trivial
  · exact spellable_of_mem_operand (hos o ho) t ht

/-- A text that is read as an operand can stand in any place of any instruction. -/
theorem ReadsAs.parse_instruction {text : List Char} {o : Operand} (h : ReadsAs text o)
    {opcode : Opcode} {front back : List Operand}
    (hwell : (Body.instruction opcode (front ++ o :: back)).WellFormed) :
    parse (String.ofList (instructionText opcode front text back))
      = .ok [⟨⟨[], some (.instruction opcode (front ++ o :: back))⟩, 1⟩] := by
  have hos : ∀ x ∈ front ++ o :: back, x.expr.WellFormed :=
    fun x hx => hwell.exprs x.expr (List.mem_map_of_mem hx)
  obtain ⟨hfront, hrest⟩ := List.forall_mem_append.mp hos
  obtain ⟨-, hback⟩ := List.forall_mem_cons.mp hrest
  have hbefore : ∀ t ∈ .identifier opcode.mnemonic :: frontTokens front, t.Spellable :=
    List.forall_mem_cons.mpr ⟨isName_mnemonic opcode, spellable_frontTokens hfront⟩
  have hafter : ∀ t ∈ backTokens back, t.Spellable := spellable_backTokens hback
  obtain ⟨ts, hspells, htaken⟩ := h _ _ (spells_spaced hafter)
  have hline : Spells (instructionText opcode front text back)
      ((.identifier opcode.mnemonic :: frontTokens front) ++ (ts ++ backTokens back)) :=
    Spells.spaced hspells hbefore
  have hnewline : .newline ∉
      (.identifier opcode.mnemonic :: frontTokens front) ++ (ts ++ backTokens back) := by
    intro hmem
    rcases List.mem_append.mp hmem with hmem | hmem
    · exact hbefore _ hmem
    rcases List.mem_append.mp hmem with hmem | hmem
    · exact newline_not_mem_of_isOperand htaken.isOperand hmem
    · exact hafter _ hmem
  obtain ⟨placed, hread, hplaced⟩ := hline.read_eq
  obtain ⟨c, us, rfl, hus⟩ := exists_of_map_cons hplaced
  obtain ⟨vs, ws, rfl, hvs, hws⟩ := List.map_eq_append_iff.mp hus
  have hoperands (finish : Nat) :
      Line.operands finish (vs ++ ws) = .ok (front ++ o :: back) := by
    rw [operands_of_frontTokens hfront hvs, operands_of_backTokens htaken hback hws]
    rfl
  exact parse_line hline hnewline (hread.trans (content_of_operands hwell hoperands c))

end Instructions

/-! ## The value of a difference -/

/-- **Differences.** The operand that stands `n` below the relative base is read as such with any
gaps around the sign and any zeros in front of the number, in every place of every instruction,
unless `n` is zero and there is no gap after the sign. -/
theorem parse_difference {gap gap' : List Char} (hgap : IsGap gap) (hgap' : IsGap gap')
    (zeros : Nat) {n : Nat} (hn : n ≤ 0x7fffffffffffffff) :
    ∃ offset : Word, offset.toInt = -n
      ∧ (ReadsAs (differenceText gap gap' zeros n) ⟨.relative, .number offset⟩
          ↔ ¬ (gap' = [] ∧ n = 0))
      ∧ (¬ (gap' = [] ∧ n = 0) → ∀ opcode front back,
          (Body.instruction opcode (front ++ ⟨.relative, .number offset⟩ :: back)).WellFormed →
          parse (String.ofList
              (instructionText opcode front (differenceText gap gap' zeros n) back))
            = .ok [⟨⟨[], some (.instruction opcode
                (front ++ ⟨.relative, .number offset⟩ :: back))⟩, 1⟩]) := by
  obtain ⟨distance, hdistance⟩ : ∃ w : Word, w.toInt = n :=
    ⟨_, Int64.toInt_ofInt_of_le (by omega) (by omega)⟩
  obtain ⟨offset, hoffset⟩ : ∃ w : Word, w.toInt = -n :=
    ⟨_, Int64.toInt_ofInt_of_le (by omega) (by omega)⟩
  have hreads (h : ¬ (gap' = [] ∧ n = 0)) :
      ReadsAs (differenceText gap gap' zeros n) ⟨.relative, .number offset⟩ :=
    readsAs_difference hgap hgap' hdistance hoffset (Decidable.not_and_iff_not_or_not.mp h) zeros
  refine ⟨offset, hoffset, ⟨?_, hreads⟩, ?_⟩
  · rintro h ⟨rfl, rfl⟩
    exact not_readsAs_gluedZero hgap zeros _ h
  · intro h opcode front back hwell
    exact (hreads h).parse_instruction hwell

theorem parse_difference_greatest :
    ∃ offset : Word, offset.toInt = -0x7fffffffffffffff
      ∧ parse (String.ofList (instructionText .add [⟨.immediate, .number 5⟩]
            (differenceText [' ', '\t'] [] 2 0x7fffffffffffffff) [⟨.relative, .number 3⟩]))
        = .ok [⟨⟨[], some (.instruction .add [⟨.immediate, .number 5⟩,
            ⟨.relative, .number offset⟩, ⟨.relative, .number 3⟩])⟩, 1⟩] := by
  have hgap : IsGap [' ', '\t'] := by
    intro c hc
    simpa using hc
  obtain ⟨offset, hoffset, -, hparse⟩ :=
    parse_difference hgap isGap_nil 2 (Nat.le_refl 0x7fffffffffffffff)
  refine ⟨offset, hoffset, hparse (by decide) .add [_] [_] ⟨rfl, ?_, ?_, nofun⟩⟩
  · rintro place o ⟨⟩ ⟨⟩
    nofun
  · simp [Body.exprs, Expr.WellFormed]

/-- The same distance is an operand with a gap after the sign and none without it. -/
theorem difference_gluedZero :
    ¬ ∀ (gap gap' : List Char) (zeros n : Nat), IsGap gap → IsGap gap' →
      n ≤ 0x7fffffffffffffff → ∃ offset : Word, offset.toInt = -n
        ∧ parse (String.ofList ("out ".toList ++ differenceText gap gap' zeros n))
          = .ok [⟨⟨[], some (.instruction .output [⟨.relative, .number offset⟩])⟩, 1⟩] := by
  intro h
  obtain ⟨offset, -, hparse⟩ := h [] [] 0 0 isGap_nil isGap_nil (Nat.zero_le _)
  have hrefused : parse (String.ofList ("out ".toList ++ differenceText [] [] 0 0))
      = .error (.onLine 1 (.misfit 8 .missingOffset)) := by decide +kernel
  rw [hrefused] at hparse
  cases hparse

end Intcode.Assembly
