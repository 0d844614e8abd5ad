import Intcode.Proofs.Reassembly
import Intcode.Proofs.SourceLines

/-!
# Assembling the text of an instruction

The text of an instruction with its parameter words is a line of assembly text. What
the assembler makes of it depends on how many words there are (`assemble_text`).

If there are enough of them, the line is read as the instruction with these operands,
and only the check of the destination is left (`read_text`). Words beyond the last
parameter are not in the text at all (`text_take`).

If there are too few, the first that is missing is written as a question mark, which
is no token. Everything in front of it is spelled by tokens, no piece of the text goes
on over it, and it is on the first line, so it is what the line is blamed for
(`read_of_questionMark`).
-/

namespace Intcode

open Assembly

namespace Assembly

/-! ## Plain text -/

/-- The text is part of one line and has no comment in it. -/
def isPlain (text : List Char) : Bool :=
  text.all fun c => c ≠ '\n' && !opensComment c

theorem isPlain_append {text text' : List Char} :
    isPlain (text ++ text') = true ↔ isPlain text = true ∧ isPlain text' = true := by
  rw [isPlain, List.all_append, Bool.and_eq_true]
  exact Iff.rfl

theorem of_mem_of_isPlain {text : List Char} (h : isPlain text = true) {c : Char}
    (hc : c ∈ text) : c ≠ '\n' ∧ opensComment c = false := by
  simpa using List.all_eq_true.mp h c hc

theorem isPlain_toText (w : Word) : isPlain w.toText.toList = true := by
  refine List.all_eq_true.mpr fun c hc => ?_
  rcases Word.mem_toText hc with rfl | hdigit
  · rfl
  · have hcomment := (not_skipped_of_continuesName (continuesName_of_isDigit hdigit)).2
    have hnewline : c ≠ '\n' := by
      rintro rfl
      cases hdigit
    simp [hcomment, hnewline]

theorem isPlain_intercalate : ∀ {texts : List String},
    (∀ text ∈ texts, isPlain text.toList = true) →
    isPlain (", ".intercalate texts).toList = true
  | [], _ => rfl
  | [text], h => by simpa using h
  | text :: text' :: texts, h => by
      obtain ⟨htext, htexts⟩ := List.forall_mem_cons.mp h
      simp only [String.intercalate_cons_cons, String.toList_append, isPlain_append]
      exact ⟨⟨htext, rfl⟩, isPlain_intercalate htexts⟩

/-! ## Question marks -/

/-- A question mark is the end of every piece but a comment. -/
theorem cuts_questionMark {text : List Char} (h : ∀ c ∈ text, opensComment c = false) :
    Cuts '?' text := by
  intro c hc
  refine ⟨rfl, fun next? => ?_⟩
  have hcomment := h c hc
  rw [rule, hcomment]
  split
  · rfl
  split
  · contradiction
  split
  · rfl
  split
  · rfl
  split
  · rfl
  split <;> rfl

/-- A question mark is a piece of its own and no token. -/
theorem lexemes_questionMark (start : Nat) (rest : List Char) :
    lexemes start ('?' :: rest) = ⟨none, ['?'], start⟩ :: lexemes (start + 1) rest := by
  have hrule : rule '?' rest.head? = .single .unreadable := rfl
  obtain ⟨hpiece, hremainder⟩ := piece_remainder_single hrule
  rw [lexemes, reading, hrule, hpiece, hremainder]
  rfl

theorem Spells.find?_eq_none {text : List Char} {ts : List Token} (h : Spells text ts)
    (start : Nat) : (lexemes start text).find? (·.token?.isNone) = none := by
  rw [List.find?_eq_none]
  intro l hl
  have hmem : l.token? ∈ ts.map some := h start ▸ List.mem_map_of_mem hl
  obtain ⟨t, -, ht⟩ := List.mem_map.mp hmem
  rw [← ht]
  nofun

/-- A line is blamed for a question mark that has only tokens in front of it. -/
theorem read_of_questionMark {before : List Char} {ts : List Token} (hspells : Spells before ts)
    (hcomment : ∀ c ∈ before, opensComment c = false) (after : List Char) :
    Line.read (before ++ '?' :: after)
      = .error (.misfit (utf8Length before + 1) (.unreadable ['?'])) := by
  refine read_eq_error_iff.mpr (.piece (l := ⟨none, ['?'], utf8Length before⟩) ?_)
  rw [lexemes_append_of_cuts 0 (cuts_questionMark hcomment), List.find?_append,
    hspells.find?_eq_none, lexemes_questionMark, Nat.zero_add]
  rfl

end Assembly

namespace Instruction

/-! ## All operands -/

theorem operandTexts_take (modes : List Mode) (raws : List Word) :
    operandTexts modes (raws.take modes.length) = operandTexts modes raws := by
  induction modes generalizing raws with
  | nil => rfl
  | cons mode modes ih =>
      cases raws with
      | nil => rfl
      | cons raw raws =>
          rw [List.length_cons, List.take_succ_cons, operandTexts, operandTexts, ih]

/-- Only as many words are written as there are parameters. -/
theorem text_take (i : Instruction) (raws : List Word) :
    i.text (raws.take i.opcode.parameterCount) = i.text raws := by
  rw [text, text, ← i.length_modes, operandTexts_take]

/-- With all operands in place, an instruction is refused for its destination or not at all. -/
theorem read_text (i : Instruction) {raws : List Word}
    (h : raws.length = i.opcode.parameterCount) :
    Line.read (i.text raws).toList =
      if i.hasImmediateDestination then .error (.immediateDestination i.opcode.mnemonic)
      else .ok (some (Listing.Block.instruction i raws).content) := by
  have hspells := i.spells_text h Spells.nil (stops_nil _)
  rw [List.append_nil] at hspells
  obtain ⟨placed, hread, hplaced⟩ := hspells.read_eq
  obtain ⟨c, us, rfl, hus⟩ := exists_of_map_cons hplaced
  -- the tokens are those of an instruction whatever its modes are, so what is left are its checks
  have hlength : (i.operands raws).length = i.opcode.parameterCount := length_operands h
  have hinstruction (finish : Nat) : Line.instruction finish i.opcode.mnemonic us =
      if i.hasImmediateDestination then .error (.immediateDestination i.opcode.mnemonic)
      else .ok (.instruction i.opcode (i.operands raws)) := by
    rw [instruction_eq_of_tokens finish _ (wellFormed_of_mem_operands h) hus,
      if_neg (not_not_intro hlength), immediate_operands h]
  rw [hread, Line.content, if_neg (by simp), labels_of_noLabel (noLabel_of_body hplaced)]
  simp only [bind, Except.bind, Line.body, hinstruction]
  cases i.hasImmediateDestination <;> rfl

/-! ## Characters -/

theorem isPlain_operandText (mode : Mode) (raw : Word) :
    isPlain (mode.operandText raw).toList = true := by
  have hraw := isPlain_toText raw
  have hclose : isPlain "]".toList = true := rfl
  cases mode with
  | immediate => exact hraw
  | positional =>
      simp only [Mode.operandText, String.toList_append, isPlain_append]
      exact ⟨⟨rfl, hraw⟩, hclose⟩
  | relative =>
      rw [Mode.operandText]
      split
      · rfl
      split
      · simp only [String.toList_append, isPlain_append]
        exact ⟨⟨rfl, hraw⟩, hclose⟩
      · simp only [String.toList_append, isPlain_append]
        exact ⟨⟨rfl, hraw⟩, hclose⟩

theorem isPlain_of_mem_operandTexts {modes : List Mode} {raws : List Word} :
    ∀ text ∈ operandTexts modes raws, isPlain text.toList = true := by
  fun_induction operandTexts modes raws with
  | case1 => exact List.forall_mem_nil _
  | case2 modes mode raw raws ih =>
      exact List.forall_mem_cons.mpr ⟨isPlain_operandText _ _, ih⟩
  | case3 mode modes ih => exact List.forall_mem_cons.mpr ⟨rfl, ih⟩

theorem isPlain_mnemonic (opcode : Opcode) : isPlain opcode.mnemonic.toList = true := by
  cases opcode <;> rfl

theorem isPlain_text (i : Instruction) (raws : List Word) :
    isPlain (i.text raws).toList = true := by
  rw [text]
  split
  next => exact isPlain_mnemonic i.opcode
  next =>
    simp only [String.toList_append, isPlain_append]
    exact ⟨⟨isPlain_mnemonic i.opcode, rfl⟩, isPlain_intercalate isPlain_of_mem_operandTexts⟩

/-! ## A missing operand -/

/-- The texts of the operands that there are words for, with a comma after each. -/
def givenText (modes : List Mode) (raws : List Word) : List Char :=
  (List.zipWith Mode.operandText modes raws).flatMap fun text => text.toList ++ [',', ' ']

/-- The text of an instruction in front of the first operand that there is no word for. -/
def textBefore (i : Instruction) (raws : List Word) : List Char :=
  i.opcode.mnemonic.toList ++ ' ' :: givenText i.modes raws

theorem exists_questionMark {modes : List Mode} {raws : List Word}
    (h : raws.length < modes.length) :
    ∃ after, (", ".intercalate (operandTexts modes raws)).toList
      = givenText modes raws ++ '?' :: after := by
  induction modes generalizing raws with
  | nil => cases h
  | cons mode modes ih =>
      cases raws with
      | nil =>
          rw [operandTexts]
          cases operandTexts modes [] with
          | nil => exact ⟨[], by simp [givenText]⟩
          | cons text texts =>
              refine ⟨", ".toList ++ (", ".intercalate (text :: texts)).toList, ?_⟩
              rw [String.intercalate_cons_cons, String.toList_append, String.toList_append]
              simp [givenText]
      | cons raw raws =>
          have hlt : raws.length < modes.length := Nat.lt_of_succ_lt_succ h
          obtain ⟨after, hafter⟩ := ih hlt
          refine ⟨after, ?_⟩
          -- there is a text after this one, the question mark at the latest, so a comma follows
          have hcons : operandTexts modes raws ≠ [] := by
            rw [← List.length_pos_iff, length_operandTexts]
            omega
          obtain ⟨text, texts, htexts⟩ := List.exists_cons_of_ne_nil hcons
          rw [operandTexts, htexts, String.intercalate_cons_cons, ← htexts, String.toList_append,
            hafter]
          simp [givenText]

theorem exists_spells_givenText (modes : List Mode) (raws : List Word) :
    ∃ ts, Spells (givenText modes raws) ts := by
  induction modes generalizing raws with
  | nil => exact ⟨[], Spells.nil⟩
  | cons mode modes ih =>
      cases raws with
      | nil => exact ⟨[], Spells.nil⟩
      | cons raw raws =>
          obtain ⟨ts, hts⟩ := ih raws
          have hcomma := hts.space.plainMark (c := ',') rfl (by decide)
          have hone := mode.spells_operandText raw hcomma (stops_cons rfl)
          refine ⟨(mode.operand raw).tokens ++ .comma :: ts, ?_⟩
          simpa [givenText] using hone

theorem exists_spells_textBefore (i : Instruction) (raws : List Word) :
    ∃ ts, Spells (i.textBefore raws) ts := by
  obtain ⟨ts, hts⟩ := exists_spells_givenText i.modes raws
  exact ⟨_, hts.space.identifier (isName_mnemonic i.opcode) (stops_cons rfl)⟩

theorem text_of_missing {i : Instruction} {raws : List Word}
    (h : raws.length < i.opcode.parameterCount) :
    ∃ after, (i.text raws).toList = i.textBefore raws ++ '?' :: after := by
  rw [← i.length_modes] at h
  obtain ⟨after, hafter⟩ := exists_questionMark h
  refine ⟨after, ?_⟩
  rw [text]
  split
  next hnil =>
    rw [hnil] at hafter
    cases (List.append_eq_nil_iff.mp hafter.symm).2
  next =>
    rw [String.toList_append, String.toList_append, hafter, textBefore]
    simp

/-! ## Texts -/

theorem parse_text (i : Instruction) (raws : List Word) :
    parse (i.text raws) = match Line.read (i.text raws).toList with
      | .error problem => .error (.onLine 1 problem)
      | .ok none => .ok []
      | .ok (some content) => .ok [⟨content, 1⟩] :=
  parse_of_newline_not_mem fun h => (of_mem_of_isPlain (i.isPlain_text raws) h).1 rfl

/-- The text is refused for what its only line is refused for. -/
theorem assemble_text_eq_error {i : Instruction} {raws : List Word} {problem : Problem}
    (h : Line.read (i.text raws).toList = .error problem) :
    assemble (i.text raws) = .error (.onLine 1 problem) := by
  rw [assemble, parse_text, h]
  rfl

/-- The text of an instruction that can be listed is assembled as its block is. -/
theorem assemble_text_eq_ok {i : Instruction} {raws : List Word}
    {b : Listing.Block} (hlisted : b.Listed)
    (h : Line.read (i.text raws).toList = .ok (some b.content)) :
    assemble (i.text raws) = .ok ⟨b.words⟩ := by
  have hlayout : layout [⟨b.content, 1⟩] = .ok ⟨[b].flatMap Listing.Block.words⟩ :=
    Listing.layout_of_listed (by simpa using hlisted) rfl
  rw [List.flatMap_singleton] at hlayout
  rw [assemble, parse_text, h]
  exact hlayout

/-- **Assembling the text of an instruction.** With a word for each parameter, the text is
assembled to the word of the instruction and these words, unless the instruction writes to an
immediate operand, which is what it is refused for. Without, the text is refused for the question
mark in place of the first word that is missing. -/
theorem assemble_text (i : Instruction) (raws : List Word) :
    (i.opcode.parameterCount ≤ raws.length → i.hasImmediateDestination = false →
        assemble (i.text raws) = .ok ⟨i.toWord :: raws.take i.opcode.parameterCount⟩)
      ∧ (i.opcode.parameterCount ≤ raws.length → i.hasImmediateDestination = true →
        assemble (i.text raws) = .error (.onLine 1 (.immediateDestination i.opcode.mnemonic)))
      ∧ (raws.length < i.opcode.parameterCount →
        (∃ after, (i.text raws).toList = i.textBefore raws ++ '?' :: after)
          ∧ assemble (i.text raws) = .error (.onLine 1
              (.misfit (utf8Length (i.textBefore raws) + 1) (.unreadable ['?'])))) := by
  refine ⟨?_, ?_, ?_⟩
  · intro hlength himmediate
    have htake := List.length_take_of_le hlength
    rw [← i.text_take raws]
    refine assemble_text_eq_ok (b := .instruction i _) ⟨htake, himmediate⟩ ?_
    rw [i.read_text htake, himmediate]
    rfl
  · intro hlength himmediate
    have htake := List.length_take_of_le hlength
    rw [← i.text_take raws]
    refine assemble_text_eq_error ?_
    rw [i.read_text htake, himmediate]
    rfl
  · intro hlength
    obtain ⟨after, hafter⟩ := text_of_missing hlength
    obtain ⟨ts, hspells⟩ := i.exists_spells_textBefore raws
    refine ⟨⟨after, hafter⟩, assemble_text_eq_error ?_⟩
    have hplain := i.isPlain_text raws
    rw [hafter, isPlain_append] at hplain
    rw [hafter]
    exact read_of_questionMark hspells (fun c hc => (of_mem_of_isPlain hplain.1 hc).2) after

/-- The extreme words as operands, a word too many, an immediate destination, and a word
missing. -/
theorem assemble_text_extremes :
    assemble "add [rb-9223372036854775808], 9223372036854775807, [rb]"
        = .ok ⟨[21201, -0x8000000000000000, 0x7fffffffffffffff, 0]⟩
      ∧ assemble "in -1" = .error (.onLine 1 (.immediateDestination "in"))
      ∧ assemble "lt [rb+5], ?, ?" = .error (.onLine 1 (.misfit 12 (.unreadable ['?']))) := by
  refine ⟨?_, ?_, ?_⟩
  · exact (assemble_text ⟨.add, .relative, .immediate, .relative⟩
      [-0x8000000000000000, 0x7fffffffffffffff, 0, 8]).1 (by decide) rfl
  · exact (assemble_text ⟨.input, .immediate, .positional, .positional⟩ [-1]).2.1 (by decide) rfl
  · exact ((assemble_text ⟨.lessThan, .relative, .immediate, .positional⟩ [5]).2.2 (by decide)).2

end Instruction

end Intcode
