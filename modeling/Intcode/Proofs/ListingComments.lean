import Mathlib.Data.List.Chain
import Intcode.Proofs.CanonicalWords
import Intcode.Proofs.InstructionText
import Intcode.Proofs.ProgramText
import Intcode.Proofs.RelativeOffsets

/-!
# The comments of a listing

An assembler does not look at the comments of a listing, so that a listing assembles
to its program says nothing about them. A reader of a listing does look at them: each
line names an address and the words that are there. `Entry.ofLine?` reads a line in
this way, and the lines of a listing are read as entries that cover the program
without a gap and without an overlap, each with the text that its own words call for
(`render_tiles`).

The sweep takes what it needs from the front of the words that are left. A sweep that
keeps the whole program, and an address to go on from, has to cut slices out of it.
`sweep?` is this sweep, with no result if a slice ever goes beyond the program. It
has a result, and the same lines (`sweep?_append`): an instruction is shown only if all
of its words are there.
-/

namespace Intcode

/-! ## Texts without white space at their ends -/

namespace Text

def StartsFirm (text : List Char) : Prop :=
  ∃ c rest, text = c :: rest ∧ isWhiteSpace c = false

def EndsFirm (text : List Char) : Prop :=
  ∃ front c, text = front ++ [c] ∧ isWhiteSpace c = false

theorem trim_of_firm {text : List Char} (hstart : StartsFirm text) (hend : EndsFirm text) :
    trim text = text := by
  refine trim_eq_self ?_ ?_
  · obtain ⟨c, rest, rfl, hc⟩ := hstart
    rintro _ ⟨⟩
    exact hc
  · obtain ⟨front, c, rfl, hc⟩ := hend
    rw [List.getLast?_concat]
    rintro _ ⟨⟩
    exact hc

theorem firm_of_no_white {text : List Char} (hne : text ≠ [])
    (h : ∀ c ∈ text, isWhiteSpace c = false) : StartsFirm text ∧ EndsFirm text := by
  constructor
  · obtain ⟨c, rest, rfl⟩ := List.exists_cons_of_ne_nil hne
    exact ⟨c, rest, rfl, h c List.mem_cons_self⟩
  · exact ⟨text.dropLast, text.getLast hne, (List.dropLast_append_getLast hne).symm,
      h _ (List.getLast_mem hne)⟩

theorem StartsFirm.append {text : List Char} (h : StartsFirm text) (after : List Char) :
    StartsFirm (text ++ after) := by
  obtain ⟨c, rest, rfl, hc⟩ := h
  exact ⟨c, rest ++ after, rfl, hc⟩

theorem EndsFirm.append {text : List Char} (before : List Char) (h : EndsFirm text) :
    EndsFirm (before ++ text) := by
  obtain ⟨front, c, rfl, hc⟩ := h
  exact ⟨before ++ front, c, (List.append_assoc before front [c]).symm, hc⟩

end Text

open Text Assembly

theorem Word.firm_toText (w : Word) : StartsFirm w.toText.toList ∧ EndsFirm w.toText.toList := by
  refine firm_of_no_white ?_ Program.no_white_of_mem_toText
  intro hnil
  have hread := Word.ofText?_toText w
  rw [hnil] at hread
  cases hread

namespace Instruction

theorem endsFirm_operandText (mode : Mode) (raw : Word) :
    EndsFirm (mode.operandText raw).toList := by
  have hclose (text : String) : EndsFirm (text ++ "]").toList :=
    ⟨text.toList, ']', String.toList_append, by decide⟩
  cases mode with
  | immediate => exact (Word.firm_toText raw).2
  | positional => exact hclose _
  | relative =>
      rw [Mode.operandText]
      split
      · exact hclose "[rb"
      split
      · exact hclose _
      · exact hclose _

theorem endsFirm_of_mem_operandTexts {modes : List Mode} {raws : List Word} :
    ∀ text ∈ operandTexts modes raws, EndsFirm text.toList := by
  fun_induction operandTexts modes raws with
  | case1 => exact List.forall_mem_nil _
  | case2 modes mode raw raws ih =>
      exact List.forall_mem_cons.mpr ⟨endsFirm_operandText _ _, ih⟩
  | case3 mode modes ih =>
      exact List.forall_mem_cons.mpr ⟨⟨[], '?', rfl, by decide⟩, ih⟩

theorem endsFirm_intercalate : ∀ {texts : List String}, texts ≠ [] →
    (∀ text ∈ texts, EndsFirm text.toList) → EndsFirm (", ".intercalate texts).toList
  | [], hne, _ => absurd rfl hne
  | [text], _, h => by simpa using h
  | text :: text' :: texts, _, h => by
      have hrest := endsFirm_intercalate (List.cons_ne_nil text' texts)
        (List.forall_mem_cons.mp h).2
      rw [String.intercalate_cons_cons, String.toList_append]
      exact hrest.append _

theorem firm_mnemonic (opcode : Opcode) :
    StartsFirm opcode.mnemonic.toList ∧ EndsFirm opcode.mnemonic.toList := by
  have hwhite : opcode.mnemonic.toList.all (!isWhiteSpace ·) = true := by
    cases opcode <;> rfl
  refine firm_of_no_white (by cases opcode <;> decide) fun c hc => ?_
  simpa using List.all_eq_true.mp hwhite c hc

theorem firm_text (i : Instruction) (raws : List Word) :
    StartsFirm (i.text raws).toList ∧ EndsFirm (i.text raws).toList := by
  rw [text]
  split
  next => exact firm_mnemonic i.opcode
  next hne =>
    have hlast := endsFirm_intercalate hne endsFirm_of_mem_operandTexts
    simp only [String.toList_append, List.append_assoc]
    exact ⟨(firm_mnemonic i.opcode).1.append _, (hlast.append _).append _⟩

end Instruction

namespace Listing

/-! ## Reading a line -/

/-- What a line of a listing says: assembly text, and in the comment an address and the words
that stand there. -/
structure Entry where
  text : List Char
  address : Nat
  words : List Word
deriving DecidableEq

/-- Reads a line of a listing. The comment starts at the semicolon. Its number goes up to the
colon, and the rest of it is a list of words with commas between them. -/
def Entry.ofLine? (line : List Char) : Option Entry :=
  match line.dropWhile (· ≠ ';') with
  | ';' :: ' ' :: comment =>
    match comment.dropWhile (· ≠ ':') with
    | ':' :: ' ' :: listed =>
      match Decimal.nat? (comment.takeWhile (· ≠ ':')), Program.ofText (String.ofList listed) with
      | some address, .ok p => some ⟨trim (line.takeWhile (· ≠ ';')), address, p.words⟩
      | _, _ => none
    | _ => none
  | _ => none

/-- The text of an entry is called for by its words: it is that of the instruction which the
first word spells, with the others as its operands and none of them missing, or it declares a
single data word. -/
inductive Entry.Shown : Entry → Prop where
  | instruction {w : Word} {i : Instruction} {raws : List Word} {address : Nat}
      (hw : Instruction.ofWord? w = some i) (hraws : raws.length = i.opcode.parameterCount) :
      Shown ⟨(i.text raws).toList, address, w :: raws⟩
  | data {w : Word} {address : Nat} : Shown ⟨(".word " ++ w.toText).toList, address, [w]⟩

/-- The entry of a block at an address. -/
def Block.entry (address : Nat) (b : Block) : Entry :=
  ⟨b.text.toList, address, b.words⟩

theorem Block.words_ne_nil (b : Block) : b.words ≠ [] := by
  cases b <;> exact List.cons_ne_nil _ _

theorem Block.semicolon_not_mem_text (b : Block) : ∀ c ∈ b.text.toList, c ≠ ';' := by
  have hplain : isPlain b.text.toList = true := by
    cases b with
    | instruction i raws => exact Instruction.isPlain_text i raws
    | data w =>
        rw [text, String.toList_append, isPlain_append]
        exact ⟨rfl, isPlain_toText w⟩
  rintro _ hc rfl
  cases (of_mem_of_isPlain hplain hc).2

theorem Block.trim_text (b : Block) : trim b.text.toList = b.text.toList := by
  cases b with
  | instruction i raws =>
      obtain ⟨hstart, hend⟩ := i.firm_text raws
      exact trim_of_firm hstart hend
  | data w =>
      rw [text, String.toList_append]
      exact trim_of_firm ⟨'.', _, rfl, by decide⟩ ((Word.firm_toText w).2.append _)

theorem isWhite_replicate (n : Nat) : IsWhite (List.replicate n ' ') := by
  intro c hc
  rw [List.eq_of_mem_replicate hc]
  decide

/-- A line is read as the entry of its block. -/
theorem ofLine?_line (address : Nat) (b : Block) :
    Entry.ofLine? (line address b).toList = some (b.entry address) := by
  -- the three parts of the line: text and blanks, the number, the words
  obtain ⟨front, hfront⟩ : ∃ front, front = List.replicate 4 ' ' ++ (b.text.toList
      ++ List.replicate (textWidth - b.text.length) ' ') := ⟨_, rfl⟩
  obtain ⟨number, hnumber⟩ : ∃ number, number = (Decimal.padded 4 address).toList := ⟨_, rfl⟩
  have hline : (line address b).toList
      = front ++ ';' :: ' ' :: (number ++ ':' :: ' ' :: (Program.toText ⟨b.words⟩).toList) := by
    rw [toList_line, comment, hfront, hnumber, List.append_assoc, List.append_assoc]
    rfl
  have hsemicolon : ∀ c ∈ front, decide (c ≠ ';') = true := by
    intro c hc
    rw [hfront] at hc
    simp only [List.mem_append, List.mem_replicate] at hc
    rcases hc with ⟨-, rfl⟩ | hc | ⟨-, rfl⟩
    · rfl
    · exact decide_eq_true (b.semicolon_not_mem_text c hc)
    · rfl
  have hdigits : number = zeroPadded (4 - (Nat.toDigits 10 address).length) address := by
    rw [hnumber]
    exact String.toList_ofList
  have hcolon : ∀ c ∈ number, decide (c ≠ ':') = true := by
    intro c hc
    rw [hdigits] at hc
    refine decide_eq_true ?_
    rintro rfl
    cases isDigit_of_mem_zeroPadded hc
  have htext : trim front = b.text.toList := by
    rw [hfront, trim_append_left (isWhite_replicate 4), trim_append_right (isWhite_replicate _),
      b.trim_text]
  have hwords : Program.ofText (Program.toText ⟨b.words⟩) = .ok ⟨b.words⟩ :=
    Program.ofText_toText b.words_ne_nil
  have hstop (listed : List Char) : Stops (· ≠ ':') (':' :: listed) := stops_cons rfl
  rw [Entry.ofLine?, hline, dropWhile_append_stop hsemicolon (stops_cons rfl),
    takeWhile_append_stop hsemicolon (stops_cons rfl)]
  simp only [dropWhile_append_stop hcolon (hstop _), takeWhile_append_stop hcolon (hstop _),
    String.ofList_toList, hwords, htext]
  rw [hdigits, nat?_zeroPadded]
  rfl

example : Entry.ofLine? "    mul [3], 11, [rb-1]         ; 0004: 21002,3,11,-1".toList
    = some ⟨"mul [3], 11, [rb-1]".toList, 4, [21002, 3, 11, -1]⟩ := by decide +kernel

/-! ## Entries in a row -/

/-- The entries of consecutive blocks, the first of them at the given address. -/
def entries (address : Nat) : List Block → List Entry
  | [] => []
  | b :: bs => b.entry address :: entries (address + b.words.length) bs

theorem map_ofLine?_lines (address : Nat) (bs : List Block) :
    (lines address bs).map (fun l => Entry.ofLine? l.toList) = (entries address bs).map some := by
  induction bs generalizing address with
  | nil => rfl
  | cons b bs ih => rw [lines, List.map_cons, ofLine?_line, ih, entries, List.map_cons]

theorem address_of_mem_head? {address : Nat} {bs : List Block} {e : Entry}
    (h : e ∈ (entries address bs).head?) : e.address = address := by
  cases bs with
  | nil => cases h
  | cons b bs =>
      obtain rfl := Option.some.inj h
      rfl

/-- Each address is that of the entry before it and the number of words there. -/
theorem isChain_entries (address : Nat) (bs : List Block) :
    (entries address bs).IsChain fun e e' => e'.address = e.address + e.words.length := by
  induction bs generalizing address with
  | nil => exact .nil
  | cons b bs ih =>
      refine List.isChain_cons.mpr ⟨?_, ih _⟩
      intro e he
      exact address_of_mem_head? he

theorem flatMap_words_entries (address : Nat) (bs : List Block) :
    (entries address bs).flatMap Entry.words = bs.flatMap Block.words := by
  induction bs generalizing address with
  | nil => rfl
  | cons b bs ih => rw [entries, List.flatMap_cons, List.flatMap_cons, ih]; rfl

theorem exists_of_mem_entries {address : Nat} {bs : List Block} {e : Entry}
    (h : e ∈ entries address bs) : ∃ a, ∃ b ∈ bs, e = b.entry a := by
  induction bs generalizing address with
  | nil => cases h
  | cons b bs ih =>
      rcases List.mem_cons.mp h with rfl | h
      · exact ⟨address, b, List.mem_cons_self, rfl⟩
      · obtain ⟨a, b', hb', rfl⟩ := ih h
        exact ⟨a, b', List.mem_cons_of_mem _ hb', rfl⟩

/-- A block of a program shows what its words call for. -/
theorem shown_of_mem_blocks {words : List Word} {b : Block} (h : b ∈ blocks words)
    (address : Nat) : (b.entry address).Shown := by
  fun_induction blocks words with
  | case1 => cases h
  | case2 w rest i hi ih =>
      rcases List.mem_cons.mp h with rfl | h
      · obtain ⟨hw, rfl, -, hfits⟩ := instruction?_eq_some_iff.mp hi
        exact .instruction hw (List.length_take_of_le hfits)
      · exact ih h
  | case3 w rest hi ih =>
      rcases List.mem_cons.mp h with rfl | h
      · exact .data
      · exact ih h

/-! ## A sweep by addresses -/

/-- The words from one address up to another, if the first does not come after the second and
the program does not end before it. -/
def slice? (words : List Word) (first stop : Nat) : Option (List Word) :=
  if first ≤ stop ∧ stop ≤ words.length then some ((words.take stop).drop first) else none

/-- The instruction to show at an address, if there is one. There is no result if the address is
outside the program. -/
def instructionAt? (words : List Word) (address : Nat) : Option (Option Instruction) :=
  words[address]?.map fun w =>
    if Instruction.isCanonical w then
      (Instruction.ofWord? w).filter fun i =>
        !i.hasImmediateDestination && address + i.width ≤ words.length
    else none

/-- A line of its parts. -/
def lineOf (text : String) (address : Nat) (raw : List Word) : String :=
  "    " ++ padEnd textWidth text ++ "; " ++ Decimal.padded 4 address ++ ": "
    ++ ",".intercalate (raw.map Word.toText)

theorem line_eq_lineOf (address : Nat) (b : Block) :
    line address b = lineOf b.text address b.words :=
  rfl

/-- The lines of a program from an address on, with slices of the program for the operands of an
instruction and for the words of a line. There is no result if one of them is not there. -/
def sweep? (words : List Word) (address : Nat) : Option (List String) :=
  if _ : address < words.length then
    match instructionAt? words address with
    | none => none
    | some (some i) =>
      match slice? words (address + 1) (address + i.width),
          slice? words address (address + i.width) with
      | some operands, some raw =>
        (sweep? words (address + i.width)).map (lineOf (i.text operands) address raw :: ·)
      | _, _ => none
    | some none =>
      match words[address]?, slice? words address (address + 1) with
      | some w, some raw =>
        (sweep? words (address + 1)).map (lineOf (".word " ++ w.toText) address raw :: ·)
      | _, _ => none
  else
    some []
termination_by words.length - address
decreasing_by
  · rw [Instruction.width, Opcode.width]
    omega
  · omega

theorem slice?_append (front raw rest : List Word) {first stop : Nat}
    (hfirst : first = front.length) (hstop : stop = first + raw.length) :
    slice? (front ++ (raw ++ rest)) first stop = some raw := by
  subst hfirst hstop
  rw [slice?, if_pos]
  · rw [← List.append_assoc, ← List.length_append, List.take_left, List.drop_left]
  · simp only [List.length_append]
    omega

theorem instructionAt?_append (front : List Word) (w : Word) (rest : List Word) :
    instructionAt? (front ++ w :: rest) front.length = some (instruction? w rest) := by
  have hfits (i : Instruction) : front.length + i.width ≤ (front ++ w :: rest).length
      ↔ i.opcode.parameterCount ≤ rest.length := by
    rw [Instruction.width, Opcode.width, List.length_append, List.length_cons]
    omega
  rw [instructionAt?, List.getElem?_append_right (Nat.le_refl _), Nat.sub_self]
  simp only [List.getElem?_cons_zero, Option.map_some, hfits, instruction?, Instruction.isCanonical]
  cases Instruction.ofWord? w with
  | none => rfl
  | some i =>
      by_cases hw : i.toWord = w
      · simp [hw, Option.filter_some]
      · simp [hw, Option.filter_some]

/-- The sweep by addresses finds every slice it cuts, and shows the blocks of what is left. The
induction is along the blocks; what was shown before moves to the front. -/
theorem sweep?_append (front rest : List Word) :
    sweep? (front ++ rest) front.length = some (lines front.length (blocks rest)) := by
  fun_induction blocks rest generalizing front with
  | case1 => rw [sweep?, dif_neg (by simp)]; rfl
  | case2 w rest i hi ih =>
      obtain ⟨-, hw, -, hfits⟩ := instruction?_eq_some_iff.mp hi
      obtain ⟨raws, tail, hraws, htail⟩ : ∃ raws tail,
          rest.take i.opcode.parameterCount = raws ∧ rest.drop i.opcode.parameterCount = tail :=
        ⟨_, _, rfl, rfl⟩
      have hwords : w :: rest = (w :: raws) ++ tail := by
        rw [← hraws, ← htail, List.cons_append, List.take_append_drop]
      have hwidth : i.width = (w :: raws).length := by
        rw [← hraws, List.length_cons, List.length_take_of_le hfits, Instruction.width,
          Opcode.width, Nat.add_comm]
      have hraw : slice? (front ++ w :: rest) front.length (front.length + i.width)
          = some (w :: raws) := by
        rw [hwords]
        exact slice?_append front (w :: raws) tail rfl (by rw [hwidth])
      have hoperands : slice? (front ++ w :: rest) (front.length + 1) (front.length + i.width)
          = some raws := by
        rw [hwords, List.cons_append, List.append_cons]
        refine slice?_append (front ++ [w]) raws tail ?_ ?_
        · rw [List.length_append, List.length_singleton]
        · rw [hwidth, List.length_cons]
          omega
      have hnext := ih (front ++ w :: raws)
      rw [htail, List.append_assoc, ← hwords, List.length_append, ← hwidth] at hnext
      rw [sweep?, dif_pos (by simp), instructionAt?_append, hi, hraws, htail, lines, line_eq_lineOf]
      simp only [hraw, hoperands, hnext, Option.map_some, Block.text, Block.words, hw, ← hwidth]
  | case3 w rest hi ih =>
      have hraw : slice? (front ++ w :: rest) front.length (front.length + 1) = some [w] :=
        slice?_append front [w] rest rfl rfl
      have hword : (front ++ w :: rest)[front.length]? = some w := by simp
      have hnext := ih (front ++ [w])
      rw [← List.append_cons, List.length_append, List.length_singleton] at hnext
      rw [sweep?, dif_pos (by simp), instructionAt?_append, hi, lines, line_eq_lineOf]
      simp only [hraw, hword, hnext, Option.map_some, Block.text, Block.words,
        List.length_singleton]

/-! ## Listings -/

/-- **Tiling.** The lines of a listing behind its header, read with their comments, cover the
program: the first of them is at address zero, each of the others where the one before it ends,
and the words of all of them are the words of the program. No line is without words, and the text
of each is called for by its words. A sweep by addresses comes to the same lines, with all of its
slices inside the program. -/
theorem render_tiles (words : List Word) :
    ∃ (shown : List String) (es : List Entry),
      (render words).toList.splitOn '\n'
          = (header words.length ++ shown ++ [""]).map String.toList
        ∧ shown.map (fun l => Entry.ofLine? l.toList) = es.map some
        ∧ (∀ e ∈ es.head?, e.address = 0)
        ∧ es.IsChain (fun e e' => e'.address = e.address + e.words.length)
        ∧ es.flatMap Entry.words = words
        ∧ (∀ e ∈ es, e.words ≠ [] ∧ e.Shown)
        ∧ sweep? words 0 = some shown := by
  refine ⟨lines 0 (blocks words), entries 0 (blocks words), ?_, map_ofLine?_lines _ _,
    fun e he => address_of_mem_head? he, isChain_entries _ _, ?_, ?_, sweep?_append [] words⟩
  · rw [splitOn_render, texts]
    simp
  · rw [flatMap_words_entries, flatMap_words_blocks]
  · intro e he
    obtain ⟨a, b, hb, rfl⟩ := exists_of_mem_entries he
    exact ⟨b.words_ne_nil, shown_of_mem_blocks hb a⟩

end Listing

end Intcode
