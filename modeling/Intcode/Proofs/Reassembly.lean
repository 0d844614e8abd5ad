import Intcode.Assembly.Layout
import Intcode.Listing
import Intcode.Proofs.InstructionWord
import Intcode.Proofs.LineGrammar

/-!
# Reassembling a listing

Assembling the listing of a program gives the program back
(`assemble_render`). The proof goes along the listing. The text of a block is
spelled by the tokens of a body (`Block.spells_text`), the comment after it
adds nothing, so the line of a block is read as that body and no label; and
the body is encoded by the words of the block, whatever the labels are
(`Block.encode_body`). The blocks of a program hold exactly its words, so
nothing is left to show about how the sweep cuts it.

What the sweep has to ensure is only `Block.Listed`: an instruction that is
listed has all of its operands, and writes to no immediate one. Canonical words
are needed where the words of the blocks are put together again.
-/

namespace Intcode

open Assembly

/-! ## Operands -/

/-- The operand that a parameter word is listed as. -/
def Mode.operand (mode : Mode) (raw : Word) : Operand :=
  ⟨mode, .number raw⟩

/-- The relative base may be followed by anything that does not go on with its name. -/
theorem spells_base {rest : List Char} {ts : List Token} (h : Spells rest ts)
    (hstop : Stops continuesName rest) :
    Spells ('[' :: 'r' :: 'b' :: rest)
      (.leftBracket :: .identifier Line.baseName :: ts) := by
  have hname : Spells (Line.baseName.toList ++ rest) (.identifier Line.baseName :: ts) :=
    h.identifier (by decide) hstop
  exact hname.plainMark rfl (by decide)

/-- The text of an operand may be followed by anything that is no digit. -/
theorem Mode.spells_operandText (mode : Mode) (raw : Word) {rest : List Char}
    {ts : List Token} (h : Spells rest ts) (hstop : Stops Char.isDigit rest) :
    Spells ((mode.operandText raw).toList ++ rest) ((mode.operand raw).tokens ++ ts) := by
  have hright : Spells (']' :: rest) (.rightBracket :: ts) := h.plainMark rfl (by decide)
  have hnumber : Spells (raw.toText.toList ++ ']' :: rest)
      (.number raw :: .rightBracket :: ts) := hright.number (stops_cons rfl)
  cases mode with
  | immediate => exact h.number hstop
  | positional =>
      have hleft : Spells ('[' :: (raw.toText.toList ++ ']' :: rest))
          (.leftBracket :: .number raw :: .rightBracket :: ts) :=
        hnumber.plainMark rfl (by decide)
      simpa [operandText, operand, Operand.tokens, Expr.token] using hleft
  | relative =>
      simp only [operandText, operand, Operand.tokens, Expr.offsetTokens]
      split
      next hzero => exact spells_base hright (stops_cons rfl)
      next hzero =>
        split
        next hneg =>
          have hstop' : Stops continuesName (raw.toText.toList ++ ']' :: rest) := by
            rw [toList_toText_of_neg hneg]
            exact stops_cons rfl
          simpa using spells_base hnumber hstop'
        next hneg =>
          have hplus : Spells ('+' :: (raw.toText.toList ++ ']' :: rest))
              (.plus :: .number raw :: .rightBracket :: ts) :=
            hnumber.plainMark rfl (by decide)
          simpa using spells_base hplus (stops_cons rfl)

/-- The operands that parameter words are listed as. -/
def Instruction.operands (i : Instruction) (raws : List Word) : List Operand :=
  List.zipWith Mode.operand i.modes raws

theorem map_mode_zipWith : ∀ {modes : List Mode} {raws : List Word},
    raws.length = modes.length →
    (List.zipWith Mode.operand modes raws).map Operand.mode = modes
  | [], _, _ => rfl
  | mode :: _, _ :: _, h => congrArg (mode :: ·) (map_mode_zipWith (Nat.succ.inj h))

theorem map_expr_zipWith : ∀ {modes : List Mode} {raws : List Word},
    raws.length = modes.length →
    (List.zipWith Mode.operand modes raws).map Operand.expr = raws.map Expr.number
  | [], [], _ => rfl
  | _ :: _, raw :: _, h =>
      congrArg (Expr.number raw :: ·) (map_expr_zipWith (Nat.succ.inj h))

theorem Instruction.map_mode_operands {i : Instruction} {raws : List Word}
    (h : raws.length = i.opcode.parameterCount) :
    (i.operands raws).map Operand.mode = i.modes :=
  map_mode_zipWith (h.trans i.length_modes.symm)

theorem Instruction.map_expr_operands {i : Instruction} {raws : List Word}
    (h : raws.length = i.opcode.parameterCount) :
    (i.operands raws).map Operand.expr = raws.map Expr.number :=
  map_expr_zipWith (h.trans i.length_modes.symm)

theorem Instruction.length_operands {i : Instruction} {raws : List Word}
    (h : raws.length = i.opcode.parameterCount) :
    (i.operands raws).length = i.opcode.parameterCount := by
  rw [← i.length_modes, ← map_mode_operands h, List.length_map]

theorem Instruction.wellFormed_of_mem_operands {i : Instruction} {raws : List Word}
    (h : raws.length = i.opcode.parameterCount) :
    ∀ o ∈ i.operands raws, o.expr.WellFormed := by
  intro o ho
  have hexpr : o.expr ∈ raws.map Expr.number := by
    rw [← map_expr_operands h]
    exact List.mem_map_of_mem ho
  obtain ⟨value, -, hvalue⟩ := List.mem_map.mp hexpr
  rw [← hvalue]
  trivial

/-- The check of the destination is on the mode that the instruction has for it. -/
theorem Instruction.immediate_operands {i : Instruction} {raws : List Word}
    (h : raws.length = i.opcode.parameterCount) :
    (i.opcode.destination?.bind ((i.operands raws)[·]?)).any (·.mode = .immediate)
      = i.hasImmediateDestination := by
  rw [hasImmediateDestination, destinationMode?, ← map_mode_operands h]
  cases i.opcode.destination? with
  | none => rfl
  | some place =>
      rw [Option.bind_some, Option.bind_some, List.getElem?_map]
      cases (i.operands raws)[place]? with
      | none => rfl
      | some o => simp only [Option.any_some, Option.map_some, Option.some.injEq]

theorem spells_operandTexts {rest : List Char} {ts : List Token} {modes : List Mode}
    {raws : List Word} (h : Spells rest ts) (hstop : Stops Char.isDigit rest)
    (hlength : raws.length = modes.length) :
    Spells ((", ".intercalate (Instruction.operandTexts modes raws)).toList ++ rest)
      (separated ((List.zipWith Mode.operand modes raws).map Operand.tokens) ++ ts) := by
  induction modes generalizing raws with
  | nil => exact h
  | cons mode modes ih =>
      cases raws with
      | nil => cases hlength
      | cons raw raws =>
          have hrest := ih (Nat.succ.inj hlength)
          cases modes with
          | nil =>
              have hone := mode.spells_operandText raw h hstop
              obtain rfl := List.eq_nil_of_length_eq_zero (Nat.succ.inj hlength)
              simpa [Instruction.operandTexts, separated] using hone
          | cons mode' modes =>
              cases raws with
              | nil => cases hlength
              | cons raw' raws =>
                  have hcomma := hrest.space.plainMark (c := ',') rfl (by decide)
                  have hone := mode.spells_operandText raw hcomma (stops_cons rfl)
                  simpa [Instruction.operandTexts, separated_cons_cons,
                    String.toList_intercalate] using hone

/-- The text of an instruction with all of its operands may be followed by a blank or a
comment. -/
theorem Instruction.spells_text (i : Instruction) {raws : List Word}
    (h : raws.length = i.opcode.parameterCount) {rest : List Char} (hrest : Spells rest [])
    (hstop : Stops continuesName rest) :
    Spells ((i.text raws).toList ++ rest)
      (Body.instruction i.opcode (i.operands raws)).tokens := by
  have hlength : raws.length = i.modes.length := h.trans i.length_modes.symm
  have hoperands := spells_operandTexts hrest hstop.isDigit hlength
  rw [List.append_nil] at hoperands
  rw [text]
  split
  next hnil =>
    have hmodes : i.modes = [] := by
      rw [← List.length_eq_zero_iff, ← length_operandTexts i.modes raws, hnil]
      rfl
    rw [operands, hmodes]
    exact hrest.identifier (isName_mnemonic i.opcode) hstop
  next =>
    have hname := hoperands.space.identifier (isName_mnemonic i.opcode) (stops_cons rfl)
    simp only [String.toList_append, List.append_assoc]
    exact hname

/-! ## Blocks -/

namespace Listing.Block

/-- What a block is read as. -/
def body : Block → Body
  | instruction i operands => .instruction i.opcode (i.operands operands)
  | data w => .words [.number w]

/-- What the line of a block is read as: its body, without labels. -/
def content (b : Block) : Content :=
  ⟨[], some b.body⟩

/-- What the sweep ensures of a block: an instruction has all of its operands, and
the one that names the cell to write is not immediate. -/
def Listed : Block → Prop
  | instruction i operands =>
    operands.length = i.opcode.parameterCount ∧ i.hasImmediateDestination = false
  | data _ => True

theorem listed_of_mem_blocks {words : List Word} {b : Block} (h : b ∈ blocks words) :
    b.Listed := by
  fun_induction blocks words with
  | case1 => cases h
  | case2 w rest i hi ih =>
      rcases List.mem_cons.mp h with rfl | h
      · obtain ⟨-, -, himmediate, hfits⟩ := instruction?_eq_some_iff.mp hi
        exact ⟨List.length_take_of_le hfits, himmediate⟩
      · exact ih h
  | case3 w rest hi ih =>
      rcases List.mem_cons.mp h with rfl | h
      · trivial
      · exact ih h

theorem exprs_body {b : Block} (h : b.Listed) : ∀ e ∈ b.body.exprs, e.WellFormed := by
  intro e he
  cases b with
  | data w =>
      obtain rfl := List.mem_singleton.mp he
      trivial
  | instruction i operands =>
      obtain ⟨o, ho, rfl⟩ := List.mem_map.mp he
      exact Instruction.wellFormed_of_mem_operands h.1 o ho

theorem destinationOK_body {b : Block} (h : b.Listed) : b.body.DestinationOK := by
  cases b with
  | data w => trivial
  | instruction i operands =>
      rw [body, destinationOK_iff, Instruction.immediate_operands h.1]
      exact h.2

theorem saturated_body {b : Block} (h : b.Listed) : b.body.Saturated := by
  cases b with
  | data w => trivial
  | instruction i operands => exact Instruction.length_operands h.1

theorem wellFormed_body {b : Block} (h : b.Listed) : b.body.WellFormed where
  saturated := saturated_body h
  destination := destinationOK_body h
  exprs := exprs_body h
  nonempty := by
    cases b with
    | data w => nofun
    | instruction i operands =>
        show i.opcode.width ≠ 0
        rw [Opcode.width]
        omega

/-- The text of a block may be followed by a blank or a comment. -/
theorem spells_text {b : Block} (h : b.Listed) {rest : List Char}
    (hrest : Spells rest []) (hstop : Stops continuesName rest) :
    Spells (b.text.toList ++ rest) b.body.tokens := by
  cases b with
  | data w =>
      have hnumber : Spells (w.toText.toList ++ rest) [.number w] :=
        hrest.number hstop.isDigit
      have hword : Spells ('.' :: (Line.wordDirective.toList ++ ' ' :: (w.toText.toList ++ rest)))
          [.directive Line.wordDirective, .number w] :=
        hnumber.space.directive (by decide) (stops_cons rfl)
      have htext : (data w).text.toList ++ rest
          = '.' :: (Line.wordDirective.toList ++ ' ' :: (w.toText.toList ++ rest)) := by
        simp [text, Line.wordDirective]
      rw [htext]
      exact hword
  | instruction i operands => exact i.spells_text h.1 hrest hstop

end Listing.Block

/-! ## Lines -/

namespace Listing

theorem newline_not_mem_toDigits (n : Nat) : '\n' ∉ Nat.toDigits 10 n := by
  intro h
  have hdigit := List.all_eq_true.mp (Text.Decimal.all_isDigit_toDigits n) _ h
  cases hdigit

theorem newline_not_mem_toText (w : Word) : '\n' ∉ w.toText.toList := by
  intro h
  rcases Word.mem_toText h with hminus | hdigit
  · cases hminus
  · cases hdigit

theorem newline_not_mem_padded (width n : Nat) :
    '\n' ∉ (Text.Decimal.padded width n).toList := by
  simp [Text.Decimal.padded, newline_not_mem_toDigits]

theorem newline_not_mem_words : ∀ words : List Word,
    '\n' ∉ (",".intercalate (words.map Word.toText)).toList
  | [] => by simp
  | [w] => by simpa using newline_not_mem_toText w
  | w :: w' :: words => by
      have hw := newline_not_mem_toText w
      have hwords := newline_not_mem_words (w' :: words)
      simpa [String.toList_intercalate, hw] using hwords

/-- The comment that a line ends with, after its mark. -/
def comment (address : Nat) (words : List Word) : List Char :=
  ' ' :: ((Text.Decimal.padded 4 address).toList
    ++ ':' :: ' ' :: (",".intercalate (words.map Word.toText)).toList)

theorem newline_not_mem_comment (address : Nat) (words : List Word) :
    '\n' ∉ comment address words := by
  have hpadded := newline_not_mem_padded 4 address
  have hwords := newline_not_mem_words words
  simp only [comment, List.mem_cons, List.mem_append, not_or]
  exact ⟨by decide, hpadded, by decide, by decide, hwords⟩

theorem toList_line (address : Nat) (b : Block) :
    (line address b).toList = List.replicate 4 ' ' ++ (b.text.toList
      ++ (List.replicate (textWidth - b.text.length) ' ' ++ ';' :: comment address b.words)) := by
  have hindent : "    ".toList = List.replicate 4 ' ' := by decide
  have hmark : "; ".toList = [';', ' '] := by decide
  have hcolon : ": ".toList = [':', ' '] := by decide
  simp only [line, padEnd, comment, String.toList_append, String.toList_ofList, hindent, hmark,
    hcolon, List.append_assoc, List.cons_append, List.nil_append]

theorem spells_line {b : Block} (h : b.Listed) (address : Nat) :
    Spells (line address b).toList b.body.tokens := by
  have hcomment : Spells (';' :: comment address b.words) [] :=
    Spells.comment rfl (newline_not_mem_comment address b.words)
  -- however long the text of the block is, a space or the comment follows it
  have hstop : Stops continuesName
      (List.replicate (textWidth - b.text.length) ' ' ++ ';' :: comment address b.words) := by
    cases textWidth - b.text.length with
    | zero => exact stops_cons rfl
    | succ n => exact stops_cons rfl
  rw [toList_line]
  exact (Block.spells_text h (hcomment.spaces _) hstop).spaces 4

theorem read_line {b : Block} (h : b.Listed) (address : Nat) :
    Line.read (line address b).toList = .ok (some b.content) := by
  refine read_of_spells ⟨nofun, ?_, nofun⟩ (spells_line h address)
  rintro _ ⟨⟩
  exact Block.wellFormed_body h

theorem spells_header {size : Nat} {text : String} (h : text ∈ header size) :
    Spells text.toList [] := by
  simp only [header, List.mem_cons, List.not_mem_nil, or_false] at h
  rcases h with rfl | rfl | rfl
  · exact Spells.comment (c := ';') rfl (by decide)
  · have hsize : '\n' ∉ ' ' :: ((Text.Decimal.ofNat size).toList ++ " words".toList) := by
      simp [newline_not_mem_toDigits]
    have hcomment := Spells.comment (c := ';') rfl hsize
    simpa using hcomment
  · exact Spells.nil

/-! ## Listings -/

/-- The lines of a listing, without the ends of lines. -/
def texts (words : List Word) : List String :=
  header words.length ++ lines 0 (blocks words)

theorem mem_lines {address : Nat} {bs : List Block} {text : String}
    (h : text ∈ lines address bs) : ∃ a, ∃ b ∈ bs, text = line a b := by
  induction bs generalizing address with
  | nil => cases h
  | cons b bs ih =>
      rcases List.mem_cons.mp h with rfl | h
      · exact ⟨address, b, List.mem_cons_self, rfl⟩
      · obtain ⟨a, b', hb', rfl⟩ := ih h
        exact ⟨a, b', List.mem_cons_of_mem _ hb', rfl⟩

theorem newline_not_mem_texts {words : List Word} {text : String}
    (h : text ∈ texts words) : '\n' ∉ text.toList := by
  rcases List.mem_append.mp h with h | h
  · exact (spells_header h).newline_not_mem (List.not_mem_nil)
  · obtain ⟨a, b, hb, rfl⟩ := mem_lines h
    have hlisted := Block.listed_of_mem_blocks hb
    have hspellable := spellable_of_mem_body (Block.wellFormed_body hlisted)
    exact (spells_line hlisted a).newline_not_mem fun hmem => hspellable _ hmem

theorem splitOn_render (words : List Word) :
    (render words).toList.splitOn '\n' = (texts words).map String.toList ++ [[]] := by
  have hlist : (render words).toList
      = ((texts words).map String.toList).flatMap (· ++ ['\n']) := by
    simp [render, texts, List.flatMap_map, String.toList_join]
  rw [hlist]
  refine splitOn_newline fun text htext => ?_
  obtain ⟨text, hmem, rfl⟩ := List.mem_map.mp htext
  exact newline_not_mem_texts hmem

theorem map_read_lines {bs : List Block} (h : ∀ b ∈ bs, b.Listed) (address : Nat) :
    (lines address bs).map (Line.read ·.toList)
      = bs.map fun b => .ok (some b.content) := by
  induction bs generalizing address with
  | nil => rfl
  | cons b bs ih =>
      rw [lines, List.map_cons, List.map_cons, read_line (h b List.mem_cons_self),
        ih fun x hx => h x (List.mem_cons_of_mem _ hx)]

/-- The statements of a listing are the bodies of its blocks, without labels. -/
theorem parse_render (words : List Word) :
    ∃ statements, parse (render words) = .ok statements
      ∧ statements.map Statement.toContent = (blocks words).map Block.content := by
  have hheader : (header words.length).map (Line.read ·.toList)
      = (header words.length).map fun _ => .ok none :=
    List.map_congr_left fun text htext => read_of_spells_nil (spells_header htext)
  have hlisted : ∀ b ∈ blocks words, b.Listed := fun b hb => Block.listed_of_mem_blocks hb
  have hlines := map_read_lines hlisted 0
  have hempty : Line.read [] = .ok none := read_of_spells_nil Spells.nil
  have hread : ((texts words).map String.toList ++ [[]]).map Line.read
      = ((header words.length).map (fun _ => none)
          ++ ((blocks words).map (fun b : Block => some b.content) ++ [none])).map .ok := by
    simp only [texts, List.map_append, List.map_map, List.map_singleton, hempty,
      List.append_assoc]
    show (header words.length).map (Line.read ·.toList)
      ++ ((lines 0 (blocks words)).map (Line.read ·.toList) ++ [.ok none]) = _
    rw [hheader, hlines]
    rfl
  obtain ⟨statements, hstatements, hcontents⟩ := exists_readLines hread 1
  refine ⟨statements, ?_, ?_⟩
  · rw [parse, splitOn_render, hstatements]
  · rw [hcontents]
    simp [header, List.filterMap_append, List.filterMap_map]

/-! ## Words -/

theorem values_number (address? : String → Option Word) (ws : List Word) :
    values address? (ws.map .number) = .ok ws := by
  induction ws with
  | nil => rfl
  | cons w ws ih =>
      rw [List.map_cons, values, ih]
      rfl

/-- A block gets its own words, wherever the labels are. -/
theorem Block.encode_body (address? : String → Option Word) {b : Block} (h : b.Listed) :
    b.body.encode address? = .ok b.words := by
  cases b with
  | data w => exact values_number address? [w]
  | instruction i operands =>
      have hvalues : values address? ((i.operands operands).map Operand.expr)
          = .ok operands := by
        rw [Instruction.map_expr_operands h.1, values_number]
      rw [body, Body.encode, Body.exprs, hvalues, Instruction.map_mode_operands h.1,
        Instruction.toWord_ofModes]
      rfl

theorem encodeAll_blocks (address? : String → Option Word) {bs : List Block}
    (h : ∀ b ∈ bs, b.Listed) :
    encodeAll address? (bs.map Block.body) = .ok (bs.flatMap Block.words) := by
  induction bs with
  | nil => rfl
  | cons b bs ih =>
      rw [List.map_cons, encodeAll, Block.encode_body address? (h b List.mem_cons_self),
        ih fun x hx => h x (List.mem_cons_of_mem _ hx)]
      rfl

theorem definitions_of_no_labels {statements : List Statement}
    (h : ∀ s ∈ statements, s.labels = []) (address : Nat) :
    definitions address statements = [] := by
  induction statements generalizing address with
  | nil => rfl
  | cons s statements ih =>
      rw [definitions, h s List.mem_cons_self, ih fun x hx => h x (List.mem_cons_of_mem _ hx)]
      rfl

/-- Statements that are blocks are laid out as the words of the blocks. -/
theorem layout_of_listed {bs : List Block} (hlisted : ∀ b ∈ bs, b.Listed)
    {statements : List Statement}
    (h : statements.map Statement.toContent = bs.map Block.content) :
    layout statements = .ok ⟨bs.flatMap Block.words⟩ := by
  have hlabels : ∀ s ∈ statements, s.labels = [] := by
    intro s hs
    have hmem : s.toContent ∈ bs.map Block.content := h ▸ List.mem_map_of_mem hs
    obtain ⟨b, -, hb⟩ := List.mem_map.mp hmem
    rw [← hb]
    rfl
  have hbodies : statements.filterMap (·.body) = bs.map Block.body := by
    have hmap : statements.filterMap (·.body)
        = (statements.map Statement.toContent).filterMap Content.body := by
      rw [List.filterMap_map]
      rfl
    rw [hmap, h, List.filterMap_map, ← List.filterMap_eq_map]
    rfl
  rw [layout, definitions_of_no_labels hlabels, hbodies, encodeAll_blocks _ hlisted]
  rfl

end Listing

/-- **Reassembly.** The listing of any program assembles, and to the program itself. -/
theorem assemble_render (words : List Word) :
    assemble (Listing.render words) = .ok ⟨words⟩ := by
  obtain ⟨statements, hparse, hcontents⟩ := Listing.parse_render words
  have hlayout := Listing.layout_of_listed
    (fun b hb => Listing.Block.listed_of_mem_blocks hb) hcontents
  rw [assemble, hparse, ← Listing.flatMap_words_blocks words]
  exact hlayout

end Intcode
