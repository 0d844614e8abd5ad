import Intcode.Proofs.ParseImage
import Intcode.Proofs.Placement
import Intcode.Proofs.Reassembly

/-!
# Listing an assembled source

The sweep of a listing knows nothing of the source: it takes what it finds for
an instruction if the words allow it, and goes on behind it. For the output of the
assembler this is the right thing to do, as far as there are instructions only.
What the assembler writes for an instruction is its canonical word, never with an
immediate destination, and all of its operands behind it, so the sweep finds the
instruction again (`blocks_of_instruction`) and is at the start of the next one
then (`lines_of_leading`). Behind data words all of this may end, since data can
look like anything.
-/

namespace Intcode.Assembly

/-! ## Leading instructions -/

/-- An instruction of a source, with its address. -/
structure Located where
  address : Nat
  opcode : Opcode
  operands : List Operand

/-- The instructions before the first data words. The first body has the given address. -/
def leading (address : Nat) : List Body → List Located
  | [] => []
  | .words _ :: _ => []
  | .instruction opcode operands :: bs =>
    ⟨address, opcode, operands⟩ :: leading (address + opcode.width) bs

/-- The line shows the instruction, with the words that its operands stand for. The comment
behind it gives the address. -/
def Located.ShownAs (labelAt : String → Nat → Prop) (c : Located) (line : String) : Prop :=
  ∃ (i : Instruction) (raws : List Word) (blanks : Nat),
    i.opcode = c.opcode ∧ i.modes = c.operands.map Operand.mode
      ∧ List.Forall₂ (Expr.Holds labelAt) (c.operands.map Operand.expr) raws
      ∧ line = "    " ++ i.text raws ++ String.ofList (List.replicate blanks ' ') ++ "; "
          ++ Text.Decimal.padded 4 c.address ++ ": "
          ++ ",".intercalate ((i.toWord :: raws).map Word.toText)

/-- The address of an instruction is the width of everything in front of it. -/
theorem address_of_leading {address : Nat} {bs : List Body} {k : Nat} {c : Located}
    (h : (leading address bs)[k]? = some c) : c.address = address + totalWidth (bs.take k) := by
  induction bs generalizing address k with
  | nil => simp [leading] at h
  | cons b bs ih =>
      cases b with
      | words values => simp [leading] at h
      | instruction opcode operands =>
          cases k with
          | zero =>
              simp only [leading, List.getElem?_cons_zero, Option.some.injEq] at h
              simp [← h, totalWidth]
          | succ k =>
              rw [leading, List.getElem?_cons_succ] at h
              rw [ih h, List.take_succ_cons, totalWidth, Body.width, Nat.add_assoc]

/-! ## The sweep -/

/-- Modes that are all in use are found again in the word. -/
theorem ofWord?_toWord_ofModes {opcode : Opcode} {modes : List Mode}
    (h : modes.length = opcode.parameterCount) :
    Instruction.ofWord? (Instruction.ofModes opcode modes).toWord
      = some (Instruction.ofModes opcode modes) := by
  rw [Instruction.ofWord?_toWord, Instruction.modes_ofModes h]
  rfl

theorem hasImmediateDestination_ofModes {opcode : Opcode} {operands : List Operand}
    (hsaturated : (Body.instruction opcode operands).Saturated)
    (hdestination : (Body.instruction opcode operands).DestinationOK) :
    (Instruction.ofModes opcode (operands.map Operand.mode)).hasImmediateDestination = false := by
  have hmodes : (Instruction.ofModes opcode (operands.map Operand.mode)).modes
      = operands.map Operand.mode :=
    Instruction.modes_ofModes (by rw [List.length_map]; exact hsaturated)
  rw [Instruction.hasImmediateDestination, Instruction.destinationMode?, hmodes,
    decide_eq_false_iff_not]
  intro himmediate
  obtain ⟨place, hplace, hmode⟩ := Option.bind_eq_some_iff.mp himmediate
  rw [List.getElem?_map] at hmode
  obtain ⟨o, ho, hmode⟩ := Option.map_eq_some_iff.mp hmode
  exact hdestination place o hplace ho hmode

/-- The sweep finds an instruction that is written in full, and goes on behind it. -/
theorem blocks_of_instruction {opcode : Opcode} {operands : List Operand} {raws : List Word}
    (hsaturated : (Body.instruction opcode operands).Saturated)
    (hdestination : (Body.instruction opcode operands).DestinationOK)
    (hlength : raws.length = opcode.parameterCount) (rest : List Word) :
    Listing.blocks ((Instruction.ofModes opcode (operands.map Operand.mode)).toWord
        :: (raws ++ rest))
      = .instruction (Instruction.ofModes opcode (operands.map Operand.mode)) raws
        :: Listing.blocks rest := by
  have hmodes : (operands.map Operand.mode).length = opcode.parameterCount := by
    rw [List.length_map]
    exact hsaturated
  have hfits : opcode.parameterCount ≤ (raws ++ rest).length := by
    rw [List.length_append]
    omega
  have hshown := Listing.instruction?_eq_some_iff.mpr ⟨ofWord?_toWord_ofModes hmodes, rfl,
    hasImmediateDestination_ofModes hsaturated hdestination, hfits⟩
  rw [Listing.blocks, hshown]
  show Listing.Block.instruction _ ((raws ++ rest).take opcode.parameterCount)
    :: Listing.blocks ((raws ++ rest).drop opcode.parameterCount) = _
  rw [List.take_left' hlength, List.drop_left' hlength]

theorem shownAs_line {labelAt : String → Nat → Prop} {address : Nat} {opcode : Opcode}
    {operands : List Operand} {raws : List Word}
    (hsaturated : (Body.instruction opcode operands).Saturated)
    (hholds : List.Forall₂ (Expr.Holds labelAt) (operands.map Operand.expr) raws) :
    (Located.mk address opcode operands).ShownAs labelAt
      (Listing.line address
        (.instruction (Instruction.ofModes opcode (operands.map Operand.mode)) raws)) := by
  refine ⟨Instruction.ofModes opcode (operands.map Operand.mode), raws, Listing.textWidth
    - ((Instruction.ofModes opcode (operands.map Operand.mode)).text raws).length, rfl,
    Instruction.modes_ofModes ?_, hholds, ?_⟩
  · rw [List.length_map]
    exact hsaturated
  · simp only [Listing.line, Listing.padEnd, Listing.Block.text, Listing.Block.words,
      String.append_assoc]

/-- One line for each leading instruction, at its address. The induction is along the bodies,
with the address of the first of them. -/
theorem lines_of_leading {address? : String → Option Word} {labelAt : String → Nat → Prop}
    (hholds : ∀ e w, Expr.value address? e = .ok w → e.Holds labelAt w) {bs : List Body}
    {blocks : List (List Word)}
    (h : List.Forall₂ (fun b block => b.encode address? = .ok block) bs blocks)
    (hbs : ∀ b ∈ bs, b.Saturated ∧ b.DestinationOK) (address : Nat) :
    ∃ shown rest, Listing.lines address (Listing.blocks blocks.flatten) = shown ++ rest
      ∧ List.Forall₂ (Located.ShownAs labelAt) (leading address bs) shown := by
  induction h generalizing address with
  | nil => exact ⟨[], _, rfl, .nil⟩
  | @cons b block bs blocks hblock hrest ih =>
      cases b with
      | words values => exact ⟨[], _, rfl, .nil⟩
      | instruction opcode operands =>
          obtain ⟨hsaturated, hdestination⟩ := hbs _ List.mem_cons_self
          obtain ⟨raws, hvalues, rfl⟩ := map_eq_ok_iff.mp hblock
          have hlength : raws.length = opcode.parameterCount := by
            rw [← (forall₂_of_values hvalues).length_eq, Body.exprs, List.length_map]
            exact hsaturated
          obtain ⟨shown, rest, hlines, hshown⟩ :=
            ih (fun b hb => hbs b (List.mem_cons_of_mem _ hb)) (address + opcode.width)
          have hwidth : address + (raws.length + 1) = address + opcode.width := by
            rw [Opcode.width]
            omega
          refine ⟨_ :: shown, rest, ?_,
            .cons (shownAs_line hsaturated ((forall₂_of_values hvalues).imp hholds)) hshown⟩
          rw [List.flatten_cons, List.cons_append,
            blocks_of_instruction hsaturated hdestination hlength, Listing.lines,
            Listing.Block.words, List.length_cons, hwidth, hlines, List.cons_append]

/-! ## Sources -/

theorem lawful_of_parse {source : String} {statements : List Statement}
    (h : parse source = .ok statements) :
    ∀ b ∈ bodies statements, b.Saturated ∧ b.DestinationOK := by
  intro b hb
  obtain ⟨s, hs, hbody⟩ := List.mem_filterMap.mp hb
  have hwellFormed := ((lawful_of_readLines h).1 s hs).2.wellFormed.body b hbody
  exact ⟨hwellFormed.saturated, hwellFormed.destination⟩

/-- **Alignment.** The lines of the listing of an assembled source begin, behind the header,
with one line for each instruction before the first data words. The line shows the opcode,
the modes and the values of the operands, and the address in its comment is where the
assembler has put the instruction. -/
theorem listing_of_assembled {source : String} {p : Program} (h : assemble source = .ok p) :
    ∃ statements blocks, parse source = .ok statements ∧ p.words = blocks.flatten
      ∧ Placement statements blocks
      ∧ (∀ k c, (leading 0 (bodies statements))[k]? = some c → c.address = startOf blocks k)
      ∧ ∃ shown rest,
          (Listing.render p.words).toList.splitOn '\n'
              = (Listing.header p.words.length ++ shown ++ rest).map String.toList
            ∧ List.Forall₂ (Located.ShownAs (LabelAt statements blocks))
              (leading 0 (bodies statements)) shown := by
  obtain ⟨statements, hparse, hlayout⟩ := bind_eq_ok_iff.mp h
  obtain ⟨hlabels, hencode⟩ := layout_cases hlayout
  obtain ⟨blocks, hwords, hblocks⟩ := exists_blocks hencode
  have hplacement := placement_of_blocks (fits_of_readLines hparse).1 hlabels hblocks
  refine ⟨statements, blocks, hparse, hwords, hplacement, ?_, ?_⟩
  · intro k c hc
    rw [address_of_leading hc, hplacement.start, Nat.zero_add]
  · obtain ⟨shown, rest, hlines, hshown⟩ :=
      lines_of_leading (fun e w => holds_of_value hplacement.start) hblocks
        (lawful_of_parse hparse) 0
    refine ⟨shown, rest ++ [""], ?_, hshown⟩
    rw [Listing.splitOn_render, Listing.texts, hwords, hlines]
    simp

/-- Two instructions, and a data word that looks like a third one without its operand. -/
def instructionsAndData : String :=
  "loop: add [rb-1], 5, [x] ; counts\n\njnz [x], loop\nx: .word 104"

theorem listing_of_assembled_instructionsAndData :
    assemble instructionsAndData = .ok ⟨[1201, -1, 5, 7, 1005, 7, 0, 104]⟩
      ∧ ∃ statements blocks shown rest, parse instructionsAndData = .ok statements
        ∧ (leading 0 (bodies statements)).map Located.address = [0, 4]
        ∧ (Listing.render [1201, -1, 5, 7, 1005, 7, 0, 104]).toList.splitOn '\n'
            = (Listing.header 8 ++ shown ++ rest).map String.toList
        ∧ List.Forall₂ (Located.ShownAs (LabelAt statements blocks))
          (leading 0 (bodies statements)) shown := by
  have h : assemble instructionsAndData = .ok ⟨[1201, -1, 5, 7, 1005, 7, 0, 104]⟩ := by
    decide +kernel
  obtain ⟨statements, blocks, hparse, -, -, -, shown, rest, hlines, hshown⟩ :=
    listing_of_assembled h
  refine ⟨h, statements, blocks, shown, rest, hparse, ?_, hlines, hshown⟩
  have haddresses : (parse instructionsAndData).map
      (fun statements => (leading 0 (bodies statements)).map Located.address)
        = .ok [0, 4] := by decide +kernel
  rw [hparse] at haddresses
  exact Except.ok.inj haddresses

end Intcode.Assembly
