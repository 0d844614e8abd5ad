import Mathlib.Data.List.Forall2
import Intcode.Assembly.Layout
import Intcode.Proofs.InstructionWord
import Intcode.Proofs.ParsedLine

/-!
# Where statements are placed

The output of the assembler is a sequence of *blocks*, one for each body of the
source. `Placement` says which words are in a block and where it starts, and it
says it by the output alone: a label stands for the number of words in the blocks
before its definition.

The assembler does not count the words of blocks. Its first pass adds up widths,
which depend on opcodes, and only its second pass makes the blocks, out of
operands. The two are in step because a block has as many words as its body is
wide (`length_of_encode`), and this is so because the parser lets no instruction
pass that has too few or too many operands.
-/

namespace Intcode.Assembly

/-! ## The placement of statements -/

def bodies (statements : List Statement) : List Body :=
  statements.filterMap (·.body)

/-- How many words consecutive bodies take. -/
def totalWidth : List Body → Nat
  | [] => 0
  | b :: bs => b.width + totalWidth bs

/-- Where the `k`th block starts in the output. If there is no such block, this is where
the output ends. -/
def startOf (blocks : List (List Word)) (k : Nat) : Nat :=
  (blocks.take k).flatten.length

/-- A label stands for the start of the first block at or after its definition: as many
blocks are in front of it as there are bodies before the statement that defines it. -/
def LabelAt (statements : List Statement) (blocks : List (List Word)) (name : String)
    (offset : Nat) : Prop :=
  ∃ before s after, statements = before ++ s :: after ∧ name ∈ s.labels
    ∧ offset = startOf blocks (bodies before).length

def Expr.Holds (labelAt : String → Nat → Prop) : Expr → Word → Prop
  | number value, w => w = value
  | label name, w => ∃ offset, labelAt name offset ∧ w = Int64.ofNat offset

/-- What is in the block of a body: the values of its expressions and, for an instruction,
a word in front of them that decodes to the opcode and the modes of the operands. -/
def Body.PlacedAs (labelAt : String → Nat → Prop) : Body → List Word → Prop
  | instruction opcode operands, block =>
    ∃ w ws i, block = w :: ws
      ∧ Instruction.ofWord? w = some i ∧ i.opcode = opcode
      ∧ i.modes = operands.map Operand.mode
      ∧ List.Forall₂ (Expr.Holds labelAt) (operands.map Operand.expr) ws
  | words values, block => List.Forall₂ (Expr.Holds labelAt) values block

structure Placement (statements : List Statement) (blocks : List (List Word)) : Prop where
  placed : List.Forall₂ (Body.PlacedAs (LabelAt statements blocks)) (bodies statements) blocks
  length : List.Forall₂ (fun body block => block.length = body.width ∧ block ≠ [])
    (bodies statements) blocks
  start : ∀ k, startOf blocks k = totalWidth ((bodies statements).take k)
  /-- No label is defined twice. -/
  labels : (statements.flatMap (·.labels)).Nodup

/-! ## Widths -/

theorem totalWidth_append (bs bs' : List Body) :
    totalWidth (bs ++ bs') = totalWidth bs + totalWidth bs' := by
  induction bs with
  | nil => rw [List.nil_append, totalWidth, Nat.zero_add]
  | cons b bs ih => rw [List.cons_append, totalWidth, totalWidth, ih, Nat.add_assoc]

theorem bodies_cons (s : Statement) (statements : List Statement) :
    bodies (s :: statements) = s.body.toList ++ bodies statements := by
  cases hbody : s.body with
  | none => exact List.filterMap_cons_none hbody
  | some b => exact List.filterMap_cons_some hbody

theorem totalWidth_toList_body (s : Statement) : totalWidth s.body.toList = s.width := by
  rw [Content.width]
  cases s.body with
  | none => rfl
  | some b => rfl

theorem startOf_eq {bs : List Body} {blocks : List (List Word)}
    (h : List.Forall₂ (fun b block => block.length = b.width) bs blocks) (k : Nat) :
    startOf blocks k = totalWidth (bs.take k) := by
  induction h generalizing k with
  | nil => simp [startOf, totalWidth]
  | @cons b block bs blocks hlength hrest ih =>
      cases k with
      | zero => rfl
      | succ k =>
          have := ih k
          rw [startOf] at this ⊢
          rw [List.take_succ_cons, List.take_succ_cons, List.flatten_cons, List.length_append,
            totalWidth, hlength, this]

theorem startOf_le (blocks : List (List Word)) (k : Nat) :
    startOf blocks k ≤ blocks.flatten.length := by
  rw [startOf]
  conv => rhs; rw [← List.take_append_drop k blocks]
  rw [List.flatten_append, List.length_append]
  exact Nat.le_add_right _ _

/-! ## The first pass -/

theorem map_fst_definitions (address : Nat) (statements : List Statement) :
    (definitions address statements).map Prod.fst = statements.flatMap (·.labels) := by
  induction statements generalizing address with
  | nil => rfl
  | cons s statements ih =>
      rw [definitions, List.map_append, ih, List.flatMap_cons, List.map_map]
      simp [Function.comp_def]

theorem of_mem_definitions {address : Nat} {statements : List Statement} {name : String}
    {offset : Nat} (h : (name, offset) ∈ definitions address statements) :
    ∃ before s after, statements = before ++ s :: after ∧ name ∈ s.labels
      ∧ offset = address + totalWidth (bodies before) := by
  induction statements generalizing address with
  | nil => cases h
  | cons s statements ih =>
      rw [definitions, List.mem_append] at h
      rcases h with hhere | hlater
      · obtain ⟨_, hname, ⟨⟩⟩ := List.mem_map.mp hhere
        exact ⟨[], s, statements, rfl, hname, rfl⟩
      · obtain ⟨before, s', after, rfl, hname, rfl⟩ := ih hlater
        refine ⟨s :: before, s', after, rfl, hname, ?_⟩
        rw [bodies_cons, totalWidth_append, totalWidth_toList_body, Nat.add_assoc]

theorem nodup_of_firstRepeated? {seen names : List String}
    (h : firstRepeated? seen names = none) : names.Nodup ∧ ∀ name ∈ names, name ∉ seen := by
  induction names generalizing seen with
  | nil => exact ⟨List.nodup_nil, nofun⟩
  | cons name names ih =>
      rw [firstRepeated?] at h
      split at h
      · cases h
      next hnew =>
        obtain ⟨hnodup, hseen⟩ := ih h
        have hname : name ∉ names := fun hmem => hseen name hmem List.mem_cons_self
        refine ⟨List.nodup_cons.mpr ⟨hname, hnodup⟩, ?_⟩
        intro x hx
        rcases List.mem_cons.mp hx with rfl | hx
        · exact hnew
        · exact fun hmem => hseen x hx (List.mem_cons_of_mem _ hmem)

/-! ## The second pass -/

section Encoding

variable {address? : String → Option Word}

theorem forall₂_of_values {es : List Expr} {ws : List Word}
    (h : values address? es = .ok ws) :
    List.Forall₂ (fun e w => e.value address? = .ok w) es ws := by
  induction es generalizing ws with
  | nil =>
      cases h
      exact .nil
  | cons e es ih =>
      obtain ⟨w, hw, h⟩ := bind_eq_ok_iff.mp h
      obtain ⟨ws, hws, h⟩ := bind_eq_ok_iff.mp h
      cases h
      exact .cons hw (ih hws)

theorem length_of_encode {b : Body} {block : List Word} (hb : b.Saturated)
    (h : b.encode address? = .ok block) : block.length = b.width := by
  cases b with
  | instruction opcode operands =>
      obtain ⟨ws, hws, rfl⟩ := map_eq_ok_iff.mp h
      have hlength := (forall₂_of_values hws).length_eq
      rw [Body.exprs, List.length_map, hb] at hlength
      rw [List.length_cons, ← hlength, Body.width, Opcode.width, Nat.add_comm]
  | words es => exact (forall₂_of_values h).length_eq.symm

theorem exists_blocks {bs : List Body} {ws : List Word}
    (h : encodeAll address? bs = .ok ws) :
    ∃ blocks, ws = blocks.flatten
      ∧ List.Forall₂ (fun b block => b.encode address? = .ok block) bs blocks := by
  induction bs generalizing ws with
  | nil =>
      cases h
      exact ⟨[], rfl, .nil⟩
  | cons b bs ih =>
      obtain ⟨block, hblock, h⟩ := bind_eq_ok_iff.mp h
      obtain ⟨rest, hrest, h⟩ := bind_eq_ok_iff.mp h
      cases h
      obtain ⟨blocks, rfl, hblocks⟩ := ih hrest
      exact ⟨block :: blocks, rfl, .cons hblock hblocks⟩

/-- If every value that is looked up holds what it should, then so does every block. -/
theorem placedAs_of_encode {labelAt : String → Nat → Prop}
    (hholds : ∀ e w, Expr.value address? e = .ok w → e.Holds labelAt w) {b : Body}
    {block : List Word} (hb : b.Saturated) (h : b.encode address? = .ok block) :
    b.PlacedAs labelAt block := by
  cases b with
  | instruction opcode operands =>
      obtain ⟨ws, hws, rfl⟩ := map_eq_ok_iff.mp h
      have hlength : (operands.map Operand.mode).length = opcode.parameterCount := by
        rw [List.length_map]
        exact hb
      have hmodes := Instruction.modes_ofModes hlength
      refine ⟨_, ws, _, rfl, Instruction.ofWord?_toWord _, rfl, ?_, ?_⟩
      · rw [hmodes]
        exact hmodes
      · exact (forall₂_of_values hws).imp hholds
  | words es => exact (forall₂_of_values h).imp hholds

end Encoding

theorem layout_cases {statements : List Statement} {p : Program}
    (h : layout statements = .ok p) :
    (statements.flatMap (·.labels)).Nodup
      ∧ encodeAll (addressOf? (definitions 0 statements)) (bodies statements)
        = .ok p.words := by
  rw [layout] at h
  split at h
  · cases h
  next hnone =>
    obtain ⟨ws, hws, rfl⟩ := map_eq_ok_iff.mp h
    rw [map_fst_definitions] at hnone
    exact ⟨(nodup_of_firstRepeated? hnone).1, hws⟩

/-! ## Parsed sources -/

theorem length_flatten_splitOn_le (a : Char) (text : List Char) :
    (text.splitOn a).flatten.length ≤ text.length := by
  induction text with
  | nil => exact Nat.le_refl 0
  | cons c text ih =>
      rw [List.splitOn_cons_eq_if_modifyHead, List.length_cons]
      split
      · exact Nat.le_succ_of_le ih
      · cases hsplit : text.splitOn a with
        | nil => exact absurd hsplit (List.splitOn_ne_nil a text)
        | cons line lines =>
            rw [hsplit] at ih
            exact Nat.succ_le_succ ih

theorem fits_of_readLines {number : Nat} {lines : List (List Char)}
    {statements : List Statement} (h : readLines number lines = .ok statements) :
    (∀ b ∈ bodies statements, b.Saturated ∧ 0 < b.width)
      ∧ totalWidth (bodies statements) ≤ lines.flatten.length := by
  induction lines generalizing number statements with
  | nil =>
      cases h
      exact ⟨nofun, Nat.le_refl 0⟩
  | cons text lines ih =>
      rw [readLines] at h
      rw [List.flatten_cons, List.length_append]
      split at h
      next => cases h
      next =>
        obtain ⟨hall, hle⟩ := ih h
        exact ⟨hall, by omega⟩
      next content hread =>
        obtain ⟨rest, hrest, rfl⟩ := map_eq_ok_iff.mp h
        obtain ⟨hall, hle⟩ := ih hrest
        rw [bodies_cons, totalWidth_append]
        have hwidth : totalWidth content.body.toList ≤ text.length := by
          cases hbody : content.body with
          | none => exact Nat.zero_le _
          | some b => exact (fits_of_read hread hbody).width_le
        refine ⟨?_, Nat.add_le_add hwidth hle⟩
        intro b hb
        rcases List.mem_append.mp hb with hhere | hlater
        · have hfits := fits_of_read hread (Option.mem_toList.mp hhere)
          exact ⟨hfits.saturated, hfits.nonempty⟩
        · exact hall b hlater

/-! ## Assembled sources -/

theorem labelAt_of_lookup {statements : List Statement} {blocks : List (List Word)}
    (hstart : ∀ k, startOf blocks k = totalWidth ((bodies statements).take k))
    {name : String} {offset : Nat}
    (h : (definitions 0 statements).lookup name = some offset) :
    LabelAt statements blocks name offset := by
  have hmem : (name, offset) ∈ definitions 0 statements := by
    obtain ⟨front, back, heq, -⟩ := List.lookup_eq_some_iff.mp h
    rw [heq]
    exact List.mem_append_right _ List.mem_cons_self
  obtain ⟨before, s, after, rfl, hname, rfl⟩ := of_mem_definitions hmem
  refine ⟨before, s, after, rfl, hname, ?_⟩
  have hbodies : bodies (before ++ s :: after) = bodies before ++ bodies (s :: after) :=
    List.filterMap_append
  rw [hstart, hbodies, List.take_left, Nat.zero_add]

theorem holds_of_value {statements : List Statement} {blocks : List (List Word)}
    (hstart : ∀ k, startOf blocks k = totalWidth ((bodies statements).take k))
    {e : Expr} {w : Word}
    (h : e.value (addressOf? (definitions 0 statements)) = .ok w) :
    e.Holds (LabelAt statements blocks) w := by
  cases e with
  | number value =>
      cases h
      rfl
  | label name =>
      rw [Expr.value] at h
      split at h
      next address haddress =>
        obtain ⟨offset, hlookup, rfl⟩ := Option.map_eq_some_iff.mp haddress
        cases h
        exact ⟨offset, labelAt_of_lookup hstart hlookup, rfl⟩
      next => cases h

theorem placement_of_blocks {statements : List Statement} {blocks : List (List Word)}
    (hparsed : ∀ b ∈ bodies statements, b.Saturated ∧ 0 < b.width)
    (hlabels : (statements.flatMap (·.labels)).Nodup)
    (hblocks : List.Forall₂
      (fun b block => b.encode (addressOf? (definitions 0 statements)) = .ok block)
      (bodies statements) blocks) : Placement statements blocks := by
  have hboth := (List.forall₂_and_left _ _).mpr ⟨hparsed, hblocks⟩
  have hlength : List.Forall₂ (fun b block => block.length = b.width ∧ block ≠ [])
      (bodies statements) blocks := by
    refine hboth.imp ?_
    rintro b block ⟨⟨hsaturated, hpos⟩, hblock⟩
    have heq := length_of_encode hsaturated hblock
    exact ⟨heq, List.ne_nil_of_length_pos (by omega)⟩
  have hstart := startOf_eq (hlength.imp fun _ _ h => h.1)
  refine ⟨?_, hlength, hstart, hlabels⟩
  refine hboth.imp ?_
  rintro b block ⟨⟨hsaturated, -⟩, hblock⟩
  exact placedAs_of_encode (fun e w => holds_of_value hstart) hsaturated hblock

theorem placement_of_layout {statements : List Statement} {p : Program}
    (hparsed : ∀ b ∈ bodies statements, b.Saturated ∧ 0 < b.width)
    (h : layout statements = .ok p) :
    ∃ blocks, p.words = blocks.flatten ∧ Placement statements blocks := by
  obtain ⟨hlabels, hencode⟩ := layout_cases h
  obtain ⟨blocks, hwords, hblocks⟩ := exists_blocks hencode
  exact ⟨blocks, hwords, placement_of_blocks hparsed hlabels hblocks⟩

/-- **Placement.** Whatever is assembled is placed as it should be. There are no more words
than characters in the source, so that no offset is too large for a word. -/
theorem assemble_placement {source : String} {p : Program} (h : assemble source = .ok p) :
    ∃ statements blocks, parse source = .ok statements ∧ p.words = blocks.flatten
      ∧ Placement statements blocks
      ∧ p.words.length ≤ source.length
      ∧ (source.length < 0x8000000000000000 → ∀ name offset,
          LabelAt statements blocks name offset → (Int64.ofNat offset).toInt = offset) := by
  obtain ⟨statements, hparse, hlayout⟩ := bind_eq_ok_iff.mp h
  obtain ⟨hparsed, htotal⟩ := fits_of_readLines hparse
  obtain ⟨blocks, hwords, hplacement⟩ := placement_of_layout hparsed hlayout
  have hlength : p.words.length ≤ source.length := by
    have hall : startOf blocks blocks.length = totalWidth (bodies statements) := by
      rw [hplacement.start, ← hplacement.placed.length_eq, List.take_length]
    rw [startOf, List.take_length, ← hwords] at hall
    calc p.words.length
        _ = totalWidth (bodies statements) := hall
        _ ≤ (source.toList.splitOn '\n').flatten.length := htotal
        _ ≤ source.toList.length := length_flatten_splitOn_le _ _
        _ = source.length := String.length_toList
  refine ⟨statements, blocks, hparse, hwords, hplacement, hlength, ?_⟩
  rintro hsource name _ ⟨before, s, after, -, -, rfl⟩
  have hle := startOf_le blocks (bodies before).length
  rw [← hwords] at hle
  exact Int64.toInt_ofNat_of_lt (by omega)

/-- A reference forward, to the end of the output, and one back to its start. -/
def forwardAndBack : String :=
  "start: jnz 1, end\n.word start\nend:"

theorem assemble_placement_forwardAndBack :
    assemble forwardAndBack = .ok ⟨[1105, 1, 4, 0]⟩
      ∧ ∃ statements blocks, parse forwardAndBack = .ok statements
        ∧ [1105, 1, 4, 0] = blocks.flatten ∧ Placement statements blocks := by
  have h : assemble forwardAndBack = .ok ⟨[1105, 1, 4, 0]⟩ := by decide +kernel
  obtain ⟨statements, blocks, hparse, hwords, hplacement, -⟩ := assemble_placement h
  exact ⟨h, statements, blocks, hparse, hwords, hplacement⟩

end Intcode.Assembly
