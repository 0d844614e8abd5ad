import Intcode.Proofs.ParsedStatements

/-!
# Which statements a source can have

A list of statements is what some source is read as exactly if it is well
formed (`parse_image`). That nothing else is read comes from `wellFormed_of_read`,
one line at a time. For the other direction there is a source for every
well-formed list (`sourceOf`): the tokens of each statement, a space behind each
token, and empty lines in front of a statement until its number is reached. The
spaces keep tokens apart whatever they are, so no token needs to know its
neighbours (`spells_spaced`).
-/

namespace Intcode.Assembly

/-! ## Identifiers -/

/-- A letter of the alphabet, small or capital, or the underscore. -/
def IsLetter (c : Char) : Prop :=
  ('a' ≤ c ∧ c ≤ 'z') ∨ ('A' ≤ c ∧ c ≤ 'Z') ∨ c = '_'

/-- A letter, and then letters and digits. -/
def IsIdentifier (name : String) : Prop :=
  ∃ c cs, name.toList = c :: cs ∧ IsLetter c ∧ ∀ x ∈ cs, IsLetter x ∨ ('0' ≤ x ∧ x ≤ '9')

theorem isUpper_iff {c : Char} : c.isUpper = true ↔ 'A' ≤ c ∧ c ≤ 'Z' :=
  decide_eq_true_iff

theorem isLower_iff {c : Char} : c.isLower = true ↔ 'a' ≤ c ∧ c ≤ 'z' :=
  Bool.and_eq_true_iff.trans (and_congr decide_eq_true_iff decide_eq_true_iff)

theorem isDigit_iff {c : Char} : c.isDigit = true ↔ '0' ≤ c ∧ c ≤ '9' :=
  Bool.and_eq_true_iff.trans (and_congr decide_eq_true_iff decide_eq_true_iff)

theorem isAlpha_iff {c : Char} :
    c.isAlpha = true ↔ ('A' ≤ c ∧ c ≤ 'Z') ∨ ('a' ≤ c ∧ c ≤ 'z') :=
  Bool.or_eq_true_iff.trans (or_congr isUpper_iff isLower_iff)

theorem startsName_iff {c : Char} : startsName c = true ↔ IsLetter c := by
  rw [startsName, Bool.or_eq_true, isAlpha_iff, decide_eq_true_eq, IsLetter, or_assoc,
    or_left_comm]

theorem continuesName_iff {c : Char} :
    continuesName c = true ↔ IsLetter c ∨ ('0' ≤ c ∧ c ≤ '9') := by
  rw [← startsName_iff, ← isDigit_iff, continuesName, startsName, Char.isAlphanum]
  simp only [Bool.or_eq_true]
  exact or_right_comm

theorem isName_iff {name : String} : isName name.toList = true ↔ IsIdentifier name := by
  rw [IsIdentifier]
  cases name.toList with
  | nil => simp [isName]
  | cons c cs =>
      simp only [isName, Bool.and_eq_true, List.all_eq_true, startsName_iff, continuesName_iff]
      constructor
      · intro h
        exact ⟨c, cs, rfl, h⟩
      · rintro ⟨_, _, ⟨⟩, h⟩
        exact h

/-! ## Well-formed sources -/

/-- A name that a label can have. -/
def IsLabelName (name : String) : Prop :=
  IsIdentifier name ∧ name ≠ "rb"

/-- The rules for what a line says. Numbers need none: every word can be written. -/
structure Content.Lawful (c : Content) : Prop where
  defined : ∀ name ∈ c.labels, IsLabelName name
  used : ∀ b ∈ c.body, ∀ name, .label name ∈ b.exprs → IsLabelName name
  labelled : c.body = none → c.labels ≠ []
  operands : ∀ opcode os, c.body = some (.instruction opcode os) →
    os.length = opcode.parameterCount
  destination : ∀ opcode os, c.body = some (.instruction opcode os) →
    ∀ place o, opcode.destination? = some place → os[place]? = some o → o.mode ≠ .immediate
  data : c.body ≠ some (.words [])

structure WellFormedSource (statements : List Statement) : Prop where
  line_pos : ∀ s ∈ statements, 1 ≤ s.line
  ascending : statements.Pairwise fun s t => s.line < t.line
  content : ∀ s ∈ statements, s.toContent.Lawful

theorem isLabel_iff {name : String} : IsLabel name ↔ IsLabelName name :=
  and_congr_left fun _ => isName_iff

theorem Content.Lawful.wellFormed {c : Content} (h : c.Lawful) : c.WellFormed := by
  refine ⟨fun name hname => isLabel_iff.mpr (h.defined name hname), ?_,
    fun hlabels hbody => h.labelled hbody hlabels⟩
  intro b hb
  have hexprs : ∀ e ∈ b.exprs, e.WellFormed := by
    intro e he
    cases e with
    | number value => trivial
    | label name => exact isLabel_iff.mpr (h.used b hb name he)
  cases b with
  | instruction opcode os =>
      refine ⟨h.operands opcode os hb, h.destination opcode os hb, hexprs, ?_⟩
      rw [Body.width, Opcode.width]
      omega
  | words values =>
      refine ⟨trivial, trivial, hexprs, ?_⟩
      intro hwidth
      obtain rfl := List.length_eq_zero_iff.mp hwidth
      exact h.data hb

theorem Content.WellFormed.lawful {c : Content} (h : c.WellFormed) : c.Lawful where
  defined name hname := isLabel_iff.mp (h.labels name hname)
  used b hb _ hname := isLabel_iff.mp ((h.body b hb).exprs _ hname)
  labelled hbody hlabels := h.nonempty hlabels hbody
  operands _ _ hbody := (h.body _ hbody).saturated
  destination _ _ hbody := (h.body _ hbody).destination
  data hbody := (h.body _ hbody).nonempty rfl

/-! ## What is read is well formed -/

theorem lawful_of_readLines {number : Nat} {lines : List (List Char)}
    {statements : List Statement} (h : readLines number lines = .ok statements) :
    (∀ s ∈ statements, number ≤ s.line ∧ s.toContent.Lawful)
      ∧ statements.Pairwise fun s t => s.line < t.line := by
  induction lines generalizing number statements with
  | nil =>
      cases h
      exact ⟨nofun, List.Pairwise.nil⟩
  | cons text lines ih =>
      -- The later lines have greater numbers, whether or not this one gives a statement.
      have later : ∀ rest, readLines (number + 1) lines = .ok rest →
          ∀ s ∈ rest, number ≤ s.line ∧ s.toContent.Lawful := by
        intro rest hrest s hs
        obtain ⟨hline, hcontent⟩ := (ih hrest).1 s hs
        exact ⟨Nat.le_of_succ_le hline, hcontent⟩
      rw [readLines] at h
      split at h
      next => cases h
      next => exact ⟨later _ h, (ih h).2⟩
      next content hread =>
        obtain ⟨rest, hrest, rfl⟩ := map_eq_ok_iff.mp h
        obtain ⟨hall, hascending⟩ := ih hrest
        constructor
        · exact List.forall_mem_cons.mpr
            ⟨⟨Nat.le_refl _, (wellFormed_of_read hread).lawful⟩, later rest hrest⟩
        · exact List.pairwise_cons.mpr ⟨fun s hs => (hall s hs).1, hascending⟩

/-! ## Spelled tokens -/

/-- The spellings of tokens, with a space behind each. -/
def spaced (ts : List Token) : List Char :=
  ts.flatMap fun t => t.spelling.toList ++ [' ']

theorem Spells.spaced {ts us : List Token} {rest : List Char} (h : Spells rest us)
    (hts : ∀ t ∈ ts, t.Spellable) : Spells (spaced ts ++ rest) (ts ++ us) := by
  induction ts with
  | nil => exact h
  | cons t ts ih =>
      obtain ⟨ht, hts⟩ := List.forall_mem_cons.mp hts
      have hrest : Spells (' ' :: (Assembly.spaced ts ++ rest)) (ts ++ us) := (ih hts).space
      rw [Assembly.spaced, List.flatMap_cons, List.append_assoc, List.append_assoc]
      cases t with
      | identifier name => exact hrest.identifier ht (stops_cons rfl)
      | directive name =>
          have htext : (Token.directive name).spelling.toList = '.' :: name.toList := by
            rw [Token.spelling, String.toList_append]
            rfl
          rw [htext]
          exact hrest.directive ht (stops_cons rfl)
      | number value => exact hrest.number (stops_cons rfl)
      | newline => exact ht.elim
      | comma | colon | leftBracket | rightBracket | plus | minus =>
          exact hrest.mark rfl fun _ => stops_cons rfl

theorem spells_spaced {ts : List Token} (h : ∀ t ∈ ts, t.Spellable) : Spells (spaced ts) ts := by
  have hspells := Spells.nil.spaced h
  rw [List.append_nil, List.append_nil] at hspells
  exact hspells

/-! ## A source for every well-formed list -/

/-- The line of a content. -/
def Content.text (c : Content) : List Char :=
  spaced c.tokens

theorem Content.WellFormed.read_text {c : Content} (h : c.WellFormed) :
    Line.read c.text = .ok (some c) :=
  read_of_spells h (spells_spaced h.spellable)

theorem Content.WellFormed.newline_not_mem_text {c : Content} (h : c.WellFormed) :
    '\n' ∉ c.text :=
  (spells_spaced h.spellable).newline_not_mem fun hmem => h.spellable _ hmem

/-- The lines of statements, the first of them with the given number. -/
def sourceLines (number : Nat) : List Statement → List (List Char)
  | [] => []
  | s :: rest =>
    List.replicate (s.line - number) [] ++ s.toContent.text :: sourceLines (s.line + 1) rest

def sourceOf (statements : List Statement) : String :=
  String.ofList ((sourceLines 1 statements).flatMap (· ++ ['\n']))

theorem readLines_blank (number k : Nat) (lines : List (List Char)) :
    readLines number (List.replicate k [] ++ lines) = readLines (number + k) lines := by
  induction k generalizing number with
  | zero => rfl
  | succ k ih =>
      have hblank : Line.read [] = .ok none := read_of_spells_nil Spells.nil
      rw [List.replicate_succ, List.cons_append, readLines, hblank]
      rw [ih, Nat.add_right_comm, Nat.add_assoc]

theorem readLines_sourceLines {statements : List Statement} {number : Nat}
    (hline : ∀ s ∈ statements, number ≤ s.line)
    (hascending : statements.Pairwise fun s t => s.line < t.line)
    (hcontent : ∀ s ∈ statements, s.toContent.WellFormed) :
    readLines number (sourceLines number statements ++ [[]]) = .ok statements := by
  induction statements generalizing number with
  | nil => exact readLines_blank number 1 []
  | cons s rest ih =>
      obtain ⟨hlt, hascending⟩ := List.pairwise_cons.mp hascending
      obtain ⟨hs, hrest⟩ := List.forall_mem_cons.mp hcontent
      have hnumber : number + (s.line - number) = s.line :=
        Nat.add_sub_cancel' (hline s List.mem_cons_self)
      rw [sourceLines, List.append_assoc, List.cons_append, readLines_blank, hnumber, readLines,
        hs.read_text]
      simp only [ih hlt hascending hrest]
      rfl

theorem newline_not_mem_sourceLines {statements : List Statement} {number : Nat}
    (hcontent : ∀ s ∈ statements, s.toContent.WellFormed) :
    ∀ text ∈ sourceLines number statements, '\n' ∉ text := by
  induction statements generalizing number with
  | nil => nofun
  | cons s rest ih =>
      obtain ⟨hs, hrest⟩ := List.forall_mem_cons.mp hcontent
      intro text htext
      rcases List.mem_append.mp htext with htext | htext
      · rw [List.eq_of_mem_replicate htext]
        nofun
      · rcases List.mem_cons.mp htext with rfl | htext
        · exact hs.newline_not_mem_text
        · exact ih hrest text htext

theorem parse_sourceOf {statements : List Statement} (h : WellFormedSource statements) :
    parse (sourceOf statements) = .ok statements := by
  have hcontent : ∀ s ∈ statements, s.toContent.WellFormed :=
    fun s hs => (h.content s hs).wellFormed
  rw [parse, sourceOf, String.toList_ofList,
    splitOn_newline (newline_not_mem_sourceLines hcontent)]
  exact readLines_sourceLines h.line_pos h.ascending hcontent

/-- The lists of statements that sources have are the well-formed ones. -/
theorem parse_image (statements : List Statement) :
    (∃ source, parse source = .ok statements) ↔ WellFormedSource statements := by
  constructor
  · rintro ⟨source, hparse⟩
    obtain ⟨hall, hascending⟩ := lawful_of_readLines hparse
    exact ⟨fun s hs => (hall s hs).1, hascending, fun s hs => (hall s hs).2⟩
  · intro h
    exact ⟨sourceOf statements, parse_sourceOf h⟩

end Intcode.Assembly
