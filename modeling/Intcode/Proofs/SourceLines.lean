import Mathlib.Control.Monad.Basic
import Intcode.Proofs.LineGrammar

/-!
# Sources are read line by line

What a source is read as depends on its lines one at a time. So two sources with a
newline between them are read as the one and then the other
(`parse_append_newline`), and an error is that of the first line that has one
(`readLines_eq_error_iff`).

A reader need not cut the source into lines for this. `readPass` goes once
through the lexemes of the whole source, collects the tokens of the current line
until a newline comes, and gets the column of a token by subtracting the offset
at which the line starts. It reads the same (`readPass_eq_parse`), because no
piece of the text goes on over the end of a line: the lexemes of a source are
those of its lines with a newline after each (`lexemes_newline`). Nothing is ever
subtracted that is too large, which is why the pass has a result at all.
-/

namespace Intcode.Assembly

/-- The lines of a source. -/
def linesOf (source : String) : List (List Char) :=
  source.toList.splitOn '\n'

/-! ## Sources one after the other -/

/-- The statement, so many lines further down. -/
def Statement.down (k : Nat) (s : Statement) : Statement :=
  { s with line := s.line + k }

/-- The error, so many lines further down. -/
def Error.down (k : Nat) : Error → Error
  | onLine line problem => .onLine (line + k) problem
  | undefinedLabel name => .undefinedLabel name
  | duplicateLabel name => .duplicateLabel name

theorem readLines_down (number k : Nat) (lines : List (List Char)) :
    readLines (number + k) lines
      = ((readLines number lines).map (List.map (Statement.down k))).mapError (Error.down k) := by
  induction lines generalizing number with
  | nil => rfl
  | cons text lines ih =>
      rw [readLines, readLines, Nat.add_right_comm, ih]
      cases Line.read text with
      | error problem => rfl
      | ok content? =>
          cases content? with
          | none => rfl
          | some content => cases readLines (number + 1) lines <;> rfl

theorem readLines_append (number : Nat) (lines lines' : List (List Char)) :
    readLines number (lines ++ lines')
      = readLines number lines >>= fun statements =>
          (readLines (number + lines.length) lines').map (statements ++ ·) := by
  induction lines generalizing number with
  | nil =>
      simp only [List.nil_append, readLines, List.length_nil, Nat.add_zero, bind, Except.bind]
      cases readLines number lines' <;> rfl
  | cons text lines ih =>
      rw [List.cons_append, readLines, readLines, ih, List.length_cons, Nat.add_right_comm,
        ← Nat.add_assoc]
      cases Line.read text with
      | error problem => rfl
      | ok content? =>
          cases content? with
          | none => rfl
          | some content =>
              cases readLines (number + 1) lines with
              | error e => rfl
              | ok statements => cases readLines (number + lines.length + 1) lines' <;> rfl

theorem length_linesOf (source : String) :
    (linesOf source).length = 1 + source.toList.count '\n' := by
  rw [linesOf]
  induction source.toList with
  | nil => rfl
  | cons c text ih =>
      rw [List.splitOn_cons_eq_if_modifyHead, List.count_cons]
      split
      · rw [List.length_cons, ih]
        omega
      · rw [List.length_modifyHead, ih]
        omega

theorem linesOf_append_newline (s₁ s₂ : String) :
    linesOf (s₁ ++ "\n" ++ s₂) = linesOf s₁ ++ linesOf s₂ := by
  have htext : (s₁ ++ "\n" ++ s₂).toList = s₁.toList ++ '\n' :: s₂.toList := by
    rw [String.toList_append, String.toList_append, List.append_assoc]
    rfl
  rw [linesOf, htext]
  exact List.splitOnP_append_cons _ _ (by decide)

theorem parse_append_newline (s₁ s₂ : String) :
    parse (s₁ ++ "\n" ++ s₂)
      = parse s₁ >>= fun statements =>
          (((parse s₂).map (List.map (Statement.down (1 + s₁.toList.count '\n')))).mapError
            (Error.down (1 + s₁.toList.count '\n'))).map (statements ++ ·) := by
  have hparse (s : String) : parse s = readLines 1 (linesOf s) := rfl
  rw [hparse, linesOf_append_newline, readLines_append, length_linesOf, readLines_down]
  rfl

/-! ## The line that an error is about -/

/-- What a line that cannot be read is blamed for: the first piece of it that is no token,
whatever the others are, and only if there is none, what is wrong with its tokens. -/
inductive Line.Blamed (text : List Char) : Problem → Prop where
  | piece {l : Lexeme} (hl : (lexemes 0 text).find? (·.token?.isNone) = some l) :
      Blamed text (.misfit (l.start + 1) (.unreadable l.text))
  | tokens {ts : List Placed} {problem : Problem}
      (htokens : Line.tokens (lexemes 0 text) = .ok ts)
      (hcontent : Line.content ts = .error problem) : Blamed text problem

theorem tokens_eq_error_iff {ls : List Lexeme} {problem : Problem} :
    Line.tokens ls = .error problem ↔
      ∃ l, ls.find? (·.token?.isNone) = some l
        ∧ problem = .misfit (l.start + 1) (.unreadable l.text) := by
  induction ls with
  | nil => simp [Line.tokens]
  | cons l ls ih =>
      rw [Line.tokens]
      cases hl : l.token? with
      | none => simp [hl, eq_comm]
      | some token =>
          simp only [map_eq_error_iff, ih, List.find?_cons, hl]
          rfl

theorem read_eq_error_iff {text : List Char} {problem : Problem} :
    Line.read text = .error problem ↔ Line.Blamed text problem := by
  rw [Line.read, bind_eq_error_iff, tokens_eq_error_iff]
  constructor
  · rintro (⟨l, hl, rfl⟩ | ⟨ts, htokens, hcontent⟩)
    · exact .piece hl
    · exact .tokens htokens hcontent
  · rintro (hl | ⟨htokens, hcontent⟩)
    · exact Or.inl ⟨_, hl, rfl⟩
    · exact Or.inr ⟨_, htokens, hcontent⟩

/-- The error is about the first of the lines that cannot be read. The first line has the
given number. -/
def BlamesFirst (number : Nat) (lines : List (List Char)) (e : Error) : Prop :=
  ∃ before text after problem, lines = before ++ text :: after
    ∧ (∀ t ∈ before, ∃ content?, Line.read t = .ok content?)
    ∧ Line.Blamed text problem ∧ e = .onLine (number + before.length) problem

theorem readLines_eq_error_iff {number : Nat} {lines : List (List Char)} {e : Error} :
    readLines number lines = .error e ↔ BlamesFirst number lines e := by
  constructor
  · intro h
    induction lines generalizing number with
    | nil => cases h
    | cons text lines ih =>
        rw [readLines] at h
        -- A line that can be read moves the blame to a later one.
        have later {content? : Option Content} (hread : Line.read text = .ok content?)
            (hrest : readLines (number + 1) lines = .error e) :
            BlamesFirst number (text :: lines) e := by
          obtain ⟨before, text', after, problem, rfl, hbefore, hblamed, rfl⟩ := ih hrest
          refine ⟨text :: before, text', after, problem, rfl, ?_, hblamed, ?_⟩
          · exact List.forall_mem_cons.mpr ⟨⟨_, hread⟩, hbefore⟩
          · rw [List.length_cons, Nat.add_assoc, Nat.add_comm 1]
        split at h
        next problem hread =>
          cases h
          exact ⟨[], text, lines, problem, rfl, List.forall_mem_nil _,
            read_eq_error_iff.mp hread, rfl⟩
        next hread => exact later hread h
        next content hread => exact later hread (map_eq_error_iff.mp h)
  · rintro ⟨before, text, after, problem, rfl, hbefore, hblamed, rfl⟩
    induction before generalizing number with
    | nil =>
        rw [List.nil_append, readLines, read_eq_error_iff.mpr hblamed]
        rfl
    | cons t before ih =>
        obtain ⟨⟨content?, hread⟩, hbefore⟩ := List.forall_mem_cons.mp hbefore
        have hrest := @ih (number + 1) hbefore
        rw [Nat.add_assoc, Nat.add_comm 1] at hrest
        rw [List.cons_append, readLines, hread, List.length_cons]
        cases content? with
        | none => exact hrest
        | some content => exact map_eq_error_iff.mpr hrest

/-! ## Pieces and lines -/

theorem dropWhile_append_of_stops {p : Char → Bool} {rest : List Char} (hstop : Stops p rest)
    (text : List Char) : (text ++ rest).dropWhile p = text.dropWhile p ++ rest := by
  induction text with
  | nil =>
      have h : ([] ++ rest).dropWhile p = rest := dropWhile_append_stop (by simp) hstop
      exact h
  | cons c text ih =>
      rw [List.cons_append, List.dropWhile_cons, List.dropWhile_cons, ih]
      split <;> rfl

/-- A piece is what it is without the text after it, if its rule does not depend on this text and
it ends where the text starts, or before. -/
theorem piece_remainder_apart {c : Char} {rest more : List Char}
    (hrule : rule c (rest ++ more).head? = rule c rest.head?)
    (hstop : remainder c rest = [] → Stops (rule c rest.head?).continues more) :
    piece c (rest ++ more) = piece c rest
      ∧ remainder c (rest ++ more) = remainder c rest ++ more := by
  have hremainder : remainder c (rest ++ more) = remainder c rest ++ more := by
    by_cases hnil : remainder c rest = []
    · rw [remainder, hrule, dropWhile_append_of_stops (hstop hnil)]
      rfl
    · have hempty : ¬ (rest.dropWhile (rule c rest.head?).continues).isEmpty = true :=
        fun h => hnil (List.isEmpty_iff.mp h)
      rw [remainder, hrule, List.dropWhile_append, if_neg hempty]
      rfl
  refine ⟨?_, hremainder⟩
  have hwhole := piece_append_remainder c (rest ++ more)
  rw [hremainder, ← List.cons_append, ← piece_append_remainder c rest, List.append_assoc] at hwhole
  exact List.append_cancel_right hwhole

/-- No piece that starts in the text goes on with the character `x`, and none is different because
`x` comes next. -/
def Cuts (x : Char) (text : List Char) : Prop :=
  ∀ c ∈ text, rule c (some x) = rule c none ∧ ∀ next?, (rule c next?).continues x = false

/-- The end of a line is the end of every piece. -/
theorem cuts_newline (text : List Char) : Cuts '\n' text :=
  fun c _ => ⟨rfl, rule_continues_newline c⟩

section Cuts

variable {x c : Char} {text : List Char}

theorem Cuts.rule_eq (h : Cuts x (c :: text)) (rest : List Char) :
    rule c (text ++ x :: rest).head? = rule c text.head? := by
  cases text with
  | nil => exact (h c List.mem_cons_self).1
  | cons d text => rfl

theorem Cuts.stops (h : Cuts x (c :: text)) (next? : Option Char) (rest : List Char) :
    Stops (rule c next?).continues (x :: rest) :=
  stops_cons ((h c List.mem_cons_self).2 next?)

theorem Cuts.piece_eq (h : Cuts x (c :: text)) (rest : List Char) :
    piece c (text ++ x :: rest) = piece c text :=
  (piece_remainder_apart (h.rule_eq rest) fun _ => h.stops _ rest).1

theorem Cuts.remainder_eq (h : Cuts x (c :: text)) (rest : List Char) :
    remainder c (text ++ x :: rest) = remainder c text ++ x :: rest :=
  (piece_remainder_apart (h.rule_eq rest) fun _ => h.stops _ rest).2

theorem Cuts.reading_eq (h : Cuts x (c :: text)) (rest : List Char) :
    reading c (text ++ x :: rest) = reading c text := by
  rw [reading, h.rule_eq, h.piece_eq]
  rfl

theorem Cuts.remainder (h : Cuts x (c :: text)) : Cuts x (remainder c text) := by
  intro d hd
  refine h d ?_
  rw [← piece_append_remainder]
  exact List.mem_append_right _ hd

end Cuts

theorem utf8Length_append (text text' : List Char) :
    utf8Length (text ++ text') = utf8Length text + utf8Length text' := by
  induction text with
  | nil => exact (Nat.zero_add _).symm
  | cons c text ih =>
      rw [utf8Length, utf8Length] at ih ⊢
      rw [List.cons_append, List.foldr_cons, ih, List.foldr_cons, Nat.add_assoc]

theorem utf8Length_piece_remainder (c : Char) (rest : List Char) :
    utf8Length (piece c rest) + utf8Length (remainder c rest) = utf8Length (c :: rest) := by
  rw [← utf8Length_append, piece_append_remainder]

theorem piece_remainder_single {c : Char} {rest : List Char} {reading : Reading}
    (h : rule c rest.head? = .single reading) : piece c rest = [c] ∧ remainder c rest = rest :=
  @piece_remainder_append c [] rest _ h nofun fun _ _ => rfl

theorem lexemes_cons_newline (start : Nat) (rest : List Char) :
    lexemes start ('\n' :: rest)
      = ⟨some .newline, ['\n'], start⟩ :: lexemes (start + 1) rest := by
  have hrule : rule '\n' rest.head? = .single (.token .newline) := rule_of_mark rfl nofun
  obtain ⟨hpiece, hremainder⟩ := piece_remainder_single hrule
  rw [lexemes, reading, hrule, hpiece, hremainder]
  rfl

/-- The lexemes of a text and of what comes after it are apart, if no piece goes on. -/
theorem lexemes_append_of_cuts (start : Nat) {x : Char} {text : List Char} (h : Cuts x text)
    (rest : List Char) :
    lexemes start (text ++ x :: rest)
      = lexemes start text ++ lexemes (start + utf8Length text) (x :: rest) := by
  fun_induction lexemes start text with
  | case1 start => rfl
  | case2 start c tail text others hreading ih =>
      rw [List.cons_append, lexemes, h.piece_eq, h.remainder_eq, h.reading_eq, hreading,
        ← utf8Length_piece_remainder, ← Nat.add_assoc]
      exact ih h.remainder
  | case3 start c tail text others t hreading ih
  | case4 start c tail text others hreading ih =>
      rw [List.cons_append, lexemes, h.piece_eq, h.remainder_eq, h.reading_eq, hreading,
        ← utf8Length_piece_remainder, ← Nat.add_assoc]
      exact congrArg (_ :: ·) (ih h.remainder)

/-- The lexemes of a line and of what comes after it are apart. -/
theorem lexemes_newline (start : Nat) (text rest : List Char) :
    lexemes start (text ++ '\n' :: rest)
      = lexemes start text
        ++ ⟨some .newline, ['\n'], start + utf8Length text⟩
        :: lexemes (start + utf8Length text + 1) rest := by
  rw [lexemes_append_of_cuts start (cuts_newline text), lexemes_cons_newline]

/-- The lexeme in a text that stands so much further to the right. -/
def Lexeme.right (k : Nat) (l : Lexeme) : Lexeme :=
  { l with start := k + l.start }

theorem lexemes_add (k start : Nat) (text : List Char) :
    lexemes (k + start) text = (lexemes start text).map (Lexeme.right k) := by
  fun_induction lexemes start text with
  | case1 => rw [lexemes, List.map_nil]
  | case2 start c rest text others hreading ih =>
      rw [lexemes, hreading, ← ih, Nat.add_assoc]
  | case3 start c rest text others t hreading ih
  | case4 start c rest text others hreading ih =>
      rw [lexemes, hreading, List.map_cons, ← ih, Nat.add_assoc]
      rfl

theorem token_of_reading {c : Char} {rest : List Char} {t : Token}
    (h : reading c rest = .token t) :
    (∃ name, t = .identifier name) ∨ (∃ value, t = .number value)
      ∨ (∃ name, t = .directive name) ∨ mark? c = some t := by
  rw [reading, rule] at h
  split at h
  · cases h
  split at h
  · cases h
  split at h
  · cases h
    exact .inl ⟨_, rfl⟩
  split at h
  · simp only [Rule.number] at h
    split at h
    · cases h
      exact .inr (.inl ⟨_, rfl⟩)
    · cases h
  split at h
  · cases h
    exact .inr (.inr (.inl ⟨_, rfl⟩))
  split at h
  next token hmark =>
    cases h
    exact .inr (.inr (.inr hmark))
  next => cases h

theorem newline_of_reading {c : Char} {rest : List Char}
    (h : reading c rest = .token .newline) : c = '\n' := by
  obtain ⟨_, ⟨⟩⟩ | ⟨_, ⟨⟩⟩ | ⟨_, ⟨⟩⟩ | hmark := token_of_reading h
  unfold mark? at hmark
  split at hmark <;> cases hmark
  rfl

/-- The newline tokens of a text are its newlines. -/
theorem newline_mem_of_mem_lexemes {start : Nat} {text : List Char} {l : Lexeme}
    (hl : l ∈ lexemes start text) (htoken : l.token? = some .newline) : '\n' ∈ text := by
  fun_induction lexemes start text with
  | case1 => cases hl
  | case2 start c rest text others hreading ih =>
      rw [← piece_append_remainder]
      exact List.mem_append_right _ (ih hl)
  | case3 start c rest text others t hreading ih =>
      rcases List.mem_cons.mp hl with rfl | hl
      · cases htoken
        rw [newline_of_reading hreading]
        exact List.mem_cons_self
      · rw [← piece_append_remainder]
        exact List.mem_append_right _ (ih hl)
  | case4 start c rest text others hreading ih =>
      rcases List.mem_cons.mp hl with rfl | hl
      · cases htoken
      · rw [← piece_append_remainder]
        exact List.mem_append_right _ (ih hl)

theorem newline_not_mem_of_mem_splitOn {source text : List Char}
    (h : text ∈ source.splitOn '\n') : '\n' ∉ text := by
  induction source generalizing text with
  | nil =>
      obtain rfl := List.mem_singleton.mp h
      nofun
  | cons c source ih =>
      rw [List.splitOn_cons_eq_if_modifyHead] at h
      split at h
      next =>
        rcases List.mem_cons.mp h with rfl | h
        · nofun
        · exact ih h
      next hc =>
        cases hsplit : source.splitOn '\n' with
        | nil => exact absurd hsplit (List.splitOn_ne_nil _ _)
        | cons line lines =>
            rw [hsplit] at h ih
            rcases List.mem_cons.mp h with rfl | h
            · have hline := ih List.mem_cons_self
              have hne : '\n' ≠ c := fun heq => hc (beq_iff_eq.mpr heq.symm)
              exact List.not_mem_cons_of_ne_of_not_mem hne hline
            · exact ih (List.mem_cons_of_mem _ h)

/-! ## One pass over the lexemes -/

/-- The statement of a line with the given tokens, if it has any content. -/
def statement? (number : Nat) (tokens : List Placed) : Except Error (List Statement) :=
  match Line.content tokens with
  | .error problem => .error (.onLine number problem)
  | .ok content? => .ok (content?.toList.map fun content => { content with line := number })

/-- Reads lexemes of a source, given the number of the line they start in, the offset at which
this line starts and its tokens so far. There is no result if a lexeme starts before its line
does. -/
def readPass (number lineStart : Nat) (tokens : List Placed) :
    List Lexeme → Option (Except Error (List Statement))
  | [] => some (statement? number tokens)
  | l :: ls =>
    if l.start < lineStart then none
    else
      let column := l.start - lineStart + 1
      match l.token? with
      | some .newline =>
        match statement? number tokens with
        | .error e => some (.error e)
        | .ok statements =>
          (readPass (number + 1) l.stop [] ls).map fun rest => rest.map (statements ++ ·)
      | some token => readPass number lineStart (tokens ++ [⟨token, column⟩]) ls
      | none => some (.error (.onLine number (.misfit column (.unreadable l.text))))

theorem readPass_token {number lineStart : Nat} {ts : List Placed} {l : Lexeme} {t : Token}
    (hstart : lineStart ≤ l.start) (hl : l.token? = some t) (ht : t ≠ .newline)
    (ls : List Lexeme) :
    readPass number lineStart ts (l :: ls)
      = readPass number lineStart (ts ++ [⟨t, l.start - lineStart + 1⟩]) ls := by
  rw [readPass, if_neg (Nat.not_lt.mpr hstart), hl]
  split
  next heq => cases heq; exact absurd rfl ht
  next heq => cases heq; rfl
  next heq => cases heq

/-- The lexemes of one line: the pass gets the same tokens, or the same problem, as a reader
to whom the line starts at zero. -/
theorem readPass_line (number lineStart : Nat) {ls : List Lexeme}
    (hls : ∀ l ∈ ls, l.token? ≠ some .newline) (ts : List Placed) (tail : List Lexeme) :
    readPass number lineStart ts (ls.map (Lexeme.right lineStart) ++ tail)
      = match Line.tokens ls with
        | .error problem => some (.error (.onLine number problem))
        | .ok us => readPass number lineStart (ts ++ us) tail := by
  induction ls generalizing ts with
  | nil => simp only [List.map_nil, List.nil_append, Line.tokens, List.append_nil]
  | cons l ls ih =>
      obtain ⟨hl, hls⟩ := List.forall_mem_cons.mp hls
      have hstart : lineStart ≤ (l.right lineStart).start := Nat.le_add_right _ _
      have hcolumn : (l.right lineStart).start - lineStart + 1 = l.start + 1 := by
        rw [Lexeme.right, Nat.add_sub_cancel_left]
      rw [List.map_cons, List.cons_append, Line.tokens]
      cases htoken : l.token? with
      | none =>
          have htoken' : (l.right lineStart).token? = none := htoken
          rw [readPass, if_neg (Nat.not_lt.mpr hstart), htoken', hcolumn]
          rfl
      | some t =>
          have ht : t ≠ .newline := fun heq => hl (heq ▸ htoken)
          rw [readPass_token hstart htoken ht, hcolumn, ih hls]
          cases Line.tokens ls with
          | error problem => rfl
          | ok us => simp only [Except.map, List.append_assoc, List.singleton_append]

theorem readLines_cons (number : Nat) (text : List Char) (lines : List (List Char)) :
    readLines number (text :: lines)
      = match Line.tokens (lexemes 0 text) with
        | .error problem => .error (.onLine number problem)
        | .ok us => statement? number us >>= fun statements =>
            (readLines (number + 1) lines).map (statements ++ ·) := by
  rw [readLines, Line.read]
  cases Line.tokens (lexemes 0 text) with
  | error problem => rfl
  | ok us =>
      simp only [statement?, bind, Except.bind]
      cases Line.content us with
      | error problem => rfl
      | ok content? =>
          cases content? with
          | none => cases readLines (number + 1) lines <;> rfl
          | some content => rfl

theorem readPass_text (number start : Nat) {text : List Char} (h : '\n' ∉ text)
    (tail : List Lexeme) :
    readPass number start [] (lexemes start text ++ tail)
      = match Line.tokens (lexemes 0 text) with
        | .error problem => some (.error (.onLine number problem))
        | .ok us => readPass number start us tail := by
  have hlexemes : lexemes start text = (lexemes 0 text).map (Lexeme.right start) :=
    lexemes_add start 0 text
  rw [hlexemes]
  refine readPass_line number start ?_ [] tail
  intro l hl hnewline
  exact h (newline_mem_of_mem_lexemes hl hnewline)

/-- Lines with a newline between them are read in one pass as they are read one at a time. -/
theorem readPass_lines (number start : Nat) {text : List Char} {lines : List (List Char)}
    (h : ∀ t ∈ text :: lines, '\n' ∉ t) :
    readPass number start [] (lexemes start (['\n'].intercalate (text :: lines)))
      = some (readLines number (text :: lines)) := by
  induction lines generalizing number start text with
  | nil =>
      have hpass := readPass_text number start (List.forall_mem_cons.mp h).1 []
      rw [List.append_nil] at hpass
      rw [List.intercalate_singleton, hpass, readLines_cons]
      cases Line.tokens (lexemes 0 text) with
      | error problem => rfl
      | ok us =>
          simp only [readPass, readLines]
          cases statement? number us with
          | error e => rfl
          | ok statements => simp only [bind, Except.bind, Except.map, List.append_nil]
  | cons text' lines ih =>
      obtain ⟨htext, hlines⟩ := List.forall_mem_cons.mp h
      have hrest := ih (number + 1) (start + utf8Length text + 1) hlines
      rw [List.intercalate_cons_cons, List.append_assoc, List.singleton_append,
        lexemes_newline, readPass_text number start htext, readLines_cons]
      cases Line.tokens (lexemes 0 text) with
      | error problem => rfl
      | ok us =>
          have hstart : ¬ start + utf8Length text < start := Nat.not_lt.mpr (Nat.le_add_right _ _)
          have hstop : Lexeme.stop ⟨some .newline, ['\n'], start + utf8Length text⟩
              = start + utf8Length text + 1 := rfl
          simp only [readPass, hstart, if_false, hstop, hrest]
          cases statement? number us <;> rfl

/-- One pass over the lexemes of a source reads it. -/
theorem readPass_eq_parse (source : String) :
    readPass 1 0 [] (lexemes 0 source.toList) = some (parse source) := by
  obtain ⟨text, lines, hlines⟩ :=
    List.exists_cons_of_ne_nil (List.splitOn_ne_nil '\n' source.toList)
  have hnewline : ∀ t ∈ text :: lines, '\n' ∉ t := by
    intro t ht
    exact newline_not_mem_of_mem_splitOn (hlines ▸ ht)
  have hpass := readPass_lines 1 0 hnewline
  rw [← hlines, List.intercalate_splitOn] at hpass
  exact hpass

/-! ## Line by line -/

/-- **Line by line.** Two sources with a newline between them are read as the one and then the
other, which keeps all but the numbers of its lines. The error of a source is that of its first
bad line, where a piece that is no token counts before anything else in its line and not before
other lines. And one pass over the lexemes comes to the same, with all columns defined. -/
theorem parse_line_by_line (s₁ s₂ : String) :
    (∀ e, parse s₁ = .error e → parse (s₁ ++ "\n" ++ s₂) = .error e)
      ∧ (∀ A B, parse s₁ = .ok A → parse s₂ = .ok B →
          parse (s₁ ++ "\n" ++ s₂)
            = .ok (A ++ B.map (Statement.down (1 + s₁.toList.count '\n'))))
      ∧ (∀ A e, parse s₁ = .ok A → parse s₂ = .error e →
          parse (s₁ ++ "\n" ++ s₂) = .error (e.down (1 + s₁.toList.count '\n')))
      ∧ (∀ e, parse s₁ = .error e ↔ BlamesFirst 1 (linesOf s₁) e)
      ∧ readPass 1 0 [] (lexemes 0 s₁.toList) = some (parse s₁) := by
  refine ⟨?_, ?_, ?_, fun e => readLines_eq_error_iff, readPass_eq_parse s₁⟩
  · intro e h
    rw [parse_append_newline, h]
    rfl
  · intro A B hA hB
    rw [parse_append_newline, hA, hB]
    rfl
  · intro A e hA he
    rw [parse_append_newline, hA, he]
    rfl

theorem parse_line_by_line_strayMark :
    parse "start: halt # é" = .ok [⟨⟨["start"], some (.instruction .halt [])⟩, 1⟩]
      ∧ parse "jnz 1 start @" = .error (.onLine 1 (.misfit 13 (.unreadable ['@'])))
      ∧ parse ("start: halt # é" ++ "\n" ++ "jnz 1 start @")
        = .error (.onLine 2 (.misfit 13 (.unreadable ['@']))) := by
  have h₁ : parse "start: halt # é" = .ok [⟨⟨["start"], some (.instruction .halt [])⟩, 1⟩] := by
    decide +kernel
  have h₂ : parse "jnz 1 start @" = .error (.onLine 1 (.misfit 13 (.unreadable ['@']))) := by
    decide +kernel
  exact ⟨h₁, h₂, (parse_line_by_line _ _).2.2.1 _ _ h₁ h₂⟩

end Intcode.Assembly
