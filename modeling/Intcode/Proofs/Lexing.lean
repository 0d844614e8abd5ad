import Intcode.Assembly.Line

/-!
# Lexing spelled text

What the lexer makes of a text that was put together from spellings.
`Spells text tokens` says that every lexeme of `text` is readable and that
their tokens are `tokens`, at whatever offset the text starts; to read a line of
such text is to read its tokens (`Spells.read_eq`).

There is one rule for each way a text can begin: blanks and comments, which
leave the tokens alone, and names, numbers, directives and marks, which add
one. A piece is as long as possible, so each rule has to know that the text
after the piece does not go on with it (`Stops`). Nothing else about that text
matters, which is why a long line is built up from its end, one rule a piece.
-/

namespace Intcode.Assembly

/-! ## Where a piece ends -/

/-- A text is empty or starts with a character outside the class. -/
def Stops (p : Char → Bool) (rest : List Char) : Prop :=
  ∀ c ∈ rest.head?, p c = false

theorem stops_nil (p : Char → Bool) : Stops p [] := by
  intro c hc
  cases hc

theorem stops_cons {p : Char → Bool} {c : Char} {rest : List Char}
    (h : p c = false) : Stops p (c :: rest) := by
  intro x hx
  obtain rfl := Option.some.inj hx
  exact h

theorem takeWhile_append_stop {p : Char → Bool} {cs rest : List Char}
    (hcs : ∀ x ∈ cs, p x = true) (hstop : Stops p rest) :
    (cs ++ rest).takeWhile p = cs := by
  rw [List.takeWhile_append_of_pos hcs]
  cases rest with
  | nil => exact List.append_nil cs
  | cons c rest =>
      rw [List.takeWhile_cons, hstop c rfl]
      exact List.append_nil cs

theorem dropWhile_append_stop {p : Char → Bool} {cs rest : List Char}
    (hcs : ∀ x ∈ cs, p x = true) (hstop : Stops p rest) :
    (cs ++ rest).dropWhile p = rest := by
  rw [List.dropWhile_append_of_pos hcs]
  cases rest with
  | nil => rfl
  | cons c rest =>
      rw [List.dropWhile_cons, hstop c rfl]
      rfl

/-! ## The rule of a piece

The character classes that start a piece are disjoint, so each of them
determines the rule on its own. -/

theorem isBlank_eq {c : Char} (h : isBlank c = true) :
    c = ' ' ∨ c = '\t' ∨ c = '\r' := by
  simpa [isBlank, or_assoc] using h

theorem opensComment_eq {c : Char} (h : opensComment c = true) :
    c = '#' ∨ c = ';' := by
  simpa [opensComment] using h

/-- A character that starts a name or is a digit is neither blank nor the start
of a comment. -/
theorem not_skipped_of_continuesName {c : Char} (h : continuesName c = true) :
    isBlank c = false ∧ opensComment c = false := by
  constructor
  · cases hb : isBlank c with
    | false => rfl
    | true =>
        rcases isBlank_eq hb with rfl | rfl | rfl <;> cases h
  · cases ho : opensComment c with
    | false => rfl
    | true =>
        rcases opensComment_eq ho with rfl | rfl <;> cases h

theorem continuesName_of_startsName {c : Char} (h : startsName c = true) :
    continuesName c = true := by
  simp only [startsName, continuesName, Char.isAlphanum, Bool.or_eq_true] at h ⊢
  rcases h with h | h
  · exact Or.inl (Or.inl h)
  · exact Or.inr h

theorem continuesName_of_isDigit {c : Char} (h : c.isDigit = true) :
    continuesName c = true := by
  simp only [continuesName, Char.isAlphanum, h, Bool.or_true, Bool.true_or]

theorem startsName_of_isDigit {c : Char} (h : c.isDigit = true) :
    startsName c = false := by
  have hd : 48 ≤ c.val.toNat ∧ c.val.toNat ≤ 57 := Char.isDigit_iff_toNat.mp h
  have hupper : c.isUpper = false := by
    refine decide_eq_false fun hu => ?_
    have hle : 65 ≤ c.val.toNat := UInt32.le_iff_toNat_le.mp hu.1
    omega
  have hlower : c.isLower = false := by
    refine Bool.and_eq_false_imp.mpr fun hl => ?_
    have hle : 97 ≤ c.val.toNat := UInt32.le_iff_toNat_le.mp (of_decide_eq_true hl)
    omega
  have halpha : c.isAlpha = false := Bool.or_eq_false_iff.mpr ⟨hupper, hlower⟩
  rw [startsName, halpha, Bool.false_or, decide_eq_false_iff_not]
  rintro rfl
  cases h

/-- What does not go on with a name does not go on with a number either. -/
theorem Stops.isDigit {rest : List Char} (h : Stops continuesName rest) :
    Stops Char.isDigit rest := by
  intro c hc
  cases hd : c.isDigit with
  | false => rfl
  | true =>
      rw [← h c hc]
      exact (continuesName_of_isDigit hd).symm

theorem rule_of_isBlank {c : Char} (h : isBlank c = true) (next? : Option Char) :
    rule c next? = .skip isBlank :=
  if_pos h

theorem rule_of_opensComment {c : Char} (h : opensComment c = true)
    (next? : Option Char) : rule c next? = .skip (· ≠ '\n') := by
  rcases opensComment_eq h with rfl | rfl <;> rfl

theorem rule_of_startsName {c : Char} (h : startsName c = true)
    (next? : Option Char) : rule c next? = .name := by
  obtain ⟨hblank, hcomment⟩ :=
    not_skipped_of_continuesName (continuesName_of_startsName h)
  simp only [rule, hblank, hcomment, h, Bool.false_eq_true, if_false, if_true]

theorem rule_of_isDigit {c : Char} (h : c.isDigit = true)
    (next? : Option Char) : rule c next? = .number := by
  obtain ⟨hblank, hcomment⟩ :=
    not_skipped_of_continuesName (continuesName_of_isDigit h)
  simp only [rule, hblank, hcomment, startsName_of_isDigit h, h, Bool.true_or,
    Bool.false_eq_true, if_false, if_true]

theorem rule_minus {next? : Option Char} (h : next?.any Char.isDigit = true) :
    rule '-' next? = .number := by
  rw [rule, h]
  rfl

theorem rule_dot {next? : Option Char} (h : next?.any startsName = true) :
    rule '.' next? = .directive := by
  rw [rule, h]
  rfl

/-- A mark is a piece of its own, unless it is the sign of a number. -/
theorem rule_of_mark {c : Char} {t : Token} (h : mark? c = some t)
    {next? : Option Char} (hsign : c = '-' → next?.any Char.isDigit = false) :
    rule c next? = .single (.token t) := by
  unfold mark? at h
  split at h <;> cases h
  case h_6 => rw [rule, hsign rfl]; rfl
  all_goals rfl

/-! ## Texts and their tokens -/

/-- The lexemes of a text are readable, and these are their tokens. -/
def Spells (text : List Char) (tokens : List Token) : Prop :=
  ∀ start, (lexemes start text).map Lexeme.token? = tokens.map some

/-- The offset of a text has no influence on its tokens. -/
theorem map_token?_lexemes (start start' : Nat) (text : List Char) :
    (lexemes start text).map Lexeme.token? = (lexemes start' text).map Lexeme.token? := by
  fun_induction lexemes start text generalizing start' with
  | case1 => rw [lexemes]
  | case2 start c rest text others h ih =>
      rw [lexemes, h]
      exact ih _
  | case3 start c rest text others t h ih =>
      rw [lexemes, h]
      exact congrArg (some t :: ·) (ih _)
  | case4 start c rest text others h ih =>
      rw [lexemes, h]
      exact congrArg (none :: ·) (ih _)

theorem Spells.of_start {start : Nat} {text : List Char} {ts : List Token}
    (h : (lexemes start text).map Lexeme.token? = ts.map some) : Spells text ts := by
  intro start'
  rw [map_token?_lexemes start' start, h]

theorem Spells.nil : Spells [] [] := by
  intro start
  rw [lexemes]
  rfl

/-- The first piece of a text, and what is left: the piece goes on as long as
its rule says, and the rest stops it. -/
theorem piece_remainder_append {c : Char} {cs rest : List Char} {r : Rule}
    (hr : rule c (cs ++ rest).head? = r) (hcs : ∀ x ∈ cs, r.continues x = true)
    (hstop : Stops r.continues rest) :
    piece c (cs ++ rest) = c :: cs ∧ remainder c (cs ++ rest) = rest := by
  subst hr
  exact ⟨by rw [piece, takeWhile_append_stop hcs hstop],
    by rw [remainder, dropWhile_append_stop hcs hstop]⟩

theorem Spells.token {c : Char} {cs rest : List Char} {r : Rule} {t : Token}
    {ts : List Token} (h : Spells rest ts)
    (hr : rule c (cs ++ rest).head? = r) (hcs : ∀ x ∈ cs, r.continues x = true)
    (hstop : Stops r.continues rest) (ht : r.reading (c :: cs) = .token t) :
    Spells (c :: (cs ++ rest)) (t :: ts) := by
  obtain ⟨hpiece, hremainder⟩ := piece_remainder_append hr hcs hstop
  intro start
  rw [lexemes, reading, hpiece, hremainder, hr, ht]
  exact congrArg (some t :: ·) (h _)

theorem Spells.skip {c : Char} {cs rest : List Char} {r : Rule}
    {ts : List Token} (h : Spells rest ts)
    (hr : rule c (cs ++ rest).head? = r) (hcs : ∀ x ∈ cs, r.continues x = true)
    (hstop : Stops r.continues rest) (hs : r.reading (c :: cs) = .skipped) :
    Spells (c :: (cs ++ rest)) ts := by
  obtain ⟨hpiece, hremainder⟩ := piece_remainder_append hr hcs hstop
  intro start
  rw [lexemes, reading, hpiece, hremainder, hr, hs]
  exact h _

/-! ## What is skipped -/

theorem lexemes_of_isBlank {c : Char} (hc : isBlank c = true) (start : Nat)
    (rest : List Char) :
    lexemes start (c :: rest)
      = lexemes (start + utf8Length (piece c rest)) (rest.dropWhile isBlank) := by
  rw [lexemes, reading, remainder, rule_of_isBlank hc]
  rfl

/-- A text has the tokens that it has without the blanks in front. -/
theorem spells_dropWhile_isBlank {text : List Char} {ts : List Token} :
    Spells (text.dropWhile isBlank) ts ↔ Spells text ts := by
  cases text with
  | nil => exact Iff.rfl
  | cons c rest =>
      cases hc : isBlank c with
      | false => rw [List.dropWhile_cons, hc]; exact Iff.rfl
      | true =>
          rw [List.dropWhile_cons, hc]
          constructor
          · intro h start
            rw [lexemes_of_isBlank hc]
            exact h _
          · intro h
            have h0 := h 0
            rw [lexemes_of_isBlank hc] at h0
            exact Spells.of_start h0

theorem Spells.blanks {bs rest : List Char} {ts : List Token} (h : Spells rest ts)
    (hbs : ∀ b ∈ bs, isBlank b = true) : Spells (bs ++ rest) ts := by
  rw [← spells_dropWhile_isBlank, List.dropWhile_append_of_pos hbs,
    spells_dropWhile_isBlank]
  exact h

theorem Spells.spaces {rest : List Char} {ts : List Token} (h : Spells rest ts)
    (n : Nat) : Spells (List.replicate n ' ' ++ rest) ts := by
  refine h.blanks fun b hb => ?_
  rw [List.eq_of_mem_replicate hb]
  rfl

theorem Spells.space {rest : List Char} {ts : List Token} (h : Spells rest ts) :
    Spells (' ' :: rest) ts :=
  h.spaces 1

/-- A comment takes the rest of its line. -/
theorem Spells.comment {c : Char} {text : List Char} (hc : opensComment c = true)
    (htext : '\n' ∉ text) : Spells (c :: text) [] := by
  rw [← List.append_nil text]
  exact Spells.nil.skip (rule_of_opensComment hc _)
    (fun x hx => decide_eq_true fun hn => htext (hn ▸ hx)) (stops_nil _) rfl

/-! ## Tokens -/

/-- Whether a text is a name: a letter or underscore, then also digits. -/
def isName : List Char → Bool
  | [] => false
  | c :: cs => startsName c && cs.all continuesName

theorem isName_cons {c : Char} {cs : List Char} (h : isName (c :: cs) = true) :
    startsName c = true ∧ ∀ x ∈ cs, continuesName x = true := by
  rw [isName, Bool.and_eq_true, List.all_eq_true] at h
  exact h

theorem Spells.identifier {name : String} {rest : List Char} {ts : List Token}
    (h : Spells rest ts) (hname : isName name.toList = true)
    (hstop : Stops continuesName rest) :
    Spells (name.toList ++ rest) (.identifier name :: ts) := by
  have hof : String.ofList name.toList = name := String.ofList_toList
  cases hcs : name.toList with
  | nil => rw [hcs] at hname; cases hname
  | cons c cs =>
      rw [hcs] at hname hof
      obtain ⟨hc, hall⟩ := isName_cons hname
      refine h.token (rule_of_startsName hc _) hall hstop ?_
      rw [← hof]
      rfl

theorem Spells.directive {name : String} {rest : List Char} {ts : List Token}
    (h : Spells rest ts) (hname : isName name.toList = true)
    (hstop : Stops continuesName rest) :
    Spells ('.' :: (name.toList ++ rest)) (.directive name :: ts) := by
  have hof : String.ofList name.toList = name := String.ofList_toList
  cases hcs : name.toList with
  | nil => rw [hcs] at hname; cases hname
  | cons c cs =>
      rw [hcs] at hname hof
      obtain ⟨hc, hall⟩ := isName_cons hname
      refine h.token (rule_dot (by simpa using hc)) ?_ hstop ?_
      · intro x hx
        rcases List.mem_cons.mp hx with rfl | hx
        · exact continuesName_of_startsName hc
        · exact hall x hx
      · rw [← hof]
        rfl

theorem Spells.mark {c : Char} {t : Token} {rest : List Char} {ts : List Token}
    (h : Spells rest ts) (ht : mark? c = some t)
    (hsign : c = '-' → Stops Char.isDigit rest) : Spells (c :: rest) (t :: ts) := by
  rw [← List.nil_append rest]
  refine h.token (rule_of_mark ht fun hc => ?_) (fun x hx => nomatch hx)
    (fun _ _ => rfl) rfl
  cases rest with
  | nil => rfl
  | cons d rest => exact hsign hc d rfl

/-- A mark that is no minus sign may be followed by anything. -/
theorem Spells.plainMark {c : Char} {t : Token} {rest : List Char} {ts : List Token}
    (h : Spells rest ts) (ht : mark? c = some t) (hc : c ≠ '-') :
    Spells (c :: rest) (t :: ts) :=
  h.mark ht fun hminus => absurd hminus hc

/-! ## Numbers -/

theorem toList_toText_of_nonneg {w : Word} (h : 0 ≤ w.toInt) :
    w.toText.toList = Nat.toDigits 10 w.toInt.natAbs := by
  rw [Word.toText]
  cases hw : w.toInt with
  | ofNat n => exact Text.Decimal.toList_ofNat n
  | negSucc n => rw [hw] at h; cases h

theorem toList_toText_of_neg {w : Word} (h : w.toInt < 0) :
    w.toText.toList = '-' :: Nat.toDigits 10 w.toInt.natAbs := by
  rw [Word.toText]
  cases hw : w.toInt with
  | ofNat n => rw [hw] at h; cases h
  | negSucc n =>
      simp only [Text.Decimal.ofInt, String.toList_append, Text.Decimal.toList_ofNat]
      rfl

theorem Spells.number {w : Word} {rest : List Char} {ts : List Token}
    (h : Spells rest ts) (hstop : Stops Char.isDigit rest) :
    Spells (w.toText.toList ++ rest) (.number w :: ts) := by
  have hread : Rule.number.reading w.toText.toList = .token (.number w) := by
    simp only [Rule.number, Word.ofText?_toText]
  obtain ⟨d, ds, hds⟩ := List.exists_cons_of_ne_nil
    (Nat.toDigits_ne_nil (b := 10) (n := w.toInt.natAbs))
  have hdigits : ∀ x ∈ d :: ds, x.isDigit = true := by
    rw [← hds]
    exact List.all_eq_true.mp (Text.Decimal.all_isDigit_toDigits _)
  have hd : d.isDigit = true := hdigits d List.mem_cons_self
  rcases Int.lt_or_le w.toInt 0 with hneg | hnonneg
  · rw [toList_toText_of_neg hneg, hds] at hread ⊢
    exact h.token (rule_minus hd) hdigits hstop hread
  · rw [toList_toText_of_nonneg hnonneg, hds] at hread ⊢
    exact h.token (rule_of_isDigit hd _)
      (fun x hx => hdigits x (List.mem_cons_of_mem _ hx)) hstop hread

/-! ## Newlines -/

/-- No piece goes on over the end of a line. -/
theorem rule_continues_newline (c : Char) (next? : Option Char) :
    (rule c next?).continues '\n' = false := by
  unfold rule
  repeat' split
  all_goals rfl

theorem newline_mem_remainder {c : Char} {rest : List Char} (h : '\n' ∈ rest) :
    '\n' ∈ remainder c rest := by
  rw [← List.takeWhile_append_dropWhile (p := (rule c rest.head?).continues) (l := rest),
    List.mem_append] at h
  rcases h with h | h
  · have hall := List.all_eq_true.mp List.all_takeWhile _ h
    rw [rule_continues_newline] at hall
    cases hall
  · exact h

theorem newline_mem_lexemes {text : List Char} (h : '\n' ∈ text) (start : Nat) :
    some Token.newline ∈ (lexemes start text).map Lexeme.token? := by
  fun_induction lexemes start text with
  | case1 => cases h
  | case2 start c rest text others hread ih =>
      rcases List.mem_cons.mp h with rfl | h
      · cases hread
      · exact ih (newline_mem_remainder h)
  | case3 start c rest text others t hread ih =>
      rcases List.mem_cons.mp h with rfl | h
      · obtain rfl := Reading.token.inj hread
        exact List.mem_cons_self
      · exact List.mem_cons_of_mem _ (ih (newline_mem_remainder h))
  | case4 start c rest text others hread ih =>
      rcases List.mem_cons.mp h with rfl | h
      · cases hread
      · exact List.mem_cons_of_mem _ (ih (newline_mem_remainder h))

/-- A text without a newline token has no newline, not even in a comment. -/
theorem Spells.newline_not_mem {text : List Char} {ts : List Token}
    (h : Spells text ts) (hts : Token.newline ∉ ts) : '\n' ∉ text := by
  intro hmem
  have hin := newline_mem_lexemes hmem 0
  rw [h 0] at hin
  obtain ⟨t, ht, hsome⟩ := List.mem_map.mp hin
  exact hts (Option.some.inj hsome ▸ ht)

/-! ## Lines -/

theorem tokens_of_map_token? {ls : List Lexeme} {ts : List Token}
    (h : ls.map Lexeme.token? = ts.map some) :
    ∃ placed, Line.tokens ls = .ok placed ∧ placed.map Placed.token = ts := by
  induction ls generalizing ts with
  | nil =>
      obtain rfl : ts = [] := List.map_eq_nil_iff.mp h.symm
      exact ⟨[], rfl, rfl⟩
  | cons l ls ih =>
      cases ts with
      | nil => cases h
      | cons t ts =>
          obtain ⟨hl, hls⟩ := List.cons.inj h
          obtain ⟨placed, hplaced, hts⟩ := ih hls
          refine ⟨⟨t, l.start + 1⟩ :: placed, ?_, congrArg (t :: ·) hts⟩
          rw [Line.tokens, hl, hplaced]
          rfl

/-- Reading a line of spelled text is a matter of its tokens. -/
theorem Spells.read_eq {text : List Char} {ts : List Token} (h : Spells text ts) :
    ∃ placed, Line.read text = Line.content placed ∧ placed.map Placed.token = ts := by
  obtain ⟨placed, hplaced, hts⟩ := tokens_of_map_token? (h 0)
  refine ⟨placed, ?_, hts⟩
  rw [Line.read, hplaced]
  rfl

end Intcode.Assembly
