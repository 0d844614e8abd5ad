import Mathlib.Data.List.Forall2
import Mathlib.Data.String.Basic
import Intcode.Proofs.SourceLines
import Intcode.Proofs.TokenPatterns

/-!
# Lexemes are longest matches

`Scan` cuts a text into lexemes by nothing but the patterns: at each point it takes the
longest text that matches one of them, and a single character if there is none. The
lexer comes to the same lexemes, and there is only one way to do it (`scan_iff`).
What the rule of the lexer cuts off is a longest match (`taken_reading`), and of two
longest matches at one point neither is longer (`IsLongest.unique`).

So the lexemes of a source are its text with blanks and comments between them
(`Covered`), and a list of tokens is read back from any texts they are written as, if a
space stands between each two of them (`spells_joined`).
-/

namespace Intcode.Assembly

/-! ## Longest matches -/

/-- The text matches a pattern, and no longer text at the same place does. -/
structure IsLongest (text after : List Char) : Prop where
  matched : ∃ p : Pattern, text ∈ p.language
  longest : ∀ longer, longer <+: text ++ after → text.length < longer.length →
    ∀ p : Pattern, longer ∉ p.language

/-- Nothing at the front of the text matches a pattern. -/
def Unmatched (text : List Char) : Prop :=
  ∀ front, front <+: text → ∀ p : Pattern, front ∉ p.language

theorem IsLongest.exists_cons {text after : List Char} (h : IsLongest text after) :
    ∃ c cs, text = c :: cs := by
  obtain ⟨p, hp⟩ := h.matched
  refine List.exists_cons_of_ne_nil ?_
  rintro rfl
  exact nil_not_mem_language p hp

theorem IsLongest.not_unmatched {text after : List Char} (h : IsLongest text after) :
    ¬ Unmatched (text ++ after) := by
  obtain ⟨p, hp⟩ := h.matched
  exact fun hnone => hnone text (List.prefix_append text after) p hp

/-- At the end of the input there is nothing to be longer with. -/
theorem isLongest_of_mem {text : List Char} {p : Pattern} (h : text ∈ p.language) :
    IsLongest text [] := by
  refine ⟨⟨p, h⟩, ?_⟩
  intro longer hfront hlonger
  rw [List.append_nil] at hfront
  exact absurd hlonger (Nat.not_lt.mpr hfront.length_le)

/-- There is at most one longest match at a place. -/
theorem IsLongest.unique {text after text' after' : List Char} (h : IsLongest text after)
    (h' : IsLongest text' after') (heq : text ++ after = text' ++ after') :
    text = text' ∧ after = after' := by
  obtain ⟨p, hp⟩ := h.matched
  obtain ⟨p', hp'⟩ := h'.matched
  have hle : ¬ text.length < text'.length := fun hlt =>
    h.longest text' (heq ▸ List.prefix_append text' after') hlt p' hp'
  have hge : ¬ text'.length < text.length := fun hlt =>
    h'.longest text (heq ▸ List.prefix_append text after) hlt p hp
  exact List.append_inj heq (by omega)

/-- A piece that matches a pattern is the longest match. -/
theorem isLongest_piece {c : Char} {rest : List Char} {p : Pattern}
    (h : piece c rest ∈ p.language) : IsLongest (piece c rest) (remainder c rest) := by
  refine ⟨⟨p, h⟩, ?_⟩
  intro longer hfront hlonger q hq
  rw [piece_append_remainder] at hfront
  obtain ⟨more, hmore⟩ := hfront
  cases longer with
  | nil => exact nil_not_mem_language q hq
  | cons d ds =>
      obtain ⟨rfl, rfl⟩ := List.cons.inj hmore
      exact absurd hlonger (Nat.not_lt.mpr (length_le_of_mem hq more))

/-! ## Numbers -/

theorem exists_numeral {text : List Char} (h : text ∈ Pattern.number.language) :
    ∃ i, Text.Numeral text i := by
  cases text with
  | nil => exact absurd h (nil_not_mem_language _)
  | cons c cs =>
      rcases cons_mem_number.mp h with hdigits | ⟨rfl, hdigits⟩
      · exact ⟨_, .plain hdigits⟩
      · exact ⟨_, .minus hdigits⟩

/-- Numbers that are no words are those with a value out of range. -/
theorem ofText?_eq_none_iff {text : List Char} (h : text ∈ Pattern.number.language) :
    Word.ofText? text = none ↔ Overflows text := by
  have hread {i : Int} (hi : Text.Numeral text i) : Word.ofText? text = Word.ofInt? i := by
    rw [Word.ofText?, Text.Decimal.int?_eq_some_iff.mpr hi]
    rfl
  constructor
  · intro hnone
    obtain ⟨i, hi⟩ := exists_numeral h
    rw [hread hi] at hnone
    exact ⟨h, i, hi, Word.ofInt?_eq_none_iff.mp hnone⟩
  · rintro ⟨-, i, hi, hrange⟩
    rw [hread hi]
    exact Word.ofInt?_eq_none_iff.mpr hrange

/-! ## The first piece -/

/-- What the first piece of a text is, by the patterns. -/
inductive Taken (c : Char) (rest : List Char) : Reading → Prop where
  | skipped (h : IsLongest (piece c rest) (remainder c rest))
      (hskip : IsSkipped (piece c rest)) : Taken c rest .skipped
  | token {t : Token} (h : IsLongest (piece c rest) (remainder c rest))
      (ht : t.WrittenAs (piece c rest)) : Taken c rest (.token t)
  | overflow (h : IsLongest (piece c rest) (remainder c rest))
      (hnumber : Overflows (piece c rest)) : Taken c rest .unreadable
  | stray (hpiece : piece c rest = [c]) (hremainder : remainder c rest = rest)
      (h : Unmatched (c :: rest)) : Taken c rest .unreadable

section Taken

variable {c : Char} {rest : List Char}

theorem taken_number (hrule : rule c rest.head? = .number)
    (h : piece c rest ∈ Pattern.number.language) : Taken c rest (reading c rest) := by
  rw [reading, hrule]
  simp only [Rule.number]
  cases hread : Word.ofText? (piece c rest) with
  | none => exact .overflow (isLongest_piece h) ((ofText?_eq_none_iff h).mp hread)
  | some value =>
      exact .token (isLongest_piece h) (.number h (Word.ofText?_eq_some_iff.mp hread))

theorem taken_directive (hrule : rule c rest.head? = .directive) (hc : c = '.')
    (hname : isName (rest.takeWhile Rule.directive.continues) = true) :
    Taken c rest (reading c rest) := by
  have hpiece : piece c rest = '.' :: rest.takeWhile Rule.directive.continues := by
    rw [piece, hrule, hc]
  have hmem : piece c rest ∈ Pattern.directive.language := by
    rw [hpiece]
    exact cons_mem_directive.mpr ⟨rfl, hname⟩
  have hread : reading c rest
      = .token (.directive (String.ofList (rest.takeWhile Rule.directive.continues))) := by
    rw [reading, hrule, hpiece]
    rfl
  rw [hread]
  refine .token (isLongest_piece hmem) ?_
  rw [hpiece]
  exact .directive (mem_names.mpr hname)

theorem unmatched_of_stray (hblank : isBlank c = false) (hcomment : opensComment c = false)
    (hname : startsName c = false) (hdigit : c.isDigit = false)
    (hdot : c = '.' → rest.head?.any startsName = false) (hmark : mark? c = none) :
    Unmatched (c :: rest) := by
  rintro front ⟨more, hmore⟩ p hp
  cases front with
  | nil => exact nil_not_mem_language p hp
  | cons d cs =>
      obtain ⟨rfl, rfl⟩ := List.cons.inj hmore
      cases p with
      | blanks => rw [(cons_mem_blanks.mp hp).1] at hblank; cases hblank
      | comment => rw [(cons_mem_comment.mp hp).1] at hcomment; cases hcomment
      | name => rw [(isName_cons (cons_mem_names.mp hp)).1] at hname; cases hname
      | number =>
          rcases cons_mem_number.mp hp with hdigits | ⟨rfl, -⟩
          · rw [hdigits.2 d List.mem_cons_self] at hdigit; cases hdigit
          · cases hmark
      | directive =>
          obtain ⟨rfl, hcs⟩ := cons_mem_directive.mp hp
          cases cs with
          | nil => cases hcs
          | cons n cs =>
              have hn : startsName n = false := hdot rfl
              rw [(isName_cons hcs).1] at hn
              cases hn
      | mark =>
          obtain ⟨⟨t, ht⟩, -⟩ := cons_mem_mark.mp hp
          rw [ht] at hmark
          cases hmark

/-- The lexer takes the longest match, and a single character if there is none. -/
theorem taken_reading (c : Char) (rest : List Char) : Taken c rest (reading c rest) := by
  have hall (p : Char → Bool) : ∀ x ∈ rest.takeWhile p, p x = true :=
    List.all_eq_true.mp List.all_takeWhile
  have hbegins := begins_rule c rest.head?
  generalize hrule : rule c rest.head? = r at hbegins
  have hpiece : piece c rest = c :: rest.takeWhile r.continues := by rw [piece, hrule]
  cases hbegins with
  | blanks h =>
      have hmem : piece c rest ∈ Pattern.blanks.language := by
        rw [hpiece]
        exact cons_mem_blanks.mpr ⟨h, hall _⟩
      rw [reading, hrule]
      exact .skipped (isLongest_piece hmem) (.inl hmem)
  | comment h =>
      have hmem : piece c rest ∈ Pattern.comment.language := by
        rw [hpiece]
        exact cons_mem_comment.mpr ⟨h, fun x hx => of_decide_eq_true (hall _ x hx)⟩
      rw [reading, hrule]
      exact .skipped (isLongest_piece hmem) (.inr hmem)
  | name h =>
      have hmem : piece c rest ∈ Pattern.name.language := by
        rw [hpiece]
        refine cons_mem_names.mpr ?_
        rw [isName, h, Bool.true_and]
        exact List.all_takeWhile
      rw [reading, hrule]
      exact .token (isLongest_piece hmem) (.identifier hmem)
  | digit h =>
      refine taken_number hrule ?_
      rw [hpiece]
      exact cons_mem_number.mpr
        (.inl ⟨List.cons_ne_nil _ _, List.forall_mem_cons.mpr ⟨h, hall _⟩⟩)
  | sign hc h =>
      refine taken_number hrule ?_
      rw [hpiece]
      refine cons_mem_number.mpr (.inr ⟨hc, ?_, hall _⟩)
      cases rest with
      | nil => cases h
      | cons d rest =>
          have hd : Rule.number.continues d = true := h
          rw [List.takeWhile_cons, hd]
          exact List.cons_ne_nil _ _
  | directive hc h =>
      refine taken_directive hrule hc ?_
      cases rest with
      | nil => cases h
      | cons n rest =>
          have hn : startsName n = true := h
          have hcontinues : Rule.directive.continues n = true := continuesName_of_startsName hn
          rw [List.takeWhile_cons, hcontinues, if_pos rfl, isName, hn, Bool.true_and]
          exact List.all_takeWhile
  | mark h =>
      obtain ⟨hsingle, -⟩ := piece_remainder_single hrule
      have hmem : piece c rest ∈ Pattern.mark.language := by
        rw [hsingle]
        exact cons_mem_mark.mpr ⟨⟨_, h⟩, rfl⟩
      rw [reading, hrule]
      refine .token (isLongest_piece hmem) ?_
      rw [hsingle]
      exact .mark (mem_marks_iff.mpr h)
  | stray hblank hcomment hname hdigit hdot hmark =>
      obtain ⟨hsingle, hremainder⟩ := piece_remainder_single hrule
      rw [reading, hrule]
      exact .stray hsingle hremainder
        (unmatched_of_stray hblank hcomment hname hdigit hdot hmark)

end Taken

/-! ## What a longest match is read as -/

section Reading

variable {c : Char} {cs rest : List Char}

/-- A longest match is the first piece. -/
theorem piece_of_isLongest (h : IsLongest (c :: cs) rest) :
    piece c (cs ++ rest) = c :: cs ∧ remainder c (cs ++ rest) = rest := by
  have hsplit : piece c (cs ++ rest) ++ remainder c (cs ++ rest) = (c :: cs) ++ rest :=
    piece_append_remainder c (cs ++ rest)
  have htaken := taken_reading c (cs ++ rest)
  generalize reading c (cs ++ rest) = r at htaken
  cases htaken with
  | skipped hpiece | token hpiece | overflow hpiece => exact hpiece.unique h hsplit
  | stray _ _ hnone => exact absurd hnone h.not_unmatched

theorem reading_of_isLongest (h : IsLongest (c :: cs) rest) :
    reading c (cs ++ rest) = (rule c (cs ++ rest).head?).reading (c :: cs) := by
  rw [reading, (piece_of_isLongest h).1]

theorem reading_of_skipped (h : IsLongest (c :: cs) rest)
    (hskip : IsSkipped (c :: cs)) : reading c (cs ++ rest) = .skipped := by
  rw [reading_of_isLongest h]
  rcases hskip with hskip | hskip
  · rw [rule_of_isBlank (cons_mem_blanks.mp hskip).1]
    rfl
  · rw [rule_of_opensComment (cons_mem_comment.mp hskip).1]
    rfl

theorem reading_of_overflows (h : IsLongest (c :: cs) rest) (hnumber : Overflows (c :: cs)) :
    reading c (cs ++ rest) = .unreadable := by
  rw [reading_of_isLongest h, rule_of_mem_number hnumber.number]
  simp only [Rule.number, (ofText?_eq_none_iff hnumber.number).mpr hnumber]

/-- A minus sign that is a longest match is not the sign of a number. -/
theorem not_isDigit_of_isLongest (h : IsLongest ['-'] rest) :
    rest.head?.any Char.isDigit = false := by
  cases rest with
  | nil => rfl
  | cons d rest =>
      refine Bool.eq_false_iff.mpr fun hd => ?_
      have hdigit : d.isDigit = true := hd
      refine h.longest ['-', d] ⟨rest, rfl⟩ (Nat.lt_succ_self 1) .number ?_
      exact cons_mem_number.mpr
        (.inr ⟨rfl, List.cons_ne_nil _ _, List.forall_mem_singleton.mpr hdigit⟩)

theorem reading_of_writtenAs {t : Token} (h : IsLongest (c :: cs) rest)
    (ht : t.WrittenAs (c :: cs)) : reading c (cs ++ rest) = .token t := by
  rw [reading_of_isLongest h]
  cases ht with
  | identifier hname =>
      rw [rule_of_startsName (isName_cons (cons_mem_names.mp hname)).1]
      rfl
  | number hnumber hvalue =>
      rw [rule_of_mem_number hnumber]
      simp only [Rule.number, Word.ofText?_eq_some_iff.mpr hvalue]
  | directive hname =>
      rw [rule_of_mem_directive (cons_mem_directive.mpr ⟨rfl, mem_names.mp hname⟩)]
      rfl
  | mark hmark =>
      rw [rule_of_mark (mem_marks_iff.mp hmark)]
      · rfl
      · rintro rfl
        exact not_isDigit_of_isLongest h

end Reading

theorem Token.WrittenAs.matched {t : Token} {text : List Char} (h : t.WrittenAs text) :
    ∃ p : Pattern, text ∈ p.language := by
  cases h with
  | identifier hname => exact ⟨_, hname⟩
  | number hnumber => exact ⟨_, hnumber⟩
  | directive hname => exact ⟨.directive, cons_mem_directive.mpr ⟨rfl, mem_names.mp hname⟩⟩
  | mark hmark => exact ⟨.mark, cons_mem_mark.mpr ⟨⟨_, mem_marks_iff.mp hmark⟩, rfl⟩⟩

/-- A token is determined by its text. -/
theorem Token.WrittenAs.unique {t t' : Token} {text : List Char} (h : t.WrittenAs text)
    (h' : t'.WrittenAs text) : t' = t := by
  obtain ⟨p, hp⟩ := h.matched
  have hlongest := isLongest_of_mem hp
  obtain ⟨c, cs, rfl⟩ := hlongest.exists_cons
  exact Reading.token.inj
    ((reading_of_writtenAs hlongest h').symm.trans (reading_of_writtenAs hlongest h))

/-! ## Scanning by longest matches -/

/-- The lexemes of a text that starts at the given offset. Again and again the longest match is
taken, which is skipped if it is blank or a comment. If there is no match, the next character
has to be a lexeme of its own. -/
inductive Scan : Nat → List Char → List Lexeme → Prop where
  | nil {start : Nat} : Scan start [] []
  | skip {start : Nat} {text rest : List Char} {ls : List Lexeme} (h : IsLongest text rest)
      (hskip : IsSkipped text) (hrest : Scan (start + utf8Length text) rest ls) :
      Scan start (text ++ rest) ls
  | token {start : Nat} {text rest : List Char} {ls : List Lexeme} {t : Token}
      (h : IsLongest text rest) (ht : t.WrittenAs text)
      (hrest : Scan (start + utf8Length text) rest ls) :
      Scan start (text ++ rest) (⟨some t, text, start⟩ :: ls)
  | overflow {start : Nat} {text rest : List Char} {ls : List Lexeme} (h : IsLongest text rest)
      (hnumber : Overflows text) (hrest : Scan (start + utf8Length text) rest ls) :
      Scan start (text ++ rest) (⟨none, text, start⟩ :: ls)
  | stray {start : Nat} {c : Char} {rest : List Char} {ls : List Lexeme}
      (h : Unmatched (c :: rest)) (hrest : Scan (start + utf8Length [c]) rest ls) :
      Scan start (c :: rest) (⟨none, [c], start⟩ :: ls)

theorem scan_lexemes (start : Nat) (text : List Char) : Scan start text (lexemes start text) := by
  fun_induction lexemes start text with
  | case1 => exact .nil
  | case2 start c rest text others hreading ih =>
      have htaken := taken_reading c rest
      rw [hreading] at htaken
      rw [← piece_append_remainder]
      cases htaken with
      | skipped h hskip => exact .skip h hskip ih
  | case3 start c rest text others t hreading ih =>
      have htaken := taken_reading c rest
      rw [hreading] at htaken
      rw [← piece_append_remainder]
      cases htaken with
      | token h ht => exact .token h ht ih
  | case4 start c rest text others hreading ih =>
      have htaken := taken_reading c rest
      rw [hreading] at htaken
      cases htaken with
      | overflow h hnumber =>
          rw [← piece_append_remainder]
          exact .overflow h hnumber ih
      | stray hpiece hremainder h =>
          have hstray {text' rest' : List Char} (htext : text' = [c]) (hrest' : rest' = rest)
              (hrest : Scan (start + utf8Length text') rest' others) :
              Scan start (c :: rest) (⟨none, text', start⟩ :: others) := by
            subst htext hrest'
            exact .stray h hrest
          exact hstray hpiece hremainder ih

theorem Scan.eq_lexemes {start : Nat} {text : List Char} {ls : List Lexeme}
    (h : Scan start text ls) : ls = lexemes start text := by
  induction h with
  | nil => rw [lexemes]
  | skip h hskip _ ih =>
      obtain ⟨c, cs, rfl⟩ := h.exists_cons
      obtain ⟨hpiece, hremainder⟩ := piece_of_isLongest h
      rw [List.cons_append, lexemes, reading_of_skipped h hskip, hpiece, hremainder]
      exact ih
  | token h ht _ ih =>
      obtain ⟨c, cs, rfl⟩ := h.exists_cons
      obtain ⟨hpiece, hremainder⟩ := piece_of_isLongest h
      rw [List.cons_append, lexemes, reading_of_writtenAs h ht, hpiece, hremainder, ih]
  | overflow h hnumber _ ih =>
      obtain ⟨c, cs, rfl⟩ := h.exists_cons
      obtain ⟨hpiece, hremainder⟩ := piece_of_isLongest h
      rw [List.cons_append, lexemes, reading_of_overflows h hnumber, hpiece, hremainder, ih]
  | @stray start c rest ls h _ ih =>
      have htaken := taken_reading c rest
      have hmatched : ¬ IsLongest (piece c rest) (remainder c rest) := by
        intro hlongest
        have hnone := hlongest.not_unmatched
        rw [piece_append_remainder] at hnone
        exact hnone h
      generalize hreading : reading c rest = r at htaken
      cases htaken with
      | skipped hlongest | token hlongest | overflow hlongest => exact absurd hlongest hmatched
      | stray hpiece hremainder => rw [lexemes, hreading, hpiece, hremainder, ih]

/-- The lexer scans by longest matches, and nothing else does. -/
theorem scan_iff {start : Nat} {text : List Char} {ls : List Lexeme} :
    Scan start text ls ↔ ls = lexemes start text :=
  ⟨Scan.eq_lexemes, fun h => h ▸ scan_lexemes start text⟩

/-! ## What is between the lexemes -/

/-- Blanks and comments. A comment goes on until the line ends, or the source: `after` is what
follows the whole text. -/
inductive IsFiller : List Char → List Char → Prop where
  | nil {after : List Char} : IsFiller [] after
  | blanks {text filler after : List Char} (h : text ∈ Pattern.blanks.language)
      (hfiller : IsFiller filler after) : IsFiller (text ++ filler) after
  | comment {text filler after : List Char} (h : text ∈ Pattern.comment.language)
      (hend : ∀ c ∈ (filler ++ after).head?, c = '\n') (hfiller : IsFiller filler after) :
      IsFiller (text ++ filler) after

/-- The lexeme is what it has to be, with the given text after it. -/
structure Lexeme.Fits (l : Lexeme) (after : List Char) : Prop where
  /-- A token is the one that the text is written for, and its text could not be longer. -/
  token : ∀ t, l.token? = some t →
    t.WrittenAs l.text ∧ (∀ t' : Token, t'.WrittenAs l.text → t' = t) ∧ IsLongest l.text after
  /-- What is no token is a character that nothing starts with, or a number out of range. -/
  unreadable : l.token? = none →
    (∃ c, l.text = [c] ∧ Unmatched (c :: after)) ∨ (Overflows l.text ∧ IsLongest l.text after)

/-- The text that starts at the given offset consists of the lexemes, each with what it has to be,
and of blanks and comments before, between and after them. -/
inductive Covered : Nat → List Char → List Lexeme → Prop where
  | last {start : Nat} {filler : List Char} (h : IsFiller filler []) : Covered start filler []
  | next {start : Nat} {filler rest : List Char} {l : Lexeme} {ls : List Lexeme}
      (hfiller : IsFiller filler (l.text ++ rest)) (hstart : l.start = start + utf8Length filler)
      (hl : l.Fits rest) (hrest : Covered l.stop rest ls) :
      Covered start (filler ++ (l.text ++ rest)) (l :: ls)

theorem newline_of_isLongest_comment {text rest : List Char} (h : IsLongest text rest)
    (hcomment : text ∈ Pattern.comment.language) : ∀ c ∈ rest.head?, c = '\n' := by
  intro x hx
  by_contra hne
  obtain ⟨c, cs, rfl⟩ := h.exists_cons
  obtain ⟨hc, hcs⟩ := cons_mem_comment.mp hcomment
  obtain ⟨rest, rfl⟩ : ∃ tail, rest = x :: tail := by
    cases rest with
    | nil => cases hx
    | cons d tail => exact ⟨tail, by rw [Option.some.inj hx]⟩
  -- the comment could go on with this character
  refine h.longest ((c :: cs) ++ [x]) ⟨rest, by simp⟩ (by simp) .comment ?_
  refine cons_mem_comment.mpr ⟨hc, ?_⟩
  intro y hy
  rcases List.mem_append.mp hy with hy | hy
  · exact hcs y hy
  · rw [List.mem_singleton.mp hy]
    exact hne

theorem IsFiller.of_skipped {text filler after : List Char} (h : IsLongest text (filler ++ after))
    (hskip : IsSkipped text) (hfiller : IsFiller filler after) :
    IsFiller (text ++ filler) after := by
  rcases hskip with hblanks | hcomment
  · exact .blanks hblanks hfiller
  · exact .comment hcomment (newline_of_isLongest_comment h hcomment) hfiller

theorem Scan.covered {start : Nat} {text : List Char} {ls : List Lexeme}
    (h : Scan start text ls) : Covered start text ls := by
  induction h with
  | nil => exact .last .nil
  | @skip start text rest ls h hskip _ ih =>
      cases ih with
      | last hfiller =>
          refine .last (IsFiller.of_skipped ?_ hskip hfiller)
          rw [List.append_nil]
          exact h
      | next hfiller hstart hl hrest =>
          rw [← List.append_assoc]
          refine .next (IsFiller.of_skipped h hskip hfiller) ?_ hl hrest
          rw [hstart, utf8Length_append, Nat.add_assoc]
  | @token start text rest ls t h ht _ ih =>
      refine .next (l := ⟨some t, text, start⟩) .nil rfl ⟨?_, nofun⟩ ih
      rintro _ ⟨⟩
      exact ⟨ht, fun t' ht' => ht.unique ht', h⟩
  | @overflow start text rest ls h hnumber _ ih =>
      exact .next (l := ⟨none, text, start⟩) .nil rfl ⟨nofun, fun _ => .inr ⟨hnumber, h⟩⟩ ih
  | @stray start c rest ls h _ ih =>
      exact .next (l := ⟨none, [c], start⟩) .nil rfl ⟨nofun, fun _ => .inl ⟨c, rfl, h⟩⟩ ih

/-! ## Spans -/

theorem Lexeme.Fits.text_ne_nil {l : Lexeme} {after : List Char} (h : l.Fits after) :
    l.text ≠ [] := by
  have hlongest (h : IsLongest l.text after) : l.text ≠ [] := by
    obtain ⟨c, cs, htext⟩ := h.exists_cons
    rw [htext]
    exact List.cons_ne_nil c cs
  cases htoken : l.token? with
  | some t => exact hlongest (h.token t htoken).2.2
  | none =>
      rcases h.unreadable htoken with ⟨c, htext, -⟩ | ⟨-, hnumber⟩
      · rw [htext]
        exact List.cons_ne_nil c []
      · exact hlongest hnumber

/-- The span of a lexeme in the source: it is not empty, its ends are between characters, and the
source has the text of the lexeme there. -/
structure Lexeme.Spans (source : String) (l : Lexeme) : Prop where
  nonempty : l.start < l.stop
  start_valid : (String.Pos.Raw.mk l.start).IsValid source
  stop_valid : (String.Pos.Raw.mk l.stop).IsValid source
  extract : String.Pos.Raw.extract source ⟨l.start⟩ ⟨l.stop⟩ = String.ofList l.text

theorem utf8Length_eq (text : List Char) : utf8Length text = String.utf8Len text := by
  induction text with
  | nil => rfl
  | cons c text ih =>
      rw [String.utf8Len_cons, ← ih, Nat.add_comm]
      rfl

theorem utf8Length_pos {text : List Char} (h : text ≠ []) : 0 < utf8Length text := by
  rw [utf8Length_eq, Nat.pos_iff_ne_zero]
  exact fun hzero => h (String.utf8Len_eq_zero.mp hzero)

theorem isValid_utf8Length (before after : List Char) :
    (String.Pos.Raw.mk (utf8Length before)).IsValid (String.ofList (before ++ after)) := by
  refine String.Pos.Raw.isValid_iff_exists_append.mpr
    ⟨String.ofList before, String.ofList after, String.ofList_append, ?_⟩
  rw [String.rawEndPos_ofList, utf8Length_eq]

theorem Covered.exists_split {start : Nat} {text : List Char} {ls : List Lexeme}
    (h : Covered start text ls) {l : Lexeme} (hl : l ∈ ls) :
    l.text ≠ [] ∧ ∃ before after, text = before ++ (l.text ++ after)
      ∧ l.start = start + utf8Length before := by
  induction h with
  | last => cases hl
  | @next start filler rest l' ls hfiller hstart hfits _ ih =>
      rcases List.mem_cons.mp hl with rfl | hl
      · exact ⟨hfits.text_ne_nil, filler, rest, rfl, hstart⟩
      · obtain ⟨hne, before, after, rfl, hbefore⟩ := ih hl
        refine ⟨hne, filler ++ (l'.text ++ before), after, by simp, ?_⟩
        rw [hbefore, Lexeme.stop, hstart, utf8Length_append, utf8Length_append]
        omega

theorem Covered.spans {source : String} {ls : List Lexeme} (h : Covered 0 source.toList ls) :
    ∀ l ∈ ls, l.Spans source := by
  intro l hl
  obtain ⟨hne, before, after, htext, hstart⟩ := h.exists_split hl
  rw [Nat.zero_add] at hstart
  have hstop : l.stop = utf8Length (before ++ l.text) := by
    rw [Lexeme.stop, hstart, utf8Length_append]
  have hsource : source = String.ofList (before ++ l.text ++ after) := by
    rw [List.append_assoc, ← htext, String.ofList_toList]
  refine ⟨Nat.lt_add_of_pos_right (utf8Length_pos hne), ?_, ?_, ?_⟩
  · rw [hsource, hstart, List.append_assoc]
    exact isValid_utf8Length before (l.text ++ after)
  · rw [hsource, hstop]
    exact isValid_utf8Length (before ++ l.text) after
  · rw [Lexeme.stop, hstart, utf8Length_eq, utf8Length_eq, hsource]
    exact String.extract_of_valid before l.text after

theorem Covered.pairwise {start : Nat} {text : List Char} {ls : List Lexeme}
    (h : Covered start text ls) : ls.Pairwise fun l l' => l.stop ≤ l'.start := by
  induction h with
  | last => exact .nil
  | next _ _ _ hrest ih =>
      refine .cons ?_ ih
      intro l' hl'
      obtain ⟨-, before, -, -, hstart⟩ := hrest.exists_split hl'
      rw [hstart]
      exact Nat.le_add_right _ _

/-! ## Tokens with spaces between them -/

/-- The token can be written: its name, if it has one, is a name. -/
def Token.WellFormed : Token → Prop
  | identifier name | directive name => IsIdentifier name
  | _ => True

theorem toText_mem_number (w : Word) : w.toText.toList ∈ Pattern.number.language := by
  have hdigits : Text.IsDigits (Nat.toDigits 10 w.toInt.natAbs) :=
    ⟨Nat.toDigits_ne_nil, List.all_eq_true.mp (Text.Decimal.all_isDigit_toDigits _)⟩
  rcases Int.lt_or_le w.toInt 0 with hneg | hnonneg
  · rw [toList_toText_of_neg hneg]
    exact cons_mem_number.mpr (.inr ⟨rfl, hdigits⟩)
  · rw [toList_toText_of_nonneg hnonneg]
    obtain ⟨d, ds, hds⟩ := List.exists_cons_of_ne_nil hdigits.1
    rw [hds] at hdigits ⊢
    exact cons_mem_number.mpr (.inl hdigits)

/-- The spelling of a token is one of the texts that it is written as. -/
theorem Token.WellFormed.writtenAs_spelling {t : Token} (h : t.WellFormed) :
    t.WrittenAs t.spelling.toList := by
  have hmark {c : Char} {t : Token} (hmark : mark? c = some t) : t.WrittenAs [c] :=
    .mark (mem_marks_iff.mpr hmark)
  have hname {name : String} (hname : IsIdentifier name) :
      name.toList ∈ Pattern.name.language := mem_names.mpr (isName_iff.mpr hname)
  cases t with
  | identifier name =>
      have hwritten := WrittenAs.identifier (hname h)
      rw [String.ofList_toList] at hwritten
      exact hwritten
  | directive name =>
      have hwritten := WrittenAs.directive (hname h)
      have htext : (directive name).spelling.toList = '.' :: name.toList := by
        rw [spelling, String.toList_append]
        rfl
      rw [String.ofList_toList] at hwritten
      rw [htext]
      exact hwritten
  | number value =>
      exact .number (toText_mem_number value)
        (Word.ofText?_eq_some_iff.mp (Word.ofText?_toText value))
  | comma => exact hmark (c := ',') rfl
  | colon => exact hmark (c := ':') rfl
  | leftBracket => exact hmark (c := '[') rfl
  | rightBracket => exact hmark (c := ']') rfl
  | plus => exact hmark (c := '+') rfl
  | minus => exact hmark (c := '-') rfl
  | newline => exact hmark (c := '\n') rfl

theorem isName_ofList {text : List Char} (h : text ∈ Pattern.name.language) :
    isName (String.ofList text).toList = true := by
  rw [String.toList_ofList]
  exact mem_names.mp h

/-- A text that a token is written as is read as the token, if no name could go on after it. -/
theorem Spells.written {t : Token} {text rest : List Char} {ts : List Token} (h : Spells rest ts)
    (ht : t.WrittenAs text) (hstop : Stops continuesName rest) :
    Spells (text ++ rest) (t :: ts) := by
  cases ht with
  | identifier hname =>
      have hspells := h.identifier (isName_ofList hname) hstop
      rw [String.toList_ofList] at hspells
      exact hspells
  | directive hname =>
      have hspells := h.directive (isName_ofList hname) hstop
      rw [String.toList_ofList] at hspells
      exact hspells
  | mark hmark =>
      exact h.mark (mem_marks_iff.mp hmark) fun _ => hstop.isDigit
  | @number _ value hnumber hvalue =>
      have hread : Rule.number.reading text = .token (.number value) := by
        simp only [Rule.number, Word.ofText?_eq_some_iff.mpr hvalue]
      obtain ⟨c, cs, rfl⟩ := (isLongest_of_mem hnumber).exists_cons
      have hrule := rule_of_mem_number hnumber rest
      have hcs := continues_of_mem hnumber rest
      rw [hrule] at hcs
      exact h.token hrule hcs hstop.isDigit hread

theorem spells_joined {ts : List Token} {texts : List (List Char)}
    (h : List.Forall₂ Token.WrittenAs ts texts) : Spells ([' '].intercalate texts) ts := by
  induction h with
  | nil => exact Spells.nil
  | @cons t text ts texts ht htexts ih =>
      cases htexts with
      | nil =>
          have hone := Spells.nil.written ht (stops_nil _)
          rw [List.append_nil] at hone
          simpa using hone
      | cons ht' htexts =>
          have hmore := ih.space.written ht (stops_cons rfl)
          rw [List.intercalate_cons_cons, List.append_assoc]
          exact hmore

/-! ## Sources -/

/-- **Longest match.** The lexemes of a source are those that longest matches of the patterns
give. Their spans are not empty, have their ends between characters, and do not overlap; there are
only blanks and comments before, between and after them. A token is determined by its own text,
which could not be longer; what is no token is a character that nothing starts with, or all of a
number out of range. And tokens are read back from texts they are written as, with a space between
each two of them. -/
theorem lexemes_longest_match (source : String) :
    (∀ ls, Scan 0 source.toList ls ↔ ls = lexemes 0 source.toList)
      ∧ (∀ l ∈ lexemes 0 source.toList, l.Spans source)
      ∧ (lexemes 0 source.toList).Pairwise (fun l l' => l.stop ≤ l'.start)
      ∧ Covered 0 source.toList (lexemes 0 source.toList)
      ∧ (∀ ts texts, List.Forall₂ Token.WrittenAs ts texts →
          (lexemes 0 ([' '].intercalate texts)).map Lexeme.token? = ts.map some)
      ∧ ∀ ts : List Token, (∀ t ∈ ts, t.WellFormed) →
          (lexemes 0 (" ".intercalate (ts.map Token.spelling)).toList).map Lexeme.token?
            = ts.map some := by
  have hcovered := (scan_lexemes 0 source.toList).covered
  refine ⟨fun ls => scan_iff, hcovered.spans, hcovered.pairwise, hcovered,
    fun ts texts h => spells_joined h 0, ?_⟩
  intro ts hts
  have hwritten : List.Forall₂ Token.WrittenAs ts (ts.map fun t => t.spelling.toList) := by
    rw [List.forall₂_map_right_iff, List.forall₂_same]
    exact fun t ht => (hts t ht).writtenAs_spelling
  have hjoined : (" ".intercalate (ts.map Token.spelling)).toList
      = [' '].intercalate (ts.map fun t => t.spelling.toList) := by
    rw [String.toList_intercalate, List.map_map]
    rfl
  rw [hjoined]
  exact spells_joined hwritten 0

/-- Signs with and without digits after them, a dot without a name, a character of two bytes, the
least number that is too large, and a comment without an end. -/
def signsAndStrays : String :=
  "-x--07.\u00e99223372036854775808;#"

theorem lexemes_longest_match_signsAndStrays :
    lexemes 0 signsAndStrays.toList
        = [⟨some .minus, ['-'], 0⟩, ⟨some (.identifier "x"), ['x'], 1⟩, ⟨some .minus, ['-'], 2⟩,
          ⟨some (.number (-7)), ['-', '0', '7'], 3⟩, ⟨none, ['.'], 6⟩, ⟨none, ['\u00e9'], 7⟩,
          ⟨none, "9223372036854775808".toList, 9⟩]
      ∧ Covered 0 signsAndStrays.toList (lexemes 0 signsAndStrays.toList)
      ∧ (Lexeme.mk none ['\u00e9'] 7).Spans signsAndStrays
      ∧ Token.WrittenAs (.number (-7)) ['-', '0', '7']
      ∧ (lexemes 0 ['-', '0', '7', ' ', '-']).map Lexeme.token?
        = [some (.number (-7)), some .minus]
      ∧ (∀ t ∈ [Token.minus, .number (-7), .newline, .directive "word"], t.WellFormed)
      ∧ (lexemes 0 "- -7 \n .word".toList).map Lexeme.token?
        = [some .minus, some (.number (-7)), some .newline, some (.directive "word")] := by
  obtain ⟨-, hspans, -, hcovered, htexts, hspelled⟩ := lexemes_longest_match signsAndStrays
  have hlexemes : lexemes 0 signsAndStrays.toList
      = [⟨some .minus, ['-'], 0⟩, ⟨some (.identifier "x"), ['x'], 1⟩, ⟨some .minus, ['-'], 2⟩,
        ⟨some (.number (-7)), ['-', '0', '7'], 3⟩, ⟨none, ['.'], 6⟩, ⟨none, ['\u00e9'], 7⟩,
        ⟨none, "9223372036854775808".toList, 9⟩] := by decide +kernel
  have hnumber : Token.WrittenAs (.number (-7)) ['-', '0', '7'] :=
    .number (cons_mem_number.mpr (.inr ⟨rfl, List.cons_ne_nil _ _, List.all_eq_true.mp rfl⟩))
      (Word.ofText?_eq_some_iff.mp (by decide +kernel))
  have hminus : Token.WrittenAs .minus ['-'] := .mark (mem_marks_iff.mpr rfl)
  have hname : IsIdentifier "word" := isName_iff.mp rfl
  have hwellFormed : ∀ t ∈ [Token.minus, .number (-7), .newline, .directive "word"],
      t.WellFormed := by
    simp [Token.WellFormed, hname]
  refine ⟨hlexemes, hcovered, hspans _ ?_, hnumber, htexts _ _ (.cons hnumber (.cons hminus .nil)),
    hwellFormed, hspelled _ hwellFormed⟩
  rw [hlexemes]
  simp

end Intcode.Assembly
