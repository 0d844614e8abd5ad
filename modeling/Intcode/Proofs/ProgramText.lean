import Mathlib.Data.List.Forall2
import Intcode.Program
import Intcode.Proofs.LineGrammar
import Intcode.Proofs.Numerals

/-!
# Reading and writing the text of a program

A text is cut at its commas, and each piece has to be a numeral with white space
around it (`Reads`). Trimming the whole text first makes no difference to the pieces,
so what a text that is not blank is read as depends on its own pieces
(`ofText_of_not_isWhite`): it is the list of their words (`ofText_eq_ok_iff`), or
the error of the first of them that has none (`ofPieces_eq_error_iff`).

The text of a program has one piece for each word, and no word is written with a
comma or with white space. So it is read back, with any white space around the words
(`ofText_spacedText`), and to read a text and write what was read normalises it. Only
the empty program is lost: its text is blank.
-/

namespace Intcode.Program

open Text

/-! ## Pieces -/

/-- A piece of a text is read as a word: it is a numeral with the value of the word, and there is
white space around it. -/
def Reads (piece : List Char) (w : Word) : Prop :=
  ∃ numeral, Trimmed piece numeral ∧ Numeral numeral w.toInt

/-- The literal at this position, counted from zero, is the first of the pieces that is no word,
without the white space around it. -/
def FirstUnread (pieces : List (List Char)) (position : Nat) (literal : List Char) : Prop :=
  ∃ before piece after, pieces = before ++ piece :: after
    ∧ (∀ p ∈ before, ∃ w, Reads p w) ∧ (¬ ∃ w, Reads piece w)
    ∧ position = before.length ∧ Trimmed piece literal

theorem ofText?_trim_eq_some_iff {piece : List Char} {w : Word} :
    Word.ofText? (trim piece) = some w ↔ Reads piece w := by
  rw [Word.ofText?_eq_some_iff]
  constructor
  · intro h
    exact ⟨_, trimmed_trim piece, h⟩
  · rintro ⟨numeral, htrimmed, h⟩
    rw [trim_eq_iff.mpr htrimmed]
    exact h

theorem ofText?_trim_eq_none_iff {piece : List Char} :
    Word.ofText? (trim piece) = none ↔ ¬ ∃ w, Reads piece w := by
  simp only [Option.eq_none_iff_forall_ne_some, ne_eq, ofText?_trim_eq_some_iff, not_exists]

theorem ofPieces_of_reads {piece : List Char} {w : Word} (h : Reads piece w) (position : Nat)
    (pieces : List (List Char)) :
    ofPieces position (piece :: pieces) = (ofPieces (position + 1) pieces).map (w :: ·) := by
  rw [ofPieces, ofText?_trim_eq_some_iff.mpr h]

theorem ofPieces_of_not_reads {piece : List Char} (h : ¬ ∃ w, Reads piece w) (position : Nat)
    (pieces : List (List Char)) :
    ofPieces position (piece :: pieces) = .error (.invalidLiteral position (trim piece)) := by
  rw [ofPieces, ofText?_trim_eq_none_iff.mpr h]

theorem ofPieces_eq_ok_iff {position : Nat} {pieces : List (List Char)} {words : List Word} :
    ofPieces position pieces = .ok words ↔ List.Forall₂ Reads pieces words := by
  induction pieces generalizing position words with
  | nil => simp [ofPieces, eq_comm]
  | cons piece pieces ih =>
      by_cases hread : ∃ w, Reads piece w
      · obtain ⟨w, hw⟩ := hread
        rw [ofPieces_of_reads hw, Assembly.map_eq_ok_iff, List.forall₂_cons_left_iff]
        constructor
        · rintro ⟨words, hwords, rfl⟩
          exact ⟨w, words, hw, ih.mp hwords, rfl⟩
        · rintro ⟨v, words, hv, hwords, rfl⟩
          have heq : w = v := Option.some.inj
            ((ofText?_trim_eq_some_iff.mpr hw).symm.trans (ofText?_trim_eq_some_iff.mpr hv))
          exact ⟨words, ih.mpr hwords, by rw [heq]⟩
      · rw [ofPieces_of_not_reads hread, List.forall₂_cons_left_iff]
        constructor
        · nofun
        · rintro ⟨v, _, hv, -⟩
          exact absurd ⟨v, hv⟩ hread

theorem ofPieces_eq_error_iff {pieces : List (List Char)} {position : Nat} {e : TextError} :
    ofPieces position pieces = .error e ↔
      ∃ k literal, FirstUnread pieces k literal ∧ e = .invalidLiteral (position + k) literal := by
  constructor
  · intro h
    induction pieces generalizing position with
    | nil => cases h
    | cons piece pieces ih =>
        by_cases hread : ∃ w, Reads piece w
        · obtain ⟨w, hw⟩ := hread
          rw [ofPieces_of_reads hw, Assembly.map_eq_error_iff] at h
          obtain ⟨_, _, ⟨before, p, after, rfl, hbefore, hp, rfl, hliteral⟩, rfl⟩ := ih h
          refine ⟨_, _, ⟨piece :: before, p, after, rfl, ?_, hp, rfl, hliteral⟩, ?_⟩
          · exact List.forall_mem_cons.mpr ⟨⟨w, hw⟩, hbefore⟩
          · rw [List.length_cons, Nat.add_assoc, Nat.add_comm 1]
        · rw [ofPieces_of_not_reads hread] at h
          cases h
          exact ⟨0, _, ⟨[], piece, pieces, rfl, List.forall_mem_nil _, hread, rfl,
            trimmed_trim piece⟩, rfl⟩
  · rintro ⟨_, literal, ⟨before, p, after, rfl, hbefore, hp, rfl, hliteral⟩, rfl⟩
    induction before generalizing position with
    | nil =>
        rw [List.nil_append, ofPieces_of_not_reads hp, trim_eq_iff.mpr hliteral]
        rfl
    | cons piece before ih =>
        obtain ⟨⟨w, hw⟩, hbefore⟩ := List.forall_mem_cons.mp hbefore
        have hrest := @ih (position + 1) hbefore
        rw [Nat.add_assoc, Nat.add_comm 1] at hrest
        rw [List.cons_append, ofPieces_of_reads hw, hrest, List.length_cons]
        rfl

/-! ## Texts -/

/-- Pieces are read for what they are when trimmed. -/
theorem ofPieces_congr {pieces pieces' : List (List Char)}
    (h : pieces.map trim = pieces'.map trim) (position : Nat) :
    ofPieces position pieces = ofPieces position pieces' := by
  induction pieces generalizing pieces' position with
  | nil =>
      obtain rfl := List.map_eq_nil_iff.mp h.symm
      rfl
  | cons piece pieces ih =>
      obtain ⟨piece', pieces', rfl, hpiece, hpieces⟩ := List.map_eq_cons_iff.mp h.symm
      rw [ofPieces, ofPieces, hpiece, ih hpieces.symm]

theorem ofText_of_isWhite {text : String} (h : IsWhite text.toList) :
    ofText text = .error .emptyProgram := by
  rw [ofText, trim_eq_nil_iff.mpr h]

/-- A text that is not blank is read by its own pieces. -/
theorem ofText_of_not_isWhite {text : String} (h : ¬ IsWhite text.toList) :
    ofText text = (ofPieces 0 (text.toList.splitOn ',')).map Program.mk := by
  have hne : trim text.toList ≠ [] := fun hnil => h (trim_eq_nil_iff.mp hnil)
  have hpieces := ofPieces_congr (map_trim_splitOn_trim (by decide : isWhiteSpace ',' = false)
    text.toList) 0
  rw [ofText, ← hpieces]
  split
  next hnil => exact absurd hnil hne
  next => rfl

/-- A piece that is read is not blank. -/
theorem not_isWhite_of_reads {piece : List Char} {w : Word} (h : Reads piece w) :
    ¬ IsWhite piece := by
  intro hwhite
  obtain ⟨numeral, htrimmed, hnumeral⟩ := h
  exact hnumeral.ne_nil ((trim_eq_iff.mpr htrimmed).symm.trans (trim_eq_nil_iff.mpr hwhite))

theorem not_reads_of_isWhite {text : String} (h : IsWhite text.toList) (words : List Word) :
    ¬ List.Forall₂ Reads (text.toList.splitOn ',') words := by
  have hcomma : ',' ∉ text.toList := by
    intro hmem
    cases h _ hmem
  rw [List.splitOn_eq_singleton hcomma, List.forall₂_cons_left_iff]
  rintro ⟨w, _, hw, -⟩
  exact not_isWhite_of_reads hw h

theorem ofText_eq_emptyProgram_iff {text : String} :
    ofText text = .error .emptyProgram ↔ IsWhite text.toList := by
  refine ⟨fun h => ?_, ofText_of_isWhite⟩
  by_contra hwhite
  rw [ofText_of_not_isWhite hwhite, Assembly.map_eq_error_iff, ofPieces_eq_error_iff] at h
  obtain ⟨_, _, -, hempty⟩ := h
  cases hempty

theorem ofText_eq_invalidLiteral_iff {text : String} {position : Nat} {literal : List Char} :
    ofText text = .error (.invalidLiteral position literal) ↔
      ¬ IsWhite text.toList ∧ FirstUnread (text.toList.splitOn ',') position literal := by
  by_cases hwhite : IsWhite text.toList
  · rw [ofText_of_isWhite hwhite]
    simp [hwhite]
  · rw [ofText_of_not_isWhite hwhite, Assembly.map_eq_error_iff, ofPieces_eq_error_iff,
      and_iff_right hwhite]
    simp only [TextError.invalidLiteral.injEq, Nat.zero_add]
    constructor
    · rintro ⟨_, _, hfirst, rfl, rfl⟩
      exact hfirst
    · intro hfirst
      exact ⟨_, _, hfirst, rfl, rfl⟩

theorem ofText_eq_ok_iff {text : String} {words : List Word} :
    ofText text = .ok ⟨words⟩ ↔ List.Forall₂ Reads (text.toList.splitOn ',') words := by
  by_cases hwhite : IsWhite text.toList
  · rw [ofText_of_isWhite hwhite]
    exact ⟨nofun, fun h => absurd h (not_reads_of_isWhite hwhite words)⟩
  · rw [ofText_of_not_isWhite hwhite, Assembly.map_eq_ok_iff]
    simp only [mk.injEq, exists_eq_right, ofPieces_eq_ok_iff]

/-- **Reading a program.** A text is empty if it is all white space. Of any other text, cut at its
commas as it stands, the first piece is blamed that is not, white space around it apart, an optional
sign and digits with a value in the range of words; and if there is none, the program has the values
of the pieces for its words. -/
theorem ofText_by_pieces (text : String) :
    (ofText text = .error .emptyProgram ↔ ∀ c ∈ text.toList, isWhiteSpace c = true)
      ∧ (∀ position literal, ofText text = .error (.invalidLiteral position literal) ↔
          (∃ c ∈ text.toList, isWhiteSpace c = false)
            ∧ FirstUnread (text.toList.splitOn ',') position literal)
      ∧ ∀ words, ofText text = .ok ⟨words⟩ ↔
          List.Forall₂ Reads (text.toList.splitOn ',') words := by
  refine ⟨ofText_eq_emptyProgram_iff, ?_, fun words => ofText_eq_ok_iff⟩
  intro position literal
  rw [ofText_eq_invalidLiteral_iff, IsWhite]
  simp

/-! ## Reading back -/

/-- A word with something before and after it. -/
structure Spaced where
  before : List Char
  word : Word
  after : List Char

namespace Spaced

def text (s : Spaced) : List Char :=
  s.before ++ (s.word.toText.toList ++ s.after)

/-- There is only white space around the word. -/
def InWhite (s : Spaced) : Prop :=
  IsWhite s.before ∧ IsWhite s.after

end Spaced

/-- The text of words with what is around each of them. -/
def spacedText (items : List Spaced) : String :=
  String.ofList ([','].intercalate (items.map Spaced.text))

theorem isWhiteSpace_of_isDigit {c : Char} (h : c.isDigit = true) : isWhiteSpace c = false := by
  have hcode : 48 ≤ c.toNat ∧ c.toNat ≤ 57 := Char.isDigit_iff_toNat.mp h
  rw [← Bool.not_eq_true, isWhiteSpace, Ranges.contains_iff]
  simp only [whiteSpace, List.mem_cons, List.not_mem_nil, or_false, exists_eq_or_imp,
    exists_eq_left]
  omega

theorem no_white_of_mem_toText {w : Word} : ∀ c ∈ w.toText.toList, isWhiteSpace c = false := by
  intro c hc
  rcases Word.mem_toText hc with rfl | hdigit
  · decide
  · exact isWhiteSpace_of_isDigit hdigit

theorem comma_not_mem_toText (w : Word) : ',' ∉ w.toText.toList := by
  intro h
  rcases Word.mem_toText h with hminus | hdigit
  · cases hminus
  · cases hdigit

namespace Spaced

variable {s : Spaced}

theorem trim_text (h : s.InWhite) : trim s.text = s.word.toText.toList := by
  rw [text, trim_append_left h.1, trim_append_right h.2, trim_of_no_white no_white_of_mem_toText]

theorem reads_text (h : s.InWhite) : Reads s.text s.word := by
  rw [← ofText?_trim_eq_some_iff, trim_text h]
  exact Word.ofText?_toText s.word

theorem comma_not_mem_text (h : s.InWhite) : ',' ∉ s.text := by
  have hwhite {cs : List Char} (hcs : IsWhite cs) : ',' ∉ cs := by
    intro hmem
    cases hcs _ hmem
  simp only [text, List.mem_append, not_or]
  exact ⟨hwhite h.1, comma_not_mem_toText s.word, hwhite h.2⟩

end Spaced

/-- White space around the words of a program does not change what it is read as. -/
theorem ofText_spacedText {items : List Spaced} (hne : items ≠ [])
    (h : ∀ s ∈ items, s.InWhite) :
    ofText (spacedText items) = .ok ⟨items.map Spaced.word⟩ := by
  have hcomma : ∀ piece ∈ items.map Spaced.text, ',' ∉ piece := by
    intro piece hpiece
    obtain ⟨s, hs, rfl⟩ := List.mem_map.mp hpiece
    exact Spaced.comma_not_mem_text (h s hs)
  have hpieces : (spacedText items).toList.splitOn ',' = items.map Spaced.text := by
    rw [spacedText, String.toList_ofList]
    exact List.splitOn_intercalate ',' hcomma (by simpa using hne)
  rw [ofText_eq_ok_iff, hpieces, List.forall₂_map_left_iff, List.forall₂_map_right_iff,
    List.forall₂_same]
  intro s hs
  exact Spaced.reads_text (h s hs)

theorem toText_eq_spacedText (words : List Word) :
    toText ⟨words⟩ = spacedText (words.map (⟨[], ·, []⟩)) := by
  rw [← String.toList_inj, spacedText, String.toList_ofList, toText, String.toList_intercalate]
  simp [Spaced.text, Function.comp_def]

theorem ofText_toText {p : Program} (h : p.words ≠ []) : ofText p.toText = .ok p := by
  obtain ⟨words⟩ := p
  rw [toText_eq_spacedText, ofText_spacedText]
  · simp [Function.comp_def]
  · simpa using h
  · intro s hs
    obtain ⟨w, -, rfl⟩ := List.mem_map.mp hs
    exact ⟨nofun, nofun⟩

/-- A program that was read has a word. -/
theorem words_ne_nil_of_ofText {text : String} {p : Program} (h : ofText text = .ok p) :
    p.words ≠ [] := by
  obtain ⟨words⟩ := p
  rintro rfl
  have hpieces := List.forall₂_nil_right_iff.mp (ofText_eq_ok_iff.mp h)
  exact List.splitOn_ne_nil _ _ hpieces

/-- **Reading back.** A program that is not empty is read back from its text, and also from its
text with any white space around the words. A text that is read is normalised by writing what was
read: this is read as the same program, and written as the same text. The text of the empty
program is empty, and is refused as such. -/
theorem ofText_normalises :
    (∀ p : Program, p.words ≠ [] → ofText p.toText = .ok p)
      ∧ (∀ items : List Spaced, items ≠ [] → (∀ s ∈ items, s.InWhite) →
          ofText (spacedText items) = .ok ⟨items.map Spaced.word⟩)
      ∧ (∀ (text : String) (p : Program), ofText text = .ok p →
          ofText p.toText = .ok p ∧ (ofText p.toText).map toText = (ofText text).map toText)
      ∧ toText ⟨[]⟩ = "" ∧ ofText (toText ⟨[]⟩) = .error .emptyProgram := by
  refine ⟨fun p h => ofText_toText h, fun items hne h => ofText_spacedText hne h, ?_, rfl, rfl⟩
  intro text p h
  have hback := ofText_toText (words_ne_nil_of_ofText h)
  exact ⟨hback, by rw [hback, h]⟩

/-- The least word and a zero, with a tab, a line break and wide spaces around them. -/
def leastAndZero : List Spaced :=
  [⟨['\t'], -0x8000000000000000, ['\n']⟩, ⟨['\u3000', ' '], 0, []⟩]

theorem ofText_normalises_leastAndZero :
    ofText (spacedText leastAndZero) = .ok ⟨[-0x8000000000000000, 0]⟩
      ∧ ofText (toText ⟨[-0x8000000000000000, 0]⟩) = .ok ⟨[-0x8000000000000000, 0]⟩
      ∧ ofText "+007 ,\n-1" = .ok ⟨[7, -1]⟩ ∧ ofText (toText ⟨[7, -1]⟩) = .ok ⟨[7, -1]⟩ := by
  have hread : ofText "+007 ,\n-1" = .ok ⟨[7, -1]⟩ := by decide +kernel
  have hwhite : ∀ s ∈ leastAndZero, s.InWhite := by
    have hall : (leastAndZero.all fun s =>
        s.before.all isWhiteSpace && s.after.all isWhiteSpace) = true := by decide
    intro s hs
    obtain ⟨hbefore, hafter⟩ := (Bool.and_eq_true _ _).mp (List.all_eq_true.mp hall s hs)
    exact ⟨List.all_eq_true.mp hbefore, List.all_eq_true.mp hafter⟩
  obtain ⟨hback, hspaced, hnormal, -⟩ := ofText_normalises
  exact ⟨hspaced _ (List.cons_ne_nil _ _) hwhite, hback _ (List.cons_ne_nil _ _), hread,
    (hnormal _ _ hread).1⟩

end Intcode.Program
