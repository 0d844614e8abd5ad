import Mathlib.Data.List.Forall2
import Mathlib.Data.List.TakeWhile
import Intcode.Assembly.Layout
import Intcode.Proofs.SourceLines

/-!
# What is not read at the end of a line

Blanks and a comment at the end of a line make no difference, whatever the line is
(`parse_trailers`). A comment that is there already goes on, and so do blanks;
every other piece of the line is cut off by what comes after it just as it is by the
end of the line (`rule_of_trailer`). So the lexemes of the line are the same in all
respects (`lexemes_append_trailer`): their texts, where they stand, and which of them
cannot be read. Nothing else of a line is ever looked at, not even its length. The
column that is blamed when a line ends too soon comes from its last token.

A carriage return is a blank. So it does not matter whether lines end with a newline
alone or with both.
-/

namespace Intcode.Assembly

/-- What may be added at the end of a line: blanks, and then perhaps a comment. -/
inductive Trailer : List Char → Prop where
  | blanks {bs : List Char} (h : ∀ b ∈ bs, isBlank b = true) : Trailer bs
  | comment {bs text : List Char} {c : Char} (h : ∀ b ∈ bs, isBlank b = true)
      (hc : opensComment c = true) (htext : '\n' ∉ text) : Trailer (bs ++ c :: text)

namespace Trailer

variable {trailer : List Char}

theorem newline_not_mem (h : Trailer trailer) : '\n' ∉ trailer := by
  have hblanks {bs : List Char} (hbs : ∀ b ∈ bs, isBlank b = true) : '\n' ∉ bs := by
    intro hmem
    cases hbs _ hmem
  cases h with
  | blanks hbs => exact hblanks hbs
  | comment hbs hc htext =>
      rw [List.mem_append, List.mem_cons]
      rintro (hmem | rfl | hmem)
      · exact hblanks hbs hmem
      · cases hc
      · exact htext hmem

/-- It starts with a blank or with the mark of a comment. -/
theorem of_mem_head? (h : Trailer trailer) {x : Char} (hx : x ∈ trailer.head?) :
    isBlank x = true ∨ opensComment x = true := by
  have hmem {bs : List Char} (hhead : x ∈ bs.head?) : x ∈ bs := List.mem_of_mem_head? hhead
  cases h with
  | blanks hbs => exact .inl (hbs x (hmem hx))
  | @comment bs text c hbs hc htext =>
      cases bs with
      | nil =>
          obtain rfl := Option.some.inj hx
          exact .inr hc
      | cons b bs =>
          obtain rfl := Option.some.inj hx
          exact .inl (hbs b List.mem_cons_self)

theorem dropWhile_isBlank (h : Trailer trailer) : Trailer (trailer.dropWhile isBlank) := by
  cases h with
  | blanks hbs =>
      rw [List.dropWhile_eq_nil_iff.mpr hbs]
      exact .blanks (List.forall_mem_nil _)
  | @comment bs text c hbs hc htext =>
      have hblank : isBlank c = false := by rcases opensComment_eq hc with rfl | rfl <;> rfl
      rw [List.dropWhile_append_of_pos hbs, List.dropWhile_cons, hblank]
      exact @comment [] text c (List.forall_mem_nil _) hc htext

theorem spells (h : Trailer trailer) : Spells trailer [] := by
  cases h with
  | blanks hbs =>
      rw [← List.append_nil trailer]
      exact Spells.nil.blanks hbs
  | comment hbs hc htext => exact (Spells.comment hc htext).blanks hbs

/-- There is nothing in it to be read. -/
theorem lexemes_eq_nil (h : Trailer trailer) (start : Nat) : lexemes start trailer = [] :=
  List.map_eq_nil_iff.mp (h.spells start)

end Trailer

/-! ## The last piece of a line -/

/-- A piece that is neither blank nor a comment does not go on with a blank or a comment, and is
not different because of it. -/
theorem rule_of_trailer {c x : Char} (hblank : isBlank c = false)
    (hcomment : opensComment c = false) (hx : isBlank x = true ∨ opensComment x = true) :
    rule c (some x) = rule c none ∧ ∀ next?, (rule c next?).continues x = false := by
  have hcases : x = ' ' ∨ x = '\t' ∨ x = '\r' ∨ x = '#' ∨ x = ';' := by
    rcases hx with hx | hx
    · rcases isBlank_eq hx with rfl | rfl | rfl <;> simp
    · rcases opensComment_eq hx with rfl | rfl <;> simp
  refine ⟨by rcases hcases with rfl | rfl | rfl | rfl | rfl <;> rfl, fun next? => ?_⟩
  rw [rule, if_neg (Bool.eq_false_iff.mp hblank), if_neg (Bool.eq_false_iff.mp hcomment)]
  rcases hcases with rfl | rfl | rfl | rfl | rfl <;> repeat' split
  all_goals rfl

section Piece

variable {c : Char} {rest trailer : List Char}

/-- A trailer changes a piece only if it is the last one and a blank or a comment. -/
theorem piece_remainder_trailer (h : Trailer trailer)
    (hlast : ¬ (remainder c rest = [] ∧ (isBlank c = true ∨ opensComment c = true))) :
    piece c (rest ++ trailer) = piece c rest
      ∧ remainder c (rest ++ trailer) = remainder c rest ++ trailer
      ∧ reading c (rest ++ trailer) = reading c rest := by
  have hrule (hnil : remainder c rest = []) {x : Char} (hx : x ∈ trailer.head?) :
      rule c (some x) = rule c none ∧ ∀ next?, (rule c next?).continues x = false := by
    have hc := not_or.mp fun hc => hlast ⟨hnil, hc⟩
    exact rule_of_trailer (Bool.eq_false_iff.mpr hc.1) (Bool.eq_false_iff.mpr hc.2)
      (h.of_mem_head? hx)
  have hnext : rule c (rest ++ trailer).head? = rule c rest.head? := by
    cases rest with
    | cons d rest => rfl
    | nil =>
        cases trailer with
        | nil => rfl
        | cons x trailer => exact (hrule rfl rfl).1
  obtain ⟨hpiece, hremainder⟩ :=
    piece_remainder_apart hnext fun hnil x hx => (hrule hnil hx).2 _
  exact ⟨hpiece, hremainder, by rw [reading, hnext, hpiece]; rfl⟩

/-- The last piece of a line goes on with a trailer if it is a blank or a comment. -/
theorem lexemes_last_skipped (start : Nat) (h : Trailer trailer) (hnil : remainder c rest = [])
    (hc : isBlank c = true ∨ opensComment c = true) :
    lexemes start (c :: (rest ++ trailer)) = [] := by
  -- what is left is again a trailer, or nothing
  rcases hc with hc | hc
  · rw [remainder, rule_of_isBlank hc] at hnil
    have hrest : rest.dropWhile isBlank = [] := hnil
    rw [lexemes_of_isBlank hc, List.dropWhile_append, hrest]
    exact h.dropWhile_isBlank.lexemes_eq_nil _
  · rw [remainder, rule_of_opensComment hc] at hnil
    have hline : ∀ x ∈ rest ++ trailer, (Rule.skip (· ≠ '\n')).continues x = true := by
      intro x hx
      rcases List.mem_append.mp hx with hx | hx
      · exact List.dropWhile_eq_nil_iff.mp hnil x hx
      · exact decide_eq_true fun heq => h.newline_not_mem (heq ▸ hx)
    rw [lexemes, reading, remainder, rule_of_opensComment hc, List.dropWhile_eq_nil_iff.mpr hline,
      lexemes]
    rfl

end Piece

/-- A piece that is read is neither a blank nor a comment. -/
theorem not_skipped_of_reading {c : Char} {rest : List Char} (h : reading c rest ≠ .skipped) :
    ¬ (isBlank c = true ∨ opensComment c = true) := by
  rintro (hc | hc)
  · exact h (by rw [reading, rule_of_isBlank hc]; rfl)
  · exact h (by rw [reading, rule_of_opensComment hc]; rfl)

/-- The lexemes of a line are the same with a trailer. -/
theorem lexemes_append_trailer (start : Nat) (text : List Char) {trailer : List Char}
    (h : Trailer trailer) : lexemes start (text ++ trailer) = lexemes start text := by
  fun_induction lexemes start text with
  | case1 start => exact h.lexemes_eq_nil start
  | case2 start c rest text others hreading ih =>
      rw [List.cons_append]
      by_cases hlast : remainder c rest = [] ∧ (isBlank c = true ∨ opensComment c = true)
      · have hothers : others = [] := by
          show lexemes _ (remainder c rest) = []
          rw [hlast.1, lexemes]
        rw [lexemes_last_skipped start h hlast.1 hlast.2, hothers]
      · obtain ⟨hpiece, hremainder, hread⟩ := piece_remainder_trailer h hlast
        rw [lexemes, hpiece, hremainder, hread, hreading]
        exact ih
  | case3 start c rest text others t hreading ih
  | case4 start c rest text others hreading ih =>
      have hread' : reading c rest ≠ .skipped := by simp [hreading]
      obtain ⟨hpiece, hremainder, hread⟩ :=
        piece_remainder_trailer h fun hlast => not_skipped_of_reading hread' hlast.2
      rw [List.cons_append, lexemes, hpiece, hremainder, hread, hreading]
      exact congrArg (_ :: ·) ih

/-! ## Sources -/

/-- The second line is the first with a trailer. -/
def Trails (line line' : List Char) : Prop :=
  ∃ trailer, Trailer trailer ∧ line' = line ++ trailer

theorem Trails.read_eq {line line' : List Char} (h : Trails line line') :
    Line.read line' = Line.read line := by
  obtain ⟨trailer, htrailer, rfl⟩ := h
  rw [Line.read, Line.read, lexemes_append_trailer 0 line htrailer]

theorem readLines_of_trails {lines lines' : List (List Char)}
    (h : List.Forall₂ Trails lines lines') (number : Nat) :
    readLines number lines' = readLines number lines := by
  induction h generalizing number with
  | nil => rfl
  | cons hline hlines ih => rw [readLines, readLines, hline.read_eq, ih]

theorem parse_of_trails {source source' : String}
    (h : List.Forall₂ Trails (linesOf source) (linesOf source')) : parse source' = parse source :=
  readLines_of_trails h 1

theorem assemble_of_parse_eq {source source' : String} (h : parse source' = parse source) :
    assemble source' = assemble source := by
  rw [assemble, assemble, h]

/-- The source with something more at the end of each line. The lines are numbered from zero. -/
def extendLines (source : String) (trailer : Nat → List Char) : String :=
  String.ofList (['\n'].intercalate ((linesOf source).mapIdx fun k line => line ++ trailer k))

/-- The source with a carriage return before each newline. -/
def withReturns (source : String) : String :=
  String.ofList (source.toList.flatMap fun c => if c = '\n' then ['\r', '\n'] else [c])

theorem trails_extendLines (source : String) {trailer : Nat → List Char}
    (h : ∀ k < (linesOf source).length, Trailer (trailer k)) :
    List.Forall₂ Trails (linesOf source) (linesOf (extendLines source trailer)) := by
  have hnewline : ∀ line ∈ (linesOf source).mapIdx fun k line => line ++ trailer k,
      '\n' ∉ line := by
    intro line hline
    obtain ⟨k, hk, rfl⟩ := List.mem_mapIdx.mp hline
    rw [List.mem_append, not_or]
    exact ⟨newline_not_mem_of_mem_splitOn (List.getElem_mem hk), (h k hk).newline_not_mem⟩
  have hne : (linesOf source).mapIdx (fun k line => line ++ trailer k) ≠ [] :=
    List.mapIdx_ne_nil_iff.mpr (List.splitOn_ne_nil _ _)
  have hlines : linesOf (extendLines source trailer)
      = (linesOf source).mapIdx fun k line => line ++ trailer k := by
    rw [linesOf, extendLines, String.toList_ofList, List.splitOn_intercalate '\n' hnewline hne]
  rw [hlines, List.forall₂_iff_get]
  refine ⟨List.length_mapIdx.symm, fun k hk hk' => ?_⟩
  exact ⟨trailer k, h k hk, by simp⟩

theorem trails_modifyHead (c : Char) {lines lines' : List (List Char)}
    (h : List.Forall₂ Trails lines lines') :
    List.Forall₂ Trails (lines.modifyHead (c :: ·)) (lines'.modifyHead (c :: ·)) := by
  cases h with
  | nil => exact .nil
  | cons hline hlines =>
      obtain ⟨trailer, htrailer, rfl⟩ := hline
      exact .cons ⟨trailer, htrailer, rfl⟩ hlines

theorem trails_withReturns (source : String) :
    List.Forall₂ Trails (linesOf source) (linesOf (withReturns source)) := by
  rw [linesOf, linesOf, withReturns, String.toList_ofList]
  induction source.toList with
  | nil => exact .cons ⟨[], .blanks (List.forall_mem_nil _), rfl⟩ .nil
  | cons c text ih =>
      have hreturn : Trailer ['\r'] := .blanks (List.forall_mem_singleton.mpr rfl)
      rw [List.flatMap_cons]
      split
      next hc =>
        subst hc
        simp only [List.cons_append, List.nil_append, List.splitOn_cons_eq_if_modifyHead]
        exact .cons ⟨_, hreturn, rfl⟩ ih
      next hc =>
        rw [List.singleton_append, List.splitOn_cons_eq_if_modifyHead,
          List.splitOn_cons_eq_if_modifyHead, if_neg (by simpa using hc),
          if_neg (by simpa using hc)]
        exact trails_modifyHead c ih

/-- **Line endings.** A source is read and assembled in the same way, with the same statements and
words or with the same error, if blanks and a comment are added at the end of any of its lines. In
particular carriage returns before the newlines make no difference. -/
theorem parse_trailers (source : String) (trailer : Nat → List Char)
    (h : ∀ k < (linesOf source).length, Trailer (trailer k)) :
    parse (extendLines source trailer) = parse source
      ∧ assemble (extendLines source trailer) = assemble source
      ∧ parse (withReturns source) = parse source
      ∧ assemble (withReturns source) = assemble source := by
  have hextended := parse_of_trails (trails_extendLines source h)
  have hreturns := parse_of_trails (trails_withReturns source)
  exact ⟨hextended, assemble_of_parse_eq hextended, hreturns, assemble_of_parse_eq hreturns⟩

/-- Blanks and a comment with a bracket do not close the operand of the first line. -/
theorem parse_trailers_openBracket :
    parse "out [rb \r# ]\nhalt\t; é" = .error (.onLine 1 (.misfit 7 .missingOffset))
      ∧ parse "out [rb\r\nhalt" = .error (.onLine 1 (.misfit 7 .missingOffset)) := by
  have hplain : parse "out [rb\nhalt" = .error (.onLine 1 (.misfit 7 .missingOffset)) := by
    decide +kernel
  have htrailer : ∀ k < (linesOf "out [rb\nhalt").length,
      Trailer (if k = 0 then [' ', '\r', '#', ' ', ']'] else ['\t', ';', ' ', 'é']) := by
    intro k hk
    split
    · exact @Trailer.comment [' ', '\r'] [' ', ']'] '#' (by simp [isBlank]) rfl (by decide)
    · exact @Trailer.comment ['\t'] [' ', 'é'] ';' (by simp [isBlank]) rfl (by decide)
  obtain ⟨hextended, -, hreturns, -⟩ := parse_trailers "out [rb\nhalt" _ htrailer
  have htext : extendLines "out [rb\nhalt"
      (fun k => if k = 0 then [' ', '\r', '#', ' ', ']'] else ['\t', ';', ' ', 'é'])
        = "out [rb \r# ]\nhalt\t; é" := by decide +kernel
  rw [htext, hplain] at hextended
  rw [hplain] at hreturns
  exact ⟨hextended, hreturns⟩

end Intcode.Assembly
