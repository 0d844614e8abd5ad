import Intcode.Assembly.Token

/-!
# Cutting assembly text into lexemes

The text is cut into pieces from left to right, each as long as possible: names,
numbers, directives, single marks, and what is skipped, that is blanks and
comments. A character at which none of these can start is a piece of its own and
has no token; so is a number that is no word.

The first character of a piece, with one character of lookahead, determines the
*rule* of the piece: which characters go on with it and what it denotes. Hence
nothing is lost (`piece_append_remainder`), and the cutting ends because each
piece has at least one character (`length_remainder_le`).
-/

namespace Intcode.Assembly

/-! ## Character classes -/

/-- Blanks between tokens. A newline is a token, not a blank. -/
def isBlank (c : Char) : Bool :=
  c = ' ' || c = '\t' || c = '\r'

/-- The marks that start a comment, which goes on to the end of the line. -/
def opensComment (c : Char) : Bool :=
  c = '#' || c = ';'

/-- The characters that a name can start with: ASCII letters and the underscore. -/
def startsName (c : Char) : Bool :=
  c.isAlpha || c = '_'

/-- The characters that a name can go on with: also digits. -/
def continuesName (c : Char) : Bool :=
  c.isAlphanum || c = '_'

/-- The tokens that are a single mark. -/
def mark? : Char → Option Token
  | ',' => some .comma
  | ':' => some .colon
  | '[' => some .leftBracket
  | ']' => some .rightBracket
  | '+' => some .plus
  | '-' => some .minus
  | '\n' => some .newline
  | _ => none

/-! ## Pieces -/

/-- What a piece of text denotes. -/
inductive Reading where
  | skipped
  | token (token : Token)
  | unreadable
deriving DecidableEq

/-- How a piece goes on after its first character, and what it denotes. -/
structure Rule where
  continues : Char → Bool
  reading : List Char → Reading

namespace Rule

/-- Blanks and comments. -/
def skip (continues : Char → Bool) : Rule :=
  ⟨continues, fun _ => .skipped⟩

/-- A name. -/
def name : Rule :=
  ⟨continuesName, fun text => .token (.identifier (String.ofList text))⟩

/-- A number, which denotes nothing if it is no word. -/
def number : Rule :=
  ⟨Char.isDigit, fun text =>
    match Word.ofText? text with
    | some value => .token (.number value)
    | none => .unreadable⟩

/-- A name after a dot. -/
def directive : Rule :=
  ⟨continuesName, fun text => .token (.directive (String.ofList text.tail))⟩

/-- A single character. -/
def single (reading : Reading) : Rule :=
  ⟨fun _ => false, fun _ => reading⟩

end Rule

/-- The rule of the piece that starts with `c` and has `next?` after that. -/
def rule (c : Char) (next? : Option Char) : Rule :=
  if isBlank c then .skip isBlank
  else if opensComment c then .skip (· ≠ '\n')
  else if startsName c then .name
  else if c.isDigit || (c = '-' && next?.any Char.isDigit) then .number
  else if c = '.' && next?.any startsName then .directive
  else
    match mark? c with
    | some token => .single (.token token)
    | none => .single .unreadable

/-- The piece at the front of the text `c :: rest`. -/
def piece (c : Char) (rest : List Char) : List Char :=
  c :: rest.takeWhile (rule c rest.head?).continues

/-- The text `c :: rest` after its first piece. -/
def remainder (c : Char) (rest : List Char) : List Char :=
  rest.dropWhile (rule c rest.head?).continues

/-- What the piece at the front of the text `c :: rest` denotes. -/
def reading (c : Char) (rest : List Char) : Reading :=
  (rule c rest.head?).reading (piece c rest)

theorem piece_append_remainder (c : Char) (rest : List Char) :
    piece c rest ++ remainder c rest = c :: rest := by
  rw [piece, remainder, List.cons_append, List.takeWhile_append_dropWhile]

theorem length_remainder_le (c : Char) (rest : List Char) :
    (remainder c rest).length ≤ rest.length := by
  have h := congrArg List.length (piece_append_remainder c rest)
  rw [List.length_append, piece, List.length_cons, List.length_cons] at h
  omega

/-! ## Lexemes -/

/-- The number of bytes of a text in UTF-8. -/
def utf8Length (text : List Char) : Nat :=
  text.foldr (fun c n => c.utf8Size + n) 0

/-- A piece of text that is not skipped: its token, if it is readable, and where it stands. -/
structure Lexeme where
  token? : Option Token
  text : List Char
  /-- The offset in bytes. -/
  start : Nat
deriving DecidableEq

/-- The offset just after a lexeme. -/
def Lexeme.stop (l : Lexeme) : Nat :=
  l.start + utf8Length l.text

/-- The lexemes of a text that starts at the given offset. -/
def lexemes (start : Nat) : List Char → List Lexeme
  | [] => []
  | c :: rest =>
    let text := piece c rest
    let others := lexemes (start + utf8Length text) (remainder c rest)
    match reading c rest with
    | .skipped => others
    | .token token => ⟨some token, text, start⟩ :: others
    | .unreadable => ⟨none, text, start⟩ :: others
termination_by text => text.length
decreasing_by exact Nat.lt_succ_of_le (length_remainder_le c rest)

end Intcode.Assembly
