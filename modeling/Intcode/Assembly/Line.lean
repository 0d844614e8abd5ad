import Intcode.Assembly.Error
import Intcode.Assembly.Lexeme
import Intcode.Assembly.Statement

/-!
# Reading a line

A line is any number of labels, each with a colon, and then nothing, an
instruction with its operands, or data words. `Line.content` reads its tokens
from left to right and stops at the first that does not fit. Each function takes
the tokens that are left, and the column `finish` to report when they run out:
one past the start of the last token of the line.
-/

namespace Intcode.Assembly

/-- A token and the column it starts at, counted in bytes from one. -/
structure Placed where
  token : Token
  column : Nat
deriving DecidableEq

namespace Line

/-- The name that stands for the relative base in operands. -/
def baseName : String := "rb"

/-- The directive in front of data words. -/
def wordDirective : String := "word"

/-- The column of the next token. -/
def nextColumn (finish : Nat) : List Placed → Nat
  | [] => finish
  | t :: _ => t.column

/-- The failure to find what is expected at the front of the given tokens. -/
def missing (finish : Nat) (expected : Expected) (tokens : List Placed) : Problem :=
  .misfit (nextColumn finish tokens) (.missing expected (tokens.head?.map Placed.token))

/-- Takes the given token. -/
def expect (finish : Nat) (token : Token) (tokens : List Placed) :
    Except Problem (List Placed) :=
  match tokens with
  | t :: rest =>
    if t.token = token then .ok rest else .error (missing finish (.token token) tokens)
  | [] => .error (missing finish (.token token) tokens)

/-- Takes a number or a label. -/
def expr (finish : Nat) (tokens : List Placed) : Except Problem (Expr × List Placed) :=
  match tokens with
  | ⟨.number value, _⟩ :: rest => .ok (.number value, rest)
  | ⟨.identifier name, column⟩ :: rest =>
    if name = baseName then .error (.misfit column .baseOutsideBrackets)
    else .ok (.label name, rest)
  | _ => .error (missing finish .expression tokens)

/-! ## Operands -/

/-- Takes the offset after the relative base, up to the closing bracket. A minus sign
may be a token of its own or part of the number. -/
def offset (finish : Nat) (tokens : List Placed) : Except Problem (Expr × List Placed) :=
  match tokens with
  | ⟨.rightBracket, _⟩ :: _ => .ok (.number 0, tokens)
  | ⟨.plus, _⟩ :: rest => expr finish rest
  | ⟨.minus, _⟩ :: ⟨.number value, column⟩ :: rest =>
    match value.neg? with
    | some negated => .ok (.number negated, rest)
    | none => .error (.misfit column (.offsetOutOfRange value))
  | ⟨.minus, _⟩ :: rest => .error (.misfit (nextColumn finish rest.tail) .missingDifference)
  | ⟨.number value, column⟩ :: rest =>
    if value.toInt < 0 then .ok (.number value, rest)
    else .error (.misfit column .missingOffset)
  | _ => .error (.misfit (nextColumn finish tokens) .missingOffset)

/-- Takes what stands between the brackets of an operand, and its mode. -/
def bracketed (finish : Nat) (tokens : List Placed) : Except Problem (Operand × List Placed) :=
  match tokens with
  | ⟨.identifier name, _⟩ :: rest =>
    if name = baseName then (offset finish rest).map fun (e, rest) => (⟨.relative, e⟩, rest)
    else .ok (⟨.positional, .label name⟩, rest)
  | _ => (expr finish tokens).map fun (e, rest) => (⟨.positional, e⟩, rest)

/-- Takes an operand. -/
def operand (finish : Nat) (tokens : List Placed) : Except Problem (Operand × List Placed) :=
  match tokens with
  | ⟨.leftBracket, _⟩ :: rest => do
    let (operand, rest) ← bracketed finish rest
    let rest ← expect finish .rightBracket rest
    return (operand, rest)
  | _ => (expr finish tokens).map fun (e, rest) => (⟨.immediate, e⟩, rest)

theorem length_of_expect {finish : Nat} {token : Token} {tokens rest : List Placed}
    (h : expect finish token tokens = .ok rest) : rest.length < tokens.length := by
  unfold expect at h
  split at h
  · split at h
    · cases h
      exact Nat.lt_succ_self _
    · cases h
  · cases h

theorem length_of_expr {finish : Nat} {tokens rest : List Placed} {e : Expr}
    (h : expr finish tokens = .ok (e, rest)) : rest.length < tokens.length := by
  unfold expr at h
  split at h
  · cases h
    exact Nat.lt_succ_self _
  · split at h
    · cases h
    · cases h
      exact Nat.lt_succ_self _
  · cases h

theorem length_of_offset {finish : Nat} {tokens rest : List Placed} {e : Expr}
    (h : offset finish tokens = .ok (e, rest)) : rest.length ≤ tokens.length := by
  unfold offset at h
  split at h
  · cases h
    exact Nat.le_refl _
  · have := length_of_expr h
    simp only [List.length_cons]
    omega
  · split at h
    · cases h
      simp only [List.length_cons]
      omega
    · cases h
  · cases h
  · split at h
    · cases h
      exact Nat.le_succ _
    · cases h
  · cases h

theorem length_of_bracketed {finish : Nat} {tokens rest : List Placed} {o : Operand}
    (h : bracketed finish tokens = .ok (o, rest)) : rest.length ≤ tokens.length := by
  unfold bracketed at h
  split at h
  next name column tail =>
    split at h
    · cases ho : offset finish tail with
      | error p => rw [ho] at h; cases h
      | ok r =>
        rw [ho] at h
        cases h
        have := length_of_offset ho
        simp only [List.length_cons]
        omega
    · cases h
      exact Nat.le_succ _
  next =>
    cases he : expr finish tokens with
    | error p => rw [he] at h; cases h
    | ok r =>
      rw [he] at h
      cases h
      exact Nat.le_of_lt (length_of_expr he)

/-- An operand takes at least one token. -/
theorem length_of_operand {finish : Nat} {tokens rest : List Placed} {o : Operand}
    (h : operand finish tokens = .ok (o, rest)) : rest.length < tokens.length := by
  unfold operand at h
  split at h
  next column tail =>
    cases hb : bracketed finish tail with
    | error p => rw [hb] at h; cases h
    | ok r =>
      cases hx : expect finish .rightBracket r.2 with
      | error p => simp [hb, hx, bind, Except.bind] at h
      | ok tail' =>
        have hrest : tail' = rest := by
          simp [hb, hx, bind, Except.bind, pure, Except.pure] at h
          exact h.2
        have := length_of_bracketed hb
        have := length_of_expect hx
        rw [← hrest, List.length_cons]
        omega
  next =>
    cases he : expr finish tokens with
    | error p => rw [he] at h; cases h
    | ok r =>
      rw [he] at h
      cases h
      exact length_of_expr he

/-- Takes operands with commas between them, to the end of the line. -/
def operands (finish : Nat) (tokens : List Placed) : Except Problem (List Operand) :=
  match _h : operand finish tokens with
  | .error p => .error p
  | .ok (o, []) => .ok [o]
  | .ok (o, t :: rest) =>
    if t.token = .comma then (operands finish rest).map (o :: ·)
    else .error (missing finish (.token .comma) (t :: rest))
termination_by tokens.length
decreasing_by
  have := length_of_operand _h
  rw [List.length_cons] at this
  omega

/-! ## Statements -/

/-- Takes the data words after their directive, to the end of the line. -/
def exprs (finish : Nat) : List Placed → Except Problem (List Expr)
  | [] => .error (missing finish .expression [])
  | [t] => (expr finish [t]).map fun (e, _) => [e]
  | t :: comma :: rest => do
    let (e, _) ← expr finish [t]
    let _ ← expect finish .comma [comma]
    let es ← exprs finish rest
    return e :: es

/-- Takes an instruction after its mnemonic, to the end of the line. -/
def instruction (finish : Nat) (mnemonic : String) (tokens : List Placed) :
    Except Problem Body :=
  match Opcode.ofMnemonic? mnemonic with
  | none => .error (.unknownInstruction mnemonic)
  | some opcode => do
    let operands ← if tokens.isEmpty then .ok [] else operands finish tokens
    if operands.length ≠ opcode.parameterCount then
      .error (.operandCount mnemonic opcode.parameterCount operands.length)
    else if (opcode.destination?.bind (operands[·]?)).any (·.mode = .immediate) then
      .error (.immediateDestination mnemonic)
    else
      .ok (.instruction opcode operands)

/-- Takes the labels at the front of a line. -/
def labels : List Placed → Except Problem (List String × List Placed)
  | ⟨.identifier name, column⟩ :: ⟨.colon, _⟩ :: rest =>
    if name = baseName then .error (.misfit column .reservedLabel)
    else (labels rest).map fun (names, rest) => (name :: names, rest)
  | tokens => .ok ([], tokens)

/-- Takes what follows the labels of a line. -/
def body (finish : Nat) (tokens : List Placed) : Except Problem (Option Body) :=
  match tokens with
  | [] => .ok none
  | ⟨.identifier mnemonic, _⟩ :: rest => (instruction finish mnemonic rest).map some
  | ⟨.directive name, _⟩ :: rest =>
    if name = wordDirective then (exprs finish rest).map fun values => some (.words values)
    else .error (.invalidDirective name)
  | _ => .error (missing finish .statement tokens)

/-- The column to report when the given tokens of a line run out. -/
def endColumn (tokens : List Placed) : Nat :=
  match tokens.getLast? with
  | some t => t.column + 1
  | none => 1

/-- The content of a line with the given tokens, if it has any. -/
def content (tokens : List Placed) : Except Problem (Option Content) :=
  if tokens.isEmpty then .ok none
  else do
    let (labels, rest) ← labels tokens
    let body ← body (endColumn tokens) rest
    return some { labels, body }

/-- The tokens of a line, if all of its lexemes have one. -/
def tokens : List Lexeme → Except Problem (List Placed)
  | [] => .ok []
  | l :: rest =>
    match l.token? with
    | none => .error (.misfit (l.start + 1) (.unreadable l.text))
    | some token => (tokens rest).map (⟨token, l.start + 1⟩ :: ·)

/-- Reads a line of text. -/
def read (text : List Char) : Except Problem (Option Content) := do
  content (← tokens (lexemes 0 text))

end Line

end Intcode.Assembly
