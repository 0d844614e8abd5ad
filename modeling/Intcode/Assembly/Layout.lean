import Intcode.Assembly.Source
import Intcode.Instruction.Encoding
import Intcode.Program

/-!
# Placing statements in memory

Statements are placed one after the other from address zero, and a label stands
for the address of what follows it. So assembling is a matter of two passes: one
finds the addresses of the labels, the other puts them in.
-/

namespace Intcode.Assembly

/-! ## Labels -/

/-- The labels that statements define, in order, with the addresses they stand for; the
first statement is placed at the given address. -/
def definitions (address : Nat) : List Statement → List (String × Nat)
  | [] => []
  | s :: rest => s.labels.map (·, address) ++ definitions (address + s.width) rest

/-- The first name that stands earlier in the list, or among the names seen before it. -/
def firstRepeated? (seen : List String) : List String → Option String
  | [] => none
  | name :: names => if name ∈ seen then some name else firstRepeated? (name :: seen) names

/-- The addresses of the labels, as words. -/
def addressOf? (definitions : List (String × Nat)) (name : String) : Option Word :=
  (definitions.lookup name).map Int64.ofNat

/-! ## Encoding -/

/-- The value of an expression, given the addresses of the labels. -/
def Expr.value (address? : String → Option Word) : Expr → Except Error Word
  | number value => .ok value
  | label name =>
    match address? name with
    | some address => .ok address
    | none => .error (.undefinedLabel name)

/-- The values of expressions, or the error of the first that has none. -/
def values (address? : String → Option Word) : List Expr → Except Error (List Word)
  | [] => .ok []
  | e :: es => do
    let w ← e.value address?
    let ws ← values address? es
    return w :: ws

/-- The words of a body, given the addresses of the labels. -/
def Body.encode (address? : String → Option Word) (body : Body) : Except Error (List Word) :=
  match body with
  | instruction opcode operands =>
    (values address? body.exprs).map
      ((Instruction.ofModes opcode (operands.map Operand.mode)).toWord :: ·)
  | words _ => values address? body.exprs

/-- The words of consecutive bodies. -/
def encodeAll (address? : String → Option Word) : List Body → Except Error (List Word)
  | [] => .ok []
  | body :: bodies => do
    let block ← body.encode address?
    let rest ← encodeAll address? bodies
    return block ++ rest

/-- Places statements in memory. -/
def layout (statements : List Statement) : Except Error Program :=
  let definitions := definitions 0 statements
  match firstRepeated? [] (definitions.map Prod.fst) with
  | some name => .error (.duplicateLabel name)
  | none =>
    (encodeAll (addressOf? definitions) (statements.filterMap (·.body))).map Program.mk

/-- The program that a source denotes. -/
def assemble (source : String) : Except Error Program := do
  layout (← parse source)

end Intcode.Assembly
