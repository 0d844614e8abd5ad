import Intcode.Opcode
import Intcode.Mode
import Intcode.Word

/-!
# Statements

What a line of assembly text says: the labels it defines, and an instruction or
data words to place at the current address.
-/

namespace Intcode.Assembly

/-- A value that is known once the labels have addresses. -/
inductive Expr where
  | number (value : Word)
  | label (name : String)
deriving DecidableEq

/-- An operand of an instruction. -/
structure Operand where
  mode : Mode
  expr : Expr
deriving DecidableEq

/-- What a line places in memory. -/
inductive Body where
  | instruction (opcode : Opcode) (operands : List Operand)
  | words (values : List Expr)
deriving DecidableEq

namespace Body

/-- How many words a body takes in memory. -/
def width : Body → Nat
  | instruction opcode _ => opcode.width
  | words values => values.length

/-- The values in a body, in order. -/
def exprs : Body → List Expr
  | instruction _ operands => operands.map Operand.expr
  | words values => values

end Body

/-- The content of a line. -/
structure Content where
  labels : List String
  body : Option Body
deriving DecidableEq

/-- How many words a line takes in memory. -/
def Content.width (c : Content) : Nat :=
  (c.body.map Body.width).getD 0

/-- A line with content, and its number, counted from one. -/
structure Statement extends Content where
  line : Nat
deriving DecidableEq

end Intcode.Assembly
