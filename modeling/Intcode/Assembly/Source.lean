import Intcode.Assembly.Line

/-!
# Reading a source

A source is read line by line, and the first line with a problem decides the
error. Lines without content give no statement, but count.
-/

namespace Intcode.Assembly

/-- The statements of consecutive lines, the first of them with the given number. -/
def readLines (number : Nat) : List (List Char) → Except Error (List Statement)
  | [] => .ok []
  | text :: lines =>
    match Line.read text with
    | .error problem => .error (.onLine number problem)
    | .ok none => readLines (number + 1) lines
    | .ok (some content) =>
      (readLines (number + 1) lines).map ({ content with line := number } :: ·)

/-- The statements of a source. -/
def parse (source : String) : Except Error (List Statement) :=
  readLines 1 (source.toList.splitOn '\n')

end Intcode.Assembly
