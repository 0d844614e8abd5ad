import Intcode.Text.Quoted
import Intcode.Text.WhiteSpace
import Intcode.Word.Text

/-!
# Input literals

A value typed in is a word in its shortest decimal form: no plus sign, no leading
zeros, no minus zero. White space around it is free.
-/

namespace Intcode

/-- The text, without the white space around it, that is no input literal. -/
structure MalformedLiteral where
  literal : List Char
deriving DecidableEq

/-- The text of the error. -/
def MalformedLiteral.message (e : MalformedLiteral) : String :=
  "Malformed input literal: " ++ Text.quote e.literal

/-- Reads an input literal. -/
def Word.ofLiteral (text : String) : Except MalformedLiteral Word :=
  let literal := Text.trim text.toList
  match Word.ofText? literal with
  | some w => if w.toText.toList = literal then .ok w else .error ⟨literal⟩
  | none => .error ⟨literal⟩

end Intcode
