import Intcode.Text.Quoted
import Intcode.Word.Text

/-!
# Tokens of assembly text

The words and marks that assembly text is made of. `spelling` is the text of a
token, `describe` its name in messages.
-/

namespace Intcode.Assembly

/-- A word or mark of assembly text. -/
inductive Token where
  | identifier (name : String)
  | number (value : Word)
  | directive (name : String)
  | comma
  | colon
  | leftBracket
  | rightBracket
  | plus
  | minus
  | newline
deriving DecidableEq

namespace Token

/-- The text of a token. -/
def spelling : Token → String
  | identifier name => name
  | number value => value.toText
  | directive name => "." ++ name
  | comma => ","
  | colon => ":"
  | leftBracket => "["
  | rightBracket => "]"
  | plus => "+"
  | minus => "-"
  | newline => "\n"

/-- The name of a token in messages. -/
def describe : Token → String
  | identifier name => "Identifier(" ++ Text.quote name.toList ++ ")"
  | number value => "Number(" ++ value.toText ++ ")"
  | directive name => "Directive(" ++ Text.quote name.toList ++ ")"
  | comma => "Comma"
  | colon => "Colon"
  | leftBracket => "LBracket"
  | rightBracket => "RBracket"
  | plus => "Plus"
  | minus => "Minus"
  | newline => "Newline"

end Token

end Intcode.Assembly
