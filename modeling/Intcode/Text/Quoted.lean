import Intcode.Text.Combining
import Intcode.Text.Printable

/-!
# Quoted text

Messages quote a text between double quotes. Quotes, backslashes and the common
control characters get a backslash; any other character that cannot be seen on
its own is written by its code point.
-/

namespace Intcode.Text

/-- A character by its code point, in hexadecimal between braces. -/
def escapeCodePoint (c : Char) : String :=
  "\\u\x7b" ++ String.ofList (Nat.toDigits 16 c.toNat) ++ "\x7d"

/-- A character as it stands in quoted text. -/
def escape (c : Char) : String :=
  if c = '"' then "\\\""
  else if c = '\\' then "\\\\"
  else if c = '\n' then "\\n"
  else if c = '\r' then "\\r"
  else if c = '\t' then "\\t"
  else if c.toNat = 0 then "\\0"
  else if isCombining c || !isPrintable c then escapeCodePoint c
  else String.singleton c

/-- A text between double quotes. -/
def quote (text : List Char) : String :=
  "\"" ++ String.join (text.map escape) ++ "\""

end Intcode.Text
