import Intcode.Text.Ranges

/-!
# White space

The characters with the Unicode property White_Space, and texts without the
white space around them.
-/

namespace Intcode.Text

/-- The code points with property White_Space. -/
def whiteSpace : Ranges :=
  [(0x0009, 0x000d), (0x0020, 0x0020), (0x0085, 0x0085), (0x00a0, 0x00a0), (0x1680, 0x1680),
   (0x2000, 0x200a), (0x2028, 0x2029), (0x202f, 0x202f), (0x205f, 0x205f), (0x3000, 0x3000)]

/-- Whether a character is white space. -/
def isWhiteSpace (c : Char) : Bool :=
  whiteSpace.contains c

/-- A text without its leading white space. -/
def trimStart (text : List Char) : List Char :=
  text.dropWhile isWhiteSpace

/-- A text without its trailing white space. -/
def trimEnd (text : List Char) : List Char :=
  (text.reverse.dropWhile isWhiteSpace).reverse

/-- A text without the white space around it. -/
def trim (text : List Char) : List Char :=
  trimEnd (trimStart text)

end Intcode.Text
