import Ecma.Text
import Ecma.Text.CodePoints

/-!
# White space

The characters that may surround a number in a text: the Unicode property White_Space without the next-line control,
and the byte order mark.
-/

namespace Ecma.Text

/-- The code points with the property White_Space. -/
def whiteSpace : CodePoints where
  ranges := [
    (0x0009, 0x000D), (0x0020, 0x0020), (0x0085, 0x0085), (0x00A0, 0x00A0), (0x1680, 0x1680), (0x2000, 0x200A),
    (0x2028, 0x2029), (0x202F, 0x202F), (0x205F, 0x205F), (0x3000, 0x3000)]

/-- White space and line terminators of the language (`is_js_whitespace`). -/
def isBlank (c : Char) : Bool := c = '\ufeff' || (c ≠ '\u0085' && whiteSpace.contains c)

/-- The characters between the outermost ones that are not blank. -/
def strip (cs : List Char) : List Char :=
  ((cs.dropWhile isBlank).reverse.dropWhile isBlank).reverse

end Ecma.Text
