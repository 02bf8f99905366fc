import Ecma.Text
import Ecma.Text.GraphemeExtend
import Ecma.Text.NonGraphic

/-!
# Quoted text

A string between quotes, as diagnostics show it: quotes, backslashes and the common controls have short escapes, and a
character that would not show by itself is written as its code point.
-/

namespace Ecma.Text

/-- Does not show by itself: it has no shape, or attaches to the character before it. -/
def isUnseen (c : Char) : Bool := nonGraphic.contains c || graphemeExtend.contains c

/-- A character inside quotes. -/
def escape (c : Char) : String :=
  match c with
  | '"' => "\\\""
  | '\\' => "\\\\"
  | '\n' => "\\n"
  | '\r' => "\\r"
  | '\t' => "\\t"
  | '\x00' => "\\0"
  | c => if isUnseen c then "\\u\x7b" ++ String.ofList (Nat.toDigits 16 c.toNat) ++ "\x7d" else c.toString

/-- A string between quotes. -/
def quoted (s : String) : String := "\"" ++ String.join (s.toList.map escape) ++ "\""

end Ecma.Text
