import Ecma.Number.Binary
import Ecma.Text.Blank
import Ecma.Text.Slice

/-!
# Numeric literals in texts

What a text means as a number: nothing at all is zero, a marked integer is hexadecimal, and all else is a decimal or
infinity with its sign. A decimal is scanned byte by byte, spelled again with digits on both sides of its point and with
an exponent, and that text is parsed. A text that is none of these is NaN.
-/

namespace Ecma.Number

/-- The value of a digit in bases up to sixteen. -/
def digitValue (c : Char) : Nat :=
  if c.isDigit then c.toNat - 48 else if 'a' ≤ c then c.toNat - 87 else c.toNat - 55

def isHexDigit (c : Char) : Bool := c.isDigit || ('a' ≤ c && c ≤ 'f') || ('A' ≤ c && c ≤ 'F')

/-- The natural number that digits denote. -/
def natOfDigits (base : Nat) (digits : List Char) : Nat := digits.foldl (fun n c => n * base + digitValue c) 0

namespace Literal

/-! ## Hexadecimal integers -/

/-- The value of hexadecimal digits: exact up to thirty-two of them, and from there on accumulated in doubles. -/
def hexValue (digits : List Char) : Float :=
  if digits.length ≤ 32 then Float.ofNat (natOfDigits 16 digits)
  else digits.foldl (fun x c => x * 16.0 + Float.ofNat (digitValue c)) 0.0

/-- A hexadecimal integer without its mark (`parse_hex_digits`). -/
def hexadecimal? (digits : List Char) : Option Float :=
  if digits ≠ [] ∧ digits.all isHexDigit then some (hexValue digits) else none

/-! ## The parser of decimals -/

/-- The double nearest to `coefficient · 10 ^ exponent`. Exponents that can only give an infinity or zero are settled
by the number of digits. -/
def scientific (coefficient : Nat) (exponent : Int) : Float :=
  let size := exponent + (Nat.repr coefficient).length
  if coefficient = 0 ∨ size < -330 then 0.0
  else if size > 310 then Number.infinity
  else Float.ofScientific coefficient (exponent < 0) exponent.natAbs

/-- An optional sign and the rest. -/
def sign : List Char → Bool × List Char
  | '+' :: rest => (false, rest)
  | '-' :: rest => (true, rest)
  | cs => (false, cs)

/-- The exponent that a text holds and nothing else; no text at all is no exponent. -/
def exponent? : List Char → Option Int
  | [] => some 0
  | c :: rest =>
    if c = 'e' ∨ c = 'E' then
      let (negative, digits) := sign rest
      if digits ≠ [] ∧ digits.all Char.isDigit then
        some (if negative then -natOfDigits 10 digits else natOfDigits 10 digits)
      else none
    else none

/-- The digits after the point, if there is one, and what follows them. -/
def fraction : List Char → List Char × List Char
  | '.' :: rest => (rest.takeWhile Char.isDigit, rest.dropWhile Char.isDigit)
  | cs => ([], cs)

/-- The double nearest to the decimal that a text spells without a sign (`parse`). -/
def parse? (text : List Char) : Option Float :=
  let whole := text.takeWhile Char.isDigit
  let (fraction, rest) := fraction (text.dropWhile Char.isDigit)
  if whole = [] ∧ fraction = [] then none
  else (exponent? rest).map fun e => scientific (natOfDigits 10 (whole ++ fraction)) (e - fraction.length)

/-! ## The scanner of decimals -/

/-- The first position from `i` on that holds no digit (`scan_digits`). -/
def digitsEnd (body : List Char) (i : Nat) : Nat :=
  i + (((Text.bytes body).drop i).takeWhile fun b => '0'.toUInt8 ≤ b && b ≤ '9'.toUInt8).length

/-- Whether there is a minus, and what follows the sign. -/
def signAt (text : List Char) : Except Text.Misslice (Bool × List Char) :=
  let rest := Text.slice text 1 (Text.bytes text).length
  if Text.byteAt? text 0 = some '+'.toUInt8 then rest.map (false, ·)
  else if Text.byteAt? text 0 = some '-'.toUInt8 then rest.map (true, ·)
  else .ok (false, text)

/-- The digits after a point at a position, and the position after them. -/
def fractionAt (body : List Char) (i : Nat) : Except Text.Misslice (List Char × Nat) :=
  let stop := digitsEnd body (i + 1)
  if Text.byteAt? body i = some '.'.toUInt8 then (Text.slice body (i + 1) stop).map (·, stop) else .ok ([], i)

/-- The signed digits of an exponent marked at a position, and the position after them. A mark without digits is
refused. -/
def exponentAt (body : List Char) (i : Nat) : Except Text.Misslice (Option (List Char × Nat)) :=
  let isSign := Text.byteAt? body (i + 1) = some '+'.toUInt8 ∨ Text.byteAt? body (i + 1) = some '-'.toUInt8
  let start := if isSign then i + 2 else i + 1
  let stop := digitsEnd body start
  if Text.byteAt? body i = some 'e'.toUInt8 ∨ Text.byteAt? body i = some 'E'.toUInt8 then
    if stop = start then .ok none else (Text.slice body (i + 1) stop).map fun digits => some (digits, stop)
  else .ok (some (['0'], i))

/-- Digits with a point and an exponent, where nothing stands for a zero. -/
def spelling (whole fraction exponent : List Char) : List Char :=
  (if whole = [] then ['0'] else whole) ++ '.' :: (if fraction = [] then ['0'] else fraction) ++ 'e' :: exponent

/-- The canonical text of a decimal without a sign. -/
def canonical (body : List Char) : Except Text.Misslice (Option (List Char)) := do
  let stop := digitsEnd body 0
  let whole ← Text.slice body 0 stop
  let (fraction, i) ← fractionAt body stop
  if whole = [] ∧ fraction = [] then pure none
  else match ← exponentAt body i with
    | none => pure none
    | some (exponent, i) =>
      pure (if i = (Text.bytes body).length then some (spelling whole fraction exponent) else none)

/-- A decimal or infinity with its sign, which is applied last, so that a zero can be negative
(`parse_decimal_literal`). -/
def signed (text : List Char) : Except Text.Misslice (Option Float) := do
  let (negative, body) ← signAt text
  let magnitude ← if body = "Infinity".toList then pure (some Number.infinity) else (·.bind parse?) <$> canonical body
  pure (magnitude.map fun x => if negative then -x else x)

end Literal

/-- ToNumber applied to a text (`string_to_number`). A slice that cannot be cut would be no number. -/
def ofText (t : Text) : Float :=
  match Text.strip t.decode with
  | [] => 0.0
  | '0' :: 'x' :: digits => (Literal.hexadecimal? digits).getD nan
  | '0' :: 'X' :: digits => (Literal.hexadecimal? digits).getD nan
  | text =>
    match Literal.signed text with
    | .ok x => x.getD nan
    | .error _ => nan

end Ecma.Number
