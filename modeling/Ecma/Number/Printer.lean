import Ecma.Number.Shortest

/-!
# Number text

How a number is written. The digits are the shortest that read back; the decimal point stays among them or within six
places before them and twenty-one after their start, and other magnitudes take an exponent with its sign. A zero has no
sign. Other radices expand the integer part digit by digit and at most fifty-two places of the fraction.
-/

namespace Ecma.Number

/-- `n` zeros. -/
def zeros (n : Nat) : String := String.ofList (List.replicate n '0')

/-- The shortest digits of a positive finite number and the place of its point, counted from their start. -/
def digitsAndPoint (x : Float) : String × Int :=
  let d := (Binary.ofFloat x).shortest.strip 17
  (d.digits, d.exponent + d.digits.length)

/-- The digits with their point at place `n`, as an integer, a fraction or with an exponent. -/
def layout (digits : String) (n : Int) : String :=
  let k : Int := digits.length
  if k ≤ n ∧ n ≤ 21 then digits ++ zeros (n - k).toNat
  else if 0 < n ∧ n ≤ 21 then
    String.ofList (digits.toList.take n.toNat) ++ "." ++ String.ofList (digits.toList.drop n.toNat)
  else if -6 < n ∧ n ≤ 0 then "0." ++ zeros (-n).toNat ++ digits
  else
    let power := (if n - 1 < 0 then "e-" else "e+") ++ Nat.repr (n - 1).natAbs
    if k = 1 then digits ++ power
    else String.ofList (digits.toList.take 1) ++ "." ++ String.ofList (digits.toList.drop 1) ++ power

/-- A positive number. -/
def magnitudeText (x : Float) : String :=
  if x == infinity then "Infinity" else let (digits, point) := digitsAndPoint x; layout digits point

/-- ToString applied to a number (`number_to_string`). -/
def toText (x : Float) : String :=
  if x.isNaN then "NaN"
  else if x == 0.0 then "0"
  else if x < 0.0 then "-" ++ magnitudeText (-x)
  else magnitudeText x

/-- A positive finite number with all its digits around the point and no exponent. -/
def positionalText (digits : String) (n : Int) : String :=
  let k : Int := digits.length
  if k ≤ n then digits ++ zeros (n - k).toNat
  else if 0 < n then
    String.ofList (digits.toList.take n.toNat) ++ "." ++ String.ofList (digits.toList.drop n.toNat)
  else "0." ++ zeros (-n).toNat ++ digits

/-- How a number shows in a diagnostic: with the sign of a zero, and never with an exponent. -/
def inspect (x : Float) : String :=
  if x.isNaN then "NaN"
  else
    let sign := if signBit x then "-" else ""
    let x := magnitude x
    if x == 0.0 then sign ++ "0"
    else if x == infinity then sign ++ "inf"
    else let (digits, point) := digitsAndPoint x; sign ++ positionalText digits point

/-- The digit of a value below thirty-six. -/
def radixDigit (n : Nat) : Char := if n < 10 then Char.ofNat (48 + n) else Char.ofNat (87 + n)

/-- The digits of an integral number, most significant first, in front of `out`. A double has at most 1024 of them. -/
def integerDigits (base : Float) : Nat → Float → List Char → List Char
  | 0, _, out => out
  | fuel + 1, n, out =>
    let out := radixDigit (toUint32 (remainder n base)) :: out
    let rest := truncate (n / base)
    if rest < 1.0 then out else integerDigits base fuel rest out

/-- The digits of a fraction, until nothing is left of it or the places run out. -/
def fractionDigits (base : Float) : Nat → Float → List Char
  | 0, _ => []
  | places + 1, x =>
    if x > 0.0 then
      let scaled := x * base
      radixDigit (toUint32 (truncate scaled)) :: fractionDigits base places (scaled - truncate scaled)
    else []

/-- The list without the characters `c` at its end. -/
def dropTrailing (c : Char) (cs : List Char) : List Char := (cs.reverse.dropWhile (· == c)).reverse

/-- A number in a radix from two to thirty-six (`number_to_radix_string`). -/
def toRadixText (x : Float) (radix : Nat) : String :=
  if !isFinite x then toText x
  else
    let base := Float.ofNat radix
    let whole := truncate (magnitude x)
    let fraction := magnitude x - whole
    let sign := if x < 0.0 then ['-'] else []
    let digits := sign ++ integerDigits base 1100 whole []
    if fraction > 0.0 then
      String.ofList (dropTrailing '.' (dropTrailing '0' (digits ++ '.' :: fractionDigits base 52 fraction)))
    else String.ofList digits

end Ecma.Number
