import Ecma.Number.Binary

/-!
# Shortest decimals

Among the decimals that read back as a given double, the ones with the fewest digits, and of those the nearest. The
reals that read back form an interval around the value, from halfway to the double below to halfway to the double
above, with both ends exactly when the significand is even. For one digit, two digits and so on, the two neighbours of
the value on the decimal grid of that width are tried; the first grid with a neighbour in the interval decides.
-/

namespace Ecma.Number

/-- A decimal, `coefficient · 10 ^ exponent`. -/
structure Decimal where
  coefficient : Nat
  exponent : Int
deriving DecidableEq

/-- The order of `a · 10 ^ i` and `n · 2 ^ j`, by cross-multiplication. -/
def compareScaled (a : Nat) (i : Int) (n : Nat) (j : Int) : Ordering :=
  compare (a * Nat.pow 10 i.toNat * Nat.pow 2 (-j).toNat) (n * Nat.pow 2 j.toNat * Nat.pow 10 (-i).toNat)

namespace Binary

/-- The double below is half as far away as the one above: the value is a power of two, and not the least normal one. -/
def isNarrow (b : Binary) : Bool := b.significand = Nat.pow 2 52 && b.exponent > -1074

/-- The decimal lies among the reals nearest to this double. Ends of the interval are compared in units of a quarter of
the last place. -/
def readsBack (b : Binary) (d : Decimal) : Bool :=
  let lower := compareScaled d.coefficient d.exponent
    (if b.isNarrow then 4 * b.significand - 1 else 4 * b.significand - 2) (b.exponent - 2)
  let upper := compareScaled d.coefficient d.exponent (4 * b.significand + 2) (b.exponent - 2)
  let closed := b.significand % 2 = 0
  (lower == .gt || (closed && lower == .eq)) && (upper == .lt || (closed && upper == .eq))

/-- The least `k` with the magnitude below `10 ^ k`: an estimate from the binary logarithm, mended by comparison. -/
def scale (b : Binary) : Int :=
  let estimate := (b.significand.log2 + b.exponent) * 30103 / 100000
  if compareScaled 1 (estimate + 1) b.significand b.exponent != .gt then estimate + 2
  else if compareScaled 1 estimate b.significand b.exponent != .gt then estimate + 1
  else estimate

/-- The magnitude in units of `10 ^ i`, rounded down. -/
def quotient (b : Binary) (i : Int) : Nat :=
  b.significand * Nat.pow 2 b.exponent.toNat * Nat.pow 10 (-i).toNat /
    (Nat.pow 2 (-b.exponent).toNat * Nat.pow 10 i.toNat)

/-- The neighbour of the value on the grid of `10 ^ i` that reads back, the nearer one if both do; a value halfway
between them takes the upper. -/
def nearest? (b : Binary) (i : Int) : Option Decimal :=
  let below : Decimal := ⟨b.quotient i, i⟩
  let above : Decimal := ⟨b.quotient i + 1, i⟩
  match b.readsBack below, b.readsBack above with
  | true, true =>
    if compareScaled (2 * b.quotient i + 1) i (2 * b.significand) b.exponent == .gt then some below else some above
  | true, false => some below
  | false, true => some above
  | false, false => none

/-- The exact decimal value, for a value that no short decimal reads back as. -/
def exact (b : Binary) : Decimal :=
  if b.exponent < 0 then ⟨b.significand * Nat.pow 5 (-b.exponent).toNat, b.exponent⟩
  else ⟨b.significand * Nat.pow 2 b.exponent.toNat, 0⟩

/-- The shortest decimal that reads back, by the number of digits; seventeen always suffice for a double. -/
def shortest (b : Binary) : Decimal :=
  ((List.range 17).findSome? fun n : Nat => b.nearest? (b.scale - (n + 1))).getD b.exact

end Binary

namespace Decimal

/-- The same decimal with the zeros at the end of its digits moved into the exponent. -/
def strip : Nat → Decimal → Decimal
  | 0, d => d
  | n + 1, d => if d.coefficient % 10 = 0 then strip n ⟨d.coefficient / 10, d.exponent + 1⟩ else d

/-- The digits, most significant first. -/
def digits (d : Decimal) : String := Nat.repr d.coefficient

end Decimal

end Ecma.Number
