/-!
# The value of a double

A finite double is `± significand · 2 ^ exponent`, read off its bits. Truncation and remainder are computed on that exact
value, so that neither rounds. The conversions to integers of fixed width are made from these two, from sums of doubles
and from casts.
-/

namespace Ecma.Number

/-- A finite double as an exact value: `significand · 2 ^ exponent`, negated when `negative`. -/
structure Binary where
  negative : Bool
  significand : Nat
  exponent : Int
deriving DecidableEq

/-- The eleven bits of the biased exponent. -/
def exponentField (x : Float) : Nat := ((x.toBits >>> 52) &&& 0x7FF).toNat

/-- The fifty-two bits of the fraction. -/
def fractionField (x : Float) : Nat := (x.toBits &&& 0xFFFFFFFFFFFFF).toNat

/-- The sign bit, which tells `-0` from `0`. -/
def signBit (x : Float) : Bool := x.toBits >>> 63 ≠ 0

/-- The number without its sign. -/
def magnitude (x : Float) : Float := if signBit x then -x else x

/-- Neither an infinity nor NaN. -/
def isFinite (x : Float) : Bool := exponentField x ≠ 2047

def nan : Float := 0.0 / 0.0

def infinity : Float := 1.0 / 0.0

/-- The exact value of a finite double. Subnormals have the least exponent and no hidden bit. -/
def Binary.ofFloat (x : Float) : Binary :=
  if exponentField x = 0 then ⟨signBit x, fractionField x, -1074⟩
  else ⟨signBit x, Nat.pow 2 52 + fractionField x, exponentField x - 1075⟩

/-- The double with a given value, for a significand below `2 ^ 53` and an exponent from `-1074` on. The significand is
moved up as far as the hidden bit or the least exponent allows. -/
def Binary.toFloat (b : Binary) : Float :=
  let shift := min (52 - b.significand.log2) (b.exponent + 1074).toNat
  let m := b.significand * Nat.pow 2 shift
  let magnitude := if m < Nat.pow 2 52 then m else (b.exponent + 1075 - shift).toNat * Nat.pow 2 52 + (m - Nat.pow 2 52)
  Float.ofBits ((if b.negative then 0x8000000000000000 else 0) ||| magnitude.toUInt64)

/-- The magnitude rounded toward zero. -/
def Binary.floor (b : Binary) : Nat := b.significand * Nat.pow 2 b.exponent.toNat / Nat.pow 2 (-b.exponent).toNat

/-- The value rounded toward zero. -/
def Binary.truncate (b : Binary) : Int := if b.negative then -b.floor else b.floor

/-- The integer a double has before its point; zero for NaN and the infinities. -/
def integerPart (x : Float) : Int := if isFinite x then (Binary.ofFloat x).truncate else 0

/-- The double without what follows its point; a zero keeps the sign. -/
def truncate (x : Float) : Float :=
  let b := Binary.ofFloat x
  if isFinite x && b.exponent < 0 then Binary.toFloat ⟨b.negative, b.floor, 0⟩ else x

/-- ToInteger (`f64_to_integer`): NaN is zero and the infinities stay. -/
def toInteger (x : Float) : Float := if x.isNaN then 0.0 else truncate x

/-- The magnitude in units of `2 ^ e`, for an `e` that is not above the exponent. -/
def Binary.unitsOf (b : Binary) (e : Int) : Nat := b.significand * Nat.pow 2 (b.exponent - e).toNat

/-- The exact remainder of a division truncated toward zero; it has the sign of the dividend. -/
def remainder (x y : Float) : Float :=
  if !isFinite x || y.isNaN || y == 0.0 then nan
  else if !isFinite y || x == 0.0 then x
  else
    let a := Binary.ofFloat x
    let b := Binary.ofFloat y
    let e := min a.exponent b.exponent
    Binary.toFloat ⟨a.negative, a.unitsOf e % b.unitsOf e, e⟩

/-- A double as an integer within bounds, as a cast gives it: what follows the point is dropped, what lies beyond a bound
becomes that bound, and NaN becomes zero. -/
def saturate (least most : Int) (x : Float) : Int :=
  if isFinite x || x.isNaN then max least (min most (integerPart x)) else if signBit x then least else most

/-- The integer part modulo `m`, not negative. A remainder has the sign of the dividend, so `m` is added to it and the
remainder taken again. -/
def wrap (m x : Float) : Float := remainder (remainder (truncate x) m + m) m

/-- ToUint32 (`f64_to_uint32`). -/
def toUint32 (x : Float) : Nat := if isFinite x then (saturate 0 4294967295 (wrap 4294967296.0 x)).toNat else 0

/-- ToUint16 (`f64_to_uint16`). -/
def toUint16 (x : Float) : Nat := if isFinite x then (saturate 0 65535 (wrap 65536.0 x)).toNat else 0

/-- ToInt32 (`f64_to_int32`): the upper half of the words stands for the negative numbers. -/
def toInt32 (x : Float) : Int :=
  if !isFinite x || x == 0.0 then 0
  else
    let u := wrap 4294967296.0 x
    saturate (-2147483648) 2147483647 (if u ≥ 2147483648.0 then u - 4294967296.0 else u)

/-- The word that the bitwise operators work on. -/
def toWord (x : Float) : BitVec 32 := BitVec.ofInt 32 (toInt32 x)

end Ecma.Number
