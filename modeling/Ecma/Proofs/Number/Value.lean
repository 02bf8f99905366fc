import Ecma.Proofs.Number.Double

/-!
# The values of finite doubles

A finite double is its sign, its significand and its exponent, and these three are free but for the bounds of the format:
`Binary.ofFloat` is a bijection from the finite doubles to the canonical triples, with `Binary.double` as its inverse.
Operations on doubles work on unpacked numbers, and for a finite double that unpacked number is the triple again
(`unpack_eq`). What lies outside is an infinity or NaN (`cases_not_finite`), and a triple whose exponent is too great
becomes an infinity.
-/

namespace Ecma.Number

open Float.Model Float.Model.UnpackedFloat

namespace Binary

/-- The bounds of the format: only a number with the least exponent goes without the hidden bit. -/
structure Canonical (b : Binary) : Prop where
  fits : b.significand < 2 ^ 53
  least : -1074 ≤ b.exponent
  most : b.exponent ≤ 971
  normal : 2 ^ 52 ≤ b.significand ∨ b.exponent = -1074

def sign (b : Binary) : Sign := if b.negative then .negative else .positive

/-- The form that operations on doubles work on. -/
def unpacked (b : Binary) : UnpackedFloat :=
  if pos : 0 < b.significand then .finite b.sign b.significand b.exponent pos else .zero b.sign

/-- The double with this value, or an infinity. -/
def double (b : Binary) : Float := .ofModel (.pack b.unpacked)

/-- The exact value. -/
def value (b : Binary) : ℚ := (if b.negative then -1 else 1) * (b.significand * 2 ^ b.exponent)

theorem unpacked_of_pos {b : Binary} (pos : 0 < b.significand) :
    b.unpacked = .finite b.sign b.significand b.exponent pos := dif_pos pos

theorem unpacked_of_zero {b : Binary} (zero : b.significand = 0) : b.unpacked = .zero b.sign :=
  dif_neg (by omega)

theorem Canonical.log2_le {b : Binary} (canonical : b.Canonical) : b.significand.log2 ≤ 52 := by
  rcases Nat.eq_zero_or_pos b.significand with zero | pos
  · rw [zero]
    decide
  · exact Number.log2_le pos canonical.fits

end Binary

/-- The exact value of a finite double. -/
def rational (x : Float) : ℚ := (Binary.ofFloat x).value

/-! ## Fields -/

/-- The bits of a double, as the format divides them. -/
def bits (x : Float) : BitVec Format.binary64.numBits := x.toBits.toBitVec

theorem toNat_unpackExponent (x : Float) : (unpackExponent (bits x)).toNat = exponentField x := by
  rw [unpackExponent_def, BitVec.extractLsb'_toNat, exponentField_eq, Nat.shiftRight_eq_div_pow]
  rfl

theorem toNat_unpackMantissa (x : Float) : (unpackMantissa (bits x)).toNat = fractionField x := by
  rw [unpackMantissa_def, BitVec.extractLsb'_toNat, fractionField_eq, Nat.shiftRight_zero]
  rfl

theorem signBit_eq (x : Float) : signBit x = decide (unpackSign (bits x) ≠ 0#1) := by
  have bound := x.toBits.toNat_lt
  have shifted : (x.toBits >>> 63).toNat = x.toBits.toNat / 2 ^ 63 := by
    rw [UInt64.toNat_shiftRight, Nat.shiftRight_eq_div_pow]
    rfl
  have field : (unpackSign (bits x)).toNat = x.toBits.toNat / 2 ^ 63 % 2 := by
    rw [unpackSign_def, BitVec.extractLsb'_toNat, Nat.shiftRight_eq_div_pow]
    rfl
  simp only [signBit, ne_eq, decide_eq_decide, ← UInt64.toNat_inj, ← BitVec.toNat_inj, shifted, field]
  simp
  omega

theorem negative_ofFloat (x : Float) : (Binary.ofFloat x).negative = signBit x := by
  rw [Binary.ofFloat]
  split <;> rfl

theorem sign_ofFloat (x : Float) : (Binary.ofFloat x).sign = Sign.ofBitVec (unpackSign (bits x)) := by
  rw [Binary.sign, negative_ofFloat, signBit_eq, Sign.ofBitVec]
  by_cases zero : unpackSign (bits x) = 0#1 <;> simp [zero]

theorem fractionField_lt (x : Float) : fractionField x < 2 ^ 52 := by
  rw [fractionField_eq]
  exact Nat.mod_lt _ (by decide)

theorem exponentField_lt (x : Float) : exponentField x < 2 ^ 11 := by
  rw [exponentField_eq]
  exact Nat.mod_lt _ (by decide)

theorem isFinite_iff {x : Float} : isFinite x = true ↔ exponentField x ≠ 2047 := by
  rw [isFinite, decide_eq_true_eq]

theorem ofFloat_of_subnormal {x : Float} (zero : exponentField x = 0) :
    Binary.ofFloat x = ⟨signBit x, fractionField x, -1074⟩ := if_pos zero

theorem ofFloat_of_normal {x : Float} (nonzero : exponentField x ≠ 0) :
    Binary.ofFloat x = ⟨signBit x, 2 ^ 52 + fractionField x, exponentField x - 1075⟩ := if_neg nonzero

theorem canonical_ofFloat {x : Float} (finite : isFinite x = true) : (Binary.ofFloat x).Canonical := by
  have fraction := fractionField_lt x
  have exponent := exponentField_lt x
  rw [isFinite_iff] at finite
  by_cases zero : exponentField x = 0
  · rw [ofFloat_of_subnormal zero]
    exact ⟨by simp only; omega, by simp, by simp, .inr rfl⟩
  · rw [ofFloat_of_normal zero]
    refine ⟨?_, ?_, ?_, .inl ?_⟩ <;> simp only <;> omega

/-! ## Unpacking -/

theorem unpackExponent_ne_last {x : Float} (finite : isFinite x = true) : unpackExponent (bits x) ≠ -1#11 := by
  intro last
  have exponent := toNat_unpackExponent x
  rw [last] at exponent
  exact isFinite_iff.1 finite exponent.symm

theorem unpack_of_subnormal {x : Float} (zero : exponentField x = 0) :
    UnpackedFloat.unpack .binary64 (bits x) = (Binary.ofFloat x).unpacked := by
  have exponent := toNat_unpackExponent x
  have mantissa := toNat_unpackMantissa x
  have first : unpackExponent (bits x) = 0#11 := BitVec.eq_of_toNat_eq (exponent.trans zero)
  have notLast : unpackExponent (bits x) ≠ -1#11 := by
    rw [first]
    decide
  have sign := sign_ofFloat x
  rw [ofFloat_of_subnormal zero] at sign ⊢
  simp only [UnpackedFloat.unpack, if_neg notLast, if_pos first, ← sign]
  by_cases none : fractionField x = 0
  · have empty : unpackMantissa (bits x) = 0#52 := BitVec.eq_of_toNat_eq (mantissa.trans none)
    rw [dif_pos empty, Binary.unpacked_of_zero none]
  · have some : unpackMantissa (bits x) ≠ 0#52 := by
      intro empty
      rw [empty] at mantissa
      exact none mantissa.symm
    rw [dif_neg some, Binary.unpacked_of_pos (Nat.pos_of_ne_zero none)]
    simp only [mantissa, exponent, zero]
    rfl

theorem unpack_of_normal {x : Float} (nonzero : exponentField x ≠ 0) (finite : isFinite x = true) :
    UnpackedFloat.unpack .binary64 (bits x) = (Binary.ofFloat x).unpacked := by
  have exponent := toNat_unpackExponent x
  have notFirst : unpackExponent (bits x) ≠ 0#11 := by
    intro first
    rw [first] at exponent
    exact nonzero exponent.symm
  have whole : (1#1 ++ unpackMantissa (bits x)).toNat = 2 ^ 52 + fractionField x := by
    rw [BitVec.toNat_append, ← Nat.shiftLeft_add_eq_or_of_lt (BitVec.isLt _), toNat_unpackMantissa]
    rfl
  have sign := sign_ofFloat x
  rw [ofFloat_of_normal nonzero] at sign ⊢
  rw [Binary.unpacked_of_pos (Nat.add_pos_left (Nat.two_pow_pos 52) _)]
  simp only [UnpackedFloat.unpack, if_neg (unpackExponent_ne_last finite), if_neg notFirst, whole, exponent, ← sign]
  rfl

/-- What an operation unpacks from a finite double is its value. -/
theorem unpack_eq {x : Float} (finite : isFinite x = true) : x.toModel.unpack = (Binary.ofFloat x).unpacked := by
  by_cases zero : exponentField x = 0
  · exact unpack_of_subnormal zero
  · exact unpack_of_normal zero finite

theorem ofModel_pack_unpack (x : Float) : Float.ofModel (.pack x.toModel.unpack) = x := Float.ofBits_toBits x

/-- A finite double is the one with its value. -/
theorem double_ofFloat {x : Float} (finite : isFinite x = true) : (Binary.ofFloat x).double = x := by
  rw [Binary.double, ← unpack_eq finite, ofModel_pack_unpack]

/-- Outside the finite doubles there are the infinities and NaN. -/
theorem cases_not_finite {x : Float} (infinite : isFinite x = false) : x = nan ∨ x = infinity ∨ x = -infinity := by
  have exponent : exponentField x = 2047 := by
    by_contra other
    exact Bool.false_ne_true (infinite.symm.trans (isFinite_iff.2 other))
  have last : unpackExponent (bits x) = -1#11 := BitVec.eq_of_toNat_eq ((toNat_unpackExponent x).trans exponent)
  have unpacked : x.toModel.unpack = if unpackMantissa (bits x) = 0#52 then
      .infinity (Sign.ofBitVec (unpackSign (bits x))) else .notANumber := if_pos last
  rw [← ofModel_pack_unpack x, unpacked]
  split
  · cases Sign.ofBitVec (unpackSign (bits x)) with
    | negative => exact .inr (.inr (by decide))
    | positive => exact .inr (.inl (by decide))
  · exact .inl (by decide)

/-! ## Packing -/

theorem fields_of_pack {x : Float} {sign : Sign} {exponent : BitVec 11} {mantissa : BitVec 52}
    (packed : bits x = packComponents .binary64 sign exponent mantissa) :
    exponentField x = exponent.toNat ∧ fractionField x = mantissa.toNat ∧
      signBit x = decide (sign.toBitVec ≠ 0#1) := by
  rw [← toNat_unpackExponent, ← toNat_unpackMantissa, signBit_eq, packed, unpackExponent_packComponents,
    unpackMantissa_packComponents, unpackSign_packComponents]
  exact ⟨rfl, rfl, rfl⟩

/-- A number with the hidden bit is packed with its biased exponent. -/
theorem bits_double_normal {b : Binary} (canonical : b.Canonical) (hidden : 2 ^ 52 ≤ b.significand) :
    bits b.double =
      packComponents .binary64 b.sign (BitVec.ofNat 11 (b.exponent + 1075).toNat) (BitVec.ofNat 52 b.significand) := by
  have pos : 0 < b.significand := Nat.lt_of_lt_of_le (by decide) hidden
  have log : b.significand.log2 = 52 := (Nat.log2_eq_iff pos.ne').2 ⟨hidden, canonical.fits⟩
  have biased : (b.exponent + Format.binary64.exponentBias + (52 : Nat)).toNat = (b.exponent + 1075).toNat := by
    simp only [Format.exponentBias]
    omega
  have most := canonical.most
  change UnpackedFloat.pack .binary64 b.unpacked = _
  rw [Binary.unpacked_of_pos pos]
  unfold UnpackedFloat.pack
  simp only [biased, log]
  rw [if_neg (by omega)]
  rfl

/-- A number without the hidden bit is packed as it is. -/
theorem bits_double_subnormal {b : Binary} (least : b.exponent = -1074) (small : b.significand < 2 ^ 52) :
    bits b.double = packComponents .binary64 b.sign 0#11 (BitVec.ofNat 52 b.significand) := by
  change UnpackedFloat.pack .binary64 b.unpacked = _
  rcases Nat.eq_zero_or_pos b.significand with zero | pos
  · rw [Binary.unpacked_of_zero zero, zero]
    rfl
  · have log : b.significand.log2 < 52 := (Nat.log2_lt pos.ne').2 small
    have biased : (-1074 + (Format.binary64.exponentBias : Int) + (52 : Nat)).toNat = 1 := by decide
    have notHidden : ¬ b.significand.log2 + 1 = Format.binary64.mantissaBits := by
      simp only [Format.mantissaBits]
      omega
    rw [Binary.unpacked_of_pos pos, least]
    unfold UnpackedFloat.pack
    simp only [biased]
    rw [if_neg (by decide), if_neg notHidden]

theorem decide_sign (b : Binary) : decide (b.sign.toBitVec ≠ 0#1) = b.negative := by
  cases negative : b.negative <;> simp [Binary.sign, negative, Sign.toBitVec]

theorem exponentField_double {b : Binary} (canonical : b.Canonical) (hidden : 2 ^ 52 ≤ b.significand) :
    exponentField b.double = (b.exponent + 1075).toNat := by
  have least := canonical.least
  have most := canonical.most
  rw [(fields_of_pack (bits_double_normal canonical hidden)).1, BitVec.toNat_ofNat]
  exact Nat.mod_eq_of_lt (by omega)

/-- A canonical number is the value of its double. -/
theorem ofFloat_double {b : Binary} (canonical : b.Canonical) : Binary.ofFloat b.double = b := by
  have fits := canonical.fits
  have least := canonical.least
  by_cases hidden : 2 ^ 52 ≤ b.significand
  · have exponent := exponentField_double canonical hidden
    obtain ⟨-, fraction, sign⟩ := fields_of_pack (bits_double_normal canonical hidden)
    rw [ofFloat_of_normal (by omega), exponent, fraction, sign, decide_sign, BitVec.toNat_ofNat]
    have whole : 2 ^ 52 + b.significand % 2 ^ 52 = b.significand := by omega
    have place : ((b.exponent + 1075).toNat : Int) - 1075 = b.exponent := by omega
    rw [whole, place]
  · have lowest : b.exponent = -1074 := canonical.normal.resolve_left hidden
    obtain ⟨exponent, fraction, sign⟩ := fields_of_pack (bits_double_subnormal lowest (by omega))
    rw [ofFloat_of_subnormal exponent, fraction, sign, decide_sign, BitVec.toNat_ofNat,
      Nat.mod_eq_of_lt (by omega), ← lowest]

theorem isFinite_double {b : Binary} (canonical : b.Canonical) : isFinite b.double = true := by
  have most := canonical.most
  rw [isFinite_iff]
  by_cases hidden : 2 ^ 52 ≤ b.significand
  · rw [exponentField_double canonical hidden]
    omega
  · have lowest : b.exponent = -1074 := canonical.normal.resolve_left hidden
    rw [(fields_of_pack (bits_double_subnormal lowest (by omega))).1]
    decide

/-- A number that is too great becomes an infinity. -/
theorem double_of_great {b : Binary} (positive : b.negative = false) (pos : 0 < b.significand)
    (great : 971 < b.exponent) : b.double = infinity := by
  have sign : b.sign = .positive := by simp [Binary.sign, positive]
  have packed : bits b.double = packedInfinity .binary64 .positive := by
    change UnpackedFloat.pack .binary64 b.unpacked = _
    rw [Binary.unpacked_of_pos pos, sign]
    unfold UnpackedFloat.pack
    simp only [Format.exponentBias]
    exact if_pos (by omega)
  have equal : b.double.toBits = infinity.toBits := by
    rw [← UInt64.toBitVec_inj]
    exact packed.trans (by decide)
  exact Float.toBits_inj.1 equal

/-! ## Negation -/

/-- The number with the other sign. -/
def Binary.opposite (b : Binary) : Binary := { b with negative := !b.negative }

theorem Binary.Canonical.opposite {b : Binary} (canonical : b.Canonical) : b.opposite.Canonical :=
  ⟨canonical.fits, canonical.least, canonical.most, canonical.normal⟩

theorem Binary.unpacked_opposite (b : Binary) : b.opposite.unpacked = b.unpacked.neg := by
  have sign : b.opposite.sign = -b.sign := by
    rw [Binary.sign, Binary.sign, Binary.opposite]
    cases b.negative <;> rfl
  rcases Nat.eq_zero_or_pos b.significand with zero | pos
  · rw [unpacked_of_zero zero, unpacked_of_zero (b := b.opposite) zero, sign, UnpackedFloat.neg]
  · rw [unpacked_of_pos pos, unpacked_of_pos (b := b.opposite) pos, sign, UnpackedFloat.neg]
    rfl

theorem neg_eq_double {x : Float} (finite : isFinite x = true) : -x = (Binary.ofFloat x).opposite.double := by
  rw [Binary.double, Binary.unpacked_opposite, ← unpack_eq finite]
  rfl

theorem ofFloat_neg {x : Float} (finite : isFinite x = true) : Binary.ofFloat (-x) = (Binary.ofFloat x).opposite := by
  rw [neg_eq_double finite, ofFloat_double (canonical_ofFloat finite).opposite]

theorem isFinite_neg {x : Float} (finite : isFinite x = true) : isFinite (-x) = true := by
  rw [neg_eq_double finite]
  exact isFinite_double (canonical_ofFloat finite).opposite

theorem signBit_neg {x : Float} (finite : isFinite x = true) : signBit (-x) = !signBit x := by
  rw [← negative_ofFloat, ofFloat_neg finite, ← negative_ofFloat]
  rfl

theorem isNaN_eq_false {x : Float} (finite : isFinite x = true) : x.isNaN = false := by
  have none : isFinite Float.nan = false := by decide
  rw [Float.isNaN_eq_decide_eq_nan, decide_eq_false_iff_not]
  rintro rfl
  exact Bool.false_ne_true (none.symm.trans finite)

/-! ## Values -/

theorem two_zpow_pos (e : Int) : (0 : ℚ) < 2 ^ e := zpow_pos (by norm_num) e

theorem rational_double {b : Binary} (canonical : b.Canonical) : rational b.double = b.value := by
  rw [rational, ofFloat_double canonical]

theorem Binary.value_of_positive {b : Binary} (positive : b.negative = false) :
    b.value = b.significand * 2 ^ b.exponent := by
  rw [Binary.value, positive]
  simp

/-- The value of a number is a multiple of any power of two that is not above its own. -/
theorem natCast_mul_zpow {t e : Int} (m : Nat) (below : t ≤ e) :
    (m * 2 ^ e : ℚ) = (m * 2 ^ (e - t).toNat : Nat) * 2 ^ t := by
  have split : e = ((e - t).toNat : Int) + t := by omega
  conv_lhs => rw [split]
  rw [zpow_add₀ (by norm_num), zpow_natCast]
  push_cast
  ring

/-- A canonical significand and exponent are determined by the value. -/
theorem Binary.eq_of_value_eq {a b : Binary} (first : a.Canonical) (second : b.Canonical)
    (equal : (a.significand * 2 ^ a.exponent : ℚ) = b.significand * 2 ^ b.exponent) :
    a.significand = b.significand ∧ a.exponent = b.exponent := by
  wlog order : a.exponent ≤ b.exponent generalizing a b
  · obtain ⟨same, place⟩ := this second first equal.symm (by omega)
    exact ⟨same.symm, place.symm⟩
  have scaled : a.significand = b.significand * 2 ^ (b.exponent - a.exponent).toNat := by
    rw [natCast_mul_zpow _ order] at equal
    exact_mod_cast mul_right_cancel₀ (two_zpow_pos a.exponent).ne' equal
  by_cases apart : a.exponent = b.exponent
  · rw [apart, Int.sub_self, Int.toNat_zero, Nat.pow_zero, Nat.mul_one] at scaled
    exact ⟨scaled, apart⟩
  · -- the number with the greater exponent has its hidden bit, and so the other one would not fit
    have least := first.least
    have fits := first.fits
    have hidden : 2 ^ 52 ≤ b.significand := second.normal.resolve_right (by omega)
    obtain ⟨k, gap⟩ : ∃ k, (b.exponent - a.exponent).toNat = k + 1 := ⟨(b.exponent - a.exponent).toNat - 1, by omega⟩
    have large : b.significand * 2 ≤ a.significand := by
      rw [scaled, gap, Nat.pow_succ, ← Nat.mul_assoc]
      exact Nat.mul_le_mul_right 2 (Nat.le_mul_of_pos_right _ (Nat.two_pow_pos k))
    omega

/-- Two finite doubles without a sign are the same if their values are. -/
theorem eq_of_rational_eq {x y : Float} (finiteX : isFinite x = true) (finiteY : isFinite y = true)
    (positiveX : signBit x = false) (positiveY : signBit y = false) (equal : rational x = rational y) : x = y := by
  rw [← negative_ofFloat] at positiveX positiveY
  rw [rational, rational, Binary.value_of_positive positiveX, Binary.value_of_positive positiveY] at equal
  obtain ⟨significand, exponent⟩ :=
    Binary.eq_of_value_eq (canonical_ofFloat finiteX) (canonical_ofFloat finiteY) equal
  rw [← double_ofFloat finiteX, ← double_ofFloat finiteY]
  exact congrArg Binary.double (Binary.mk.injEq .. ▸ ⟨positiveX.trans positiveY.symm, significand, exponent⟩)

end Ecma.Number
