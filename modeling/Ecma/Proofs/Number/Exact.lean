import Ecma.Proofs.Number.Arithmetic

/-!
# Operations without rounding

`IsExactly x q` says that a finite double has the value `q`. Truncation and remainder always have the exact result. Sums
and differences have it wherever it is a double, which integers below `2 ^ 53` are. Doubles without a sign are compared as
their values are, and a cast within its bounds gives the integer that it is given.
-/

namespace Ecma.Number

open Float.Model Float.Model.UnpackedFloat

/-- A finite double with this value. -/
structure IsExactly (x : Float) (q : ℚ) : Prop where
  finite : isFinite x = true
  value : rational x = q

/-- What a rational has before its point. -/
def towardZero (q : ℚ) : Int := if 0 ≤ q then ⌊q⌋ else ⌈q⌉

theorem towardZero_of_nonneg {q : ℚ} (nonneg : 0 ≤ q) : towardZero q = ⌊q⌋ := if_pos nonneg

theorem towardZero_neg (q : ℚ) : towardZero (-q) = -towardZero q := by
  rw [towardZero, towardZero]
  rcases lt_trichotomy q 0 with less | rfl | more
  · rw [if_pos (by linarith), if_neg (by linarith), Int.floor_neg]
  · simp
  · rw [if_neg (by linarith), if_pos more.le, Int.ceil_neg]

theorem towardZero_intCast (k : Int) : towardZero k = k := by
  rw [towardZero]
  split
  · exact Int.floor_intCast k
  · exact Int.ceil_intCast k

/-- Division of integers is division of rationals toward zero. -/
theorem towardZero_div (a : Int) (n : Nat) : towardZero (a / n) = a.tdiv n := by
  have natural (m : Nat) : towardZero (((m : Int) : ℚ) / n) = (m : Int) / n := by
    rw [towardZero_of_nonneg (by positivity), Rat.floor_intCast_div_natCast]
  obtain ⟨m, rfl | rfl⟩ := a.eq_nat_or_neg
  · rw [natural, Int.tdiv_eq_ediv_of_nonneg (Int.natCast_nonneg m)]
  · rw [Int.neg_tdiv, Int.tdiv_eq_ediv_of_nonneg (Int.natCast_nonneg m), ← natural, ← towardZero_neg, Int.cast_neg, neg_div]

/-! ## Signs and magnitudes -/

namespace Binary

/-- The value without its sign. -/
def size (b : Binary) : ℚ := b.significand * 2 ^ b.exponent

theorem size_nonneg (b : Binary) : 0 ≤ b.size := mul_nonneg (Nat.cast_nonneg _) (two_zpow_pos _).le

theorem value_eq_size {b : Binary} (positive : b.negative = false) : b.value = b.size := value_of_positive positive

theorem value_eq_neg_size {b : Binary} (negative : b.negative = true) : b.value = -b.size := by
  rw [value, size, negative]
  simp

theorem size_eq_zero_iff {b : Binary} : b.size = 0 ↔ b.significand = 0 := by
  simp [size, (two_zpow_pos b.exponent).ne']

theorem value_eq_zero_iff {b : Binary} : b.value = 0 ↔ b.significand = 0 := by
  rw [← size_eq_zero_iff]
  cases negative : b.negative with
  | false => rw [value_eq_size negative]
  | true => rw [value_eq_neg_size negative, neg_eq_zero]

/-- The magnitude rounded toward zero is the greatest integer that is not above it. -/
theorem floor_eq (b : Binary) : b.floor = ⌊b.size⌋ := by
  have quotient : b.size = ((b.significand * 2 ^ b.exponent.toNat : Nat) : Int) / (2 ^ (-b.exponent).toNat : Nat) := by
    rw [size, zpow_eq_div (by norm_num), ← mul_div_assoc]
    push_cast
    rfl
  rw [quotient, Rat.floor_intCast_div_natCast]
  rfl

theorem truncate_eq (b : Binary) : b.truncate = towardZero b.value := by
  rw [truncate]
  cases negative : b.negative with
  | false => rw [value_eq_size negative, towardZero_of_nonneg b.size_nonneg, ← floor_eq]; rfl
  | true => rw [value_eq_neg_size negative, towardZero_neg, towardZero_of_nonneg b.size_nonneg, ← floor_eq]; rfl

end Binary

theorem integerPart_eq {x : Float} (finite : isFinite x = true) : integerPart x = towardZero (rational x) := by
  rw [integerPart, if_pos finite, Binary.truncate_eq, rational]

theorem IsExactly.integerPart {x : Float} {k : Int} (exact : IsExactly x k) : integerPart x = k := by
  rw [integerPart_eq exact.finite, exact.value, towardZero_intCast]

/-! ## Assembling a double -/

theorem toBits_ofBits {u : UInt64} (finite : u.toNat / 2 ^ 52 % 2 ^ 11 ≠ 2047) : (Float.ofBits u).toBits = u := by
  have exponent : (@unpackExponent Format.binary64 u.toBitVec).toNat = u.toNat / 2 ^ 52 % 2 ^ 11 := by
    rw [unpackExponent_def, BitVec.extractLsb'_toNat, Nat.shiftRight_eq_div_pow]
    rfl
  have number : @isNaNBits Format.binary64 u.toBitVec = false := by
    rw [isNaNBits, decide_eq_false_iff_not]
    rintro ⟨last, -⟩
    rw [last] at exponent
    exact finite exponent.symm
  rw [← UInt64.toBitVec_inj]
  change UnpackedFloat.pack .binary64 (UnpackedFloat.unpack .binary64 u.toBitVec) = u.toBitVec
  rw [@pack_unpack Format.binary64 u.toBitVec (by decide), number, if_neg Bool.false_ne_true]

/-- The sign is put before sixty-three bits. -/
theorem toNat_signed (negative : Bool) {m : Nat} (small : m < 2 ^ 63) :
    ((if negative then 0x8000000000000000 else 0) ||| m.toUInt64 : UInt64).toNat = (if negative then 2 ^ 63 else 0) + m := by
  have word : m.toUInt64.toNat = m := Nat.mod_eq_of_lt (by omega)
  cases negative with
  | false => simp [word]
  | true =>
    rw [if_pos rfl, if_pos rfl, UInt64.toNat_or, word]
    exact (Nat.two_pow_add_eq_or_of_lt small 1).symm

/-- The fields of a double that is put together from them. -/
theorem ofFloat_assembled (negative : Bool) {field fraction : Nat} (finite : field < 2047) (small : fraction < 2 ^ 52) :
    let x := Float.ofBits ((if negative then 0x8000000000000000 else 0) ||| (field * 2 ^ 52 + fraction).toUInt64)
    isFinite x = true ∧ Binary.ofFloat x =
      if field = 0 then ⟨negative, fraction, -1074⟩ else ⟨negative, 2 ^ 52 + fraction, field - 1075⟩ := by
  intro x
  have bits : x.toBits.toNat = (if negative then 2 ^ 63 else 0) + (field * 2 ^ 52 + fraction) := by
    have word := toNat_signed negative (m := field * 2 ^ 52 + fraction) (by omega)
    rw [toBits_ofBits, word]
    rw [word]
    cases negative <;> simp <;> omega
  have exponent : exponentField x = field := by
    rw [exponentField_eq, bits]
    cases negative <;> simp <;> omega
  have rest : fractionField x = fraction := by
    rw [fractionField_eq, bits]
    cases negative <;> simp <;> omega
  have sign : signBit x = negative := by
    have high : (x.toBits >>> 63).toNat = x.toBits.toNat / 2 ^ 63 := by
      rw [UInt64.toNat_shiftRight, Nat.shiftRight_eq_div_pow]
      rfl
    have zero : x.toBits >>> 63 = 0 ↔ x.toBits.toNat / 2 ^ 63 = 0 := by
      rw [← UInt64.toNat_inj, high]
      rfl
    simp only [signBit, ne_eq, zero, bits]
    cases negative with
    | false => simp; omega
    | true => simp
  refine ⟨isFinite_iff.2 (by omega), ?_⟩
  split
  · rw [ofFloat_of_subnormal (by omega), sign, rest]
  · rw [ofFloat_of_normal (by omega), sign, rest, exponent]

/-- A significand that fits is moved up by no more than what keeps it so. -/
theorem lifted_lt {n k : Nat} (fits : n < 2 ^ 53) (bound : k ≤ 52 - n.log2) : n * 2 ^ k < 2 ^ 53 := by
  rcases Nat.eq_zero_or_pos n with rfl | pos
  · simp
  · have log := log2_le pos fits
    calc n * 2 ^ k ≤ n * 2 ^ (52 - n.log2) := Nat.mul_le_mul_left n (Nat.pow_le_pow_right (by decide) bound)
      _ < 2 ^ (n.log2 + 1) * 2 ^ (52 - n.log2) := Nat.mul_lt_mul_of_pos_right Nat.lt_log2_self (Nat.two_pow_pos _)
      _ = 2 ^ 53 := by rw [← Nat.pow_add]; congr 1; omega

/-- A significand is moved up to the hidden bit unless the least exponent is reached first. -/
theorem toFloat_of_lt {b : Binary} {k : Nat} (amount : min (52 - b.significand.log2) (b.exponent + 1074).toNat = k)
    (small : b.significand * 2 ^ k < 2 ^ 52) :
    isFinite b.toFloat = true ∧ Binary.ofFloat b.toFloat = ⟨b.negative, b.significand * 2 ^ k, -1074⟩ := by
  have assembled : b.toFloat = Float.ofBits ((if b.negative then 0x8000000000000000 else 0) |||
      (0 * 2 ^ 52 + b.significand * 2 ^ k).toUInt64) := by
    rw [Nat.zero_mul, Nat.zero_add]
    simp only [Binary.toFloat, amount]
    exact congrArg (fun m : Nat => Float.ofBits (_ ||| m.toUInt64)) (if_pos small)
  obtain ⟨finite, fields⟩ := ofFloat_assembled b.negative (show 0 < 2047 by decide) small
  rw [if_pos rfl] at fields
  exact ⟨assembled ▸ finite, assembled ▸ fields⟩

theorem toFloat_of_le {b : Binary} {k : Nat} (amount : min (52 - b.significand.log2) (b.exponent + 1074).toNat = k)
    (fits : b.significand < 2 ^ 53) (least : -1074 ≤ b.exponent) (most : b.exponent ≤ 971)
    (large : 2 ^ 52 ≤ b.significand * 2 ^ k) :
    isFinite b.toFloat = true ∧ Binary.ofFloat b.toFloat = ⟨b.negative, b.significand * 2 ^ k, b.exponent - k⟩ := by
  have moved := lifted_lt fits (k := k) (by omega)
  have assembled : b.toFloat = Float.ofBits ((if b.negative then 0x8000000000000000 else 0) |||
      ((b.exponent + 1075 - k).toNat * 2 ^ 52 + (b.significand * 2 ^ k - 2 ^ 52)).toUInt64) := by
    simp only [Binary.toFloat, amount]
    exact congrArg (fun m : Nat => Float.ofBits (_ ||| m.toUInt64)) (if_neg (Nat.not_lt.2 large))
  have field : (b.exponent + 1075 - k).toNat < 2047 := by omega
  have fraction : b.significand * 2 ^ k - 2 ^ 52 < 2 ^ 52 := by omega
  obtain ⟨finite, fields⟩ := ofFloat_assembled b.negative field fraction
  have place : ((b.exponent + 1075 - k).toNat : Int) - 1075 = b.exponent - k := by omega
  have normal : (b.exponent + 1075 - k).toNat ≠ 0 := by omega
  simp only [normal, if_false, Nat.add_sub_cancel' large, place] at fields
  exact ⟨assembled ▸ finite, assembled ▸ fields⟩

/-- A number that fits is assembled as it is. -/
theorem isExactly_toFloat {b : Binary} (fits : b.significand < 2 ^ 53) (least : -1074 ≤ b.exponent)
    (most : b.exponent ≤ 971) : IsExactly b.toFloat b.value := by
  obtain ⟨k, amount⟩ : ∃ k, min (52 - b.significand.log2) (b.exponent + 1074).toNat = k := ⟨_, rfl⟩
  have low : b.exponent - k ≤ b.exponent := by omega
  have back : (b.exponent - (b.exponent - k)).toNat = k := by omega
  have scaled := natCast_mul_zpow b.significand low
  rw [back] at scaled
  rcases Nat.lt_or_ge (b.significand * 2 ^ k) (2 ^ 52) with small | large
  · obtain ⟨finite, fields⟩ := toFloat_of_lt amount small
    refine ⟨finite, ?_⟩
    rw [rational, fields, Binary.value, Binary.value]
    rcases Nat.eq_zero_or_pos b.significand with zero | pos
    · simp [zero]
    · -- the hidden bit was not reached
      have stopped : b.exponent - k = -1074 := by
        have hidden := ((Nat.log2_eq_iff (lifted_pos pos _).ne').1 (log2_lifted pos fits)).1
        rw [lift] at hidden
        have short : k ≠ 52 - b.significand.log2 := by
          rintro rfl
          omega
        omega
      rw [scaled, stopped]
  · obtain ⟨finite, fields⟩ := toFloat_of_le amount fits least most large
    refine ⟨finite, ?_⟩
    rw [rational, fields, Binary.value, Binary.value, scaled]

/-! ## Truncation and remainder -/

/-- Truncation gives the integer before the point, whatever the magnitude. -/
theorem isExactly_truncate {x : Float} (finite : isFinite x = true) :
    IsExactly (truncate x) (towardZero (rational x)) := by
  have canonical := canonical_ofFloat finite
  have whole := integerPart_eq finite
  rw [integerPart, if_pos finite] at whole
  rw [truncate]
  generalize same : Binary.ofFloat x = b at canonical whole ⊢
  have value : rational x = b.value := congrArg Binary.value same
  by_cases fraction : b.exponent < 0
  · have small : b.floor < 2 ^ 53 := by
      have none : b.exponent.toNat = 0 := by omega
      rw [Binary.floor, none]
      exact (Nat.div_le_self _ _).trans_lt (by simpa using canonical.fits)
    have exact := isExactly_toFloat (b := ⟨b.negative, b.floor, 0⟩) small (by simp) (by simp)
    have equal : (⟨b.negative, b.floor, 0⟩ : Binary).value = b.truncate := by
      rw [Binary.value, Binary.truncate]
      cases b.negative <;> simp
    simp only [finite, fraction, Bool.true_and, decide_true, if_true]
    rwa [equal, whole] at exact
  · simp only [fraction, decide_false, Bool.and_false, Bool.false_eq_true, if_false]
    refine ⟨finite, ?_⟩
    obtain ⟨k, power⟩ : ∃ k : Nat, b.exponent = k := ⟨b.exponent.toNat, by omega⟩
    have integral : b.value = ((if b.negative then -1 else 1) * (b.significand * 2 ^ k) : Int) := by
      rw [Binary.value, power]
      cases b.negative <;> simp
    rw [value, integral, towardZero_intCast]

/-- Doubles that compare equal have the same value, the two zeros among them. -/
theorem rational_eq_of_beq {x y : Float} (equal : (x == y) = true) : rational x = rational y := by
  have zero : rational 0 = 0 := Binary.value_eq_zero_iff.2 (by decide)
  have negativeZero : rational (-0) = 0 := Binary.value_eq_zero_iff.2 (by decide)
  rcases (Float.beq_iff_ne_nan_and_eq.1 equal).2.2 with rfl | ⟨rfl, rfl⟩ | ⟨rfl, rfl⟩
  · rfl
  · rw [zero, negativeZero]
  · rw [zero, negativeZero]

theorem isFinite_eq_of_beq {x y : Float} (equal : (x == y) = true) : isFinite x = isFinite y := by
  rcases (Float.beq_iff_ne_nan_and_eq.1 equal).2.2 with rfl | ⟨rfl, rfl⟩ | ⟨rfl, rfl⟩
  · rfl
  · decide
  · decide

theorem rational_eq_zero_of_beq {x : Float} (equal : (x == 0.0) = true) : rational x = 0 :=
  (rational_eq_of_beq equal).trans (Binary.value_eq_zero_iff.2 (by decide))

theorem Binary.size_eq_unitsOf {b : Binary} {e : Int} (below : e ≤ b.exponent) : b.size = b.unitsOf e * 2 ^ e :=
  natCast_mul_zpow b.significand below

/-- The remainder of two multiples of a number is a multiple of it. -/
theorem mod_mul_eq_sub {m n : Nat} {u : ℚ} (ne : u ≠ 0) :
    ((m % n : Nat) : ℚ) * u = m * u - n * u * towardZero (m * u / (n * u)) := by
  have quotient : towardZero (((m : Int) : ℚ) / n) = (m / n : Nat) := by
    rw [towardZero_div, Int.tdiv_eq_ediv_of_nonneg (Int.natCast_nonneg m)]
    rfl
  have division : (m : ℚ) = n * (m / n : Nat) + (m % n : Nat) := by exact_mod_cast (Nat.div_add_mod m n).symm
  rw [Int.cast_natCast] at quotient
  rw [mul_div_mul_right _ _ ne, quotient, Int.cast_natCast]
  linear_combination -u * division

/-- The remainder is what truncated division leaves, exactly. -/
theorem isExactly_remainder {x y : Float} (finiteX : isFinite x = true) (finiteY : isFinite y = true)
    (nonzero : rational y ≠ 0) :
    IsExactly (remainder x y) (rational x - rational y * towardZero (rational x / rational y)) := by
  have number := isNaN_eq_false finiteY
  have divisor : (y == 0.0) = false := by
    rw [← Bool.not_eq_true]
    exact fun zero => nonzero (rational_eq_zero_of_beq zero)
  rw [remainder]
  simp only [finiteX, finiteY, number, divisor, Bool.not_true, Bool.or_self, Bool.false_or, Bool.false_eq_true, if_false]
  split
  · rename_i zero
    have none := rational_eq_zero_of_beq zero
    refine ⟨finiteX, ?_⟩
    rw [none, zero_div]
    simp [towardZero]
  · have first := canonical_ofFloat finiteX
    have second := canonical_ofFloat finiteY
    rw [rational, rational] at *
    generalize Binary.ofFloat x = a at *
    generalize Binary.ofFloat y = b at *
    have posB : 0 < b.significand := Nat.pos_of_ne_zero fun zero => nonzero (Binary.value_eq_zero_iff.2 zero)
    generalize least : min a.exponent b.exponent = e
    have belowA : e ≤ a.exponent := by omega
    have belowB : e ≤ b.exponent := by omega
    have fits : a.unitsOf e % b.unitsOf e < 2 ^ 53 := by
      rcases le_total a.exponent b.exponent with order | order
      · have whole : a.unitsOf e = a.significand := by
          rw [Binary.unitsOf, show (a.exponent - e).toNat = 0 by omega]
          exact Nat.mul_one _
        exact (Nat.mod_le _ _).trans_lt (whole ▸ first.fits)
      · have whole : b.unitsOf e = b.significand := by
          rw [Binary.unitsOf, show (b.exponent - e).toNat = 0 by omega]
          exact Nat.mul_one _
        rw [whole]
        exact (Nat.mod_lt _ posB).trans second.fits
    have exact := isExactly_toFloat (b := ⟨a.negative, a.unitsOf e % b.unitsOf e, e⟩) fits
      (by have := first.least; have := second.least; simp only; omega) (by have := first.most; simp only; omega)
    have rest : ((a.unitsOf e % b.unitsOf e : Nat) : ℚ) * 2 ^ e = a.size - b.size * towardZero (a.size / b.size) := by
      rw [Binary.size_eq_unitsOf belowA, Binary.size_eq_unitsOf belowB, mod_mul_eq_sub (two_zpow_pos e).ne']
    have value : (⟨a.negative, a.unitsOf e % b.unitsOf e, e⟩ : Binary).value =
        a.value - b.value * towardZero (a.value / b.value) := by
      rw [Binary.value, rest]
      cases signA : a.negative <;> cases signB : b.negative <;>
        simp only [Binary.value_eq_size, Binary.value_eq_neg_size, signA, signB, neg_div, div_neg,
          towardZero_neg, Int.cast_neg, if_true, Bool.false_eq_true, if_false] <;> ring
    exact value ▸ exact

/-! ## Sums and differences -/

theorem IsExactly.neg {x : Float} {q : ℚ} (exact : IsExactly x q) : IsExactly (-x) (-q) := by
  refine ⟨isFinite_neg exact.finite, ?_⟩
  rw [rational, ofFloat_neg exact.finite, ← exact.value, rational, Binary.opposite, Binary.value, Binary.value]
  cases (Binary.ofFloat x).negative <;> simp

theorem Unsigned.lt_overflow {x : Float} (unsigned : Unsigned x) : rational x < overflow := by
  rw [unsigned.rounded.lt_overflow_iff, carried_of_lt unsigned.canonical.fits]
  exact unsigned.canonical.most

theorem isExactly_zero (sign : Sign) : IsExactly (.ofModel (.pack (.zero sign))) 0 := by
  cases sign with
  | positive => exact ⟨by decide, Binary.value_eq_zero_iff.2 (by decide)⟩
  | negative => exact ⟨by decide, Binary.value_eq_zero_iff.2 (by decide)⟩

theorem round_negative (m : Nat) (e : Int) :
    UnpackedFloat.round .binary64 .negative m e = (UnpackedFloat.round .binary64 .positive m e).neg := by
  simp only [UnpackedFloat.round, roundWithAccuracy]
  split <;> rfl

/-- What is a double already is not rounded, with either sign. -/
theorem isExactly_round {m : Nat} {e : Int} {y : Float} (pos : 0 < m) (unsigned : Unsigned y)
    (same : rational y = m * 2 ^ e) (sign : Sign) :
    IsExactly (.ofModel (.pack (UnpackedFloat.round .binary64 sign m e))) (sign.apply m * 2 ^ e) := by
  obtain ⟨t, k, rounded, equal⟩ := round_eq pos e
  have canonical := rounded.canonical_carried (rounded.lt_overflow_iff.1 (same ▸ unsigned.lt_overflow))
  have value : rational (carried k t).double = m * 2 ^ e := by
    rw [← rounded.eq_of_isNearest (same ▸ unsigned.isNearest), same]
  have exact : IsExactly (carried k t).double (m * 2 ^ e) := ⟨isFinite_double canonical, value⟩
  cases sign with
  | positive =>
    rw [equal]
    exact exact
  | negative =>
    have opposite : Float.ofModel (.pack (carried k t).unpacked.neg) = -(carried k t).double := by
      rw [neg_eq_double exact.finite, ofFloat_double canonical, Binary.double, Binary.unpacked_opposite]
    rw [round_negative, equal, opposite]
    simpa [Sign.apply] using exact.neg

theorem isExactly_normalize {k e : Int} {y : Float} (unsigned : Unsigned y) (same : rational y = |(k : ℚ) * 2 ^ e|) :
    IsExactly (.ofModel (.pack (UnpackedFloat.normalize .binary64 k e .positive))) (k * 2 ^ e) := by
  have power := two_zpow_pos e
  rw [UnpackedFloat.normalize]
  rcases lt_trichotomy k 0 with less | rfl | more
  · obtain ⟨n, natural⟩ : ∃ n : Nat, k = -n := ⟨(-k).toNat, by omega⟩
    have amount : (-k).toNat = n := by omega
    have size : rational y = n * 2 ^ e := by
      rw [same, natural, abs_mul, abs_of_pos power]
      simp
    have exact := isExactly_round (by omega) unsigned size .negative
    rw [Int.compare_eq_lt.2 less]
    simp only [amount]
    simpa [Sign.apply, natural] using exact
  · simpa using isExactly_zero .positive
  · obtain ⟨n, rfl⟩ := Int.eq_ofNat_of_zero_le more.le
    have size : rational y = n * 2 ^ e := by
      rw [same, abs_mul, abs_of_pos power]
      simp
    have exact := isExactly_round (Int.natCast_pos.1 more) unsigned size .positive
    rw [Int.compare_eq_gt.2 more]
    simpa [Sign.apply] using exact

/-- A mantissa that is moved up stands for the same number. -/
theorem apply_decreaseExponent (sign : Sign) (m : Nat) {e t : Int} (below : t ≤ e) :
    (sign.apply (decreaseExponent m e t).1 * 2 ^ t : ℚ) = sign.apply m * 2 ^ e := by
  have moved := decreaseExponent_value m below
  cases sign with
  | positive => simpa [Sign.apply] using moved
  | negative => simpa [Sign.apply] using moved

theorem Binary.value_eq_apply (b : Binary) : b.value = b.sign.apply b.significand * 2 ^ b.exponent := by
  rw [value, sign]
  cases b.negative <;> simp [Sign.apply]

/-- A sum that is a double is not rounded. -/
theorem isExactly_add {x y z : Float} (finiteX : isFinite x = true) (finiteY : isFinite y = true)
    (unsigned : Unsigned z) (same : rational z = |rational x + rational y|) :
    IsExactly (x + y) (rational x + rational y) := by
  have keptX := double_ofFloat finiteX
  have keptY := double_ofFloat finiteY
  rw [Binary.double] at keptX keptY
  rw [add_eq, unpack_eq finiteX, unpack_eq finiteY]
  rcases Nat.eq_zero_or_pos (Binary.ofFloat x).significand with zeroX | posX
  · have noneX : rational x = 0 := Binary.value_eq_zero_iff.2 zeroX
    rw [Binary.unpacked_of_zero zeroX, noneX, zero_add]
    rcases Nat.eq_zero_or_pos (Binary.ofFloat y).significand with zeroY | posY
    · have noneY : rational y = 0 := Binary.value_eq_zero_iff.2 zeroY
      rw [Binary.unpacked_of_zero zeroY, noneY, UnpackedFloat.add]
      split <;> exact isExactly_zero _
    · rw [Binary.unpacked_of_pos posY] at keptY ⊢
      exact ⟨(congrArg isFinite keptY).trans finiteY, congrArg rational keptY⟩
  · rcases Nat.eq_zero_or_pos (Binary.ofFloat y).significand with zeroY | posY
    · have noneY : rational y = 0 := Binary.value_eq_zero_iff.2 zeroY
      rw [Binary.unpacked_of_pos posX] at keptX ⊢
      rw [Binary.unpacked_of_zero zeroY, noneY, add_zero]
      exact ⟨(congrArg isFinite keptX).trans finiteX, congrArg rational keptX⟩
    · rw [Binary.unpacked_of_pos posX, Binary.unpacked_of_pos posY]
      generalize sameX : Binary.ofFloat x = a at *
      generalize sameY : Binary.ofFloat y = b at *
      have sum : rational x + rational y =
          ((a.sign.apply (decreaseExponent a.significand a.exponent (min a.exponent b.exponent)).1 +
            b.sign.apply (decreaseExponent b.significand b.exponent (min a.exponent b.exponent)).1 : Int) : ℚ) *
              2 ^ min a.exponent b.exponent := by
        rw [Int.cast_add, add_mul, apply_decreaseExponent _ _ (min_le_left ..), apply_decreaseExponent _ _ (min_le_right ..),
          ← Binary.value_eq_apply, ← Binary.value_eq_apply, rational, rational, sameX, sameY]
      rw [sum] at same ⊢
      exact isExactly_normalize unsigned same

/-- Integers that fit are added exactly. -/
theorem IsExactly.add {x y : Float} {a b : Int} (first : IsExactly x a) (second : IsExactly y b)
    (fits : (a + b).natAbs < 2 ^ 53) : IsExactly (x + y) (a + b : Int) := by
  obtain ⟨z, unsigned, value⟩ := exists_unsigned fits (Nat.zero_le 971)
  have sum : rational x + rational y = (a + b : Int) := by
    rw [first.value, second.value, Int.cast_add]
  have same : rational z = |rational x + rational y| := by
    rw [sum, value, pow_zero, mul_one, Nat.cast_natAbs, Int.cast_abs]
  exact sum ▸ isExactly_add first.finite second.finite unsigned same

theorem sub_unpacked (u v : UnpackedFloat) :
    UnpackedFloat.sub .binary64 u v = UnpackedFloat.add .binary64 u v.neg := by
  cases u with
  | notANumber => rfl
  | infinity => cases v <;> rfl
  | zero => cases v <;> rfl
  | finite sign m e pos =>
    cases v with
    | notANumber => rfl
    | infinity => rfl
    | zero => rfl
    | finite sign' m' e' pos' =>
      have opposite (n : Int) : (-sign').apply n = -sign'.apply n := by cases sign' <;> simp [Sign.apply]
      simp only [UnpackedFloat.sub, UnpackedFloat.neg, UnpackedFloat.add, opposite, Int.sub_eq_add_neg]

theorem sub_eq_add_neg_double {x y : Float} (finite : isFinite y = true) : x - y = x + -y := by
  have opposite : (-y).toModel.unpack = y.toModel.unpack.neg := by
    rw [unpack_eq (isFinite_neg finite), ofFloat_neg finite, Binary.unpacked_opposite, unpack_eq finite]
  rw [add_eq, opposite, ← sub_unpacked]
  rfl

theorem IsExactly.sub {x y : Float} {a b : Int} (first : IsExactly x a) (second : IsExactly y b)
    (fits : (a - b).natAbs < 2 ^ 53) : IsExactly (x - y) (a - b : Int) := by
  have opposite : IsExactly (-y) (-b : Int) := by
    rw [Int.cast_neg]
    exact second.neg
  rw [sub_eq_add_neg_double second.finite, Int.sub_eq_add_neg]
  exact first.add opposite (by omega)

/-! ## Order and casts -/

/-- Of two canonical numbers the one with the greater exponent is greater. -/
theorem Binary.size_lt_of_exponent_lt {a b : Binary} (first : a.Canonical) (second : b.Canonical)
    (less : a.exponent < b.exponent) : a.size < b.size := by
  have least := first.least
  have hidden : 2 ^ 52 ≤ b.significand := second.normal.resolve_right (by omega)
  have fits : (a.significand : ℚ) < 2 ^ 53 := by exact_mod_cast first.fits
  have large : (2 ^ 52 : ℚ) ≤ b.significand := by exact_mod_cast hidden
  calc a.size < 2 ^ 53 * 2 ^ a.exponent := mul_lt_mul_of_pos_right fits (two_zpow_pos _)
    _ = 2 ^ 52 * 2 ^ (a.exponent + (1 : Nat)) := by rw [two_zpow_add_natCast]; ring
    _ ≤ 2 ^ 52 * 2 ^ b.exponent := mul_le_mul_of_nonneg_left (two_zpow_le (by omega)) (by positivity)
    _ ≤ b.size := mul_le_mul_of_nonneg_right large (two_zpow_pos _).le

theorem Binary.size_le_iff {a b : Binary} (first : a.Canonical) (second : b.Canonical) :
    ((compare a.exponent b.exponent).then (compare a.significand b.significand)).isLE = true ↔ a.size ≤ b.size := by
  rcases lt_trichotomy a.exponent b.exponent with less | same | more
  · rw [Int.compare_eq_lt.2 less]
    exact iff_of_true rfl (size_lt_of_exponent_lt first second less).le
  · rw [Int.compare_eq_eq.2 same, Ordering.eq_then, Nat.isLE_compare, size, size, same,
      mul_le_mul_iff_of_pos_right (two_zpow_pos _), Nat.cast_le]
  · rw [Int.compare_eq_gt.2 more]
    exact iff_of_false Bool.false_ne_true (size_lt_of_exponent_lt second first more).not_ge

theorem Binary.size_pos {b : Binary} (pos : 0 < b.significand) : 0 < b.size :=
  lt_of_le_of_ne b.size_nonneg (Ne.symm (mt size_eq_zero_iff.1 pos.ne'))

theorem Binary.sign_eq_positive {b : Binary} (positive : b.negative = false) : b.sign = .positive := by
  simp [sign, positive]

theorem Binary.sign_eq_negative {b : Binary} (negative : b.negative = true) : b.sign = .negative := by
  simp [sign, negative]

/-- Numbers are compared by sign, then by exponent, then by significand. -/
theorem Binary.le_unpacked_iff {a b : Binary} (first : a.Canonical) (second : b.Canonical) :
    a.unpacked.le b.unpacked = true ↔ a.value ≤ b.value := by
  rcases Nat.eq_zero_or_pos a.significand with zeroA | posA
  · rw [unpacked_of_zero zeroA, value_eq_zero_iff.2 zeroA]
    rcases Nat.eq_zero_or_pos b.significand with zeroB | posB
    · rw [unpacked_of_zero zeroB, value_eq_zero_iff.2 zeroB]
      exact iff_of_true rfl le_rfl
    · have sizeB := size_pos posB
      rw [unpacked_of_pos posB]
      cases signB : b.negative with
      | false =>
        rw [sign_eq_positive signB, value_eq_size signB]
        exact iff_of_true rfl sizeB.le
      | true =>
        rw [sign_eq_negative signB, value_eq_neg_size signB]
        exact iff_of_false Bool.false_ne_true (by linarith)
  · have sizeA := size_pos posA
    rw [unpacked_of_pos posA]
    rcases Nat.eq_zero_or_pos b.significand with zeroB | posB
    · rw [unpacked_of_zero zeroB, value_eq_zero_iff.2 zeroB]
      cases signA : a.negative with
      | false =>
        rw [sign_eq_positive signA, value_eq_size signA]
        exact iff_of_false Bool.false_ne_true (by linarith)
      | true =>
        rw [sign_eq_negative signA, value_eq_neg_size signA]
        exact iff_of_true rfl (by linarith)
    · have sizeB := size_pos posB
      rw [unpacked_of_pos posB]
      cases signA : a.negative with
      | false =>
        rw [sign_eq_positive signA, value_eq_size signA]
        cases signB : b.negative with
        | false =>
          rw [sign_eq_positive signB, value_eq_size signB]
          exact size_le_iff first second
        | true =>
          rw [sign_eq_negative signB, value_eq_neg_size signB]
          exact iff_of_false Bool.false_ne_true (by linarith)
      | true =>
        rw [sign_eq_negative signA, value_eq_neg_size signA]
        cases signB : b.negative with
        | false =>
          rw [sign_eq_positive signB, value_eq_size signB]
          exact iff_of_true rfl (by linarith)
        | true =>
          rw [sign_eq_negative signB, value_eq_neg_size signB, neg_le_neg_iff, ← size_le_iff second first]
          change ((compare a.exponent b.exponent).then (compare a.significand b.significand)).swap.isLE = true ↔ _
          rw [Ordering.swap_then, Int.compare_swap, Nat.compare_swap]

/-- Finite doubles are in the order of their values. -/
theorem le_iff_rational_le {x y : Float} (finiteX : isFinite x = true) (finiteY : isFinite y = true) :
    x ≤ y ↔ rational x ≤ rational y := by
  have unpacked : x ≤ y ↔ x.toModel.unpack.le y.toModel.unpack = true := decide_eq_true_iff
  rw [unpacked, unpack_eq finiteX, unpack_eq finiteY]
  exact Binary.le_unpacked_iff (canonical_ofFloat finiteX) (canonical_ofFloat finiteY)

theorem saturate_eq {x : Float} {least most k : Int} (exact : IsExactly x k) (low : least ≤ k) (high : k ≤ most) :
    saturate least most x = k := by
  rw [saturate, exact.finite, exact.integerPart, Bool.true_or, if_pos rfl]
  omega

end Ecma.Number
