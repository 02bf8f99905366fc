import Ecma.Value
import Mathlib

/-!
# Doubles

SameValue tells doubles apart exactly where they differ, since there is one NaN and the two zeros have their signs. A
natural number below `2 ^ 53` is a double: nothing of it is lost when it is made one, adding one to it does not round,
and it is read back as the number it was. All of that rests on one fact, `round_exact`: a number that fits comes out of
rounding as its normal form, whichever mantissa and exponent it is given by.
-/

namespace Ecma

theorem Value.same_number {x y : Float} : (Value.number x).same (.number y) = true ↔ x = y := by
  have zero : Number.signBit 0 = false := by decide
  have negativeZero : Number.signBit (-0) = true := by decide
  simp only [same, Bool.or_eq_true, Bool.and_eq_true, Float.isNaN_eq_decide_eq_nan, decide_eq_true_eq, beq_iff_eq]
  constructor
  · rintro (⟨rfl, rfl⟩ | ⟨equal, sign⟩)
    · rfl
    · obtain ⟨_, _, rfl | ⟨rfl, rfl⟩ | ⟨rfl, rfl⟩⟩ := Float.beq_iff_ne_nan_and_eq.1 equal
      · rfl
      · cases zero.symm.trans (sign.trans negativeZero)
      · cases negativeZero.symm.trans (sign.trans zero)
  · rintro rfl
    by_cases nan : x = .nan
    · exact .inl ⟨nan, nan⟩
    · exact .inr ⟨Float.beq_self_iff.2 nan, rfl⟩

/-- SameValue is equality. -/
theorem Value.same_iff {v w : Value} : v.same w = true ↔ v = w := by
  cases v with
  | number x =>
    cases w with
    | number y => rw [same_number, number.injEq]
    | _ => simp [same, strictEquals]
  | _ => cases w <;> simp [same, strictEquals]

namespace Number

open Float.Model Float.Model.UnpackedFloat

/-- How far a natural number is moved up for its leading one to become the hidden bit. -/
def lift (n : Nat) : Nat := 52 - n.log2

theorem lifted_pos {n : Nat} (pos : 0 < n) (k : Nat) : 0 < n * 2 ^ k := Nat.mul_pos pos (Nat.two_pow_pos k)

/-- The normal form of a natural number below `2 ^ 53`. -/
def exactly (n : Nat) : UnpackedFloat :=
  if pos : 0 < n then .finite .positive (n * 2 ^ lift n) (-lift n) (lifted_pos pos _) else .zero .positive

theorem exactly_of_pos {n : Nat} (pos : 0 < n) :
    exactly n = .finite .positive (n * 2 ^ lift n) (-lift n) (lifted_pos pos _) := dif_pos pos

theorem log2_mul_two_pow {n : Nat} (pos : 0 < n) (k : Nat) : (n * 2 ^ k).log2 = n.log2 + k := by
  have ne : n ≠ 0 := Nat.ne_of_gt pos
  refine (Nat.log2_eq_iff (Nat.ne_of_gt (lifted_pos pos k))).2 ⟨?_, ?_⟩
  · rw [Nat.pow_add]
    exact Nat.mul_le_mul_right _ (Nat.log2_self_le ne)
  · rw [Nat.add_right_comm, Nat.pow_add]
    exact Nat.mul_lt_mul_of_pos_right Nat.lt_log2_self (Nat.two_pow_pos k)

theorem log2_le {n : Nat} (pos : 0 < n) (fits : n < 2 ^ 53) : n.log2 ≤ 52 :=
  Nat.le_of_lt_succ ((Nat.log2_lt (Nat.ne_of_gt pos)).2 fits)

theorem log2_lifted {n : Nat} (pos : 0 < n) (fits : n < 2 ^ 53) : (n * 2 ^ lift n).log2 = 52 := by
  rw [log2_mul_two_pow pos, lift]
  exact Nat.add_sub_cancel' (log2_le pos fits)

/-! ## Rounding -/

theorem shiftRight_exact (m k : Nat) : (⟨m * 2 ^ k, false, false⟩ : ExtendedMantissa) >>> k = ⟨m, false, false⟩ := by
  change Nat.repeat ExtendedMantissa.shiftRightOne k _ = _
  induction k generalizing m with
  | zero => rw [Nat.pow_zero, Nat.mul_one, Nat.repeat]
  | succ k ih =>
    have moved : m * 2 ^ (k + 1) = m * 2 * 2 ^ k := by rw [Nat.pow_succ', Nat.mul_assoc]
    rw [moved, Nat.repeat, ih]
    simp [ExtendedMantissa.shiftRightOne]

/-- The exponent that a number asks for does not depend on how it is written. -/
theorem targetExponent_exact {n : Nat} (pos : 0 < n) (fits : n < 2 ^ 53) (k : Nat) :
    Format.binary64.targetExponent (totalExponent (n * 2 ^ k) (-k)) = -lift n := by
  have small := log2_le pos fits
  simp only [Format.targetExponent, totalExponent, log2_mul_two_pow pos, Format.mantissaBits, Format.minExponent, lift]
  omega

theorem shiftToTargetExponent_exact {n : Nat} (pos : 0 < n) (fits : n < 2 ^ 53) {k : Nat} (low : lift n ≤ k) :
    shiftToTargetExponent .binary64 (n * 2 ^ k) (-k) .exact = (⟨n * 2 ^ lift n, false, false⟩, -(lift n : Int)) := by
  have amount : (-(lift n : Int) - -k).toNat = k - lift n := by omega
  have moved : n * 2 ^ k = n * 2 ^ lift n * 2 ^ (k - lift n) := by
    rw [Nat.mul_assoc, ← Nat.pow_add, Nat.add_sub_cancel' low]
  rw [shiftToTargetExponent, targetExponent_exact pos fits, shiftToExponent, amount, moved]
  refine Prod.ext (shiftRight_exact ..) ?_
  change -(k : Int) + (k - lift n : Nat) = -lift n
  omega

theorem roundWithAccuracy_exact {n : Nat} (pos : 0 < n) (fits : n < 2 ^ 53) {k : Nat} (low : lift n ≤ k) :
    roundWithAccuracy .binary64 .positive (n * 2 ^ k) (-k) .exact = exactly n := by
  -- the second shift finds the exponent right already
  have again := shiftToTargetExponent_exact pos fits (Nat.le_refl (lift n))
  have rounded : ExtendedMantissa.roundedMantissa ⟨n * 2 ^ lift n, false, false⟩ = n * 2 ^ lift n := rfl
  simp only [roundWithAccuracy, shiftToTargetExponent_exact pos fits low, rounded, again]
  rw [dif_neg (Nat.ne_of_gt (lifted_pos pos _)), exactly_of_pos pos]

/-- A number that fits is rounded to its normal form. -/
theorem round_exact {n : Nat} (pos : 0 < n) (fits : n < 2 ^ 53) (k : Nat) :
    UnpackedFloat.round .binary64 .positive (n * 2 ^ k) (-k) = exactly n := by
  have amount : (-(k : Int) - -lift n).toNat = lift n - k := by omega
  have mantissa : (n * 2 ^ k) <<< (lift n - k) = n * 2 ^ (k + (lift n - k)) := by
    rw [Nat.shiftLeft_eq, Nat.mul_assoc, ← Nat.pow_add]
  have exponent : -(k : Int) - (lift n - k : Nat) = -(k + (lift n - k) : Nat) := by omega
  rw [UnpackedFloat.round, targetExponent_exact pos fits, decreaseExponent, amount, mantissa, exponent]
  exact roundWithAccuracy_exact pos fits (by omega)

theorem normalize_exact {n : Nat} (fits : n < 2 ^ 53) (k : Nat) :
    UnpackedFloat.normalize .binary64 (n * 2 ^ k : Nat) (-k) .positive = exactly n := by
  rcases Nat.eq_zero_or_pos n with rfl | pos
  · rw [Nat.zero_mul]
    rfl
  · have positive : compare ((n * 2 ^ k : Nat) : Int) 0 = .gt :=
      Int.compare_eq_gt.2 (Int.natCast_pos.2 (lifted_pos pos k))
    rw [UnpackedFloat.normalize, positive]
    exact round_exact pos fits k

/-! ## The bits of a number -/

/-- A mantissa that has its hidden bit is the hidden bit before the others. -/
theorem append_hidden {m : Nat} (hidden : m.log2 = 52) : (1#1 ++ BitVec.ofNat 52 m).toNat = m := by
  have ne : m ≠ 0 := by
    rintro rfl
    cases hidden
  obtain ⟨low, high⟩ := (Nat.log2_eq_iff ne).1 hidden
  rw [BitVec.toNat_append, ← Nat.shiftLeft_add_eq_or_of_lt (BitVec.isLt _), BitVec.toNat_ofNat]
  change 2 ^ 52 + m % 2 ^ 52 = m
  omega

theorem unpack_normal {b m : Nat} (pos : 0 < m) (hidden : m.log2 = 52) (low : 0 < b) (high : b < 2047) :
    UnpackedFloat.unpack .binary64 (packComponents .binary64 .positive (BitVec.ofNat 11 b) (BitVec.ofNat 52 m)) =
      .finite .positive m (b - 1075) pos := by
  have held : (BitVec.ofNat 11 b).toNat = b := by rw [BitVec.toNat_ofNat, Nat.mod_eq_of_lt (by omega)]
  have notLast : BitVec.ofNat 11 b ≠ -1#11 := by
    intro last
    have : b = 2047 := held ▸ congrArg BitVec.toNat last
    omega
  have notFirst : BitVec.ofNat 11 b ≠ 0#11 := by
    intro first
    have : b = 0 := held ▸ congrArg BitVec.toNat first
    omega
  simp only [UnpackedFloat.unpack, unpackMantissa_packComponents, unpackExponent_packComponents,
    unpackSign_packComponents, if_neg notLast, if_neg notFirst, held, append_hidden hidden]
  rfl

theorem pack_exactly {n : Nat} (pos : 0 < n) (fits : n < 2 ^ 53) :
    UnpackedFloat.pack .binary64 (exactly n) =
      packComponents .binary64 .positive (BitVec.ofNat 11 (1075 - lift n)) (BitVec.ofNat 52 (n * 2 ^ lift n)) := by
  have small : lift n ≤ 52 := Nat.sub_le ..
  have biased : (-(lift n : Int) + Format.binary64.exponentBias + (52 : Nat)).toNat = 1075 - lift n := by
    simp only [Format.exponentBias]
    omega
  have normal : (n * 2 ^ lift n).log2 + 1 = Format.binary64.mantissaBits := congrArg (· + 1) (log2_lifted pos fits)
  rw [exactly_of_pos pos]
  unfold UnpackedFloat.pack
  simp only [biased]
  rw [if_neg (by omega), if_pos normal]

theorem unpack_pack_exactly {n : Nat} (fits : n < 2 ^ 53) : (Float.Model.pack (exactly n)).unpack = exactly n := by
  rcases Nat.eq_zero_or_pos n with rfl | pos
  · rfl
  · have small : lift n ≤ 52 := Nat.sub_le ..
    change UnpackedFloat.unpack .binary64 (UnpackedFloat.pack .binary64 (exactly n)) = _
    rw [pack_exactly pos fits, unpack_normal (lifted_pos pos _) (log2_lifted pos fits) (by omega) (by omega),
      exactly_of_pos pos]
    congr 1
    omega

/-! ## Operations -/

theorem mul_exactly_one {n : Nat} (fits : n < 2 ^ 53) :
    UnpackedFloat.mul .binary64 (exactly n) (exactly 1) = exactly n := by
  rcases Nat.eq_zero_or_pos n with rfl | pos
  · rfl
  · have mantissa : n * 2 ^ lift n * (1 * 2 ^ lift 1) = n * 2 ^ (lift n + lift 1) := by
      rw [Nat.one_mul, Nat.mul_assoc, ← Nat.pow_add]
    have exponent : -(lift n : Int) + -lift 1 = -(lift n + lift 1 : Nat) := by omega
    have rounded := roundWithAccuracy_exact pos fits (Nat.le_add_right (lift n) (lift 1))
    rw [← mantissa, ← exponent, exactly_of_pos pos] at rounded
    rw [exactly_of_pos pos, exactly_of_pos Nat.one_pos]
    exact rounded

/-- Moving a mantissa further up leaves the number as it is. -/
theorem decreaseExponent_exact (n : Nat) {j k : Nat} (below : j ≤ k) :
    (decreaseExponent (n * 2 ^ j) (-j) (-k)).1 = n * 2 ^ k := by
  have amount : (-(j : Int) - -k).toNat = k - j := by omega
  rw [decreaseExponent, amount, Nat.shiftLeft_eq, Nat.mul_assoc, ← Nat.pow_add, Nat.add_sub_cancel' below]

theorem add_exactly {a b : Nat} (fits : a + b < 2 ^ 53) :
    UnpackedFloat.add .binary64 (exactly a) (exactly b) = exactly (a + b) := by
  rcases Nat.eq_zero_or_pos a with rfl | posA
  · rw [Nat.zero_add]
    rcases Nat.eq_zero_or_pos b with rfl | posB
    · rfl
    · rw [exactly_of_pos posB]
      rfl
  · rcases Nat.eq_zero_or_pos b with rfl | posB
    · rw [Nat.add_zero, exactly_of_pos posA]
      rfl
    · let k := max (lift a) (lift b)
      have common : min (-(lift a : Int)) (-(lift b : Int)) = -(k : Nat) := by omega
      have sum : ((a * 2 ^ k : Nat) : Int) + (b * 2 ^ k : Nat) = ((a + b) * 2 ^ k : Nat) := by
        rw [Nat.add_mul, Int.natCast_add]
      rw [exactly_of_pos posA, exactly_of_pos posB]
      simp only [UnpackedFloat.add, common, Sign.apply]
      rw [decreaseExponent_exact a (Nat.le_max_left ..), decreaseExponent_exact b (Nat.le_max_right ..), sum]
      exact normalize_exact fits k

theorem toInt_exactly {n : Nat} (least most : Int) : (exactly n).toInt least most = n := by
  rcases Nat.eq_zero_or_pos n with rfl | pos
  · rfl
  · have amount : (0 - -(lift n : Int)).toNat = lift n := by omega
    have kept : decreaseExponent (n * 2 ^ lift n) (-lift n) 0 = (n * 2 ^ lift n, -(lift n : Int)) := by
      have none : (-(lift n : Int) - 0).toNat = 0 := by omega
      rw [decreaseExponent, none, Nat.shiftLeft_zero, Int.natCast_zero, Int.sub_zero]
    rw [exactly_of_pos pos]
    simp only [toInt, roundToInt, kept, shiftToExponent, amount]
    exact congrArg (fun em : ExtendedMantissa => (em.mantissa : Int)) (shiftRight_exact n (lift n))

/-! ## Natural numbers -/

theorem ofNat_exact {n : Nat} (fits : n < 2 ^ 53) : Float.ofNat n = .ofModel (Float.Model.pack (exactly n)) := by
  have one : Float.ofBits 0x3FF0000000000000 = .ofModel (Float.Model.pack (exactly 1)) := by decide
  have word : n.toUInt64.toNat = n := Nat.mod_eq_of_lt (by omega)
  have whole : n.toUInt64.toFloat = .ofModel (Float.Model.pack (exactly n)) := by
    have normal := normalize_exact fits 0
    rw [Nat.pow_zero, Nat.mul_one] at normal
    rw [UInt64.toFloat, Float.Model.ofUInt64, UnpackedFloat.ofUInt64, UnpackedFloat.ofNat, UnpackedFloat.ofInt, word]
    exact congrArg (fun u => Float.ofModel (Float.Model.pack u)) normal
  have scaled : Float.ofNat n = n.toUInt64.toFloat * Float.ofBits 0x3FF0000000000000 :=
    dif_pos ⟨fits, Nat.zero_le 22⟩
  rw [scaled, whole, one]
  change Float.ofModel (Float.Model.pack (UnpackedFloat.mul .binary64 (Float.Model.unpack _) (Float.Model.unpack _))) = _
  rw [unpack_pack_exactly fits, unpack_pack_exactly (by decide), mul_exactly_one fits]

/-- A natural number is read back as it was. -/
theorem toUInt32_ofNat {n : Nat} (small : n < 4294967296) : (Float.ofNat n).toUInt32.toNat = n := by
  have fits : n < 2 ^ 53 := by omega
  rw [ofNat_exact fits]
  change (UInt32.ofNatClamp ((Float.Model.pack (exactly n)).unpack.toInt 0 (UInt32.size - 1)).toNat).toNat = n
  rw [unpack_pack_exactly fits, toInt_exactly, Int.toNat_natCast, UInt32.ofNatClamp,
    dif_pos (show n < UInt32.size from small)]
  rfl

theorem ofNat_injective {a b : Nat} (smallA : a < 4294967296) (smallB : b < 4294967296)
    (same : Value.ofNat a = Value.ofNat b) : a = b := by
  have doubles : Float.ofNat a = Float.ofNat b := Value.number.inj same
  rw [← toUInt32_ofNat smallA, doubles, toUInt32_ofNat smallB]

/-- Adding one does not round. -/
theorem ofNat_add_one {n : Nat} (small : n < 4294967296) : Float.ofNat n + 1.0 = Float.ofNat (n + 1) := by
  have fits : n + 1 < 2 ^ 53 := by omega
  have one : (1.0 : Float) = .ofModel (Float.Model.pack (exactly 1)) := by decide
  rw [ofNat_exact fits, ofNat_exact (Nat.lt_of_succ_lt fits), one]
  change Float.ofModel (Float.Model.pack (UnpackedFloat.add .binary64 (Float.Model.unpack _) (Float.Model.unpack _))) = _
  rw [unpack_pack_exactly (Nat.lt_of_succ_lt fits), unpack_pack_exactly (by decide), add_exactly fits]

/-! ## Fields -/

theorem exponentField_eq (x : Float) : exponentField x = x.toBits.toNat / 2 ^ 52 % 2 ^ 11 := by
  have mask : (0x7FF : UInt64).toNat = 2 ^ 11 - 1 := rfl
  rw [exponentField, UInt64.toNat_and, UInt64.toNat_shiftRight, mask, Nat.and_two_pow_sub_one_eq_mod]
  rw [show (52 : UInt64).toNat % 64 = 52 from rfl, Nat.shiftRight_eq_div_pow]

theorem fractionField_eq (x : Float) : fractionField x = x.toBits.toNat % 2 ^ 52 := by
  have mask : (0xFFFFFFFFFFFFF : UInt64).toNat = 2 ^ 52 - 1 := rfl
  rw [fractionField, UInt64.toNat_and, mask, Nat.and_two_pow_sub_one_eq_mod]

theorem toUint32_lt (x : Float) : toUint32 x < 4294967296 := by
  rw [toUint32]
  split
  · rw [saturate]
    split <;> omega
  · decide

end Number

end Ecma
