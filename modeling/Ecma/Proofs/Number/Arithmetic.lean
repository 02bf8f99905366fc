import Ecma.Number.Literal
import Ecma.Proofs.Number.Rounding

/-!
# Arithmetic rounds to nearest

Sums, products and quotients of finite doubles without a sign are the doubles nearest to the exact results, and so is the
double that a decimal is read as: `isNearest_scientific` has no exception, neither for the exponents that are settled by
the number of digits nor for those that core settles by a table or by the magnitude.
-/

namespace Ecma.Number

open Float.Model Float.Model.UnpackedFloat

/-- A finite double whose sign bit is not set. -/
structure Unsigned (x : Float) : Prop where
  finite : isFinite x = true
  positive : signBit x = false

namespace Unsigned

variable {x : Float}

theorem canonical (unsigned : Unsigned x) : (Binary.ofFloat x).Canonical := canonical_ofFloat unsigned.finite

theorem negative (unsigned : Unsigned x) : (Binary.ofFloat x).negative = false :=
  (negative_ofFloat x).trans unsigned.positive

theorem rational_eq (unsigned : Unsigned x) :
    rational x = (Binary.ofFloat x).significand * 2 ^ (Binary.ofFloat x).exponent :=
  Binary.value_of_positive unsigned.negative

theorem sign (unsigned : Unsigned x) : (Binary.ofFloat x).sign = .positive := by
  simp [Binary.sign, unsigned.negative]

theorem unpack_of_pos (unsigned : Unsigned x) (pos : 0 < (Binary.ofFloat x).significand) :
    x.toModel.unpack = .finite .positive (Binary.ofFloat x).significand (Binary.ofFloat x).exponent pos := by
  rw [unpack_eq unsigned.finite, Binary.unpacked_of_pos pos, unsigned.sign]

theorem unpack_of_zero (unsigned : Unsigned x) (zero : (Binary.ofFloat x).significand = 0) :
    x.toModel.unpack = .zero .positive := by
  rw [unpack_eq unsigned.finite, Binary.unpacked_of_zero zero, unsigned.sign]

theorem rational_of_zero (unsigned : Unsigned x) (zero : (Binary.ofFloat x).significand = 0) : rational x = 0 := by
  rw [unsigned.rational_eq, zero]
  simp

theorem rounded (unsigned : Unsigned x) :
    Rounded (rational x) (Binary.ofFloat x).exponent (Binary.ofFloat x).significand := by
  have canonical := unsigned.canonical
  have pos := two_zpow_pos (Binary.ofFloat x).exponent
  rw [unsigned.rational_eq]
  refine ⟨canonical.least, ?_, canonical.normal.imp_left fun hidden => ?_, by linarith, by linarith, ?_⟩
  · have fits : ((Binary.ofFloat x).significand : ℚ) < 2 ^ 53 := by exact_mod_cast canonical.fits
    exact mul_lt_mul_of_pos_right fits pos
  · have hidden : (2 ^ 52 : ℚ) ≤ (Binary.ofFloat x).significand := by exact_mod_cast hidden
    exact mul_le_mul_of_nonneg_right hidden pos.le
  · rintro (tie | tie) <;> linarith

/-- A double is the nearest to its own value. -/
theorem isNearest (unsigned : Unsigned x) : IsNearest (rational x) x := by
  have nearest := unsigned.rounded.isNearest
  have same : carried (Binary.ofFloat x).significand (Binary.ofFloat x).exponent = Binary.ofFloat x := by
    rw [carried_of_lt unsigned.canonical.fits, ← unsigned.negative]
  rwa [same, double_ofFloat unsigned.finite] at nearest

end Unsigned

namespace IsNearest

variable {q : ℚ} {x y : Float}

theorem unsigned (nearest : IsNearest q x) (small : q < overflow) : Unsigned x := by
  rw [IsNearest, if_pos small] at nearest
  exact ⟨nearest.1, nearest.2.1⟩

/-- A nearest double is a magnitude. -/
theorem unsigned_or_infinity (nearest : IsNearest q x) : Unsigned x ∨ x = infinity := by
  by_cases small : q < overflow
  · exact .inl (nearest.unsigned small)
  · rw [IsNearest, if_neg small] at nearest
    exact .inr nearest

theorem signBit_eq_false (nearest : IsNearest q x) : signBit x = false ∧ signBit (-x) = true := by
  rcases nearest.unsigned_or_infinity with unsigned | rfl
  · rw [signBit_neg unsigned.finite, unsigned.positive]
    exact ⟨rfl, rfl⟩
  · decide

theorem isNaN_eq_false (nearest : IsNearest q x) : x.isNaN = false ∧ (-x).isNaN = false := by
  rcases nearest.unsigned_or_infinity with unsigned | rfl
  · exact ⟨Number.isNaN_eq_false unsigned.finite, Number.isNaN_eq_false (isFinite_neg unsigned.finite)⟩
  · decide

/-- The nearest double to the value of a double is that double. -/
theorem eq (nearest : IsNearest (rational y) x) (unsigned : Unsigned y) : x = y := by
  rw [unsigned.rounded.eq_of_isNearest nearest, ← unsigned.rounded.eq_of_isNearest unsigned.isNearest]

theorem zero : IsNearest 0 0.0 := by
  have unsigned : Unsigned 0.0 := ⟨by decide, by decide⟩
  have value : rational 0.0 = 0 := unsigned.rational_of_zero (by decide)
  exact value ▸ unsigned.isNearest

/-- What is at most half of the least positive double is rounded to zero. -/
theorem zero_of_le (nonneg : 0 ≤ q) (small : 2 * q ≤ 2 ^ (-1074 : Int)) : IsNearest q 0.0 := by
  have pos := two_zpow_pos (-1074)
  have zero : (0.0 : Float) = (carried 0 (-1074)).double := by decide
  generalize power : (2 : ℚ) ^ (-1074 : Int) = u at pos small
  have rounded : Rounded q (-1074) 0 := by
    refine ⟨le_refl _, ?_, .inr rfl, ?_, ?_, fun _ => rfl⟩ <;> rw [power] <;> push_cast <;> linarith
  exact zero ▸ rounded.isNearest

theorem infinity_of_le (large : overflow ≤ q) : IsNearest q infinity := by
  rw [IsNearest, if_neg (not_lt.2 large)]

end IsNearest

/-! ## Sums, products and quotients -/

section Operations

variable {x y : Float}

theorem mul_eq (x y : Float) :
    x * y = .ofModel (.pack (UnpackedFloat.mul .binary64 x.toModel.unpack y.toModel.unpack)) := rfl

theorem div_eq (x y : Float) :
    x / y = .ofModel (.pack (UnpackedFloat.div .binary64 x.toModel.unpack y.toModel.unpack)) := rfl

theorem add_eq (x y : Float) :
    x + y = .ofModel (.pack (UnpackedFloat.add .binary64 x.toModel.unpack y.toModel.unpack)) := rfl

/-- A product of mantissas that has enough digits is rounded to the nearest double. -/
theorem isNearest_mul_unpacked {m n : Nat} {e f : Int} (posM : 0 < m) (posN : 0 < n) (placed : Placed (m * n) (e + f)) :
    IsNearest (m * 2 ^ e * (n * 2 ^ f))
      (.ofModel (.pack (UnpackedFloat.mul .binary64 (.finite .positive m e posM) (.finite .positive n f posN)))) := by
  have value : (m * 2 ^ e * (n * 2 ^ f) : ℚ) = (m * n : Nat) * 2 ^ (e + f) := by
    rw [zpow_add₀ (by norm_num)]
    push_cast
    ring
  rw [value]
  exact isNearest_roundWithAccuracy placed (holds_exact _)

theorem placed_mul {a b : Binary} (first : a.Canonical) (second : b.Canonical) (posA : 0 < a.significand)
    (posB : 0 < b.significand) : Placed (a.significand * b.significand) (a.exponent + b.exponent) := by
  rcases first.normal with hidden | lowA
  · exact .inl (hidden.trans (Nat.le_mul_of_pos_right _ posB))
  · rcases second.normal with hidden | lowB
    · exact .inl (hidden.trans (Nat.le_mul_of_pos_left _ posA))
    · exact .inr (by omega)

theorem isNearest_mul (unsignedX : Unsigned x) (unsignedY : Unsigned y) :
    IsNearest (rational x * rational y) (x * y) := by
  rw [mul_eq]
  rcases Nat.eq_zero_or_pos (Binary.ofFloat x).significand with zeroX | posX
  · rw [unsignedX.unpack_of_zero zeroX, unsignedX.rational_of_zero zeroX, zero_mul]
    rcases Nat.eq_zero_or_pos (Binary.ofFloat y).significand with zeroY | posY
    · rw [unsignedY.unpack_of_zero zeroY]
      exact IsNearest.zero
    · rw [unsignedY.unpack_of_pos posY]
      exact IsNearest.zero
  · rw [unsignedX.unpack_of_pos posX]
    rcases Nat.eq_zero_or_pos (Binary.ofFloat y).significand with zeroY | posY
    · rw [unsignedY.unpack_of_zero zeroY, unsignedY.rational_of_zero zeroY, mul_zero]
      exact IsNearest.zero
    · rw [unsignedY.unpack_of_pos posY, unsignedX.rational_eq, unsignedY.rational_eq]
      exact isNearest_mul_unpacked posX posY (placed_mul unsignedX.canonical unsignedY.canonical posX posY)

/-- A quotient and what is known of its remainder stand for the exact quotient. -/
theorem holds_fraction (m : Nat) {d : Nat} (pos : 0 < d) :
    Holds (.ofMantissaAndAccuracy (m / d) (accuracyOfFraction (m % d) d)) (m / d : ℚ) := by
  have posD : (0 : ℚ) < d := by exact_mod_cast pos
  have less : ((m % d : Nat) : ℚ) < d := by exact_mod_cast Nat.mod_lt m pos
  have division : (m : ℚ) = d * (m / d : Nat) + (m % d : Nat) := by exact_mod_cast (Nat.div_add_mod m d).symm
  have quotient : (m / d : ℚ) = (m / d : Nat) + (m % d : Nat) / d := by
    conv_lhs => rw [division]
    field_simp
  rw [quotient]
  generalize m / d = k at *
  generalize m % d = r at *
  rw [accuracyOfFraction]
  rcases Nat.eq_zero_or_pos r with rfl | posR
  · simp [Holds, ExtendedMantissa.ofMantissaAndAccuracy]
  · have positive : (0 : ℚ) < (r : ℚ) / d := by positivity
    have below : (r : ℚ) / d < 1 := (div_lt_one posD).2 less
    rw [if_neg posR.ne']
    rcases lt_trichotomy (2 * r) d with order | order | order
    · have half : (r : ℚ) / d < 1 / 2 := by
        rw [div_lt_div_iff₀ posD (by norm_num)]
        have : ((2 * r : Nat) : ℚ) < d := by exact_mod_cast order
        push_cast at this
        linarith
      rw [Nat.compare_eq_lt.2 order]
      simp only [Holds, ExtendedMantissa.ofMantissaAndAccuracy, Bool.false_eq_true, if_true, if_false]
      constructor <;> linarith
    · have half : (r : ℚ) / d = 1 / 2 := by
        rw [div_eq_div_iff posD.ne' (by norm_num)]
        have : ((2 * r : Nat) : ℚ) = d := by exact_mod_cast order
        push_cast at this
        linarith
      rw [Nat.compare_eq_eq.2 order]
      simp only [Holds, ExtendedMantissa.ofMantissaAndAccuracy, Bool.false_eq_true, if_true, if_false]
      linarith
    · have half : 1 / 2 < (r : ℚ) / d := by
        rw [div_lt_div_iff₀ (by norm_num) posD]
        have : (d : ℚ) < (2 * r : Nat) := by exact_mod_cast order
        push_cast at this
        linarith
      rw [Nat.compare_eq_gt.2 order]
      simp only [Holds, ExtendedMantissa.ofMantissaAndAccuracy, if_true]
      constructor <;> linarith

/-- The dividend is moved up far enough for its quotient to have all digits of a double. -/
theorem placed_div {m n k : Nat} {t : Int} (posM : 0 < m) (posN : 0 < n) (enough : 53 + n.log2 ≤ m.log2 + k ∨ t ≤ -1074) :
    Placed ((m <<< k) / n) t := by
  refine enough.imp_left fun long => ?_
  rw [Nat.le_div_iff_mul_le posN, Nat.shiftLeft_eq]
  calc 2 ^ 52 * n ≤ 2 ^ 52 * 2 ^ (n.log2 + 1) := Nat.mul_le_mul_left _ Nat.lt_log2_self.le
    _ = 2 ^ (53 + n.log2) := by rw [← Nat.pow_add]; congr 1; omega
    _ ≤ 2 ^ (m.log2 + k) := Nat.pow_le_pow_right (by decide) long
    _ = 2 ^ m.log2 * 2 ^ k := Nat.pow_add ..
    _ ≤ m * 2 ^ k := Nat.mul_le_mul_right _ (Nat.log2_self_le posM.ne')

/-- Every rational that is not negative has a place to be rounded at. -/
theorem exists_rounded {q : ℚ} (nonneg : 0 ≤ q) : ∃ t m, Rounded q t m := by
  rcases eq_or_lt_of_le nonneg with rfl | pos
  · have zero := two_zpow_pos (-1074)
    generalize power : (2 : ℚ) ^ (-1074 : Int) = u at zero
    refine ⟨-1074, 0, le_refl _, ?_, .inr rfl, ?_, ?_, fun _ => rfl⟩ <;> rw [power] <;> push_cast <;> linarith
  · obtain ⟨m, d, posM, posD, rfl⟩ : ∃ m d : Nat, 0 < m ∧ 0 < d ∧ q = m / d := by
      have num : (0 : Int) < q.num := Rat.num_pos.2 pos
      have cast : (q.num.toNat : ℚ) = q.num := by exact_mod_cast Int.toNat_of_nonneg num.le
      exact ⟨q.num.toNat, q.den, by omega, q.den_pos, by rw [cast, Rat.num_div_den]⟩
    let k := 53 + d.log2
    have placed : Placed ((m <<< k) / d) (-k) := placed_div posM posD (.inl (by omega))
    obtain ⟨t, n, rounded, -⟩ := roundWithAccuracy_eq placed (holds_fraction (m <<< k) posD)
    have value : ((m <<< k : Nat) / d * 2 ^ (-k : Int) : ℚ) = m / d := by
      have ne : (2 : ℚ) ^ k ≠ 0 := by positivity
      rw [Nat.shiftLeft_eq, zpow_neg, zpow_natCast]
      push_cast
      field_simp
    exact ⟨t, n, value ▸ rounded⟩

/-- There is one nearest double. -/
theorem IsNearest.unique {q : ℚ} (nonneg : 0 ≤ q) (first : IsNearest q x) (second : IsNearest q y) : x = y := by
  obtain ⟨t, m, rounded⟩ := exists_rounded nonneg
  rw [rounded.eq_of_isNearest first, rounded.eq_of_isNearest second]

theorem isNearest_div_unpacked {m n : Nat} {e f : Int} (posM : 0 < m) (posN : 0 < n) :
    IsNearest (m * 2 ^ e / (n * 2 ^ f))
      (.ofModel (.pack (UnpackedFloat.div .binary64 (.finite .positive m e posM) (.finite .positive n f posN)))) := by
  have target : Format.binary64.targetExponent (totalExponent m e - totalExponent n f) =
      max ((m.log2 : Int) - n.log2 + e - f - 53) (-1074) := by
    simp only [Format.targetExponent, totalExponent, Format.mantissaBits, Format.minExponent]
    omega
  simp only [UnpackedFloat.div, divCore, target]
  generalize place : min (e - f) (max ((m.log2 : Int) - n.log2 + e - f - 53) (-1074)) = t
  generalize amount : (e - f - t).toNat = k
  have value : (m * 2 ^ e / (n * 2 ^ f) : ℚ) = (m <<< k : Nat) / n * 2 ^ t := by
    have apart : (2 : ℚ) ^ e = 2 ^ k * 2 ^ t * 2 ^ f := by
      rw [← two_zpow_add_natCast, ← zpow_add₀ (by norm_num)]
      congr 1
      omega
    have ne : (2 : ℚ) ^ f ≠ 0 := (two_zpow_pos f).ne'
    rw [apart, Nat.shiftLeft_eq]
    push_cast
    field_simp
  rw [value]
  exact isNearest_roundWithAccuracy (placed_div posM posN (by omega)) (holds_fraction _ posN)

theorem isNearest_div (unsignedX : Unsigned x) (unsignedY : Unsigned y) (pos : 0 < rational y) :
    IsNearest (rational x / rational y) (x / y) := by
  have posY : 0 < (Binary.ofFloat y).significand := by
    rw [Nat.pos_iff_ne_zero]
    intro zero
    exact pos.ne' (unsignedY.rational_of_zero zero)
  rw [div_eq, unsignedY.unpack_of_pos posY]
  rcases Nat.eq_zero_or_pos (Binary.ofFloat x).significand with zeroX | posX
  · rw [unsignedX.unpack_of_zero zeroX, unsignedX.rational_of_zero zeroX, zero_div]
    exact IsNearest.zero
  · rw [unsignedX.unpack_of_pos posX, unsignedX.rational_eq, unsignedY.rational_eq]
    exact isNearest_div_unpacked posX posY

theorem isNearest_normalize (m : Nat) (e : Int) :
    IsNearest (m * 2 ^ e) (.ofModel (.pack (UnpackedFloat.normalize .binary64 m e .positive))) := by
  rcases Nat.eq_zero_or_pos m with rfl | pos
  · rw [Nat.cast_zero, zero_mul]
    exact IsNearest.zero
  · have positive : compare (m : Int) 0 = .gt := Int.compare_eq_gt.2 (Int.natCast_pos.2 pos)
    rw [UnpackedFloat.normalize, positive]
    exact isNearest_round pos e

theorem decreaseExponent_value (m : Nat) {e t : Int} (below : t ≤ e) :
    ((decreaseExponent m e t).1 * 2 ^ t : ℚ) = m * 2 ^ e := by
  rw [decreaseExponent, Nat.shiftLeft_eq, natCast_mul_zpow m below]

theorem isNearest_add_unpacked {m n : Nat} {e f : Int} (posM : 0 < m) (posN : 0 < n) :
    IsNearest (m * 2 ^ e + n * 2 ^ f)
      (.ofModel (.pack (UnpackedFloat.add .binary64 (.finite .positive m e posM) (.finite .positive n f posN)))) := by
  have value : (m * 2 ^ e + n * 2 ^ f : ℚ) =
      ((decreaseExponent m e (min e f)).1 + (decreaseExponent n f (min e f)).1 : Nat) * 2 ^ min e f := by
    rw [Nat.cast_add, add_mul, decreaseExponent_value m (min_le_left e f), decreaseExponent_value n (min_le_right e f)]
  rw [value]
  exact isNearest_normalize _ _

theorem isNearest_add (unsignedX : Unsigned x) (unsignedY : Unsigned y) :
    IsNearest (rational x + rational y) (x + y) := by
  rw [add_eq]
  rcases Nat.eq_zero_or_pos (Binary.ofFloat x).significand with zeroX | posX
  · rw [unsignedX.unpack_of_zero zeroX, unsignedX.rational_of_zero zeroX, zero_add]
    have kept : UnpackedFloat.add .binary64 (.zero .positive) y.toModel.unpack = y.toModel.unpack := by
      rcases Nat.eq_zero_or_pos (Binary.ofFloat y).significand with zeroY | posY
      · rw [unsignedY.unpack_of_zero zeroY]
        rfl
      · rw [unsignedY.unpack_of_pos posY]
        rfl
    rw [kept, ofModel_pack_unpack]
    exact unsignedY.isNearest
  · rw [unsignedX.unpack_of_pos posX]
    rcases Nat.eq_zero_or_pos (Binary.ofFloat y).significand with zeroY | posY
    · rw [unsignedY.unpack_of_zero zeroY, unsignedY.rational_of_zero zeroY, add_zero]
      change IsNearest _ (.ofModel (.pack (.finite ..)))
      rw [← unsignedX.unpack_of_pos posX, ofModel_pack_unpack]
      exact unsignedX.isNearest
    · rw [unsignedY.unpack_of_pos posY, unsignedX.rational_eq, unsignedY.rational_eq]
      exact isNearest_add_unpacked posX posY

theorem unpack_infinity : infinity.toModel.unpack = .infinity .positive := by
  have last : unpackExponent (bits infinity) = -1#11 := by decide
  have none : unpackMantissa (bits infinity) = 0#52 := by decide
  have sign : unpackSign (bits infinity) = 0#1 := by decide
  change UnpackedFloat.unpack .binary64 (bits infinity) = _
  rw [UnpackedFloat.unpack]
  simp only [last, none, sign, if_true]
  rfl

theorem infinity_add {y : Float} (unsigned : Unsigned y) : infinity + y = infinity := by
  have great : Float.ofModel (.pack (.infinity .positive)) = infinity := by decide
  rw [add_eq, unpack_infinity]
  rcases Nat.eq_zero_or_pos (Binary.ofFloat y).significand with zero | pos
  · rw [unsigned.unpack_of_zero zero]
    exact great
  · rw [unsigned.unpack_of_pos pos]
    exact great

end Operations

/-! ## Digits -/

theorem natOfDigits_snoc (base : Nat) (digits : List Char) (c : Char) :
    natOfDigits base (digits ++ [c]) = natOfDigits base digits * base + digitValue c := by
  simp [natOfDigits]

theorem natOfDigits_append (base : Nat) (front rest : List Char) :
    natOfDigits base (front ++ rest) = natOfDigits base front * base ^ rest.length + natOfDigits base rest := by
  induction rest using List.reverseRecOn with
  | nil => simp [natOfDigits]
  | append_singleton rest c ih =>
    rw [← List.append_assoc, natOfDigits_snoc, natOfDigits_snoc, ih, List.length_append, List.length_singleton,
      Nat.pow_succ]
    ring

theorem natOfDigits_lt {base : Nat} {digits : List Char} (all : ∀ c ∈ digits, digitValue c < base) :
    natOfDigits base digits < base ^ digits.length := by
  induction digits using List.reverseRecOn with
  | nil => simp [natOfDigits]
  | append_singleton digits c ih =>
    have last := all c (List.mem_append_right _ List.mem_cons_self)
    have front := ih fun d member => all d (List.mem_append_left _ member)
    rw [natOfDigits_snoc, List.length_append, List.length_singleton, Nat.pow_succ]
    calc natOfDigits base digits * base + digitValue c < (natOfDigits base digits + 1) * base := by
          rw [Nat.add_mul, Nat.one_mul]
          exact Nat.add_lt_add_left last _
      _ ≤ base ^ digits.length * base := Nat.mul_le_mul_right _ front

theorem natOfDigits_replicate_zero (base n : Nat) : natOfDigits base (List.replicate n '0') = 0 := by
  induction n with
  | zero => rfl
  | succ n ih =>
    have zero : digitValue '0' = 0 := rfl
    rw [List.replicate_succ', natOfDigits_snoc, ih, zero, Nat.zero_mul]

/-! ## Decimals -/

/-- A natural number that fits is the value of a double, and so are its multiples by powers of two. -/
theorem exists_unsigned {n k : Nat} (fits : n < 2 ^ 53) (small : k ≤ 971) :
    ∃ y, Unsigned y ∧ rational y = n * 2 ^ k := by
  suffices ∃ b : Binary, b.Canonical ∧ b.negative = false ∧ b.value = n * 2 ^ k by
    obtain ⟨b, canonical, positive, value⟩ := this
    refine ⟨b.double, ⟨isFinite_double canonical, ?_⟩, (rational_double canonical).trans value⟩
    rw [← negative_ofFloat, ofFloat_double canonical, positive]
  rcases Nat.eq_zero_or_pos n with rfl | pos
  · exact ⟨⟨false, 0, -1074⟩, ⟨by simp, by simp, by simp, .inr rfl⟩, rfl, by simp [Binary.value]⟩
  · have hidden := log2_lifted pos fits
    obtain ⟨low, high⟩ := (Nat.log2_eq_iff (Nat.ne_of_gt (lifted_pos pos _))).1 hidden
    have moved : lift n ≤ 52 := Nat.sub_le ..
    refine ⟨⟨false, n * 2 ^ lift n, k - lift n⟩, ⟨high, by simp only; omega, by simp only; omega, .inl low⟩, rfl, ?_⟩
    have ne : (2 : ℚ) ^ lift n ≠ 0 := by positivity
    rw [Binary.value_of_positive rfl, zpow_sub₀ (by norm_num), zpow_natCast, zpow_natCast]
    push_cast
    field_simp

/-- Where the exact result fits, there is no rounding. -/
theorem IsNearest.exact {x : Float} {n k : Nat} (nearest : IsNearest (n * 2 ^ k) x) (fits : n < 2 ^ 53)
    (small : k ≤ 971) : Unsigned x ∧ rational x = n * 2 ^ k := by
  obtain ⟨y, unsigned, value⟩ := exists_unsigned fits small
  rw [← value] at nearest ⊢
  rw [nearest.eq unsigned]
  exact ⟨unsigned, rfl⟩

theorem IsNearest.exact_natCast {x : Float} {n : Nat} (nearest : IsNearest n x) (fits : n < 2 ^ 53) :
    Unsigned x ∧ rational x = n := by
  have result := IsNearest.exact (k := 0) (by rwa [pow_zero, mul_one]) fits (Nat.zero_le _)
  rwa [pow_zero, mul_one] at result

/-- A word that fits is converted without rounding. -/
theorem unsigned_toFloat {n : Nat} (fits : n < 2 ^ 53) :
    Unsigned n.toUInt64.toFloat ∧ rational n.toUInt64.toFloat = n := by
  have word : n.toUInt64.toNat = n := Nat.mod_eq_of_lt (by omega)
  have nearest := isNearest_normalize n 0
  rw [zpow_zero, mul_one] at nearest
  apply IsNearest.exact_natCast _ fits
  rwa [UInt64.toFloat, Float.Model.ofUInt64, UnpackedFloat.ofUInt64, UnpackedFloat.ofNat, UnpackedFloat.ofInt, word]

/-- A power with an integral exponent as a quotient of two with natural ones, of which one is trivial. -/
theorem zpow_eq_div {a : ℚ} (ne : a ≠ 0) (e : Int) : a ^ e = a ^ e.toNat / a ^ (-e).toNat := by
  have split : e = (e.toNat : Int) - (-e).toNat := by omega
  conv_lhs => rw [split]
  rw [zpow_sub₀ ne, zpow_natCast, zpow_natCast]

theorem powersOfTen_exact (e : Fin 23) :
    let x := Float.exactlyRepresentablePowersOfTen[e]
    let b := Binary.ofFloat x
    isFinite x = true ∧ signBit x = false ∧
      b.significand * Nat.pow 2 b.exponent.toNat = Nat.pow 10 e * Nat.pow 2 (-b.exponent).toNat := by
  revert e
  decide

/-- The table of powers of ten is exact. -/
theorem unsigned_powersOfTen {e : Nat} (small : e < Float.exactlyRepresentablePowersOfTen.size) :
    Unsigned Float.exactlyRepresentablePowersOfTen[e] ∧ rational Float.exactlyRepresentablePowersOfTen[e] = 10 ^ e := by
  obtain ⟨finite, positive, equal⟩ := powersOfTen_exact ⟨e, small⟩
  have unsigned : Unsigned Float.exactlyRepresentablePowersOfTen[e] := ⟨finite, positive⟩
  refine ⟨unsigned, ?_⟩
  have ne : (2 : ℚ) ≠ 0 := by norm_num
  rw [unsigned.rational_eq, zpow_eq_div ne, ← mul_div_assoc, div_eq_iff (by positivity)]
  exact_mod_cast equal

theorem pow_le_pow_of_nat {a b m n : Nat} (order : Nat.pow a m ≤ Nat.pow b n) : (a : ℚ) ^ m ≤ b ^ n := by
  exact_mod_cast order

theorem two_pow_1024_le_ten_pow : (2 : ℚ) ^ 1024 ≤ 10 ^ 310 := by
  have order := pow_le_pow_of_nat (a := 2) (b := 10) (m := 1024) (n := 310) (by decide +kernel)
  rwa [Nat.cast_ofNat, Nat.cast_ofNat] at order

theorem overflow_le {q : ℚ} {e : Int} (large : 310 ≤ e) (bound : 10 ^ e ≤ q) : overflow ≤ q := by
  have power : (10 : ℚ) ^ ((310 : Nat) : Int) ≤ 10 ^ e := zpow_le_zpow_right₀ (by norm_num) large
  rw [zpow_natCast] at power
  have pos : (0 : ℚ) ≤ 2 ^ 970 := by positivity
  calc overflow ≤ 2 ^ 1024 := sub_le_self _ pos
    _ ≤ q := two_pow_1024_le_ten_pow.trans (power.trans bound)

/-- Below the least positive double the exponent alone decides. -/
theorem tiny {m : Nat} {e : Int} (small : m.log2 + e + 2 ≤ -1074) (negative : e ≤ 0) :
    2 * (m * 10 ^ e : ℚ) ≤ 2 ^ (-1074 : Int) := by
  have bound : (m : ℚ) ≤ 2 ^ (m.log2 + 1) := by exact_mod_cast Nat.lt_log2_self.le
  have five : (5 : ℚ) ^ e ≤ 1 := zpow_le_one_of_nonpos₀ (by norm_num) negative
  have ten : (10 : ℚ) ^ e ≤ 2 ^ e := by
    have product : (10 : ℚ) ^ e = 2 ^ e * 5 ^ e := by
      rw [← mul_zpow]
      norm_num
    rw [product]
    exact mul_le_of_le_one_right (two_zpow_pos e).le five
  calc 2 * (m * 10 ^ e : ℚ) ≤ 2 * (2 ^ (m.log2 + 1) * 2 ^ e) := by gcongr
    _ = 2 ^ (e + (m.log2 + 2 : Nat)) := by
      rw [two_zpow_add_natCast]
      ring
    _ ≤ 2 ^ (-1074 : Int) := two_zpow_le (by push_cast; omega)

theorem isNearest_ofScientific_unpacked (m : Nat) (e : Int) :
    IsNearest (m * 10 ^ e) (.ofModel (.pack (UnpackedFloat.ofScientific .binary64 m e))) := by
  have bits : (2 : Int) ^ Format.binary64.exponentBits = 2048 := rfl
  rw [UnpackedFloat.ofScientific, bits]
  by_cases zero : m = 0
  · rw [dif_pos zero, zero, Nat.cast_zero, zero_mul]
    exact IsNearest.zero
  have pos : 0 < m := Nat.pos_of_ne_zero zero
  rw [dif_neg zero]
  split
  · have one : (1 : ℚ) ≤ m := by exact_mod_cast pos
    have great : Float.ofModel (.pack (.infinity .positive)) = infinity := by decide
    rw [great]
    apply IsNearest.infinity_of_le (overflow_le (show 310 ≤ e by omega) _)
    exact le_mul_of_one_le_left (by positivity) one
  · split
    · exact IsNearest.zero_of_le (by positivity) (tiny (by omega) (by omega))
    · split
      · rename_i nonneg
        have value : (m * 10 ^ e : ℚ) = (m <<< 53 : Nat) * 2 ^ (-53 : Int) * ((10 ^ e.toNat : Nat) * 2 ^ (0 : Int)) := by
          have exponent : e = (e.toNat : Int) := by omega
          have unit : (2 : ℚ) ^ 53 * 2 ^ (-53 : Int) = 1 := by norm_num
          conv_lhs => rw [exponent, zpow_natCast]
          rw [Nat.shiftLeft_eq, zpow_zero, mul_one, Nat.cast_mul, mul_assoc (m : ℚ), Nat.cast_pow, Nat.cast_pow,
            Nat.cast_ofNat, Nat.cast_ofNat, unit, mul_one]
        rw [value]
        refine isNearest_mul_unpacked _ _ (.inl ?_)
        rw [Nat.shiftLeft_eq]
        have ten : 0 < 10 ^ e.toNat := Nat.pow_pos (by decide)
        exact Nat.le_trans (Nat.le_trans (by omega) (Nat.le_mul_of_pos_left (2 ^ 53) pos)) (Nat.le_mul_of_pos_right _ ten)
      · have value : (m * 10 ^ e : ℚ) = m * 2 ^ (0 : Int) / ((10 ^ (-e).toNat : Nat) * 2 ^ (0 : Int)) := by
          have exponent : e = -((-e).toNat : Int) := by omega
          conv_lhs => rw [exponent, zpow_neg, zpow_natCast]
          push_cast
          simp [div_eq_mul_inv]
        rw [value]
        exact isNearest_div_unpacked _ _

/-- Core reads every decimal as the nearest double. -/
theorem isNearest_ofScientific (m : Nat) (s : Bool) (e : Nat) :
    IsNearest (m * 10 ^ (if s then -(e : Int) else e)) (Float.ofScientific m s e) := by
  by_cases fast : m < 2 ^ 53 ∧ e ≤ 22
  · have inside : e < Float.exactlyRepresentablePowersOfTen.size := Nat.lt_succ_of_le fast.2
    obtain ⟨whole, valueM⟩ := unsigned_toFloat fast.1
    obtain ⟨power, valueE⟩ := unsigned_powersOfTen inside
    rw [Float.ofScientific, dif_pos fast]
    cases s with
    | false =>
      rw [if_neg (by decide), if_neg (by decide), zpow_natCast, ← valueM, ← valueE]
      exact isNearest_mul whole power
    | true =>
      rw [if_pos rfl, if_pos rfl, zpow_neg, zpow_natCast, ← valueM, ← valueE, ← div_eq_mul_inv]
      refine isNearest_div whole power ?_
      rw [valueE]
      positivity
  · have slow : Float.ofScientific m s e = .ofModel (Float.Model.ofScientific m (if s then -(e : Int) else e)) := by
      rw [Float.ofScientific, dif_neg fast]
      cases s with
      | false => rfl
      | true =>
        rw [if_pos rfl, if_pos rfl, Int.negOfNat_eq]
        rfl
    rw [slow]
    exact isNearest_ofScientific_unpacked _ _

theorem isNearest_ofNat (n : Nat) : IsNearest n (Float.ofNat n) := by
  have nearest := isNearest_ofScientific n false 0
  rwa [if_neg (by decide), Int.natCast_zero, zpow_zero, mul_one] at nearest

theorem two_pow_1075_le_ten_pow : (2 : ℚ) ^ 1075 ≤ 10 ^ 331 := by
  have order := pow_le_pow_of_nat (a := 2) (b := 10) (m := 1075) (n := 331) (by decide +kernel)
  rwa [Nat.cast_ofNat, Nat.cast_ofNat] at order

theorem tiny_of_size {q : ℚ} {k : Int} (bound : q ≤ 10 ^ k) (small : k ≤ -331) : 2 * q ≤ 2 ^ (-1074 : Int) := by
  have power : (10 : ℚ) ^ k ≤ 10 ^ (-(331 : Nat) : Int) := zpow_le_zpow_right₀ (by norm_num) small
  have inverse : (10 : ℚ) ^ (-(331 : Nat) : Int) ≤ 2 ^ (-(1075 : Nat) : Int) := by
    rw [zpow_neg, zpow_neg, zpow_natCast, zpow_natCast]
    exact inv_anti₀ (by positivity) two_pow_1075_le_ten_pow
  calc 2 * q ≤ 2 ^ 1 * 2 ^ (-(1075 : Nat) : Int) := by
        rw [pow_one]
        exact mul_le_mul_of_nonneg_left (bound.trans (power.trans inverse)) (by norm_num)
    _ = 2 ^ (-1074 : Int) := (two_zpow_add_natCast _ 1).symm

/-- A number lies between the powers of ten that its digits count. -/
theorem bounds_of_length {c n : Nat} (nonzero : c ≠ 0) (size : (Nat.repr c).length = n + 1) :
    10 ^ n ≤ c ∧ c ≤ 10 ^ (n + 1) := by
  refine ⟨?_, (Nat.length_repr_le_iff (Nat.succ_pos n)).1 size.le |>.le⟩
  rcases Nat.eq_zero_or_pos n with rfl | pos
  · exact Nat.pos_of_ne_zero nonzero
  · by_contra less
    have := (Nat.length_repr_le_iff pos).2 (Nat.lt_of_not_le less)
    omega

/-- A literal's decimal is read as the nearest double. -/
theorem isNearest_scientific (c : Nat) (e : Int) : IsNearest (c * 10 ^ e) (Literal.scientific c e) := by
  rw [Literal.scientific]
  by_cases zero : c = 0
  · rw [if_pos (.inl zero), zero, Nat.cast_zero, zero_mul]
    exact IsNearest.zero
  obtain ⟨n, size⟩ : ∃ n, (Nat.repr c).length = n + 1 := Nat.exists_eq_add_one.2 Nat.length_repr_pos
  obtain ⟨low, high⟩ := bounds_of_length zero size
  have pos : (0 : ℚ) < 10 ^ e := by positivity
  rw [size]
  split
  · rename_i short
    have least : e + (n + 1 : Nat) < -330 := short.resolve_left zero
    have bound : (c * 10 ^ e : ℚ) ≤ 10 ^ (e + (n + 1 : Nat)) := by
      have high : (c : ℚ) ≤ 10 ^ (n + 1) := by exact_mod_cast high
      rw [zpow_add₀ (by norm_num), zpow_natCast, mul_comm]
      exact mul_le_mul_of_nonneg_left high pos.le
    exact IsNearest.zero_of_le (by positivity) (tiny_of_size bound (by omega))
  · split
    · rename_i long
      have bound : (10 ^ (e + n) : ℚ) ≤ c * 10 ^ e := by
        have low : (10 ^ n : ℚ) ≤ c := by exact_mod_cast low
        rw [zpow_add₀ (by norm_num), zpow_natCast, mul_comm]
        exact mul_le_mul_of_nonneg_right low pos.le
      exact IsNearest.infinity_of_le (overflow_le (by omega) bound)
    · have power : (if (decide (e < 0) : Bool) then -(e.natAbs : Int) else e.natAbs) = e := by
        by_cases negative : e < 0
        · rw [if_pos (decide_eq_true negative)]
          omega
        · rw [if_neg (by simpa using negative)]
          omega
      have nearest := isNearest_ofScientific c (e < 0) e.natAbs
      rwa [power] at nearest

end Ecma.Number
