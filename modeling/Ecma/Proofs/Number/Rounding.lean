import Ecma.Proofs.Number.Value

/-!
# Rounding to the nearest double

`IsNearest q x` says that `x` is the double for the rational `q ≥ 0`: no finite double is nearer, of two that are equally
near `x` is the one with the even significand, and from `overflow` on it is infinity. There is one such double, and the
rounding of core finds it. Both go through `Rounded q t m`: `q` rounded to a multiple `m` of the one power of two that its
magnitude asks for. Doubles are multiples of that power, or else lie below all that matters (`spaced`), so that nearest
among the multiples is nearest among the doubles.
-/

namespace Ecma.Number

open Float.Model Float.Model.UnpackedFloat

/-- Halfway from the greatest finite double to the power of two after it. -/
def overflow : ℚ := 2 ^ 1024 - 2 ^ 970

/-- The double that a rational `q ≥ 0` is rounded to, ties to even. -/
def IsNearest (q : ℚ) (x : Float) : Prop :=
  if q < overflow then
    isFinite x = true ∧ signBit x = false ∧ ∀ y, isFinite y = true → rational y ≠ rational x →
      |q - rational x| < |q - rational y| ∨
        |q - rational x| = |q - rational y| ∧ (Binary.ofFloat x).significand % 2 = 0
  else x = infinity

/-- The rational `q ≥ 0` is nearest to `m · 2 ^ t` among the multiples of `2 ^ t`, ties to even, where `2 ^ t` is what the
last place of a double of the magnitude of `q` is worth. -/
structure Rounded (q : ℚ) (t : Int) (m : Nat) : Prop where
  least : -1074 ≤ t
  below : q < 2 ^ 53 * 2 ^ t
  normal : 2 ^ 52 * 2 ^ t ≤ q ∨ t = -1074
  lower : (2 * m - 1) * 2 ^ t ≤ 2 * q
  upper : 2 * q ≤ (2 * m + 1) * 2 ^ t
  even : 2 * q = (2 * m - 1) * 2 ^ t ∨ 2 * q = (2 * m + 1) * 2 ^ t → m % 2 = 0

/-- The number `m · 2 ^ t` for an `m` up to `2 ^ 53`, which is one too many for a significand. -/
def carried (m : Nat) (t : Int) : Binary := if m < 2 ^ 53 then ⟨false, m, t⟩ else ⟨false, 2 ^ 52, t + 1⟩

theorem carried_of_lt {m : Nat} (fits : m < 2 ^ 53) (t : Int) : carried m t = ⟨false, m, t⟩ := if_pos fits

theorem carried_full (t : Int) : carried (2 ^ 53) t = ⟨false, 2 ^ 52, t + 1⟩ := if_neg (Nat.lt_irrefl _)

theorem negative_carried (m : Nat) (t : Int) : (carried m t).negative = false := by
  rw [carried]
  split <;> rfl

theorem two_zpow_add_natCast (t : Int) (k : Nat) : (2 : ℚ) ^ (t + k) = 2 ^ k * 2 ^ t := by
  rw [zpow_add₀ (by norm_num), zpow_natCast, mul_comm]

theorem two_zpow_le {s t : Int} (order : s ≤ t) : (2 : ℚ) ^ s ≤ 2 ^ t := zpow_le_zpow_right₀ (by norm_num) order

namespace Rounded

variable {q : ℚ} {t : Int} {m : Nat}

theorem le_full (rounded : Rounded q t m) : m ≤ 2 ^ 53 := by
  have pos := two_zpow_pos t
  have scaled : (2 * m - 1 : ℚ) * 2 ^ t < 2 ^ 54 * 2 ^ t := by linarith [rounded.lower, rounded.below]
  have small : (2 * m : ℚ) < 2 ^ 54 + 1 := by linarith [lt_of_mul_lt_mul_right scaled pos.le]
  have : 2 * m < 2 ^ 54 + 1 := by exact_mod_cast small
  omega

theorem hidden_or_least (rounded : Rounded q t m) : 2 ^ 52 ≤ m ∨ t = -1074 := by
  refine rounded.normal.imp_left fun normal => ?_
  have pos := two_zpow_pos t
  have scaled : (2 ^ 53 : ℚ) * 2 ^ t ≤ (2 * m + 1) * 2 ^ t := by linarith [rounded.upper]
  have large : (2 ^ 53 : ℚ) ≤ 2 * m + 1 := le_of_mul_le_mul_right scaled pos
  have : 2 ^ 53 ≤ 2 * m + 1 := by exact_mod_cast large
  omega

theorem value_carried (rounded : Rounded q t m) : (carried m t).value = m * 2 ^ t := by
  rcases Nat.lt_or_eq_of_le rounded.le_full with fits | rfl
  · rw [carried_of_lt fits, Binary.value_of_positive rfl]
  · rw [carried_full, Binary.value_of_positive rfl]
    have double := two_zpow_add_natCast t 1
    push_cast at double ⊢
    rw [double]
    ring

theorem canonical_carried (rounded : Rounded q t m) (most : (carried m t).exponent ≤ 971) :
    (carried m t).Canonical := by
  have least := rounded.least
  have normal := rounded.hidden_or_least
  rcases Nat.lt_or_eq_of_le rounded.le_full with fits | rfl
  · rw [carried_of_lt fits] at most ⊢
    exact ⟨fits, least, most, normal⟩
  · rw [carried_full] at most ⊢
    exact ⟨Nat.pow_lt_pow_right (by decide) (by decide), by simp only; omega, most, .inl (Nat.le_refl _)⟩

theorem even_carried (rounded : Rounded q t m) (even : m % 2 = 0) : (carried m t).significand % 2 = 0 := by
  rcases Nat.lt_or_eq_of_le rounded.le_full with fits | rfl
  · rwa [carried_of_lt fits]
  · rw [carried_full]
    norm_num

theorem overflow_eq : overflow = (2 ^ 54 - 1) * 2 ^ (970 : Int) := by
  have place : (970 : Int) = (970 : Nat) := rfl
  rw [place, zpow_natCast, overflow, sub_mul, one_mul, ← pow_add]

/-- At the last place but one, what decides is whether the greatest finite double is rounded up. -/
theorem lt_overflow_of_last {u : ℚ} (pos : 0 < u) (rounded : Rounded q 971 m) (last : (2 : ℚ) ^ (971 : Int) = 2 * u) :
    q < (2 ^ 54 - 1) * u ↔ m < 2 ^ 53 := by
  have lower := rounded.lower
  have upper := rounded.upper
  have even := rounded.even
  rw [last] at lower upper even
  constructor
  · intro small
    by_contra full
    have large : (2 ^ 53 : ℚ) ≤ m := by exact_mod_cast Nat.le_of_not_lt full
    have scaled := mul_le_mul_of_nonneg_right large pos.le
    linarith
  · intro fits
    rcases lt_or_eq_of_le upper with strict | tie
    · have bound : (m : ℚ) + 1 ≤ 2 ^ 53 := by exact_mod_cast fits
      have scaled := mul_le_mul_of_nonneg_right bound pos.le
      linarith
    · have parity := even (.inr tie)
      have room : m + 2 ≤ 2 ^ 53 := by omega
      have bound : (m : ℚ) + 2 ≤ 2 ^ 53 := by exact_mod_cast room
      have scaled := mul_le_mul_of_nonneg_right bound pos.le
      linarith only [tie, scaled, pos]

/-- The rounded number is a double exactly up to `overflow`. -/
theorem lt_overflow_iff (rounded : Rounded q t m) : q < overflow ↔ (carried m t).exponent ≤ 971 := by
  have pos := two_zpow_pos 970
  have exponent : (carried m t).exponent = if m < 2 ^ 53 then t else t + 1 := by
    rw [carried]
    split <;> rfl
  rw [overflow_eq, exponent]
  rcases lt_trichotomy t 971 with small | rfl | great
  · have order : (2 : ℚ) ^ t ≤ 2 ^ (970 : Int) := two_zpow_le (by omega)
    have below := rounded.below
    generalize (2 : ℚ) ^ (970 : Int) = u at pos order ⊢
    refine iff_of_true (by linarith) ?_
    split <;> omega
  · have last := two_zpow_add_natCast 970 1
    rw [pow_one] at last
    rw [lt_overflow_of_last pos rounded last]
    split <;> omega
  · have order : (2 : ℚ) ^ ((970 : Int) + (2 : Nat)) ≤ 2 ^ t := two_zpow_le (by omega)
    rw [two_zpow_add_natCast] at order
    have above : 2 ^ 52 * 2 ^ t ≤ q := rounded.normal.resolve_right (by omega)
    generalize (2 : ℚ) ^ (970 : Int) = u at pos order ⊢
    refine iff_of_false (by linarith) ?_
    split <;> omega

theorem pos_of_great (rounded : Rounded q t m) (great : 971 < (carried m t).exponent) :
    0 < (carried m t).significand := by
  have hidden := rounded.hidden_or_least
  rw [carried] at great ⊢
  split at great
  · rename_i fits
    rw [if_pos fits]
    simp only at great ⊢
    omega
  · rename_i full
    rw [if_neg full]
    exact Nat.two_pow_pos 52

end Rounded

/-! ## Nearest among the doubles -/

/-- A finite double is a multiple of `2 ^ t`, and one without its last bit if that bit is worth less; or it lies below the
numbers whose last place is worth `2 ^ t`. -/
theorem spaced {y : Float} (finite : isFinite y = true) (t : Int) :
    (∃ k : Int, rational y = k * 2 ^ t ∧ (k % 2 = 1 → (Binary.ofFloat y).significand % 2 = 1)) ∨
      (Binary.ofFloat y).exponent < t ∧ rational y < 2 ^ 52 * 2 ^ t := by
  generalize same : Binary.ofFloat y = b
  have canonical : b.Canonical := same ▸ canonical_ofFloat finite
  have value : rational y = b.value := congrArg Binary.value same
  have pos := two_zpow_pos b.exponent
  rw [value, Binary.value]
  by_cases order : t ≤ b.exponent
  · left
    rw [natCast_mul_zpow _ order]
    have parity : b.significand * 2 ^ (b.exponent - t).toNat % 2 = 1 → b.significand % 2 = 1 := by
      intro odd
      rw [Nat.mul_mod] at odd
      by_contra other
      rw [Nat.mod_two_ne_one.1 other, Nat.zero_mul] at odd
      cases odd
    generalize b.significand * 2 ^ (b.exponent - t).toNat = k at parity ⊢
    cases b.negative with
    | false => exact ⟨k, by push_cast; simp, fun odd => parity (by omega)⟩
    | true => exact ⟨-k, by push_cast; simp, fun odd => parity (by omega)⟩
  · right
    refine ⟨by omega, ?_⟩
    have magnitude : (b.significand * 2 ^ b.exponent : ℚ) < 2 ^ 52 * 2 ^ t := by
      have fits : (b.significand : ℚ) < 2 ^ 53 := by exact_mod_cast canonical.fits
      have next : (2 : ℚ) ^ (b.exponent + (1 : Nat)) ≤ 2 ^ t := two_zpow_le (by omega)
      rw [two_zpow_add_natCast] at next
      linarith [mul_lt_mul_of_pos_right fits pos]
    have nonneg : (0 : ℚ) ≤ b.significand * 2 ^ b.exponent := by positivity
    cases b.negative with
    | false => simpa using magnitude
    | true =>
      have target := two_zpow_pos t
      simp only [if_true]
      linarith

/-- A multiple of `u` that `q` lies within half of is nearer than those above it, but for the next one at a tie. -/
theorem abs_sub_lt_or_tie_of_lt {q u : ℚ} {m k : Int} (pos : 0 < u) (lower : (2 * m - 1) * u ≤ 2 * q)
    (upper : 2 * q ≤ (2 * m + 1) * u) (more : m < k) :
    |q - m * u| < |q - k * u| ∨ |q - m * u| = |q - k * u| ∧ k = m + 1 ∧ 2 * q = (2 * m + 1) * u := by
  have within : |q - m * u| ≤ u / 2 := abs_le.2 ⟨by linarith, by linarith⟩
  have step : (m : ℚ) + 1 ≤ k := by exact_mod_cast more
  have scaled : ((m : ℚ) + 1) * u ≤ k * u := mul_le_mul_of_nonneg_right step pos.le
  have far : |q - k * u| = -(q - k * u) := abs_of_nonpos (by linarith)
  rw [far]
  rcases eq_or_lt_of_le upper with tie | strict
  · by_cases next : k = m + 1
    · have near : |q - m * u| = q - m * u := abs_of_nonneg (by linarith)
      have place : (k : ℚ) = m + 1 := by exact_mod_cast next
      refine .inr ⟨?_, next, tie⟩
      rw [near, place]
      linarith
    · have beyond : m + 2 ≤ k := by omega
      have step : (m : ℚ) + 2 ≤ k := by exact_mod_cast beyond
      have scaled : ((m : ℚ) + 2) * u ≤ k * u := mul_le_mul_of_nonneg_right step pos.le
      exact .inl (by linarith)
  · exact .inl (by linarith)

/-- A multiple of `u` that `q` lies within half of is nearer than all others, but for the neighbour at a tie. -/
theorem abs_sub_lt_or_tie {q u : ℚ} {m k : Int} (pos : 0 < u) (lower : (2 * m - 1) * u ≤ 2 * q)
    (upper : 2 * q ≤ (2 * m + 1) * u) (other : k ≠ m) :
    |q - m * u| < |q - k * u| ∨ |q - m * u| = |q - k * u| ∧ k % 2 ≠ m % 2 ∧
      (2 * q = (2 * m - 1) * u ∨ 2 * q = (2 * m + 1) * u) := by
  rcases lt_or_gt_of_ne other with less | more
  · -- below `q` everything is as above `-q`
    have mirror (n : Int) : |-q - (-n : Int) * u| = |q - n * u| := by
      rw [← abs_neg]
      congr 1
      push_cast
      ring
    have mirrored := abs_sub_lt_or_tie_of_lt (q := -q) pos (by push_cast; linarith) (by push_cast; linarith)
      (neg_lt_neg less)
    rw [mirror, mirror] at mirrored
    refine mirrored.imp_right fun ⟨equal, next, tie⟩ => ⟨equal, by omega, .inl ?_⟩
    push_cast at tie
    linarith
  · refine (abs_sub_lt_or_tie_of_lt pos lower upper more).imp_right fun ⟨equal, next, tie⟩ => ?_
    exact ⟨equal, by omega, .inr tie⟩

namespace Rounded

variable {q : ℚ} {t : Int} {m : Nat} {x y : Float}

/-- No double is nearer than the rounded number, and one that is equally near is odd. -/
theorem nearer (rounded : Rounded q t m) (finite : isFinite y = true) (other : rational y ≠ m * 2 ^ t) :
    |q - m * 2 ^ t| < |q - rational y| ∨
      |q - m * 2 ^ t| = |q - rational y| ∧ m % 2 = 0 ∧ (Binary.ofFloat y).significand % 2 = 1 := by
  have pos := two_zpow_pos t
  have choice (k : Int) (different : k ≠ m) := abs_sub_lt_or_tie (q := q) (m := m) (k := k) pos
    (by exact_mod_cast rounded.lower) (by exact_mod_cast rounded.upper) different
  rcases spaced finite t with ⟨k, value, odd⟩ | ⟨shorter, small⟩
  · rw [value] at other ⊢
    have different : k ≠ m := by
      rintro rfl
      exact other (by push_cast; rfl)
    refine (choice k different).imp id ?_
    rintro ⟨equal, parity, tie⟩
    have even := rounded.even (by exact_mod_cast tie)
    exact ⟨equal, even, odd (by omega)⟩
  · -- the least normal number for this place lies between
    left
    have least := (canonical_ofFloat finite).least
    have above : 2 ^ 52 * 2 ^ t ≤ q := rounded.normal.resolve_right (by omega)
    have far : |q - rational y| = q - rational y := abs_of_pos (by linarith)
    have between : |q - m * 2 ^ t| ≤ |q - 2 ^ 52 * 2 ^ t| := by
      by_cases same : m = 2 ^ 52
      · rw [same]
        norm_num
      · have closer := choice (2 ^ 52) (by exact_mod_cast Ne.symm same)
        norm_num at closer ⊢
        exact closer.elim le_of_lt fun tie => tie.1.le
    rw [abs_of_nonneg (show 0 ≤ q - 2 ^ 52 * 2 ^ t by linarith)] at between
    rw [far]
    linarith

/-- The rounded number is the nearest double. -/
theorem isNearest (rounded : Rounded q t m) : IsNearest q (carried m t).double := by
  rw [IsNearest]
  split
  · rename_i small
    have canonical := rounded.canonical_carried (rounded.lt_overflow_iff.1 small)
    have sign : signBit (carried m t).double = false := by
      rw [← negative_ofFloat, ofFloat_double canonical, negative_carried]
    refine ⟨isFinite_double canonical, sign, ?_⟩
    rw [rational_double canonical, rounded.value_carried, ofFloat_double canonical]
    intro y finite other
    refine (rounded.nearer finite other).imp id ?_
    rintro ⟨equal, even, -⟩
    exact ⟨equal, rounded.even_carried even⟩
  · rename_i large
    have great : 971 < (carried m t).exponent := Int.not_le.1 (mt rounded.lt_overflow_iff.2 large)
    exact double_of_great (negative_carried m t) (rounded.pos_of_great great) great

/-- There is no other nearest double. -/
theorem eq_of_isNearest (rounded : Rounded q t m) (nearest : IsNearest q x) : x = (carried m t).double := by
  have own := rounded.isNearest
  rw [IsNearest] at nearest own
  split at nearest
  · rename_i small
    rw [if_pos small] at own
    obtain ⟨finite, positive, best⟩ := nearest
    obtain ⟨finiteOwn, positiveOwn, -⟩ := own
    have value : rational (carried m t).double = m * 2 ^ t := by
      rw [rational_double (rounded.canonical_carried (rounded.lt_overflow_iff.1 small)), rounded.value_carried]
    apply eq_of_rational_eq finite finiteOwn positive positiveOwn
    by_contra different
    have forth := best _ finiteOwn (Ne.symm different)
    have back := rounded.nearer finite (value ▸ different)
    rw [value] at forth
    rcases back with closer | ⟨equal, -, odd⟩
    · rcases forth with nearer | ⟨same, -⟩
      · exact lt_asymm closer nearer
      · exact closer.ne' same
    · rcases forth with nearer | ⟨-, even⟩
      · exact nearer.ne' equal
      · omega
  · rename_i large
    rw [if_neg large] at own
    rw [nearest, own]

end Rounded

/-! ## The rounding of core -/

/-- The number `s` is what an extended mantissa stands for: up to half a unit it is known, and from there on only whether
there is more. -/
def Holds (em : ExtendedMantissa) (s : ℚ) : Prop :=
  if em.stickyBit then
    em.mantissa + (if em.roundBit then 1 / 2 else 0) < s ∧ s < em.mantissa + (if em.roundBit then 1 / 2 else 0) + 1 / 2
  else s = em.mantissa + (if em.roundBit then 1 / 2 else 0)

namespace Holds

variable {em : ExtendedMantissa} {s : ℚ}

theorem floor (held : Holds em s) : (em.mantissa : ℚ) ≤ s ∧ s < em.mantissa + 1 := by
  obtain ⟨m, r, st⟩ := em
  cases r <;> cases st <;> simp [Holds] at held ⊢
  · simp [held]
  · constructor <;> linarith
  · constructor <;> linarith
  · constructor <;> linarith

theorem shiftRightOne (held : Holds em s) : Holds em.shiftRightOne (s / 2) := by
  obtain ⟨m, r, st⟩ := em
  obtain ⟨k, rfl | rfl⟩ := Nat.even_or_odd' m
  · have half : 2 * k / 2 = k := by omega
    cases r <;> cases st <;> simp [Holds, ExtendedMantissa.shiftRightOne, half] at held ⊢
    · linarith
    · constructor <;> linarith
    · constructor <;> linarith
    · constructor <;> linarith
  · have half : (2 * k + 1) / 2 = k := by omega
    have odd : (2 * k + 1) % 2 = 1 := by omega
    cases r <;> cases st <;> simp [Holds, ExtendedMantissa.shiftRightOne, half, odd] at held ⊢
    · linarith
    · constructor <;> linarith
    · constructor <;> linarith
    · constructor <;> linarith

theorem shiftRight (held : Holds em s) (n : Nat) : Holds (em >>> n) (s / 2 ^ n) := by
  change Holds (Nat.repeat ExtendedMantissa.shiftRightOne n em) _
  induction n with
  | zero => simpa [Nat.repeat] using held
  | succ n ih =>
    rw [pow_succ, ← div_div]
    exact ih.shiftRightOne

/-- The rounded mantissa is the nearest integer, ties to even. -/
theorem rounds (held : Holds em s) :
    (2 * em.roundedMantissa - 1 : ℚ) ≤ 2 * s ∧ 2 * s ≤ 2 * em.roundedMantissa + 1 ∧
      (2 * s = 2 * em.roundedMantissa - 1 ∨ 2 * s = 2 * em.roundedMantissa + 1 → em.roundedMantissa % 2 = 0) := by
  obtain ⟨m, r, st⟩ := em
  cases r <;> cases st <;>
    simp only [Holds, ExtendedMantissa.roundedMantissa, ExtendedMantissa.accuracy, Accuracy.roundToNearestEven,
      Bool.false_eq_true, if_true, if_false] at held ⊢
  · subst held
    refine ⟨by linarith, by linarith, ?_⟩
    rintro (tie | tie) <;> linarith
  · refine ⟨by linarith, by linarith, ?_⟩
    rintro (tie | tie) <;> linarith
  · subst held
    rcases Nat.mod_two_eq_zero_or_one m with even | odd
    · rw [even, Nat.add_zero]
      exact ⟨by linarith, by linarith, fun _ => even⟩
    · rw [odd]
      push_cast
      exact ⟨by linarith, by linarith, fun _ => by omega⟩
  · push_cast
    refine ⟨by linarith, by linarith, ?_⟩
    rintro (tie | tie) <;> linarith

end Holds

section Round

variable {m : Nat} {e : Int} {accuracy : Accuracy} {s : ℚ}

theorem targetExponent_eq (m : Nat) (e : Int) :
    Format.binary64.targetExponent (totalExponent m e) = max (m.log2 + e - 52) (-1074) := by
  simp only [Format.targetExponent, totalExponent, Format.mantissaBits, Format.minExponent]
  omega

/-- The mantissa is long enough for its exponent, so that no digits have to be invented. -/
def Placed (m : Nat) (e : Int) : Prop := 2 ^ 52 ≤ m ∨ e ≤ -1074

theorem Placed.le_target (placed : Placed m e) : e ≤ max ((m.log2 : Int) + e - 52) (-1074) := by
  rcases placed with long | low
  · have log : 52 ≤ m.log2 := (Nat.le_log2 (by omega)).2 long
    omega
  · omega

theorem shiftToTargetExponent_eq (placed : Placed m e) :
    shiftToTargetExponent .binary64 m e accuracy =
      (ExtendedMantissa.ofMantissaAndAccuracy m accuracy >>> (max ((m.log2 : Int) + e - 52) (-1074) - e).toNat,
        max (m.log2 + e - 52) (-1074)) := by
  have order := placed.le_target
  rw [shiftToTargetExponent, targetExponent_eq, shiftToExponent]
  congr 1
  omega

theorem mantissa_ofMantissaAndAccuracy (m : Nat) (accuracy : Accuracy) :
    (ExtendedMantissa.ofMantissaAndAccuracy m accuracy).mantissa = m := by
  rcases accuracy with _ | (_ | _ | _) <;> rfl

/-- Less than one unit above `m`, a number has no more digits than `m`. -/
theorem lt_of_log2_le {t : Int} (high : s < m + 1) (digits : (m.log2 : Int) + e ≤ t + 52) :
    s * 2 ^ e < 2 ^ 53 * 2 ^ t := by
  have bound : (m : ℚ) + 1 ≤ 2 ^ (m.log2 + 1) := by exact_mod_cast Nat.lt_log2_self
  calc s * 2 ^ e < 2 ^ (m.log2 + 1) * 2 ^ e := mul_lt_mul_of_pos_right (high.trans_le bound) (two_zpow_pos e)
    _ = 2 ^ (e + (m.log2 + 1 : Nat)) := (two_zpow_add_natCast ..).symm
    _ ≤ 2 ^ (t + (53 : Nat)) := two_zpow_le (by push_cast; omega)
    _ = 2 ^ 53 * 2 ^ t := two_zpow_add_natCast ..

theorem le_of_log2_eq {t : Int} (ne : m ≠ 0) (low : m ≤ s) (digits : (m.log2 : Int) + e = t + 52) :
    2 ^ 52 * 2 ^ t ≤ s * 2 ^ e := by
  have bound : (2 : ℚ) ^ m.log2 ≤ m := by exact_mod_cast Nat.log2_self_le ne
  calc (2 : ℚ) ^ 52 * 2 ^ t = 2 ^ (t + (52 : Nat)) := (two_zpow_add_natCast ..).symm
    _ = 2 ^ (e + (m.log2 : Nat)) := by congr 1; omega
    _ = 2 ^ m.log2 * 2 ^ e := two_zpow_add_natCast ..
    _ ≤ s * 2 ^ e := mul_le_mul_of_nonneg_right (bound.trans low) (two_zpow_pos e).le

theorem mul_two_zpow_of_le {t : Int} (s : ℚ) (order : e ≤ t) : s * 2 ^ e = s / 2 ^ (t - e).toNat * 2 ^ t := by
  obtain ⟨n, rfl⟩ : ∃ n : Nat, t = e + n := ⟨(t - e).toNat, by omega⟩
  have amount : (e + n - e).toNat = n := by omega
  have ne : (2 : ℚ) ^ n ≠ 0 := by positivity
  rw [two_zpow_add_natCast, amount]
  field_simp

/-- The first shift of the rounding takes a number to the place that it asks for. -/
theorem rounded_shift (placed : Placed m e) (held : Holds (.ofMantissaAndAccuracy m accuracy) s) :
    Rounded (s * 2 ^ e) (shiftToTargetExponent .binary64 m e accuracy).2
      (shiftToTargetExponent .binary64 m e accuracy).1.roundedMantissa := by
  have order := placed.le_target
  rw [shiftToTargetExponent_eq placed]
  generalize target : max ((m.log2 : Int) + e - 52) (-1074) = t at order ⊢
  obtain ⟨low, high⟩ := held.floor
  rw [mantissa_ofMantissaAndAccuracy] at low high
  have posT := two_zpow_pos t
  have shifted := held.shiftRight (t - e).toNat
  generalize ExtendedMantissa.ofMantissaAndAccuracy m accuracy >>> (t - e).toNat = em at shifted ⊢
  have scale := mul_two_zpow_of_le s order
  obtain ⟨lower, upper, even⟩ := shifted.rounds
  refine ⟨by omega, lt_of_log2_le high (by omega), ?_, ?_, ?_, ?_⟩
  · by_cases lowest : t = -1074
    · exact .inr lowest
    · have ne : m ≠ 0 := by
        rintro rfl
        simp only [Nat.log2_zero] at target
        omega
      exact .inl (le_of_log2_eq ne low (by omega))
  · rw [scale, ← mul_assoc]
    exact mul_le_mul_of_nonneg_right lower posT.le
  · rw [scale, ← mul_assoc]
    exact mul_le_mul_of_nonneg_right upper posT.le
  · rw [scale, ← mul_assoc]
    intro tie
    exact even (tie.imp (mul_right_cancel₀ posT.ne') (mul_right_cancel₀ posT.ne'))

/-- The second shift takes back a carry and does nothing else. -/
theorem Rounded.shift {q : ℚ} {t : Int} (rounded : Rounded q t m) :
    shiftToTargetExponent .binary64 m t .exact = (⟨(carried m t).significand, false, false⟩, (carried m t).exponent) := by
  have least := rounded.least
  have normal := rounded.hidden_or_least
  rw [shiftToTargetExponent, targetExponent_eq, shiftToExponent]
  rcases Nat.lt_or_eq_of_le rounded.le_full with fits | rfl
  · have log : m.log2 ≤ 52 := Binary.Canonical.log2_le (b := ⟨false, m, -1074⟩) ⟨fits, by simp, by simp, .inr rfl⟩
    have amount : (max ((m.log2 : Int) + t - 52) (-1074) - t).toNat = 0 := by omega
    rw [carried_of_lt fits, amount, Int.natCast_zero, Int.add_zero]
    rfl
  · have log : (2 ^ 53).log2 = 53 := Nat.log2_two_pow
    have amount : (max (((2 ^ 53 : Nat).log2 : Int) + t - 52) (-1074) - t).toNat = 1 := by
      rw [log]
      omega
    rw [carried_full, amount]
    rfl

theorem roundWithAccuracy_eq (placed : Placed m e) (held : Holds (.ofMantissaAndAccuracy m accuracy) s) :
    ∃ t k, Rounded (s * 2 ^ e) t k ∧
      roundWithAccuracy .binary64 .positive m e accuracy = (carried k t).unpacked := by
  have rounded := rounded_shift placed held
  refine ⟨_, _, rounded, ?_⟩
  have sign {m t} : (carried m t).sign = .positive := by simp [Binary.sign, negative_carried]
  simp only [roundWithAccuracy, rounded.shift]
  split
  · rename_i zero
    rw [Binary.unpacked_of_zero zero, sign]
  · rename_i nonzero
    rw [Binary.unpacked_of_pos (Nat.pos_of_ne_zero nonzero), sign]

/-- A mantissa with enough digits is rounded to the nearest double. -/
theorem isNearest_roundWithAccuracy (placed : Placed m e) (held : Holds (.ofMantissaAndAccuracy m accuracy) s) :
    IsNearest (s * 2 ^ e) (.ofModel (.pack (roundWithAccuracy .binary64 .positive m e accuracy))) := by
  obtain ⟨t, k, rounded, equal⟩ := roundWithAccuracy_eq placed held
  rw [equal]
  exact rounded.isNearest

theorem holds_exact (m : Nat) : Holds (.ofMantissaAndAccuracy m .exact) m := by
  simp [Holds, ExtendedMantissa.ofMantissaAndAccuracy]

/-- Any mantissa is rounded to its place if its exponent may be lowered. -/
theorem round_eq (pos : 0 < m) (e : Int) :
    ∃ t k, Rounded (m * 2 ^ e) t k ∧ UnpackedFloat.round .binary64 .positive m e = (carried k t).unpacked := by
  rw [UnpackedFloat.round, targetExponent_eq, decreaseExponent]
  generalize amount : (e - max ((m.log2 : Int) + e - 52) (-1074)).toNat = k
  have placed : Placed (m <<< k) (e - k) := by
    rw [Nat.shiftLeft_eq]
    by_cases low : e - k ≤ -1074
    · exact .inr low
    · left
      have log : 52 ≤ (m * 2 ^ k).log2 := by
        rw [log2_mul_two_pow pos]
        omega
      exact (Nat.le_log2 (Nat.ne_of_gt (lifted_pos pos k))).1 log
  have value : (m * 2 ^ e : ℚ) = (m <<< k : Nat) * 2 ^ (e - k) := by
    rw [natCast_mul_zpow m (show e - k ≤ e by omega), Nat.shiftLeft_eq]
    congr 4
    omega
  rw [value]
  exact roundWithAccuracy_eq placed (holds_exact _)

theorem isNearest_round (pos : 0 < m) (e : Int) :
    IsNearest (m * 2 ^ e) (.ofModel (.pack (UnpackedFloat.round .binary64 .positive m e))) := by
  obtain ⟨t, k, rounded, equal⟩ := round_eq pos e
  rw [equal]
  exact rounded.isNearest

end Round

end Ecma.Number
