import Ecma.Proofs.Number.Arithmetic

/-!
# Hexadecimal literals

Up to thirty-two digits a hexadecimal literal is converted once, and is the double nearest to its value. Longer ones are
accumulated digit by digit. Nothing is rounded before the first digits reach `2 ^ 53`; there they are rounded once, and
all later digits are below half of the last place and are lost one by one. So the literal is rounded as if the digits
after those first ones were zeros (`foldl_append`). That is the nearest double to its value unless the first ones lie
halfway between two doubles and are rounded down although a digit follows that is not zero (`Slips`).
-/

namespace Ecma.Number.Literal

open Float.Model Float.Model.UnpackedFloat

/-- One step of a long literal. -/
def accumulate (x : Float) (c : Char) : Float := x * 16.0 + Float.ofNat (digitValue c)

/-- The digits of a long literal up to some place lie halfway between two doubles, are rounded down to the even one of
them, and what follows them is not zero. -/
def Slips (digits : List Char) : Prop :=
  32 < digits.length ∧ (natOfDigits 16 digits : ℚ) < overflow ∧
    ∃ front rest m s, digits = front ++ rest ∧ m % 2 = 0 ∧ 2 ^ 52 ≤ m ∧ m < 2 ^ 53 ∧ s < 4 ∧
      natOfDigits 16 front = (2 * m + 1) * 2 ^ s ∧ natOfDigits 16 rest ≠ 0

theorem hexValue_of_short {digits : List Char} (short : digits.length ≤ 32) :
    hexValue digits = Float.ofNat (natOfDigits 16 digits) := if_pos short

theorem hexValue_of_long {digits : List Char} (long : 32 < digits.length) :
    hexValue digits = digits.foldl accumulate 0.0 := if_neg (by omega)

theorem digitValue_lt {c : Char} (hex : isHexDigit c = true) : digitValue c < 16 := by
  simp only [isHexDigit, Char.isDigit, Bool.or_eq_true, Bool.and_eq_true, decide_eq_true_eq, Char.le_def,
    UInt32.le_iff_toNat_le] at hex
  simp only [digitValue, Char.isDigit, Bool.and_eq_true, decide_eq_true_eq, Char.le_def, UInt32.le_iff_toNat_le]
  change ((48 ≤ c.toNat ∧ c.toNat ≤ 57) ∨ (97 ≤ c.toNat ∧ c.toNat ≤ 102)) ∨ (65 ≤ c.toNat ∧ c.toNat ≤ 70) at hex
  change (if 48 ≤ c.toNat ∧ c.toNat ≤ 57 then c.toNat - 48 else if 97 ≤ c.toNat then c.toNat - 87 else c.toNat - 55) < 16
  split
  · omega
  · split <;> omega

/-! ## Steps without rounding -/

theorem unsigned_sixteen : Unsigned 16.0 ∧ rational 16.0 = 2 ^ 4 := by
  have value : Binary.ofFloat 16.0 = ⟨false, 2 ^ 52, -48⟩ := by decide
  refine ⟨⟨by decide, by decide⟩, ?_⟩
  rw [rational, value, Binary.value_of_positive rfl]
  norm_num

theorem unsigned_digit {c : Char} (hex : isHexDigit c = true) :
    Unsigned (Float.ofNat (digitValue c)) ∧ rational (Float.ofNat (digitValue c)) = digitValue c := by
  have small := digitValue_lt hex
  exact (isNearest_ofNat _).exact_natCast (by omega)

/-- From a number that fits, a step rounds once. -/
theorem isNearest_accumulate {x : Float} {n : Nat} {c : Char} (unsigned : Unsigned x) (value : rational x = n)
    (fits : n < 2 ^ 53) (hex : isHexDigit c = true) : IsNearest (n * 16 + digitValue c : Nat) (accumulate x c) := by
  have scaled := isNearest_mul unsigned unsigned_sixteen.1
  rw [value, unsigned_sixteen.2] at scaled
  obtain ⟨exact, product⟩ := scaled.exact fits (by decide)
  have sum := isNearest_add exact (unsigned_digit hex).1
  rw [product, (unsigned_digit hex).2] at sum
  have total : ((n * 16 + digitValue c : Nat) : ℚ) = n * 2 ^ 4 + digitValue c := by
    push_cast
    norm_num
  rw [total]
  exact sum

theorem foldl_exact {digits : List Char} (hex : ∀ c ∈ digits, isHexDigit c = true) (fits : natOfDigits 16 digits < 2 ^ 53) :
    Unsigned (digits.foldl accumulate 0.0) ∧ rational (digits.foldl accumulate 0.0) = natOfDigits 16 digits := by
  induction digits using List.reverseRecOn with
  | nil => exact IsNearest.exact_natCast (by exact_mod_cast IsNearest.zero) fits
  | append_singleton digits c ih =>
    rw [natOfDigits_snoc] at fits ⊢
    obtain ⟨unsigned, value⟩ := ih (fun d member => hex d (List.mem_append_left _ member)) (by omega)
    rw [List.foldl_concat]
    have nearest := isNearest_accumulate unsigned value (by omega) (hex c (List.mem_append_right _ List.mem_cons_self))
    exact nearest.exact_natCast fits

/-- The digits that reach `2 ^ 53` are rounded once. -/
theorem isNearest_foldl {digits : List Char} (hex : ∀ c ∈ digits, isHexDigit c = true)
    (small : natOfDigits 16 digits < 2 ^ 57) : IsNearest (natOfDigits 16 digits) (digits.foldl accumulate 0.0) := by
  rcases List.eq_nil_or_concat' digits with rfl | ⟨front, c, rfl⟩
  · exact_mod_cast IsNearest.zero
  · rw [natOfDigits_snoc] at small ⊢
    have fits : natOfDigits 16 front < 2 ^ 53 := by omega
    obtain ⟨unsigned, value⟩ := foldl_exact (fun d member => hex d (List.mem_append_left _ member)) fits
    rw [List.foldl_concat]
    exact isNearest_accumulate unsigned value fits (hex c (List.mem_append_right _ List.mem_cons_self))

/-! ## Steps that lose their digit -/

/-- A number with all its bits, or an infinity. -/
def wide (m : Nat) (e : Int) : Float := (⟨false, m, e⟩ : Binary).double

section Wide

variable {m : Nat} {e : Int}

theorem unsigned_wide (hidden : 2 ^ 52 ≤ m) (fits : m < 2 ^ 53) (least : -1074 ≤ e) (most : e ≤ 971) :
    Unsigned (wide m e) ∧ rational (wide m e) = m * 2 ^ e := by
  have canonical : (⟨false, m, e⟩ : Binary).Canonical := ⟨fits, least, most, .inl hidden⟩
  refine ⟨⟨isFinite_double canonical, ?_⟩, ?_⟩
  · rw [wide, ← negative_ofFloat, ofFloat_double canonical]
  · rw [wide, rational_double canonical, Binary.value_of_positive rfl]

theorem wide_of_great (hidden : 2 ^ 52 ≤ m) (great : 971 < e) : wide m e = Number.infinity :=
  double_of_great rfl (Nat.lt_of_lt_of_le (Nat.two_pow_pos 52) hidden) great

theorem eq_wide {q : ℚ} {x : Float} (rounded : Rounded q e m) (fits : m < 2 ^ 53) (nearest : IsNearest q x) :
    x = wide m e := by
  rw [rounded.eq_of_isNearest nearest, carried_of_lt fits, wide]

theorem two_zpow_add_four (e : Int) : (2 : ℚ) ^ (e + 4) = 16 * 2 ^ e := by
  have power := two_zpow_add_natCast e 4
  norm_num at power
  exact power

theorem wide_mul_sixteen (hidden : 2 ^ 52 ≤ m) (fits : m < 2 ^ 53) (least : -1074 ≤ e) :
    wide m e * 16.0 = wide m (e + 4) := by
  rcases lt_or_ge 971 e with great | most
  · rw [wide_of_great hidden great, wide_of_great hidden (by omega)]
    decide
  · obtain ⟨unsigned, value⟩ := unsigned_wide hidden fits least most
    have nearest := isNearest_mul unsigned unsigned_sixteen.1
    rw [value, unsigned_sixteen.2] at nearest
    refine eq_wide ?_ fits nearest
    have pos := two_zpow_pos e
    have low : (2 ^ 52 : ℚ) * 2 ^ e ≤ m * 2 ^ e := mul_le_mul_of_nonneg_right (by exact_mod_cast hidden) pos.le
    have high : (m : ℚ) * 2 ^ e < 2 ^ 53 * 2 ^ e := mul_lt_mul_of_pos_right (by exact_mod_cast fits) pos
    refine ⟨by omega, ?_, .inl ?_, ?_, ?_, ?_⟩ <;> rw [two_zpow_add_four]
    · linarith
    · linarith
    · linarith
    · linarith
    · rintro (tie | tie) <;> linarith

/-- A digit is less than half of the last place. -/
theorem wide_add_digit {c : Char} (hidden : 2 ^ 52 ≤ m) (fits : m < 2 ^ 53) (place : 5 ≤ e) (hex : isHexDigit c = true) :
    wide m e + Float.ofNat (digitValue c) = wide m e := by
  obtain ⟨exact, digit⟩ := unsigned_digit hex
  rcases lt_or_ge 971 e with great | most
  · rw [wide_of_great hidden great, infinity_add exact]
  · obtain ⟨unsigned, value⟩ := unsigned_wide hidden fits (by omega) most
    have nearest := isNearest_add unsigned exact
    rw [value, digit] at nearest
    refine eq_wide ?_ fits nearest
    have unit : (2 : ℚ) ^ (5 : Int) ≤ 2 ^ e := two_zpow_le place
    norm_num at unit
    have small : (digitValue c : ℚ) ≤ 15 := by exact_mod_cast Nat.le_of_lt_succ (digitValue_lt hex)
    have nonneg : (0 : ℚ) ≤ digitValue c := Nat.cast_nonneg _
    have low : (2 ^ 52 : ℚ) * 2 ^ e ≤ m * 2 ^ e := mul_le_mul_of_nonneg_right (by exact_mod_cast hidden) (by linarith)
    have high : ((m : ℚ) + 1) * 2 ^ e ≤ 2 ^ 53 * 2 ^ e := mul_le_mul_of_nonneg_right (by exact_mod_cast fits) (by linarith)
    refine ⟨by omega, by linarith, .inl (by linarith), by linarith, by linarith, ?_⟩
    rintro (tie | tie) <;> linarith

theorem accumulate_wide {c : Char} (hidden : 2 ^ 52 ≤ m) (fits : m < 2 ^ 53) (place : 1 ≤ e) (hex : isHexDigit c = true) :
    accumulate (wide m e) c = wide m (e + 4) := by
  rw [accumulate, wide_mul_sixteen hidden fits (by omega), wide_add_digit hidden fits (by omega) hex]

theorem foldl_wide {digits : List Char} (hidden : 2 ^ 52 ≤ m) (fits : m < 2 ^ 53) (place : 1 ≤ e)
    (hex : ∀ c ∈ digits, isHexDigit c = true) :
    digits.foldl accumulate (wide m e) = wide m (e + 4 * digits.length) := by
  induction digits generalizing e with
  | nil => simp
  | cons c digits ih =>
    rw [List.foldl_cons, accumulate_wide hidden fits place (hex c List.mem_cons_self),
      ih (by omega) fun d member => hex d (List.mem_cons_of_mem c member), List.length_cons]
    congr 1
    push_cast
    ring

end Wide

/-! ## Long literals -/

section Long

variable {front rest digits : List Char} {p m s k r : Nat} {t : Int}

theorem rounded_place (large : 2 ^ 53 ≤ p) (rounded : Rounded p t m) : 1 ≤ t := by
  by_contra low
  have unit : (2 : ℚ) ^ t ≤ 2 ^ (0 : Int) := two_zpow_le (by omega)
  have bound : (2 ^ 53 : ℚ) ≤ p := by exact_mod_cast large
  have below := rounded.below
  rw [zpow_zero] at unit
  linarith

/-- What follows the first digits that reach `2 ^ 53` moves them up and does nothing else. -/
theorem foldl_append (hex : ∀ c ∈ front ++ rest, isHexDigit c = true) (large : 2 ^ 53 ≤ natOfDigits 16 front)
    (small : natOfDigits 16 front < 2 ^ 57) (rounded : Rounded (natOfDigits 16 front) t m) :
    (front ++ rest).foldl accumulate 0.0 = (carried m (t + 4 * rest.length)).double := by
  have place := rounded_place large rounded
  have nearest := isNearest_foldl (fun c member => hex c (List.mem_append_left _ member)) small
  have later : ∀ c ∈ rest, isHexDigit c = true := fun c member => hex c (List.mem_append_right _ member)
  rw [List.foldl_append, rounded.eq_of_isNearest nearest]
  rcases Nat.lt_or_eq_of_le rounded.le_full with fits | rfl
  · have hidden : 2 ^ 52 ≤ m := rounded.hidden_or_least.resolve_right (by omega)
    rw [carried_of_lt fits, carried_of_lt fits]
    exact foldl_wide hidden fits place later
  · have moved : t + 4 * rest.length + 1 = t + 1 + 4 * rest.length := by ring
    rw [carried_full, carried_full, moved]
    exact foldl_wide (Nat.le_refl _) (Nat.pow_lt_pow_right (by decide) (by decide)) (by omega) later

theorem two_zpow_add_four_mul (t : Int) (k : Nat) : (2 : ℚ) ^ (t + 4 * k) = 16 ^ k * 2 ^ t := by
  have power := two_zpow_add_natCast t (4 * k)
  rw [pow_mul] at power
  norm_num at power
  exact power

theorem two_zpow_place (s k : Nat) : (2 : ℚ) ^ ((s : Int) + 1 + 4 * k) = 16 ^ k * (2 * 2 ^ s) := by
  rw [two_zpow_add_four_mul, zpow_add₀ (by norm_num), zpow_natCast, zpow_one, mul_comm (2 ^ s : ℚ)]

/-- Later digits do not change how a number is rounded, as long as they do not decide a tie. -/
theorem rounded_extend (rounded : Rounded p (s + 1) m) (less : r < 16 ^ k) (clear : p < (2 * m + 1) * 2 ^ s ∨ r = 0) :
    Rounded (p * 16 ^ k + r : Nat) (s + 1 + 4 * k) m := by
  obtain ⟨least, below, normal, lower, upper, even⟩ := rounded
  have unit : (2 : ℚ) ^ ((s : Int) + 1) = 2 * 2 ^ s := by simpa using two_zpow_place s 0
  have pos : (0 : ℚ) < 16 ^ k := by positivity
  have above : (0 : ℚ) ≤ r := Nat.cast_nonneg r
  have next : (r : ℚ) + 1 ≤ 16 ^ k := by exact_mod_cast less
  rw [unit] at below normal lower upper even
  have room : (p : ℚ) + 1 ≤ 2 ^ 53 * (2 * 2 ^ s) := by exact_mod_cast below
  have scaledRoom := mul_le_mul_of_nonneg_right room pos.le
  have scaledNormal := mul_le_mul_of_nonneg_right (normal.resolve_right (by omega)) pos.le
  have scaledLower := mul_le_mul_of_nonneg_right lower pos.le
  -- either the later digits cannot reach the next tie, or there are none
  have scaledUpper : 2 * (p * 16 ^ k + r : ℚ) < (2 * m + 1) * (16 ^ k * (2 * 2 ^ s)) ∨
      (r : ℚ) = 0 ∧ 2 * (p * 16 ^ k + r : ℚ) ≤ (2 * m + 1) * (16 ^ k * (2 * 2 ^ s)) := by
    rcases clear with strict | none
    · have gap : (p : ℚ) + 1 ≤ (2 * m + 1) * 2 ^ s := by exact_mod_cast strict
      have scaled := mul_le_mul_of_nonneg_right gap pos.le
      exact .inl (by linarith)
    · have zero : (r : ℚ) = 0 := by exact_mod_cast none
      have scaled := mul_le_mul_of_nonneg_right upper pos.le
      exact .inr ⟨zero, by rw [zero]; linarith⟩
  refine ⟨by omega, ?_, .inl ?_, ?_, ?_, ?_⟩ <;> rw [two_zpow_place] <;> push_cast
  · linarith
  · linarith
  · linarith
  · rcases scaledUpper with strict | ⟨-, bound⟩ <;> linarith
  · rintro (tie | tie)
    · exact even (.inl (mul_right_cancel₀ pos.ne' (by linarith)))
    · rcases scaledUpper with strict | ⟨zero, -⟩
      · linarith
      · rw [zero] at tie
        exact even (.inr (mul_right_cancel₀ pos.ne' (by linarith)))

/-- Digits after a tie move the number up. -/
theorem rounded_after_tie (tie : p = (2 * m + 1) * 2 ^ s) (hidden : 2 ^ 52 ≤ m) (fits : m + 1 < 2 ^ 53) (less : r < 16 ^ k)
    (some : r ≠ 0) : Rounded (p * 16 ^ k + r : Nat) (s + 1 + 4 * k) (m + 1) := by
  have pos : (0 : ℚ) < 16 ^ k * 2 ^ s := by positivity
  have next : (r : ℚ) < 16 ^ k := by exact_mod_cast less
  have above : (0 : ℚ) < r := by exact_mod_cast Nat.pos_of_ne_zero some
  have one : (1 : ℚ) ≤ 2 ^ s := one_le_pow₀ (by norm_num)
  have within : (16 ^ k : ℚ) ≤ 16 ^ k * 2 ^ s := le_mul_of_one_le_right (by positivity) one
  have value : (p : ℚ) = (2 * m + 1) * 2 ^ s := by exact_mod_cast tie
  have low : (2 ^ 52 : ℚ) ≤ m := by exact_mod_cast hidden
  have high : (m : ℚ) + 1 ≤ 2 ^ 53 := by exact_mod_cast fits.le
  have scaledLow := mul_le_mul_of_nonneg_right low pos.le
  have scaledHigh := mul_le_mul_of_nonneg_right high pos.le
  refine ⟨by omega, ?_, .inl ?_, ?_, ?_, ?_⟩ <;> rw [two_zpow_place] <;> push_cast <;> rw [value]
  · linarith
  · linarith
  · linarith
  · linarith
  · rintro (same | same) <;> linarith

theorem rounded_tie (even : m % 2 = 0) (hidden : 2 ^ 52 ≤ m) (fits : m < 2 ^ 53) :
    Rounded ((2 * m + 1) * 2 ^ s : Nat) (s + 1) m := by
  have unit : (2 : ℚ) ^ ((s : Int) + 1) = 2 * 2 ^ s := by simpa using two_zpow_place s 0
  have pos : (0 : ℚ) < 2 ^ s := by positivity
  have low := mul_le_mul_of_nonneg_right (show (2 ^ 52 : ℚ) ≤ m by exact_mod_cast hidden) pos.le
  have high := mul_le_mul_of_nonneg_right (show (m : ℚ) + 1 ≤ 2 ^ 53 by exact_mod_cast fits) pos.le
  refine ⟨by omega, ?_, .inl ?_, ?_, ?_, fun _ => even⟩ <;> rw [unit] <;> push_cast <;> linarith

/-- Some first digits of a number that does not fit reach `2 ^ 53`, by one digit. -/
theorem exists_front (hex : ∀ c ∈ digits, isHexDigit c = true) (large : 2 ^ 53 ≤ natOfDigits 16 digits) :
    ∃ front rest, digits = front ++ rest ∧ 2 ^ 53 ≤ natOfDigits 16 front ∧ natOfDigits 16 front < 2 ^ 57 := by
  induction digits using List.reverseRecOn with
  | nil => exact absurd large (by decide)
  | append_singleton digits c ih =>
    by_cases before : 2 ^ 53 ≤ natOfDigits 16 digits
    · obtain ⟨front, rest, rfl, low, high⟩ := ih (fun d member => hex d (List.mem_append_left _ member)) before
      exact ⟨front, rest ++ [c], List.append_assoc .., low, high⟩
    · have last := digitValue_lt (hex c (List.mem_append_right _ List.mem_cons_self))
      refine ⟨digits ++ [c], [], (List.append_nil _).symm, large, ?_⟩
      rw [natOfDigits_snoc]
      omega

theorem natOfDigits_rest_lt (hex : ∀ c ∈ front ++ rest, isHexDigit c = true) :
    natOfDigits 16 rest < 16 ^ rest.length :=
  natOfDigits_lt fun c member => digitValue_lt (hex c (List.mem_append_right _ member))

/-- The first digits of a long literal, with the place that they are rounded at. -/
theorem exists_rounded_front (hex : ∀ c ∈ digits, isHexDigit c = true) (large : 2 ^ 53 ≤ natOfDigits 16 digits) :
    ∃ front rest s m, digits = front ++ rest ∧ 2 ^ 53 ≤ natOfDigits 16 front ∧ natOfDigits 16 front < 2 ^ 57 ∧
      Rounded (natOfDigits 16 front) ((s : Nat) + 1) m ∧
      digits.foldl accumulate 0.0 = (carried m (s + 1 + 4 * rest.length)).double := by
  obtain ⟨front, rest, rfl, low, high⟩ := exists_front hex large
  obtain ⟨t, m, rounded⟩ := exists_rounded (q := natOfDigits 16 front) (Nat.cast_nonneg _)
  obtain ⟨s, rfl⟩ : ∃ s : Nat, t = s + 1 := ⟨(t - 1).toNat, by have := rounded_place low rounded; omega⟩
  exact ⟨front, rest, s, m, rfl, low, high, rounded, foldl_append hex low high rounded⟩

/-- A long literal is the nearest double to the number that has its first digits and then zeros. -/
theorem isNearest_front (hex : ∀ c ∈ digits, isHexDigit c = true) :
    ∃ front rest, digits = front ++ rest ∧ natOfDigits 16 front < 2 ^ 57 ∧
      (rest ≠ [] → 2 ^ 53 ≤ natOfDigits 16 front) ∧
      IsNearest (natOfDigits 16 front * 16 ^ rest.length : Nat) (digits.foldl accumulate 0.0) := by
  by_cases large : 2 ^ 53 ≤ natOfDigits 16 digits
  · obtain ⟨front, rest, s, m, split, low, high, rounded, folded⟩ := exists_rounded_front hex large
    refine ⟨front, rest, split, high, fun _ => low, ?_⟩
    rw [folded]
    exact (rounded_extend rounded (Nat.pow_pos (by decide)) (.inr rfl)).isNearest
  · refine ⟨digits, [], (List.append_nil _).symm, by omega, fun none => absurd rfl none, ?_⟩
    rw [List.length_nil, Nat.pow_zero, Nat.mul_one]
    exact isNearest_foldl hex (by omega)

theorem le_of_rounded (rounded : Rounded p (s + 1) m) : p ≤ (2 * m + 1) * 2 ^ s := by
  have upper := rounded.upper
  have unit : (2 : ℚ) ^ ((s : Int) + 1) = 2 * 2 ^ s := by simpa using two_zpow_place s 0
  rw [unit] at upper
  have bound : (p : ℚ) ≤ (2 * m + 1) * 2 ^ s := by linarith
  exact_mod_cast bound

theorem significand_of_tie (rounded : Rounded p (s + 1) m) (tie : p = (2 * m + 1) * 2 ^ s) :
    m % 2 = 0 ∧ 2 ^ 52 ≤ m ∧ m < 2 ^ 53 := by
  have unit : (2 : ℚ) ^ ((s : Int) + 1) = 2 * 2 ^ s := by simpa using two_zpow_place s 0
  have value : (p : ℚ) = (2 * m + 1) * 2 ^ s := by exact_mod_cast tie
  have even := rounded.even (.inr (by rw [unit, value]; ring))
  have full := rounded.le_full
  have below := rounded.below
  rw [unit, value] at below
  have short : ((2 * m + 1 : Nat) : ℚ) < (2 ^ 54 : Nat) := by
    have pos : (0 : ℚ) < 2 ^ s := by positivity
    push_cast
    exact lt_of_mul_lt_mul_right (by linarith) pos.le
  have : 2 * m + 1 < 2 ^ 54 := by exact_mod_cast short
  exact ⟨even, rounded.hidden_or_least.resolve_right (by omega), by omega⟩

theorem place_of_tie (tie : p = (2 * m + 1) * 2 ^ s) (hidden : 2 ^ 52 ≤ m) (small : p < 2 ^ 57) : s < 4 := by
  by_contra far
  have power : 2 ^ 4 ≤ 2 ^ s := Nat.pow_le_pow_right (by decide) (Nat.le_of_not_lt far)
  have large : 2 ^ 53 * 2 ^ 4 ≤ (2 * m + 1) * 2 ^ s := Nat.mul_le_mul (by omega) power
  omega

theorem isNearest_of_not_slips (hex : ∀ c ∈ digits, isHexDigit c = true) (steady : ¬ Slips digits) :
    IsNearest (natOfDigits 16 digits) (hexValue digits) := by
  rcases Nat.lt_or_ge 32 digits.length with long | short
  · rw [hexValue_of_long long]
    by_cases large : 2 ^ 53 ≤ natOfDigits 16 digits
    · obtain ⟨front, rest, s, m, split, low, high, rounded, folded⟩ := exists_rounded_front hex large
      have less := natOfDigits_rest_lt (split ▸ hex)
      have value : natOfDigits 16 digits = natOfDigits 16 front * 16 ^ rest.length + natOfDigits 16 rest := by
        rw [split, natOfDigits_append]
      rw [folded]
      by_cases clear : natOfDigits 16 front < (2 * m + 1) * 2 ^ s ∨ natOfDigits 16 rest = 0
      · rw [value]
        exact (rounded_extend rounded less clear).isNearest
      · obtain ⟨tie, some⟩ := not_or.1 clear
        have reached : natOfDigits 16 front = (2 * m + 1) * 2 ^ s :=
          Nat.le_antisymm (le_of_rounded rounded) (Nat.le_of_not_lt tie)
        obtain ⟨even, hidden, fits⟩ := significand_of_tie rounded reached
        have after := rounded_after_tie reached hidden (by omega) less some
        rw [← value] at after
        by_cases finite : (natOfDigits 16 digits : ℚ) < overflow
        · exact absurd ⟨long, finite, front, rest, m, s, split, even, hidden, fits, place_of_tie reached hidden high,
            reached, some⟩ steady
        · have great := mt after.lt_overflow_iff.2 finite
          rw [carried_of_lt (by omega)] at great
          have folded : (carried m (s + 1 + 4 * rest.length)).double = Number.infinity := by
            rw [carried_of_lt fits]
            exact wide_of_great hidden (Int.not_le.1 great)
          rw [folded]
          exact IsNearest.infinity_of_le (not_lt.1 finite)
    · exact isNearest_foldl hex (by omega)
  · rw [hexValue_of_short short]
    exact isNearest_ofNat _

theorem not_isNearest_of_slips (hex : ∀ c ∈ digits, isHexDigit c = true) (slips : Slips digits) :
    ¬ IsNearest (natOfDigits 16 digits) (hexValue digits) := by
  obtain ⟨long, finite, front, rest, m, s, rfl, even, hidden, fits, small, tie, some⟩ := slips
  have power : 2 ^ s ≤ 2 ^ 3 := Nat.pow_le_pow_right (by decide) (Nat.le_of_lt_succ small)
  have low : 2 ^ 53 ≤ natOfDigits 16 front := by
    rw [tie]
    exact Nat.le_trans (by omega) (Nat.le_mul_of_pos_right _ (Nat.two_pow_pos s))
  have high : natOfDigits 16 front < 2 ^ 57 := by
    rw [tie]
    exact Nat.lt_of_le_of_lt (Nat.mul_le_mul_left _ power) (by omega)
  have rounded : Rounded (natOfDigits 16 front) (s + 1) m := tie ▸ rounded_tie even hidden fits
  have after := rounded_after_tie tie hidden (by omega) (natOfDigits_rest_lt hex) some
  rw [← natOfDigits_append] at after
  have most : (s : Int) + 1 + 4 * rest.length ≤ 971 := by
    have bound := after.lt_overflow_iff.1 finite
    rwa [carried_of_lt (by omega)] at bound
  rw [hexValue_of_long long, foldl_append hex low high rounded]
  intro nearest
  have same := after.eq_of_isNearest nearest
  rw [carried_of_lt fits, carried_of_lt (by omega)] at same
  have lower := (unsigned_wide hidden fits (by omega) most).2
  have upper := (unsigned_wide (m := m + 1) (by omega) (by omega) (by omega) most).2
  have equal : (m : ℚ) = (m + 1 : Nat) :=
    mul_right_cancel₀ (two_zpow_pos _).ne' (lower.symm.trans ((congrArg rational same).trans upper))
  have : m = m + 1 := by exact_mod_cast equal
  omega

end Long

/-- Zeros in front of the digits of a long literal do nothing. -/
theorem foldl_replicate_zero (n : Nat) : (List.replicate n '0').foldl accumulate 0.0 = 0.0 := by
  have step : accumulate 0.0 '0' = 0.0 := by decide
  induction n with
  | zero => rfl
  | succ n ih => rw [List.replicate_succ, List.foldl_cons, step, ih]

/-- A hexadecimal literal is the nearest double to its value exactly if its digits do not slip. A long one is the nearest
double to the number that has its first digits and then zeros, and zeros before the digits change the result exactly if
they make them slip or keep them from it. -/
theorem hexValue_isNearest_iff {digits : List Char} (hex : ∀ c ∈ digits, isHexDigit c = true) :
    (IsNearest (natOfDigits 16 digits) (hexValue digits) ↔ ¬ Slips digits) ∧
    (32 < digits.length → ∃ front rest, digits = front ++ rest ∧ natOfDigits 16 front < 2 ^ 57 ∧
      (rest ≠ [] → 2 ^ 53 ≤ natOfDigits 16 front) ∧
      IsNearest (natOfDigits 16 front * 16 ^ rest.length : Nat) (hexValue digits)) ∧
    ∀ n, hexValue (List.replicate n '0' ++ digits) = hexValue digits ↔
      (Slips (List.replicate n '0' ++ digits) ↔ Slips digits) := by
  have exactly {ds : List Char} (all : ∀ c ∈ ds, isHexDigit c = true) :
      IsNearest (natOfDigits 16 ds) (hexValue ds) ↔ ¬ Slips ds :=
    ⟨fun nearest slips => not_isNearest_of_slips all slips nearest, isNearest_of_not_slips all⟩
  refine ⟨exactly hex, fun long => hexValue_of_long long ▸ isNearest_front hex, fun n => ?_⟩
  have padded : ∀ c ∈ List.replicate n '0' ++ digits, isHexDigit c = true := by
    intro c member
    rcases List.mem_append.1 member with zero | digit
    · rw [List.eq_of_mem_replicate zero]
      decide
    · exact hex c digit
  have value : natOfDigits 16 (List.replicate n '0' ++ digits) = natOfDigits 16 digits := by
    rw [natOfDigits_append, natOfDigits_replicate_zero, Nat.zero_mul, Nat.zero_add]
  have own := exactly hex
  have other := exactly padded
  rw [value] at other
  constructor
  · intro same
    rw [same] at other
    exact not_iff_not.1 (other.symm.trans own)
  · intro alike
    by_cases slips : Slips digits
    · have long := (alike.2 slips).1
      rw [hexValue_of_long long, hexValue_of_long slips.1, List.foldl_append, foldl_replicate_zero]
    · exact IsNearest.unique (Nat.cast_nonneg _) (other.2 (mt alike.1 slips)) (own.2 slips)

/-- The number `2 ^ 57 + 24`, with digits enough to be accumulated. -/
def padded : List Char := List.replicate 18 '0' ++ "200000000000018".toList

/-- The first digits are `2 ^ 53 + 1`, between two doubles, and the last one is lost. -/
theorem slips_padded : Slips padded := by
  refine ⟨by decide, ?_, padded.take 32, ['8'], 2 ^ 52, 0, by decide, ?_⟩
  · have value : natOfDigits 16 padded = 144115188075855896 := by decide
    have power : (2 : ℚ) ^ (57 + (1 : Nat) : Int) ≤ 2 ^ (970 : Int) := two_zpow_le (by decide)
    rw [value, Rounded.overflow_eq]
    generalize (2 : ℚ) ^ (970 : Int) = u at power ⊢
    norm_num at power ⊢
    linarith
  · have tie : natOfDigits 16 (padded.take 32) = 2 ^ 53 + 1 := by decide
    have last : natOfDigits 16 ['8'] = 8 := rfl
    rw [tie, last]
    norm_num

theorem hexValue_isNearest_iff_padded :
    Slips padded ∧ ¬ IsNearest (natOfDigits 16 padded) (hexValue padded) := by
  have hex : ∀ c ∈ padded, isHexDigit c = true := List.all_eq_true.1 (by decide)
  exact ⟨slips_padded, fun nearest => (hexValue_isNearest_iff hex).1.1 nearest slips_padded⟩

/-- Zeros in front of a literal change its number, and not to the nearest one. -/
theorem padding_changes_hexValue :
    hexValue padded ≠ hexValue "200000000000018".toList ∧
      natOfDigits 16 padded = natOfDigits 16 "200000000000018".toList ∧
      IsNearest (natOfDigits 16 padded) (hexValue "200000000000018".toList) ∧
      ¬ IsNearest (natOfDigits 16 padded) (hexValue padded) := by
  have different : hexValue padded ≠ hexValue "200000000000018".toList := by decide +kernel
  have value : natOfDigits 16 padded = natOfDigits 16 "200000000000018".toList := by decide
  have nearest : IsNearest (natOfDigits 16 padded) (hexValue "200000000000018".toList) := by
    rw [value, hexValue_of_short (by decide)]
    exact isNearest_ofNat _
  exact ⟨different, value, nearest, fun other => different (IsNearest.unique (Nat.cast_nonneg _) other nearest)⟩

end Ecma.Number.Literal
