import Ecma.Index
import Ecma.Number.Printer
import Ecma.Proofs.Number.Scanner

/-!
# Numbers through their texts

A number that is written and read again is the number that it was, but for the sign of zero. There are two halves. The
digits that are chosen for a double read back: the test that chooses them puts the decimal among the rationals that are
rounded to the double (`isNearest_of_readsBack`). And whatever digits are laid out, at whatever place their point stands,
the text is a decimal with the value of those digits (`writes_layout`).
-/

namespace Ecma.Number

/-- The exact value of a decimal. -/
def Decimal.value (d : Decimal) : ℚ := d.coefficient * 10 ^ d.exponent

/-! ## Digits that read back -/

/-- The cross-multiplication compares the two values. -/
theorem compareScaled_eq (a : Nat) (i : Int) (n : Nat) (j : Int) :
    compareScaled a i n j = compare (a * 10 ^ i : ℚ) (n * 2 ^ j) := by
  have scale : (0 : ℚ) < 10 ^ (-i).toNat * 2 ^ (-j).toNat := by positivity
  have left : (a * 10 ^ i : ℚ) * (10 ^ (-i).toNat * 2 ^ (-j).toNat) = (a * 10 ^ i.toNat * 2 ^ (-j).toNat : Nat) := by
    rw [zpow_eq_div (by norm_num) i]
    push_cast
    field_simp
  have right : (n * 2 ^ j : ℚ) * (10 ^ (-i).toNat * 2 ^ (-j).toNat) = (n * 2 ^ j.toNat * 10 ^ (-i).toNat : Nat) := by
    rw [zpow_eq_div (by norm_num) j]
    push_cast
    field_simp
  change compare (a * 10 ^ i.toNat * 2 ^ (-j).toNat) (n * 2 ^ j.toNat * 10 ^ (-i).toNat) = _
  generalize a * 10 ^ i.toNat * 2 ^ (-j).toNat = x at left
  generalize n * 2 ^ j.toNat * 10 ^ (-i).toNat = y at right
  rcases lt_trichotomy x y with order | order | order
  · rw [compare_lt_iff_lt.2 order, eq_comm, compare_lt_iff_lt, ← mul_lt_mul_iff_of_pos_right scale, left, right]
    exact_mod_cast order
  · rw [compare_eq_iff_eq.2 order, eq_comm, compare_eq_iff_eq]
    refine mul_right_cancel₀ scale.ne' ?_
    rw [left, right, order]
  · rw [compare_gt_iff_gt.2 order, eq_comm, compare_gt_iff_gt, ← mul_lt_mul_iff_of_pos_right scale, left, right]
    exact_mod_cast order

namespace Binary

variable {b : Binary} {d : Decimal}

theorem readsBack_iff : b.readsBack d = true ↔
    ((((if b.isNarrow then 4 * b.significand - 1 else 4 * b.significand - 2 : Nat) : ℚ) * 2 ^ (b.exponent - 2) < d.value ∨
      b.significand % 2 = 0 ∧
        d.value = ((if b.isNarrow then 4 * b.significand - 1 else 4 * b.significand - 2 : Nat) : ℚ) * 2 ^ (b.exponent - 2)) ∧
    (d.value < ((4 * b.significand + 2 : Nat) : ℚ) * 2 ^ (b.exponent - 2) ∨
      b.significand % 2 = 0 ∧ d.value = ((4 * b.significand + 2 : Nat) : ℚ) * 2 ^ (b.exponent - 2))) := by
  simp only [readsBack, compareScaled_eq, Bool.and_eq_true, Bool.or_eq_true, beq_iff_eq, decide_eq_true_eq,
    compare_gt_iff_gt, compare_eq_iff_eq, compare_lt_iff_lt, Decimal.value]

theorem quarter (e : Int) : (2 : ℚ) ^ e = 4 * 2 ^ (e - 2) := by
  have power := two_zpow_add_natCast (e - 2) 2
  norm_num at power
  exact power

/-- A decimal within half of the last place of a double, on its side of a power of two, is rounded to the double. -/
theorem isNearest_of_within {q : ℚ} (canonical : b.Canonical) (positive : b.negative = false)
    (lower : (2 * b.significand - 1) * 2 ^ b.exponent ≤ 2 * q) (upper : 2 * q ≤ (2 * b.significand + 1) * 2 ^ b.exponent)
    (even : 2 * q = (2 * b.significand - 1) * 2 ^ b.exponent ∨ 2 * q = (2 * b.significand + 1) * 2 ^ b.exponent →
      b.significand % 2 = 0)
    (side : 2 ^ 52 * 2 ^ b.exponent ≤ q ∨ b.exponent = -1074) : IsNearest q b.double := by
  have room : (b.significand : ℚ) + 1 ≤ 2 ^ 53 := by exact_mod_cast canonical.fits
  have scaled := mul_le_mul_of_nonneg_right room (two_zpow_pos b.exponent).le
  have unit := two_zpow_pos b.exponent
  have rounded : Rounded q b.exponent b.significand :=
    ⟨canonical.least, by linarith, side, lower, upper, even⟩
  have nearest := rounded.isNearest
  rwa [carried_of_lt canonical.fits, ← positive] at nearest

/-- A decimal just below a power of two is rounded at a place that is worth half as much, and carries. -/
theorem isNearest_of_below {q : ℚ} (positive : b.negative = false) (power : b.significand = 2 ^ 52)
    (place : -1074 < b.exponent) (lower : (2 ^ 54 - 1) * 2 ^ b.exponent ≤ 4 * q) (below : q < 2 ^ 52 * 2 ^ b.exponent) :
    IsNearest q b.double := by
  have half : (2 : ℚ) ^ b.exponent = 2 * 2 ^ (b.exponent - 1) := by
    have next := two_zpow_add_natCast (b.exponent - 1) 1
    norm_num at next
    exact next
  have unit := two_zpow_pos (b.exponent - 1)
  rw [half] at lower below
  have rounded : Rounded q (b.exponent - 1) (2 ^ 53) := by
    refine ⟨by omega, by linarith, .inl (by linarith), ?_, ?_, fun _ => by norm_num⟩ <;> push_cast <;> linarith
  have nearest := rounded.isNearest
  rwa [carried_full, Int.sub_add_cancel, ← power, ← positive] at nearest

theorem upper_of_readsBack (reads : b.readsBack d = true) :
    2 * d.value ≤ (2 * b.significand + 1) * 2 ^ b.exponent ∧
      (2 * d.value = (2 * b.significand + 1) * 2 ^ b.exponent → b.significand % 2 = 0) := by
  obtain ⟨-, high⟩ := readsBack_iff.1 reads
  push_cast at high
  rw [quarter b.exponent]
  rcases high with strict | ⟨even, tie⟩
  · exact ⟨by linarith, fun tie => by linarith⟩
  · exact ⟨by linarith, fun _ => even⟩

theorem lower_of_readsBack (wide : b.isNarrow = false) (pos : 0 < b.significand) (reads : b.readsBack d = true) :
    (2 * b.significand - 1) * 2 ^ b.exponent ≤ 2 * d.value ∧
      (2 * d.value = (2 * b.significand - 1) * 2 ^ b.exponent → b.significand % 2 = 0) := by
  obtain ⟨low, -⟩ := readsBack_iff.1 reads
  have cast : ((4 * b.significand - 2 : Nat) : ℚ) = 4 * b.significand - 2 := by
    rw [Nat.cast_sub (by omega)]
    push_cast
    ring
  rw [wide, if_neg (by decide), cast] at low
  rw [quarter b.exponent]
  rcases low with strict | ⟨even, tie⟩
  · exact ⟨by linarith, fun tie => by linarith⟩
  · exact ⟨by linarith, fun _ => even⟩

/-- Next to a power of two there is only half the room below. -/
theorem lower_of_narrow (narrow : b.isNarrow = true) (pos : 0 < b.significand) (reads : b.readsBack d = true) :
    (4 * b.significand - 1) * 2 ^ b.exponent ≤ 4 * d.value := by
  obtain ⟨low, -⟩ := readsBack_iff.1 reads
  have cast : ((4 * b.significand - 1 : Nat) : ℚ) = 4 * b.significand - 1 := by
    rw [Nat.cast_sub (by omega)]
    push_cast
    ring
  rw [narrow, if_pos rfl, cast] at low
  rw [quarter b.exponent]
  rcases low with strict | ⟨-, tie⟩ <;> linarith

theorem isNearest_of_readsBack (canonical : b.Canonical) (positive : b.negative = false) (pos : 0 < b.significand)
    (reads : b.readsBack d = true) : IsNearest d.value b.double := by
  have unit := two_zpow_pos b.exponent
  obtain ⟨upper, evenUpper⟩ := upper_of_readsBack reads
  cases narrow : b.isNarrow with
  | false =>
    obtain ⟨lower, evenLower⟩ := lower_of_readsBack narrow pos reads
    refine isNearest_of_within canonical positive lower upper (·.elim evenLower evenUpper) ?_
    by_cases least : b.exponent = -1074
    · exact .inr least
    · have hidden := canonical.normal.resolve_right least
      have floor := canonical.least
      simp only [isNarrow, Bool.and_eq_false_iff, decide_eq_false_iff_not] at narrow
      have other : b.significand ≠ 2 ^ 52 := narrow.resolve_right (by omega)
      have above : 2 ^ 52 + 1 ≤ b.significand := by omega
      have cast : (2 ^ 52 + 1 : ℚ) ≤ b.significand := by exact_mod_cast above
      have scaled := mul_le_mul_of_nonneg_right cast unit.le
      exact .inl (by linarith)
  | true =>
    have lower := lower_of_narrow narrow pos reads
    simp only [isNarrow, Bool.and_eq_true, decide_eq_true_eq] at narrow
    have power : b.significand = 2 ^ 52 := narrow.1
    have cast : (b.significand : ℚ) = 2 ^ 52 := by exact_mod_cast power
    rw [cast] at lower
    by_cases below : d.value < 2 ^ 52 * 2 ^ b.exponent
    · exact isNearest_of_below positive power narrow.2 (by linarith) below
    · refine isNearest_of_within canonical positive ?_ upper (fun _ => by rw [power]; norm_num) (.inl (not_lt.1 below))
      rw [cast]
      linarith

theorem readsBack_of_nearest? {i : Int} (found : b.nearest? i = some d) : b.readsBack d = true := by
  simp only [nearest?] at found
  cases below : b.readsBack ⟨b.quotient i, i⟩ <;> cases above : b.readsBack ⟨b.quotient i + 1, i⟩ <;>
    simp only [below, above] at found
  · cases found
  · cases found
    exact above
  · cases found
    exact below
  · split at found <;> cases found
    · exact below
    · exact above

theorem value_exact (b : Binary) : b.exact.value = b.significand * 2 ^ b.exponent := by
  rw [exact]
  split
  · rename_i negative
    obtain ⟨n, place⟩ : ∃ n : Nat, b.exponent = -(n : Int) := ⟨(-b.exponent).toNat, by omega⟩
    have count : (-b.exponent).toNat = n := by omega
    change ((b.significand * 5 ^ (-b.exponent).toNat : Nat) : ℚ) * 10 ^ b.exponent = _
    rw [count, place, zpow_neg, zpow_neg, zpow_natCast, zpow_natCast]
    have ten : (10 : ℚ) ^ n = 2 ^ n * 5 ^ n := by
      rw [← mul_pow]
      norm_num
    rw [ten]
    push_cast
    field_simp
  · have place : b.exponent = (b.exponent.toNat : Int) := by omega
    change ((b.significand * 2 ^ b.exponent.toNat : Nat) : ℚ) * 10 ^ (0 : Int) = _
    conv_rhs => rw [place, zpow_natCast]
    push_cast
    ring

/-- The shortest decimal of a double is rounded to it. -/
theorem isNearest_shortest (canonical : b.Canonical) (positive : b.negative = false) (pos : 0 < b.significand) :
    IsNearest b.shortest.value b.double := by
  rw [shortest]
  cases found : (List.range 17).findSome? fun n : Nat => b.nearest? (b.scale - (n + 1)) with
  | some d =>
    obtain ⟨n, -, taken⟩ := List.exists_of_findSome?_eq_some found
    exact isNearest_of_readsBack canonical positive pos (readsBack_of_nearest? taken)
  | none =>
    have unsigned : Unsigned b.double := ⟨isFinite_double canonical, by
      rw [← negative_ofFloat, ofFloat_double canonical, positive]⟩
    have value : rational b.double = b.exact.value := by
      rw [rational_double canonical, value_of_positive positive, value_exact]
    exact value ▸ unsigned.isNearest

end Binary

theorem Decimal.value_strip (n : Nat) (d : Decimal) : (d.strip n).value = d.value := by
  induction n generalizing d with
  | zero => rfl
  | succ n ih =>
    rw [strip]
    split
    · rename_i zero
      have whole : (d.coefficient : ℚ) = (d.coefficient / 10 : Nat) * 10 := by
        exact_mod_cast (Nat.div_mul_cancel (Nat.dvd_of_mod_eq_zero zero)).symm
      rw [ih, value, value, whole, zpow_add₀ (by norm_num), zpow_one]
      ring
    · rfl

/-! ## Layouts -/

namespace Literal

/-- The characters are a decimal without sign, of this value. -/
def Writes (cs : List Char) (q : ℚ) : Prop := ∃ text whole fraction power e, cs = text ++ power ∧
  Significand text whole fraction ∧ Power power e ∧
    (natOfDigits 10 (whole ++ fraction) * 10 ^ (e - fraction.length) : ℚ) = q

variable {ds power : List Char} {e : Int}

theorem writes_integer (digits : Digits ds) (exponent : Power power e) :
    Writes (ds ++ power) (natOfDigits 10 ds * 10 ^ e) := by
  refine ⟨ds, ds, [], power, e, rfl, .integer digits, exponent, ?_⟩
  rw [List.append_nil, List.length_nil, Nat.cast_zero, sub_zero]

theorem isDigit_replicate_zero (n : Nat) : ∀ c ∈ List.replicate n '0', c.isDigit = true := by
  intro c member
  rw [List.eq_of_mem_replicate member]
  decide

/-- Zeros after the digits multiply them by a power of ten. -/
theorem writes_padded (digits : Digits ds) (n : Nat) :
    Writes (ds ++ List.replicate n '0') (natOfDigits 10 ds * 10 ^ n) := by
  have padded : Digits (ds ++ List.replicate n '0') := by
    refine ⟨List.append_ne_nil_of_left_ne_nil digits.1 _, fun c member => ?_⟩
    exact (List.mem_append.1 member).elim (digits.2 c) (isDigit_replicate_zero n c)
  have written := writes_integer padded .none
  rwa [List.append_nil, natOfDigits_append, natOfDigits_replicate_zero, List.length_replicate, zpow_zero, mul_one,
    Nat.add_zero, Nat.cast_mul, Nat.cast_pow] at written

/-- A point among the digits divides by the power of ten of those after it. -/
theorem writes_split (digits : Digits ds) {n : Nat} (first : 0 < n) (last : n ≤ ds.length) (exponent : Power power e) :
    Writes (ds.take n ++ '.' :: ds.drop n ++ power) (natOfDigits 10 ds * 10 ^ (e + n - ds.length)) := by
  have whole : Digits (ds.take n) := by
    refine ⟨?_, fun c member => digits.2 c (List.mem_of_mem_take member)⟩
    rw [Ne, List.take_eq_nil_iff, not_or]
    exact ⟨by omega, digits.1⟩
  refine ⟨_, _, _, power, e, rfl, .pointed whole fun c member => digits.2 c (List.mem_of_mem_drop member), exponent, ?_⟩
  rw [List.take_append_drop, List.length_drop, Nat.cast_sub last]
  congr 2
  ring

/-- Zeros between the point and the digits divide by another power of ten. -/
theorem writes_leading (digits : Digits ds) (n : Nat) :
    Writes ('0' :: '.' :: (List.replicate n '0' ++ ds)) (natOfDigits 10 ds * 10 ^ (-n - ds.length : Int)) := by
  have fraction : ∀ c ∈ List.replicate n '0' ++ ds, c.isDigit = true := fun c member =>
    (List.mem_append.1 member).elim (isDigit_replicate_zero n c) (digits.2 c)
  have zero : Digits ['0'] := ⟨List.cons_ne_nil _ _, isDigit_replicate_zero 1⟩
  refine ⟨_, _, _, [], 0, (List.append_nil _).symm, .pointed zero fraction, .none, ?_⟩
  have zeros := natOfDigits_replicate_zero 10 (n + 1)
  rw [List.replicate_succ] at zeros
  rw [List.singleton_append, ← List.cons_append, natOfDigits_append, zeros, Nat.zero_mul, Nat.zero_add,
    List.length_append, List.length_replicate]
  congr 2
  push_cast
  ring

theorem digits_repr (n : Nat) : Digits (Nat.repr n).toList := by
  refine ⟨?_, List.all_eq_true.1 (Index.all_isDigit_name n)⟩
  rw [← List.length_pos_iff, String.length_toList]
  exact Nat.length_repr_pos

/-- The exponent part is written with its sign, plus included. -/
theorem power_repr (e : Int) : Power ((if e < 0 then "e-" else "e+") ++ Nat.repr e.natAbs).toList e := by
  have magnitude : natOfDigits 10 (Nat.repr e.natAbs).toList = e.natAbs := Index.natOfDigits_repr _
  split
  · have power := Power.some (.inl rfl) .minus (digits_repr e.natAbs)
    rw [if_pos rfl, magnitude, show -(e.natAbs : Int) = e by omega] at power
    rwa [String.toList_append]
  · have power := Power.some (.inl rfl) .plus (digits_repr e.natAbs)
    rw [if_neg Bool.false_ne_true, magnitude, show (e.natAbs : Int) = e by omega] at power
    rwa [String.toList_append]

/-- Wherever the point is put, the text is a decimal with the value of the digits. -/
theorem writes_layout {digits : String} (all : Digits digits.toList) (n : Int) :
    Writes (layout digits n).toList (natOfDigits 10 digits.toList * 10 ^ (n - digits.length)) := by
  have size : digits.toList.length = digits.length := String.length_toList
  have some : 0 < digits.length := size ▸ List.length_pos_iff.2 all.1
  have power := power_repr (n - 1)
  unfold layout
  dsimp only
  generalize (if n - 1 < 0 then "e-" else "e+") ++ Nat.repr (n - 1).natAbs = mark at power ⊢
  split_ifs with integer split leading single
  · have written := writes_padded all (n - digits.length).toNat
    rw [← zpow_natCast, Int.toNat_of_nonneg (by omega)] at written
    simpa [zeros] using written
  · have written := writes_split all (n := n.toNat) (by omega) (by omega) .none
    rw [size, zero_add, Int.toNat_of_nonneg split.1.le] at written
    simpa using written
  · have written := writes_leading all (-n).toNat
    rw [size, Int.toNat_of_nonneg (by omega), neg_neg] at written
    simpa [zeros] using written
  · have written := writes_integer all power
    rw [single]
    simpa using written
  · have written := writes_split all Nat.one_pos (size ▸ some) power
    rw [size, Nat.cast_one, sub_add_cancel] at written
    simpa using written

theorem Writes.spells {cs s : List Char} {q : ℚ} {negative : Bool} (writes : Writes cs q) (signs : Signs s negative) :
    ∃ whole fraction e, Spells (s ++ cs) (.decimal negative whole fraction e) ∧
      (natOfDigits 10 (whole ++ fraction) * 10 ^ (e - fraction.length) : ℚ) = q := by
  obtain ⟨text, whole, fraction, power, e, rfl, significand, exponent, value⟩ := writes
  exact ⟨whole, fraction, e, .decimal signs significand exponent, value⟩

end Literal

/-! ## Reading what was written -/

section

open Literal

theorem ofText_of_spells {text : String} {l : Literal} (spelled : Spells text.toList l) :
    ofText (Text.ofString text) = l.value := by
  have read : read? text.toList = some l := read?_of_spells (by rwa [spelled.strip])
  rw [ofText_eq, Text.decode_ofString, read]
  rfl

/-- A text of a rational is read as the double nearest to it. -/
theorem ofText_of_writes {text : String} {q : ℚ} {x : Float} (writes : Writes text.toList q) (nearest : IsNearest q x) :
    ofText (Text.ofString text) = x ∧ ofText (Text.ofString ("-" ++ text)) = -x := by
  have value {whole fraction : List Char} {e : Int}
      (same : (natOfDigits 10 (whole ++ fraction) * 10 ^ (e - fraction.length) : ℚ) = q) :
      scientific (natOfDigits 10 (whole ++ fraction)) (e - fraction.length) = x := by
    have nonneg : 0 ≤ q := by
      rw [← same]
      positivity
    exact IsNearest.unique nonneg (same ▸ isNearest_scientific _ _) nearest
  constructor
  · obtain ⟨whole, fraction, e, spelled, same⟩ := writes.spells .none
    rw [ofText_of_spells spelled, Literal.value, value same]
    rfl
  · obtain ⟨whole, fraction, e, spelled, same⟩ := writes.spells .minus
    have signed : Spells ("-" ++ text).toList (.decimal true whole fraction e) := by
      rwa [String.toList_append]
    rw [ofText_of_spells signed, Literal.value, value same]
    rfl

/-- The digits of a double and the place of their point give a decimal that is rounded to it. -/
theorem writes_magnitudeText {x : Float} (unsigned : Unsigned x) (pos : 0 < (Binary.ofFloat x).significand) :
    ∃ q, Writes (magnitudeText x).toList q ∧ IsNearest q x := by
  have finite : (x == infinity) = false := by
    rw [← Bool.not_eq_true, Float.beq_iff_ne_nan_and_eq]
    rintro ⟨-, -, rfl | ⟨-, never⟩ | ⟨-, never⟩⟩
    · exact absurd unsigned.finite (by decide)
    · exact absurd never (by decide)
    · exact absurd never (by decide)
  have nearest := Binary.isNearest_shortest unsigned.canonical unsigned.negative pos
  rw [double_ofFloat unsigned.finite, ← Decimal.value_strip 17] at nearest
  rw [magnitudeText, finite, if_neg Bool.false_ne_true]
  generalize chosen : (Binary.ofFloat x).shortest.strip 17 = d at nearest
  have place : digitsAndPoint x = (d.digits, d.exponent + d.digits.length) := by
    rw [digitsAndPoint, chosen]
  have coefficient : natOfDigits 10 d.digits.toList = d.coefficient := Index.natOfDigits_repr _
  have digits : Digits d.digits.toList := digits_repr d.coefficient
  have written := writes_layout digits (d.exponent + d.digits.length)
  rw [coefficient, add_sub_cancel_right] at written
  rw [place]
  exact ⟨d.value, written, nearest⟩

open Float.Model Float.Model.UnpackedFloat

theorem unpack_zero : (0.0 : Float).toModel.unpack = .zero .positive :=
  Unsigned.unpack_of_zero ⟨by decide, by decide⟩ (by decide)

theorem beq_zero {x : Float} (finite : isFinite x = true) (zero : (Binary.ofFloat x).significand = 0) :
    (x == 0.0) = true := by
  change UnpackedFloat.beq x.toModel.unpack (0.0 : Float).toModel.unpack = true
  rw [unpack_zero, unpack_eq finite, Binary.unpacked_of_zero zero]
  rfl

theorem lt_zero_iff {x : Float} (finite : isFinite x = true) (pos : 0 < (Binary.ofFloat x).significand) :
    x < 0.0 ↔ signBit x = true := by
  change decide (UnpackedFloat.lt x.toModel.unpack (0.0 : Float).toModel.unpack = true) = true ↔ _
  rw [decide_eq_true_eq, ← negative_ofFloat, unpack_zero, unpack_eq finite, Binary.unpacked_of_pos pos, Binary.sign]
  cases (Binary.ofFloat x).negative with
  | false => exact Iff.rfl
  | true => exact Iff.rfl

theorem neg_neg_of_isFinite {x : Float} (finite : isFinite x = true) : - -x = x := by
  have twice : (Binary.ofFloat x).opposite.opposite = Binary.ofFloat x := by
    rw [Binary.opposite, Binary.opposite, Bool.not_not]
  rw [neg_eq_double (isFinite_neg finite), ofFloat_neg finite, twice, double_ofFloat finite]

/-- Every finite number but zero is read as what it was before it was written. -/
theorem ofText_toText_of_ne_zero {x : Float} (finite : isFinite x = true) (nonzero : (x == 0.0) = false) :
    ofText (Text.ofString (toText x)) = x := by
  have pos : 0 < (Binary.ofFloat x).significand := Nat.pos_of_ne_zero fun zero =>
    Bool.false_ne_true (nonzero.symm.trans (beq_zero finite zero))
  rw [toText, isNaN_eq_false finite, nonzero, if_neg Bool.false_ne_true, if_neg Bool.false_ne_true]
  cases negative : signBit x with
  | false =>
    obtain ⟨q, writes, nearest⟩ := writes_magnitudeText ⟨finite, negative⟩ pos
    rw [if_neg fun below => Bool.false_ne_true (negative.symm.trans ((lt_zero_iff finite pos).1 below))]
    exact (ofText_of_writes writes nearest).1
  | true =>
    have unsigned : Unsigned (-x) := ⟨isFinite_neg finite, by rw [signBit_neg finite, negative]; rfl⟩
    have same : 0 < (Binary.ofFloat (-x)).significand := by
      rw [ofFloat_neg finite]
      exact pos
    obtain ⟨q, writes, nearest⟩ := writes_magnitudeText unsigned same
    rw [if_pos ((lt_zero_iff finite pos).2 negative), (ofText_of_writes writes nearest).2, neg_neg_of_isFinite finite]

/-- Numbers through their texts. Any digits, with the point at any place and with or without a minus, make a text that is
a decimal literal of exactly that value, and it is read as the double nearest to that value. Hence every number but NaN
is read as the bits it had before it was written, except that a zero loses its sign. -/
theorem ofText_toText :
    (∀ (digits : String) (n : Int) (minus : Bool), Digits digits.toList →
      let text := (if minus then "-" else "") ++ layout digits n
      ∃ whole fraction e, Spells text.toList (.decimal minus whole fraction e) ∧
        ((natOfDigits 10 whole + natOfDigits 10 fraction / 10 ^ fraction.length) * 10 ^ e : ℚ) =
          natOfDigits 10 digits.toList * 10 ^ (n - digits.length) ∧
        Denotes (.decimal minus whole fraction e) (ofText (Text.ofString text))) ∧
    ∀ x : Float, x.isNaN = false →
      (ofText (Text.ofString (toText x))).toBits = if x == 0.0 then 0 else x.toBits := by
  constructor
  · intro digits n minus all text
    have signs : Signs (if minus then "-" else "").toList minus := by
      cases minus with
      | false => exact .none
      | true => exact .minus
    obtain ⟨whole, fraction, e, spelled, value⟩ := (writes_layout all n).spells signs
    rw [← String.toList_append] at spelled
    rw [coefficient_mul_power] at value
    refine ⟨whole, fraction, e, spelled, value, ?_⟩
    rw [ofText_of_spells spelled]
    exact denotes_value _
  · intro x number
    cases zero : x == 0.0 with
    | true =>
      rw [toText, number, zero, if_neg Bool.false_ne_true, if_pos rfl, if_pos rfl]
      decide
    | false =>
      rw [if_neg Bool.false_ne_true]
      cases finite : isFinite x with
      | true => rw [ofText_toText_of_ne_zero finite zero]
      | false =>
        rcases cases_not_finite finite with rfl | rfl | rfl
        · exact absurd number (by decide)
        · decide
        · decide

/-- Two digits far below the point, and the least of all positive doubles. -/
theorem ofText_toText_least :
    (∃ whole fraction e, Spells "-1.5e-8".toList (.decimal true whole fraction e) ∧
      ((natOfDigits 10 whole + natOfDigits 10 fraction / 10 ^ fraction.length) * 10 ^ e : ℚ) = 15 * 10 ^ (-9 : Int)) ∧
    (ofText (Text.ofString (toText (Float.ofBits 1)))).toBits = 1 := by
  have all : Digits "15".toList := ⟨by simp, by simp⟩
  obtain ⟨whole, fraction, e, spelled, value, -⟩ := ofText_toText.1 "15" (-7) true all
  have bits := ofText_toText.2 (Float.ofBits 1) (by decide)
  refine ⟨⟨whole, fraction, e, ?_, ?_⟩, ?_⟩
  · have text : (if true then "-" else "") ++ layout "15" (-7) = "-1.5e-8" := by decide
    rwa [← text]
  · rw [value]
    have digits : natOfDigits 10 "15".toList = 15 := by decide
    have size : (-7 : Int) - ("15".length : Nat) = -9 := by decide
    rw [digits, size]
    norm_num
  · rw [bits]
    decide

end

end Ecma.Number
