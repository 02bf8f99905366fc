import Ecma.Proofs.Number.Exact

/-!
# Conversion to integers of fixed width

The conversions reduce the integer before the point modulo a power of two. They do so with doubles: a remainder, a sum, a
second remainder, and for the signed one a difference, before a cast that would saturate. For every finite double each of
these has its exact result (`Reduces`), since from the first remainder on everything is an integer far below `2 ^ 53`. So
the conversions are the residues that they should be.
-/

namespace Ecma.Number

/-- An integer of a residue class modulo `n`, among the `n` integers from `least` on. -/
structure IsResidue (n : Nat) (least t k : Int) : Prop where
  low : least ≤ k
  high : k < least + n
  congruent : k ≡ t [ZMOD n]

/-- A residue class has one member among `n` integers in a row. -/
theorem IsResidue.iff_eq {n : Nat} {least t k : Int} (residue : IsResidue n least t k) (j : Int) :
    IsResidue n least t j ↔ j = k := by
  refine ⟨fun other => ?_, fun same => same ▸ residue⟩
  have shifted : j - least ≡ k - least [ZMOD n] := (other.congruent.trans residue.congruent.symm).sub_right least
  have lowJ := other.low
  have lowK := residue.low
  have highJ := other.high
  have highK := residue.high
  rw [Int.ModEq, Int.emod_eq_of_lt (by omega) (by omega), Int.emod_eq_of_lt (by omega) (by omega)] at shifted
  omega

/-- The steps of the reduction of `x` modulo `n`, which `m` stands for: each of them has the exact result. -/
structure Reduces (m x : Float) (n : Nat) (t : Int) : Prop where
  modulus : IsExactly m n
  truncated : IsExactly (truncate x) t
  divided : IsExactly (remainder (truncate x) m) (t.tmod n : Int)
  raised : IsExactly (remainder (truncate x) m + m) (t.tmod n + n : Int)
  wrapped : IsExactly (wrap m x) (t % n : Int)

/-- The remainder of integers is the remainder of division toward zero. -/
theorem IsExactly.remainder {x m : Float} {a : Int} {n : Nat} (exact : IsExactly x a) (modulus : IsExactly m n)
    (pos : 0 < n) : IsExactly (remainder x m) (a.tmod n : Int) := by
  have nonzero : (n : ℚ) ≠ 0 := by exact_mod_cast pos.ne'
  have divided := isExactly_remainder exact.finite modulus.finite (modulus.value ▸ nonzero)
  have rest : a.tmod n = a - n * a.tdiv n := Int.tmod_def a n
  rw [exact.value, modulus.value, towardZero_div] at divided
  rw [rest]
  exact_mod_cast divided

/-- No step of a reduction rounds. -/
theorem reduces {m x : Float} {n : Nat} (finite : isFinite x = true) (modulus : IsExactly m n) (pos : 0 < n)
    (fits : n ≤ 2 ^ 52) : Reduces m x n (towardZero (rational x)) := by
  have truncated := isExactly_truncate finite
  generalize towardZero (rational x) = t at truncated ⊢
  have positive : (0 : Int) < n := by exact_mod_cast pos
  have low := Int.lt_tmod_of_pos t positive
  have high := Int.tmod_lt_of_pos t positive
  have divided := truncated.remainder modulus pos
  have raised := divided.add (b := n) (by exact_mod_cast modulus) (by omega)
  have wrapped := raised.remainder modulus pos
  have equal : (t.tmod n + n).tmod n = t % n := by
    rw [Int.tmod_eq_emod_of_nonneg (by omega), Int.add_emod_right]
    exact Int.modEq_iff_dvd.2 Int.dvd_self_sub_tmod
  exact ⟨modulus, truncated, divided, raised, equal ▸ wrapped⟩

/-- The cast after a reduction does not saturate. -/
theorem Reduces.saturate_eq {m x : Float} {n : Nat} {t most : Int} (reduces : Reduces m x n t) (pos : 0 < n)
    (bound : n ≤ most + 1) : saturate 0 most (wrap m x) = t % n := by
  have low := Int.emod_nonneg t (b := n) (by omega)
  have high := Int.emod_lt_of_pos t (b := n) (by omega)
  exact Number.saturate_eq reduces.wrapped low (by omega)

theorem isExactly_ofNat {n : Nat} (fits : n < 2 ^ 53) : IsExactly (Float.ofNat n) n := by
  obtain ⟨unsigned, value⟩ := (isNearest_ofNat n).exact_natCast fits
  exact ⟨unsigned.finite, value⟩

theorem isExactly_two_pow_32 : IsExactly 4294967296.0 (2 ^ 32 : Nat) := by
  have literal : (4294967296.0 : Float) = Float.ofNat (2 ^ 32) := by decide
  exact literal ▸ isExactly_ofNat (by norm_num)

theorem isExactly_two_pow_31 : IsExactly 2147483648.0 (2 ^ 31 : Nat) := by
  have literal : (2147483648.0 : Float) = Float.ofNat (2 ^ 31) := by decide
  exact literal ▸ isExactly_ofNat (by norm_num)

theorem isExactly_two_pow_16 : IsExactly 65536.0 (2 ^ 16 : Nat) := by
  have literal : (65536.0 : Float) = Float.ofNat (2 ^ 16) := by decide
  exact literal ▸ isExactly_ofNat (by norm_num)

section Finite

variable {x : Float} (finite : isFinite x = true)

include finite

theorem reduces_32 : Reduces 4294967296.0 x (2 ^ 32) (towardZero (rational x)) :=
  reduces finite isExactly_two_pow_32 (by norm_num) (by norm_num)

theorem reduces_16 : Reduces 65536.0 x (2 ^ 16) (towardZero (rational x)) :=
  reduces finite isExactly_two_pow_16 (by norm_num) (by norm_num)

theorem toUint32_eq : (toUint32 x : Int) = towardZero (rational x) % (2 ^ 32 : Nat) := by
  rw [toUint32, if_pos finite, (reduces_32 finite).saturate_eq (by norm_num) (by norm_num)]
  omega

theorem toUint16_eq : (toUint16 x : Int) = towardZero (rational x) % (2 ^ 16 : Nat) := by
  rw [toUint16, if_pos finite, (reduces_16 finite).saturate_eq (by norm_num) (by norm_num)]
  omega

/-- What the test of the upper half decides. -/
theorem upper_iff : 2147483648.0 ≤ wrap 4294967296.0 x ↔ 2 ^ 31 ≤ towardZero (rational x) % (2 ^ 32 : Nat) := by
  have wrapped := (reduces_32 finite).wrapped
  rw [le_iff_rational_le isExactly_two_pow_31.finite wrapped.finite, isExactly_two_pow_31.value, wrapped.value]
  norm_cast

/-- The word as a signed number, before the cast. -/
theorem isExactly_signed :
    IsExactly (if wrap 4294967296.0 x ≥ 2147483648.0 then wrap 4294967296.0 x - 4294967296.0 else wrap 4294967296.0 x)
      ((towardZero (rational x)).bmod (2 ^ 32) : Int) := by
  have wrapped := (reduces_32 finite).wrapped
  have upper := upper_iff finite
  generalize towardZero (rational x) = t at wrapped upper ⊢
  rw [Int.bmod_def]
  by_cases half : 2147483648.0 ≤ wrap 4294967296.0 x
  · have high := upper.1 half
    rw [if_pos half, if_neg (by omega)]
    exact wrapped.sub (b := (2 ^ 32 : Nat)) (by exact_mod_cast isExactly_two_pow_32) (by omega)
  · have low := mt upper.2 half
    rw [if_neg half, if_pos (by omega)]
    exact wrapped

theorem toInt32_eq : toInt32 x = (towardZero (rational x)).bmod (2 ^ 32) := by
  have signed := isExactly_signed finite
  have low := Int.le_bmod (x := towardZero (rational x)) (m := 2 ^ 32) (by norm_num)
  have high := Int.bmod_lt (x := towardZero (rational x)) (m := 2 ^ 32) (by norm_num)
  rw [toInt32, finite, Bool.not_true, Bool.false_or]
  split
  · rename_i zero
    rw [rational_eq_zero_of_beq zero]
    decide
  · exact saturate_eq signed (by omega) (by omega)

end Finite

theorem toUint32_ofNat {n : Nat} (small : n < 4294967296) : toUint32 (Float.ofNat n) = n := by
  have natural := isExactly_ofNat (n := n) (by omega)
  have whole : towardZero (n : ℚ) = n := by exact_mod_cast towardZero_intCast n
  have converted := toUint32_eq natural.finite
  rw [natural.value, whole] at converted
  omega

/-- A number that is equal to a natural number converts to it, and so does a zero with the other sign. -/
theorem toUint32_of_beq {x : Float} {n : Nat} (small : n < 4294967296) (equal : (x == Float.ofNat n) = true) :
    toUint32 x = n ∧ (Float.ofNat n == x) = true := by
  have natural := isExactly_ofNat (n := n) (by omega)
  have finite := (isFinite_eq_of_beq equal).trans natural.finite
  have whole : towardZero (n : ℚ) = n := by exact_mod_cast towardZero_intCast n
  have converted := toUint32_eq finite
  rw [rational_eq_of_beq equal, natural.value, whole] at converted
  exact ⟨by omega, BEq.symm equal⟩

theorem isResidue_emod {n : Nat} (pos : 0 < n) (t : Int) : IsResidue n 0 t (t % n) where
  low := Int.emod_nonneg t (by omega)
  high := by
    rw [Int.zero_add]
    exact Int.emod_lt_of_pos t (by omega)
  congruent := Int.mod_modEq t n

theorem isResidue_bmod (t : Int) : IsResidue (2 ^ 32) (-2 ^ 31) t (t.bmod (2 ^ 32)) where
  low := Int.le_bmod (by norm_num)
  high := Int.bmod_lt (by norm_num)
  congruent := Int.bmod_emod

/-- The conversions of a finite double are the residues of the integer before its point, and no step on the way to them
rounds or saturates. Beyond the finite doubles they are zero. -/
theorem integer_conversions_exact (x : Float) :
    (isFinite x = false → toUint32 x = 0 ∧ toInt32 x = 0 ∧ toUint16 x = 0) ∧
      (isFinite x = true →
        (∀ k : Int, IsResidue (2 ^ 32) 0 (towardZero (rational x)) k ↔ k = toUint32 x) ∧
        (∀ k : Int, IsResidue (2 ^ 32) (-2 ^ 31) (towardZero (rational x)) k ↔ k = toInt32 x) ∧
        (∀ k : Int, IsResidue (2 ^ 16) 0 (towardZero (rational x)) k ↔ k = toUint16 x) ∧
        Reduces 4294967296.0 x (2 ^ 32) (towardZero (rational x)) ∧
        Reduces 65536.0 x (2 ^ 16) (towardZero (rational x)) ∧
        IsExactly (wrap 4294967296.0 x) (toUint32 x) ∧
        IsExactly (wrap 65536.0 x) (toUint16 x) ∧
        IsExactly (if wrap 4294967296.0 x ≥ 2147483648.0 then wrap 4294967296.0 x - 4294967296.0
          else wrap 4294967296.0 x) (toInt32 x) ∧
        (toWord x).toInt = toInt32 x ∧ (toWord x).toNat = toUint32 x) := by
  constructor
  · intro infinite
    simp [toUint32, toInt32, toUint16, infinite]
  · intro finite
    have unsigned := toUint32_eq finite
    have signed := toInt32_eq finite
    have short := toUint16_eq finite
    refine ⟨?_, ?_, ?_, reduces_32 finite, reduces_16 finite, ?_, ?_, ?_, ?_, ?_⟩
    · rw [unsigned]
      exact (isResidue_emod (by norm_num) _).iff_eq
    · rw [signed]
      exact (isResidue_bmod _).iff_eq
    · rw [short]
      exact (isResidue_emod (by norm_num) _).iff_eq
    · have wrapped := (reduces_32 finite).wrapped
      rwa [← unsigned, Int.cast_natCast] at wrapped
    · have wrapped := (reduces_16 finite).wrapped
      rwa [← short, Int.cast_natCast] at wrapped
    · rw [signed]
      exact isExactly_signed finite
    · rw [toWord, BitVec.toInt_ofInt, signed, Int.bmod_bmod]
    · rw [toWord, BitVec.toNat_ofInt, signed, Int.bmod_emod, ← Int.toNat_natCast (toUint32 x), unsigned]

/-- One more than the least signed number, and a fraction, below zero. -/
theorem integer_conversions_exact_below :
    isFinite (-2147483649.75) = true ∧
      (∀ k : Int, IsResidue (2 ^ 32) (-2 ^ 31) (towardZero (rational (-2147483649.75))) k ↔ k = 2147483647) ∧
      (∀ k : Int, IsResidue (2 ^ 16) 0 (towardZero (rational (-2147483649.75))) k ↔ k = 65535) := by
  have finite : isFinite (-2147483649.75) = true := by decide
  have signed : toInt32 (-2147483649.75) = 2147483647 := by decide
  have short : toUint16 (-2147483649.75) = 65535 := by decide
  obtain ⟨-, word, half, -⟩ := (integer_conversions_exact (-2147483649.75)).2 finite
  rw [signed] at word
  rw [short] at half
  exact ⟨finite, word, half⟩

end Ecma.Number
