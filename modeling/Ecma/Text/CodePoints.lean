/-!
# Sets of code points

A property of characters is a set of code points, kept as closed ranges that ascend and lie apart. A search can then
stop at the first range that begins beyond what is looked for, and `CodePoints.contains_iff` says that nothing is missed
that way.
-/

namespace Ecma

/-- Each range ends before the next one begins. -/
def CodePoints.ascending : List (Nat × Nat) → Bool
  | [] => true
  | [range] => range.1 ≤ range.2
  | range :: next :: rest => range.1 ≤ range.2 && range.2 < next.1 && ascending (next :: rest)

/-- A set of code points, as closed ranges. -/
structure CodePoints where
  ranges : List (Nat × Nat)
  ascends : CodePoints.ascending ranges = true := by decide +kernel

namespace CodePoints

/-- Looks a number up in ranges that ascend. -/
def search (n : Nat) : List (Nat × Nat) → Bool
  | [] => false
  | range :: rest => range.1 ≤ n && (n ≤ range.2 || search n rest)

/-- The character's code point is in the set. -/
def contains (set : CodePoints) (c : Char) : Bool := search c.toNat set.ranges

/-- Ranges that ascend begin no earlier than the first of them. -/
theorem first_le_of_mem {range other : Nat × Nat} {rest : List (Nat × Nat)}
    (h : ascending (range :: rest) = true) (member : other ∈ rest) : range.1 ≤ other.1 := by
  induction rest generalizing range with
  | nil => cases member
  | cons next rest ih =>
    simp only [ascending, Bool.and_eq_true, decide_eq_true_eq] at h
    rcases List.mem_cons.1 member with rfl | later
    · omega
    · have := ih h.2 later
      omega

theorem search_iff {n : Nat} {ranges : List (Nat × Nat)} (h : ascending ranges = true) :
    search n ranges = true ↔ ∃ range ∈ ranges, range.1 ≤ n ∧ n ≤ range.2 := by
  induction ranges with
  | nil => simp [search]
  | cons range rest ih =>
    have tail : ascending rest = true := by
      cases rest with
      | nil => rfl
      | cons next rest =>
        simp only [ascending, Bool.and_eq_true] at h
        exact h.2
    simp only [search, Bool.and_eq_true, Bool.or_eq_true, decide_eq_true_eq, ih tail]
    constructor
    · rintro ⟨low, high | ⟨other, member, found⟩⟩
      · exact ⟨range, List.mem_cons_self, low, high⟩
      · exact ⟨other, List.mem_cons_of_mem range member, found⟩
    · rintro ⟨other, member, found⟩
      rcases List.mem_cons.1 member with rfl | later
      · exact ⟨found.1, Or.inl found.2⟩
      · exact ⟨Nat.le_trans (first_le_of_mem h later) found.1, Or.inr ⟨other, later, found⟩⟩

/-- A character is in the set exactly when one of the ranges holds its code point. -/
theorem contains_iff (set : CodePoints) (c : Char) :
    set.contains c = true ↔ ∃ range ∈ set.ranges, range.1 ≤ c.toNat ∧ c.toNat ≤ range.2 :=
  search_iff set.ascends

end CodePoints

end Ecma
