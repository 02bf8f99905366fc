import Ecma.Number.Literal

/-!
# Index names

A name is an index when it is the decimal form of a number below `2 ^ 32`, without a leading zero or a sign. Arrays,
string objects and argument lists treat such names apart.
-/

namespace Ecma.Index

/-- The decimal form of an index. -/
def name (i : Nat) : String := Nat.repr i

/-- The index that a name is the decimal form of (`canonical_index`). -/
def ofName? (name : String) : Option Nat :=
  let i := Number.natOfDigits 10 name.toList
  if name.toList.all Char.isDigit && i < 4294967296 && Index.name i == name then some i else none

/-- An index that an array can hold an element at (`array_index`); the greatest index is only a name. -/
def element? (name : String) : Option Nat := (ofName? name).filter (· ≠ 4294967295)

/-- Whatever is read as an index is written as it was. -/
theorem name_of_ofName? {s : String} {i : Nat} (h : ofName? s = some i) : name i = s ∧ i < 4294967296 := by
  simp only [ofName?] at h
  split at h
  · rename_i accepted
    cases h
    simp only [Bool.and_eq_true, decide_eq_true_eq, beq_iff_eq] at accepted
    exact ⟨accepted.2, accepted.1.2⟩
  · cases h

/-- Decimal digits denote what their number is. -/
theorem natOfDigits_repr (i : Nat) : Number.natOfDigits 10 (name i).toList = i := by
  have step (digits : List Char) (start : Nat) (h : ∀ c ∈ digits, c.isDigit = true) :
      digits.foldl (fun n c => n * 10 + Number.digitValue c) start = Nat.ofDigitChars 10 digits start := by
    induction digits generalizing start with
    | nil => rfl
    | cons c rest ih =>
      have first : Number.digitValue c = c.toNat - '0'.toNat := by simp [Number.digitValue, h c]
      rw [Nat.ofDigitChars_cons, List.foldl_cons, ih _ fun d hd => h d (List.mem_cons_of_mem c hd), first,
        Nat.mul_comm]
  have digits : (name i).toList = Nat.toDigits 10 i := by simp [name]
  rw [Number.natOfDigits, digits, step _ _ fun c hc => Nat.isDigit_of_mem_toDigits (by decide) (by decide) hc]
  exact Nat.ofDigitChars_toDigits (by decide) (by decide)

theorem all_isDigit_name (i : Nat) : (name i).toList.all Char.isDigit = true := by
  rw [List.all_eq_true]
  intro c hc
  rw [name, Nat.toList_repr] at hc
  exact Nat.isDigit_of_mem_toDigits (by decide) (by decide) hc

/-- Every index is read back from its decimal form. -/
theorem ofName?_name {i : Nat} (h : i < 4294967296) : ofName? (name i) = some i := by
  simp [ofName?, natOfDigits_repr, all_isDigit_name, h]

/-- Elements have the names of the indices below the greatest one. -/
theorem element?_eq_some_iff {s : String} {i : Nat} : element? s = some i ↔ name i = s ∧ i < 4294967295 := by
  constructor
  · intro h
    obtain ⟨index, ordinary⟩ := Option.filter_eq_some_iff.1 h
    obtain ⟨written, small⟩ := name_of_ofName? index
    have other := of_decide_eq_true ordinary
    exact ⟨written, by omega⟩
  · rintro ⟨rfl, small⟩
    rw [element?, ofName?_name (Nat.lt_succ_of_lt small)]
    exact Option.filter_some_pos (decide_eq_true (Nat.ne_of_lt small))

theorem name_ne_length {i : Nat} (small : i < 4294967295) : name i ≠ "length" := by
  intro same
  have read := element?_eq_some_iff.2 ⟨same, small⟩
  cases read

end Ecma.Index
