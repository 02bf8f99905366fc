/-!
# Text

A string value is a sequence of 16-bit code units. Most texts are the UTF-16 form of some characters, but a program may
hold a surrogate that has lost its partner, so the units are the value and the characters are a reading of it.
`ofString` writes characters as units and `toString` reads them back, with a replacement character for each unit that
belongs to no character. `toString_ofString` says that nothing else is lost.
-/

namespace Ecma

/-- A string value: 16-bit code units in order, surrogates paired or not. -/
abbrev Text := List UInt16

namespace Text

/-- The units that open a surrogate pair. -/
def isHigh (u : UInt16) : Bool := 0xD800 ≤ u && u < 0xDC00

/-- The units that close a surrogate pair. -/
def isLow (u : UInt16) : Bool := 0xDC00 ≤ u && u < 0xE000

/-- A character is one unit below U+10000 and a surrogate pair from there on. -/
def ofChar (c : Char) : Text :=
  if c.toNat < 0x10000 then [c.toNat.toUInt16]
  else [(0xD800 + (c.toNat - 0x10000) / 0x400).toUInt16, (0xDC00 + (c.toNat - 0x10000) % 0x400).toUInt16]

/-- The UTF-16 form of a string (`utf8_to_utf16`). -/
def ofString (s : String) : Text := s.toList.flatMap ofChar

/-- What stands for a unit that belongs to no character. -/
def replacement : Char := '\ufffd'

/-- The character a surrogate pair denotes. -/
def pair (high low : UInt16) : Char :=
  Char.ofNat (0x10000 + (high.toNat - 0xD800) * 0x400 + (low.toNat - 0xDC00))

/-- The characters of a text. A high unit followed by a low one is one character; any other surrogate is replaced. -/
def decode : Text → List Char
  | [] => []
  | [u] => if isHigh u || isLow u then [replacement] else [Char.ofNat u.toNat]
  | u :: v :: rest =>
    if isHigh u && isLow v then pair u v :: decode rest
    else if isHigh u || isLow u then replacement :: decode (v :: rest)
    else Char.ofNat u.toNat :: decode (v :: rest)

/-- The text as characters, lone surrogates replaced (`utf16_to_utf8`). Property names are read this way. -/
def toString (t : Text) : String := String.ofList (decode t)

/-- Every surrogate stands in a pair. -/
def isWellFormed : Text → Bool
  | [] => true
  | [u] => !(isHigh u || isLow u)
  | u :: v :: rest =>
    if isHigh u && isLow v then isWellFormed rest
    else !(isHigh u || isLow u) && isWellFormed (v :: rest)

/-- Code-unit order: the first difference decides, and a proper initial part comes first. -/
def precedes : Text → Text → Bool
  | _, [] => false
  | [], _ :: _ => true
  | u :: a, v :: b => if u = v then precedes a b else u < v

theorem decode_cons_of_plain {u : UInt16} (high : isHigh u = false) (low : isLow u = false) (rest : Text) :
    decode (u :: rest) = Char.ofNat u.toNat :: decode rest := by
  cases rest <;> simp [decode, high, low]

theorem toNat_lt_or_gt (c : Char) : c.toNat < 0xD800 ∨ (0xDFFF < c.toNat ∧ c.toNat < 0x110000) := by
  have := c.valid
  simpa [UInt32.isValidChar, Nat.isValidChar] using this

/-- The units of a character, read in front of anything, are that character. -/
theorem decode_ofChar_append (c : Char) (rest : Text) : decode (ofChar c ++ rest) = c :: decode rest := by
  have range := toNat_lt_or_gt c
  unfold ofChar
  split
  · rename_i small
    have value : (c.toNat.toUInt16).toNat = c.toNat := by simp; omega
    rw [List.singleton_append, decode_cons_of_plain, value, Char.ofNat_toNat]
    · simp only [isHigh, UInt16.le_iff_toNat_le, UInt16.lt_iff_toNat_lt, value]; simp; omega
    · simp only [isLow, UInt16.le_iff_toNat_le, UInt16.lt_iff_toNat_lt, value]; simp; omega
  · rename_i large
    have hi : ((0xD800 + (c.toNat - 0x10000) / 0x400).toUInt16).toNat = 0xD800 + (c.toNat - 0x10000) / 0x400 := by
      simp; omega
    have lo : ((0xDC00 + (c.toNat - 0x10000) % 0x400).toUInt16).toNat = 0xDC00 + (c.toNat - 0x10000) % 0x400 := by
      simp; omega
    have high : isHigh (0xD800 + (c.toNat - 0x10000) / 0x400).toUInt16 = true := by
      simp only [isHigh, UInt16.le_iff_toNat_le, UInt16.lt_iff_toNat_lt, hi]; simp; omega
    have low : isLow (0xDC00 + (c.toNat - 0x10000) % 0x400).toUInt16 = true := by
      simp only [isLow, UInt16.le_iff_toNat_le, UInt16.lt_iff_toNat_lt, lo]; simp; omega
    have whole : 0x10000 + (0xD800 + (c.toNat - 0x10000) / 0x400 - 0xD800) * 0x400 +
        (0xDC00 + (c.toNat - 0x10000) % 0x400 - 0xDC00) = c.toNat := by omega
    simp only [List.cons_append, List.nil_append, decode, high, low, Bool.and_self, if_true, pair, hi, lo, whole,
      Char.ofNat_toNat]

theorem decode_ofString (s : String) : decode (ofString s) = s.toList := by
  unfold ofString
  induction s.toList with
  | nil => rfl
  | cons c cs ih => rw [List.flatMap_cons, decode_ofChar_append, ih]

/-- Writing characters as units and reading them back gives them unchanged. -/
theorem toString_ofString (s : String) : toString (ofString s) = s := by
  rw [toString, decode_ofString, String.ofList_toList]

end Text

end Ecma
