import Ecma.Proofs.Number.Grammar

/-!
# Scanning by bytes

Numbers are read from the bytes of a text, with slices between positions. `Literal.At` says that a position has
characters of one byte each before it, so that it is between characters; it holds of every position the scanner stops at,
and there the bytes tell which character follows. So no slice is missed, the scanner takes a text apart as the grammar
does, and the canonical text it makes of a decimal (`Literal.Canonical`) stands for the same rational and is parsed.
-/

namespace Ecma

/-! ## Slices -/

namespace Text

variable {cs front middle back : List Char} {c : Char}

theorem bytes_append (front back : List Char) : bytes (front ++ back) = bytes front ++ bytes back := List.flatMap_append

theorem bytes_cons (c : Char) (cs : List Char) : bytes (c :: cs) = String.utf8EncodeChar c ++ bytes cs :=
  List.flatMap_cons

theorem length_bytes_cons (c : Char) (cs : List Char) : (bytes (c :: cs)).length = c.utf8Size + (bytes cs).length := by
  rw [bytes_cons, List.length_append, String.length_utf8EncodeChar]

theorem length_bytes_eq_zero : (bytes cs).length = 0 ↔ cs = [] := by
  cases cs with
  | nil => exact ⟨fun _ => rfl, fun _ => rfl⟩
  | cons c cs =>
    have := c.utf8Size_pos
    rw [length_bytes_cons]
    exact ⟨fun none => absurd none (by omega), nofun⟩

theorem divide?_eq_some_iff {n : Nat} :
    divide? cs n = some (front, back) ↔ cs = front ++ back ∧ (bytes front).length = n := by
  fun_induction divide? cs n generalizing front with
  | case1 cs =>
    rw [length_bytes_eq_zero]
    constructor
    · rintro ⟨⟩
      exact ⟨rfl, rfl⟩
    · rintro ⟨rfl, rfl⟩
      rfl
  | case2 n =>
    refine ⟨nofun, ?_⟩
    rintro ⟨empty, size⟩
    obtain ⟨rfl, -⟩ := List.append_eq_nil_iff.1 empty.symm
    cases size
  | case3 c cs n fits ih =>
    rw [Option.map_eq_some_iff]
    constructor
    · rintro ⟨⟨rest, _⟩, divided, ⟨⟩⟩
      obtain ⟨rfl, size⟩ := ih.1 divided
      refine ⟨rfl, ?_⟩
      rw [length_bytes_cons, size]
      omega
    · rintro ⟨split, size⟩
      cases front with
      | nil => cases size
      | cons d rest =>
        obtain ⟨rfl, rfl⟩ := List.cons.inj split
        rw [length_bytes_cons] at size
        exact ⟨(rest, back), ih.2 ⟨rfl, by omega⟩, rfl⟩
  | case4 c cs n wide =>
    refine ⟨nofun, ?_⟩
    rintro ⟨split, size⟩
    cases front with
    | nil => cases size
    | cons d rest =>
      obtain ⟨rfl, rfl⟩ := List.cons.inj split
      rw [length_bytes_cons] at size
      omega

/-- A slice is cut where both positions are between characters, and holds the characters that are between them. -/
theorem slice_eq_ok_iff {start stop : Nat} :
    slice cs start stop = .ok middle ↔
      ∃ front back, cs = front ++ middle ++ back ∧ (bytes front).length = start ∧
        (bytes (front ++ middle)).length = stop := by
  constructor
  · intro cut
    rw [slice] at cut
    split at cut
    · rename_i front _ found
      cases cut
      obtain ⟨⟨whole, back⟩, outer, inner⟩ := Option.bind_eq_some_iff.1 found
      obtain ⟨rfl, stops⟩ := divide?_eq_some_iff.1 outer
      obtain ⟨rfl, starts⟩ := divide?_eq_some_iff.1 inner
      exact ⟨front, back, rfl, starts, stops⟩
    · cases cut
  · rintro ⟨front, back, rfl, starts, stops⟩
    have outer : divide? (front ++ middle ++ back) stop = some (front ++ middle, back) :=
      divide?_eq_some_iff.2 ⟨rfl, stops⟩
    have inner : divide? (front ++ middle) start = some (front, middle) := divide?_eq_some_iff.2 ⟨rfl, starts⟩
    simp only [slice, outer, Option.bind_some, inner]

theorem toNat_toUInt8 (small : c.toNat < 128) : c.toUInt8.toNat = c.toNat :=
  Nat.mod_eq_of_lt (Nat.lt_trans small (by decide))

/-- A character of one byte is its own encoding. -/
theorem utf8EncodeChar_of_small (small : c.toNat < 128) : String.utf8EncodeChar c = [c.toUInt8] := by
  have one : c.utf8Size = 1 := by
    rw [Char.utf8Size_eq_one_iff, UInt32.le_iff_toNat_le]
    exact Nat.le_of_lt_succ small
  exact String.utf8EncodeChar_eq_singleton one

theorem bytes_of_small (small : ∀ c ∈ cs, c.toNat < 128) : bytes cs = cs.map Char.toUInt8 := by
  induction cs with
  | nil => rfl
  | cons c cs ih =>
    rw [bytes_cons, utf8EncodeChar_of_small (small c List.mem_cons_self),
      ih fun d member => small d (List.mem_cons_of_mem c member)]
    rfl

/-- The first byte of a longer character is no character of one byte. -/
theorem utf8EncodeChar_of_wide (wide : 128 ≤ c.toNat) :
    ∃ b rest, String.utf8EncodeChar c = b :: rest ∧ 128 ≤ b.toNat := by
  have big : ¬ c.val.toNat ≤ 127 := by
    have : c.val.toNat = c.toNat := rfl
    omega
  have beyond (n m : Nat) (low : 0 < n) (high : n ≤ 32) (mark : 192 ≤ m) (top : m + n ≤ 256) (v : Nat) :
      128 ≤ (UInt8.ofNat (v % n + m)).toNat := by
    have := Nat.mod_lt v low
    rw [UInt8.toNat_ofNat_of_lt' (by show v % n + m < 256; omega)]
    omega
  rw [String.utf8EncodeChar, if_neg big]
  split
  · exact ⟨_, _, rfl, beyond 32 192 (by decide) (by decide) (by decide) (by decide) _⟩
  · split
    · exact ⟨_, _, rfl, beyond 16 224 (by decide) (by decide) (by decide) (by decide) _⟩
    · exact ⟨_, _, rfl, beyond 8 240 (by decide) (by decide) (by decide) (by decide) _⟩

/-- The first byte tells a first character of one byte. -/
theorem head?_bytes_eq_some_iff (small : c.toNat < 128) : (bytes cs).head? = some c.toUInt8 ↔ cs.head? = some c := by
  cases cs with
  | nil => exact ⟨nofun, nofun⟩
  | cons d cs =>
    rw [bytes_cons, List.head?_cons, Option.some_inj]
    rcases Nat.lt_or_ge d.toNat 128 with little | wide
    · rw [utf8EncodeChar_of_small little]
      show some d.toUInt8 = some c.toUInt8 ↔ d = c
      rw [Option.some_inj, ← UInt8.toNat_inj, toNat_toUInt8 little, toNat_toUInt8 small, Char.toNat_inj]
    · obtain ⟨b, rest, encoded, high⟩ := utf8EncodeChar_of_wide wide
      rw [encoded]
      show some b = some c.toUInt8 ↔ d = c
      rw [Option.some_inj, ← UInt8.toNat_inj, toNat_toUInt8 small]
      constructor
      · intro same
        omega
      · rintro rfl
        omega

/-- The digits at the front of a text are counted by its bytes. -/
theorem length_takeWhile_bytes (cs : List Char) :
    ((bytes cs).takeWhile fun b => '0'.toUInt8 ≤ b && b ≤ '9'.toUInt8).length = (cs.takeWhile Char.isDigit).length := by
  induction cs with
  | nil => rfl
  | cons c cs ih =>
    rw [bytes_cons]
    rcases Nat.lt_or_ge c.toNat 128 with small | wide
    · have same : ('0'.toUInt8 ≤ c.toUInt8 && c.toUInt8 ≤ '9'.toUInt8) = c.isDigit := by
        rw [Bool.eq_iff_iff]
        simp only [Bool.and_eq_true, decide_eq_true_eq, UInt8.le_iff_toNat_le, toNat_toUInt8 small, Char.isDigit,
          UInt32.le_iff_toNat_le]
        rfl
      rw [utf8EncodeChar_of_small small, List.singleton_append, List.takeWhile_cons, List.takeWhile_cons, same]
      cases c.isDigit with
      | true => simpa using ih
      | false => rfl
    · obtain ⟨b, rest, encoded, high⟩ := utf8EncodeChar_of_wide wide
      have stops : ('0'.toUInt8 ≤ b && b ≤ '9'.toUInt8) = false := by
        rw [Bool.and_eq_false_iff, decide_eq_false_iff_not, decide_eq_false_iff_not]
        refine .inr fun below => ?_
        have : b.toNat ≤ 57 := UInt8.le_iff_toNat_le.1 below
        omega
      have other : c.isDigit = false := by
        rw [← Bool.not_eq_true]
        intro digit
        have := (Number.Literal.isDigit_graphic digit).2
        omega
      rw [encoded, List.cons_append, List.takeWhile_cons, stops, List.takeWhile_cons, other]
      rfl

end Text

namespace Number.Literal

/-! ## Positions -/

/-- Before a position there are characters of one byte each, and the rest is after it. -/
def At (body : List Char) (i : Nat) (rest : List Char) : Prop :=
  ∃ front, body = front ++ rest ∧ front.length = i ∧ ∀ c ∈ front, c.toNat < 128

namespace At

variable {body middle rest : List Char} {i j : Nat}

theorem start (body : List Char) : At body 0 body := ⟨[], rfl, rfl, nofun⟩

theorem pass (here : At body i (middle ++ rest)) (small : ∀ c ∈ middle, c.toNat < 128) :
    At body (i + middle.length) rest := by
  obtain ⟨front, rfl, rfl, little⟩ := here
  refine ⟨front ++ middle, (List.append_assoc ..).symm, List.length_append, ?_⟩
  exact fun c member => (List.mem_append.1 member).elim (little c) (small c)

theorem next {c : Char} (here : At body i (c :: rest)) (small : c.toNat < 128) : At body (i + 1) rest := by
  have single : At body i ([c] ++ rest) := here
  exact single.pass (by simpa using small)

theorem length_bytes {front : List Char} (small : ∀ c ∈ front, c.toNat < 128) :
    (Text.bytes front).length = front.length := by
  rw [Text.bytes_of_small small, List.length_map]

/-- Between two positions there is a slice. -/
theorem slice (first : At body i (middle ++ rest)) (second : At body j rest) : Text.slice body i j = .ok middle := by
  obtain ⟨front, rfl, rfl, little⟩ := first
  obtain ⟨longer, split, rfl, small⟩ := second
  rw [← List.append_assoc] at split
  obtain rfl := List.append_cancel_right split
  exact Text.slice_eq_ok_iff.2 ⟨front, rest, (List.append_assoc ..).symm, length_bytes little, length_bytes small⟩

/-- The byte at a position tells the character there. -/
theorem byteAt?_iff {c : Char} (here : At body i rest) (small : c.toNat < 128) :
    Text.byteAt? body i = some c.toUInt8 ↔ rest.head? = some c := by
  obtain ⟨front, rfl, rfl, little⟩ := here
  have reach : Text.byteAt? (front ++ rest) front.length = (Text.bytes rest).head? := by
    rw [Text.byteAt?, Text.bytes_append, ← length_bytes little, List.getElem?_append_right Nat.le.refl, Nat.sub_self,
      List.head?_eq_getElem?]
  rw [reach, Text.head?_bytes_eq_some_iff small]

theorem end_iff (here : At body i rest) : i = (Text.bytes body).length ↔ rest = [] := by
  obtain ⟨front, rfl, rfl, little⟩ := here
  rw [Text.bytes_append, List.length_append, length_bytes little, ← Text.length_bytes_eq_zero]
  omega

theorem digitsEnd_eq (here : At body i rest) : digitsEnd body i = i + (rest.takeWhile Char.isDigit).length := by
  obtain ⟨front, rfl, rfl, little⟩ := here
  have after : (Text.bytes (front ++ rest)).drop front.length = Text.bytes rest := by
    rw [Text.bytes_append, ← length_bytes little, List.drop_left]
  rw [digitsEnd, after, Text.length_takeWhile_bytes]

/-- The digits at a position end at one. -/
theorem digits (here : At body i rest) : At body (digitsEnd body i) (rest.dropWhile Char.isDigit) := by
  have split : At body i (rest.takeWhile Char.isDigit ++ rest.dropWhile Char.isDigit) := by
    rwa [List.takeWhile_append_dropWhile]
  rw [here.digitsEnd_eq]
  exact split.pass fun c member => (isDigit_graphic (List.mem_takeWhile_imp member)).2

/-- A position is moved over a sign. -/
theorem sign (here : At body i rest) :
    At body (if Text.byteAt? body i = some '+'.toUInt8 ∨ Text.byteAt? body i = some '-'.toUInt8 then i + 1 else i)
      (Literal.sign rest).2 := by
  simp only [here.byteAt?_iff (show '+'.toNat < 128 by decide), here.byteAt?_iff (show '-'.toNat < 128 by decide)]
  rcases sign_cases rest with ⟨tail, rfl, taken⟩ | ⟨tail, rfl, taken⟩ | ⟨⟨plus, minus⟩, kept⟩
  · rw [if_pos (.inl rfl), taken]
    exact here.next (by decide)
  · rw [if_pos (.inr rfl), taken]
    exact here.next (by decide)
  · rw [if_neg (not_or.2 ⟨plus, minus⟩), kept]
    exact here

end At

/-! ## The scanner -/

theorem signAt_eq (text : List Char) : signAt text = .ok (sign text) := by
  have rest {c : Char} {tail : List Char} (small : c.toNat < 128) :
      Text.slice (c :: tail) 1 (Text.bytes (c :: tail)).length = .ok tail := by
    refine Text.slice_eq_ok_iff.2 ⟨[c], [], by simp, ?_, rfl⟩
    rw [Text.bytes_of_small (by simpa using small)]
    rfl
  have here := At.start text
  simp only [signAt, here.byteAt?_iff (show '+'.toNat < 128 by decide), here.byteAt?_iff (show '-'.toNat < 128 by decide)]
  rcases sign_cases text with ⟨tail, rfl, taken⟩ | ⟨tail, rfl, taken⟩ | ⟨⟨plus, minus⟩, kept⟩
  · rw [if_pos List.head?_cons, rest (by decide), taken]
    rfl
  · rw [if_neg (by simp), if_pos List.head?_cons, rest (by decide), taken]
    rfl
  · rw [if_neg plus, if_neg minus, kept]

theorem digits_fraction (cs : List Char) : ∀ c ∈ (fraction cs).1, c.isDigit = true := by
  rcases fraction_cases cs with ⟨tail, -, taken⟩ | ⟨-, kept⟩
  · rw [taken]
    exact fun c => List.mem_takeWhile_imp
  · rw [kept]
    exact nofun

theorem fractionAt_eq {body rest : List Char} {i : Nat} (here : At body i rest) :
    ∃ j, fractionAt body i = .ok ((fraction rest).1, j) ∧ At body j (fraction rest).2 := by
  simp only [fractionAt, here.byteAt?_iff (show '.'.toNat < 128 by decide)]
  rcases fraction_cases rest with ⟨tail, rfl, taken⟩ | ⟨bare, kept⟩
  · have after := here.next (by decide)
    have cut : Text.slice body (i + 1) (digitsEnd body (i + 1)) = .ok (tail.takeWhile Char.isDigit) := by
      refine At.slice ?_ after.digits
      rwa [List.takeWhile_append_dropWhile]
    rw [if_pos List.head?_cons, cut, taken]
    exact ⟨_, rfl, after.digits⟩
  · rw [if_neg bare, kept]
    exact ⟨i, rfl, here⟩

/-- Signed digits, and the exponent that they are. -/
inductive Exponent : List Char → Int → Prop where
  | signed {sign negative digits} : Signs sign negative → Digits digits →
    Exponent (sign ++ digits) (if negative then -natOfDigits 10 digits else natOfDigits 10 digits)

/-- A missing exponent is written as a zero. -/
theorem exponent_zero : Exponent ['0'] 0 := .signed (.none : Signs [] false) (show Digits ['0'] from ⟨by simp, by simp⟩)

/-- An exponent part is refused where its digits are missing. Otherwise there is one, and it is all of the text if the
text is read as an exponent. -/
theorem exponentAt_eq {body rest : List Char} {i : Nat} (here : At body i rest) :
    exponentAt body i = .ok none ∧ exponent? rest = none ∨
      ∃ text j back, exponentAt body i = .ok (some (text, j)) ∧ At body j back ∧ (back ≠ [] → exponent? rest = none) ∧
        (back = [] → ∃ e, Exponent text e ∧ exponent? rest = some e) := by
  simp only [exponentAt, here.byteAt?_iff (show 'e'.toNat < 128 by decide),
    here.byteAt?_iff (show 'E'.toNat < 128 by decide)]
  cases rest with
  | nil =>
    rw [if_neg (by simp)]
    exact .inr ⟨_, i, [], rfl, here, fun some => absurd rfl some, fun _ => ⟨0, exponent_zero, rfl⟩⟩
  | cons c tail =>
    simp only [List.head?_cons, Option.some_inj, exponent?]
    by_cases marked : c = 'e' ∨ c = 'E'
    · have small : c.toNat < 128 := by rcases marked with rfl | rfl <;> decide
      have after := here.next small
      have signed := after.sign
      obtain ⟨s, signs, split⟩ := signs_sign tail
      generalize (sign tail).1 = negative at signs ⊢
      generalize (sign tail).2 = digits at signed split ⊢
      generalize (if Text.byteAt? body (i + 1) = some '+'.toUInt8 ∨ Text.byteAt? body (i + 1) = some '-'.toUInt8
        then i + 2 else i + 1) = start at signed ⊢
      have stop := signed.digits
      have length := signed.digitsEnd_eq
      have cut : Text.slice body (i + 1) (digitsEnd body start) = .ok (s ++ digits.takeWhile Char.isDigit) := by
        refine At.slice ?_ stop
        rwa [List.append_assoc, List.takeWhile_append_dropWhile, ← split]
      simp only [if_pos marked, cut]
      by_cases none : digits.takeWhile Char.isDigit = []
      · rw [none, List.length_nil, Nat.add_zero] at length
        rw [if_pos length, if_neg]
        · exact .inl ⟨rfl, rfl⟩
        · rintro ⟨some, all⟩
          rw [List.takeWhile_eq_self_iff.2 (List.all_eq_true.1 all)] at none
          exact some none
      · have apart : digitsEnd body start ≠ start := by
          have := List.length_pos_iff.2 none
          omega
        rw [if_neg apart]
        refine .inr ⟨_, _, _, rfl, stop, fun some => ?_, fun empty => ?_⟩
        · exact if_neg fun all => some (List.dropWhile_eq_nil_iff.2 (List.all_eq_true.1 all.2))
        · have all : ∀ d ∈ digits, d.isDigit = true := List.dropWhile_eq_nil_iff.1 empty
          rw [List.takeWhile_eq_self_iff.2 all] at none ⊢
          exact ⟨_, .signed signs ⟨none, all⟩, if_pos ⟨none, List.all_eq_true.2 all⟩⟩
    · rw [if_neg marked, if_neg marked]
      refine .inr ⟨_, i, _, rfl, here, fun _ => rfl, fun empty => ?_⟩
      cases empty

/-! ## Canonical texts -/

/-- The rational that digits around a point and a power of ten stand for. -/
def amount (whole fraction : List Char) (e : Int) : ℚ :=
  (natOfDigits 10 whole + natOfDigits 10 fraction / 10 ^ fraction.length) * 10 ^ e

/-- Digits on both sides of a point and then an exponent, and the rational that they stand for. -/
inductive Canonical : List Char → ℚ → Prop where
  | pointed {whole fraction exponent e} : Digits whole → Digits fraction → Exponent exponent e →
    Canonical (whole ++ '.' :: fraction ++ 'e' :: exponent) (amount whole fraction e)

theorem amount_nonneg (whole fraction : List Char) (e : Int) : 0 ≤ amount whole fraction e := by
  unfold amount
  positivity

/-- A zero in the place of missing digits changes nothing. -/
theorem canonical_spelling {whole fraction exponent : List Char} {e : Int} (all : ∀ c ∈ whole, c.isDigit = true)
    (inner : ∀ c ∈ fraction, c.isDigit = true) (power : Exponent exponent e) :
    Canonical (spelling whole fraction exponent) (amount whole fraction e) := by
  have filled {cs : List Char} (digits : ∀ c ∈ cs, c.isDigit = true) : Digits (if cs = [] then ['0'] else cs) := by
    split
    · exact ⟨by simp, by simp⟩
    · rename_i some
      exact ⟨some, digits⟩
  have same : amount whole fraction e =
      amount (if whole = [] then ['0'] else whole) (if fraction = [] then ['0'] else fraction) e := by
    have zero : natOfDigits 10 ['0'] = natOfDigits 10 [] := rfl
    have nothing : natOfDigits 10 [] = 0 := rfl
    unfold amount
    split <;> split <;> simp [*]
  rw [same]
  exact .pointed (filled all) (filled inner) power

/-- The scanner finds a decimal where the reader does, and spells the same rational. -/
theorem canonical_eq (body : List Char) :
    (canonical body = .ok none ∧ ∀ negative, decimal? negative body = none) ∨
      ∃ text whole part e, canonical body = .ok (some text) ∧ Canonical text (amount whole part e) ∧
        ∀ negative, decimal? negative body = some (.decimal negative whole part e) := by
  have here := At.start body
  have whole : Text.slice body 0 (digitsEnd body 0) = .ok (body.takeWhile Char.isDigit) := by
    refine At.slice ?_ here.digits
    rwa [List.takeWhile_append_dropWhile]
  obtain ⟨j, part, after⟩ := fractionAt_eq here.digits
  have all : ∀ c ∈ body.takeWhile Char.isDigit, c.isDigit = true := fun c => List.mem_takeWhile_imp
  have inner := digits_fraction (body.dropWhile Char.isDigit)
  simp only [canonical, whole, part, decimal?, bind, Except.bind]
  split
  · exact .inl ⟨rfl, fun _ => rfl⟩
  · rcases exponentAt_eq after with ⟨refused, unread⟩ | ⟨text, k, back, found, stop, more, last⟩
    · rw [refused, unread]
      exact .inl ⟨rfl, fun _ => rfl⟩
    · rw [found]
      by_cases empty : back = []
      · obtain ⟨e, power, read⟩ := last empty
        simp only [if_pos (stop.end_iff.2 empty), read]
        exact .inr ⟨_, _, _, e, rfl, canonical_spelling all inner power, fun _ => rfl⟩
      · simp only [if_neg (mt stop.end_iff.1 empty), more empty]
        exact .inl ⟨rfl, fun _ => rfl⟩

/-! ## Values -/

/-- The number of a literal. -/
def value : Literal → Float
  | empty => 0.0
  | hex digits => hexValue digits
  | infinity negative => if negative then -Number.infinity else Number.infinity
  | decimal negative whole fraction exponent =>
    let magnitude := scientific (natOfDigits 10 (whole ++ fraction)) (exponent - fraction.length)
    if negative then -magnitude else magnitude

/-- The point of a decimal moves into its exponent. -/
theorem coefficient_mul_power (whole fraction : List Char) (e : Int) :
    (natOfDigits 10 (whole ++ fraction) * 10 ^ (e - fraction.length) : ℚ) = amount whole fraction e := by
  have ne : (10 : ℚ) ^ fraction.length ≠ 0 := by positivity
  rw [amount, natOfDigits_append, zpow_sub₀ (by norm_num), zpow_natCast]
  push_cast
  field_simp

theorem isNearest_amount (whole fraction : List Char) (e : Int) :
    IsNearest (amount whole fraction e) (scientific (natOfDigits 10 (whole ++ fraction)) (e - fraction.length)) := by
  rw [← coefficient_mul_power]
  exact isNearest_scientific _ _

theorem parse?_of_significand {text whole part power : List Char} {e : Int} (significand : Significand text whole part)
    (exponent : Power power e) :
    parse? (text ++ power) = some (scientific (natOfDigits 10 (whole ++ part)) (e - part.length)) := by
  have read : decimal? false (text ++ power) = some (.decimal false whole part e) :=
    decimal?_of_significand significand exponent
  simp only [decimal?] at read
  simp only [parse?]
  split at read
  · cases read
  · rename_i some
    obtain ⟨k, power, equal⟩ := Option.map_eq_some_iff.1 read
    rw [if_neg some, power]
    cases equal
    rfl

/-- A canonical text is parsed, as the double nearest to what it stands for. -/
theorem Canonical.parse? {text : List Char} {q : ℚ} (canonical : Canonical text q) :
    ∃ x, Literal.parse? text = some x ∧ IsNearest q x := by
  cases canonical with
  | @pointed whole fraction exponent e digits inner power =>
    cases power with
    | signed signs some =>
      exact ⟨_, parse?_of_significand (.pointed digits inner.2) (.some (.inl rfl) signs some), isNearest_amount ..⟩

theorem Canonical.parse?_amount {text whole part : List Char} {e : Int}
    (canonical : Canonical text (amount whole part e)) :
    Literal.parse? text = some (scientific (natOfDigits 10 (whole ++ part)) (e - part.length)) := by
  obtain ⟨x, parsed, nearest⟩ := canonical.parse?
  rw [parsed, nearest.unique (amount_nonneg ..) (isNearest_amount ..)]

/-- Bytes are read as characters are. -/
theorem signed_eq (text : List Char) : signed text = .ok ((signed? text).map value) := by
  simp only [signed, signAt_eq, signed?, bind, Except.bind]
  split
  · cases (sign text).1 <;> rfl
  · rcases canonical_eq (sign text).2 with ⟨refused, unread⟩ | ⟨spelled, whole, part, e, found, form, read⟩
    · rw [refused, unread]
      rfl
    · rw [found, read]
      simp only [Functor.map, Except.map, Option.bind_some, form.parse?_amount]
      rfl

/-- The number that a literal stands for. A decimal is rounded to the nearest double and then given its sign, which a
zero has too. -/
def Denotes : Literal → Float → Prop
  | .empty, x => x = 0.0
  | .hex digits, x => x = hexValue digits
  | .infinity negative, x => x = if negative then -Number.infinity else Number.infinity
  | .decimal negative whole fraction e, x => ∃ y, IsNearest (amount whole fraction e) y ∧
    x = (if negative then -y else y) ∧ signBit x = negative

theorem denotes_value (l : Literal) : Denotes l l.value := by
  cases l with
  | empty => rfl
  | hex digits => rfl
  | infinity negative => rfl
  | decimal negative whole fraction e =>
    have nearest := isNearest_amount whole fraction e
    refine ⟨_, nearest, rfl, ?_⟩
    rw [value]
    cases negative with
    | false => exact nearest.signBit_eq_false.1
    | true => exact nearest.signBit_eq_false.2

theorem isNaN_value {cs : List Char} {l : Literal} (spelled : Spells cs l) : l.value.isNaN = false := by
  cases spelled with
  | empty => decide
  | @hex _ digits _ _ all =>
    rw [value]
    rcases Nat.lt_or_ge 32 digits.length with long | short
    · obtain ⟨_, _, _, _, _, nearest⟩ := isNearest_front all
      rw [hexValue_of_long long]
      exact nearest.isNaN_eq_false.1
    · rw [hexValue_of_short short]
      exact (isNearest_ofNat _).isNaN_eq_false.1
  | infinity signs => cases signs <;> decide
  | @decimal _ negative _ whole part _ e =>
    have nearest := isNearest_amount whole part e
    rw [value]
    cases negative with
    | false => exact nearest.isNaN_eq_false.1
    | true => exact nearest.isNaN_eq_false.2

/-- The sign of a decimal is scanned, and the rest of it is spelled canonically. -/
theorem Spells.canonical {body whole fraction : List Char} {negative : Bool} {e : Int}
    (spelled : Spells body (.decimal negative whole fraction e)) :
    ∃ rest text, signAt body = .ok (negative, rest) ∧ Literal.canonical rest = .ok (some text) ∧
      Canonical text (amount whole fraction e) := by
  cases spelled with
  | @decimal s _ text _ _ power _ signs significand exponent =>
    have read : decimal? negative (text ++ power) = _ := decimal?_of_significand significand exponent
    refine ⟨text ++ power, ?_⟩
    rw [signAt_eq, sign_append signs (significand.bare power)]
    rcases canonical_eq (text ++ power) with ⟨-, unread⟩ | ⟨spelling, _, _, _, found, form, again⟩
    · rw [unread] at read
      cases read
    · rw [again] at read
      cases read
      exact ⟨spelling, rfl, found, form⟩

end Number.Literal

namespace Number

open Literal

theorem read?_of_unmarked {cs : List Char} (some : Text.strip cs = [] → False)
    (lower : ∀ digits, Text.strip cs = '0' :: 'x' :: digits → False)
    (upper : ∀ digits, Text.strip cs = '0' :: 'X' :: digits → False) : read? cs = signed? (Text.strip cs) := by
  unfold read?
  split
  next nothing => exact absurd nothing some
  next digits marked => exact absurd marked (lower digits)
  next digits marked => exact absurd marked (upper digits)
  · rfl

theorem ofText_eq (t : Text) : ofText t = ((read? t.decode).map value).getD nan := by
  have hexadecimal (digits : List Char) : hexadecimal? digits = (hex? digits).map value := by
    rw [hexadecimal?, hex?]
    split <;> rfl
  rw [ofText]
  split
  next nothing =>
    rewrite [read?, nothing]
    rfl
  next marked =>
    rewrite [hexadecimal, read?, marked]
    rfl
  next marked =>
    rewrite [hexadecimal, read?, marked]
    rfl
  next text some lower upper =>
    rewrite [read?_of_unmarked some lower upper, signed_eq]
    rfl

/-- A text is read as the number of the literal that it spells between the blanks at its ends, and as NaN exactly if it
spells none; a surrogate without its partner is in no literal. No slice of the text is missed. What is parsed for a
decimal is a canonical text of the same rational, and the sign is applied to the result. -/
theorem ofText_accepts_literals (t : Text) :
    ∃ body, (∀ other, Text.Trims t.decode other ↔ other = body) ∧
      ((ofText t).isNaN = false ↔ ∃ l, Spells body l) ∧ (∀ l, Spells body l → Denotes l (ofText t)) ∧
      ((¬ ∃ l, Spells body l) → ofText t = nan) ∧ (t.isWellFormed = false → ¬ ∃ l, Spells body l) ∧
      (∃ x, signed body = .ok x) ∧
      ∀ negative whole fraction e, Spells body (.decimal negative whole fraction e) →
        ∃ rest text x, signAt body = .ok (negative, rest) ∧ canonical rest = .ok (some text) ∧
          Canonical text (amount whole fraction e) ∧ parse? text = some x ∧
          ofText t = if negative then -x else x := by
  have accepted {l : Literal} (spelled : Spells (Text.strip t.decode) l) : ofText t = l.value := by
    rw [ofText_eq, read?_of_spells spelled]
    rfl
  have refused (other : ¬ ∃ l, Spells (Text.strip t.decode) l) : ofText t = nan := by
    have unread : read? t.decode = none := by
      rw [Option.eq_none_iff_forall_not_mem]
      exact fun l read => other ⟨l, spells_of_read? read⟩
    rw [ofText_eq, unread]
    rfl
  refine ⟨Text.strip t.decode, fun other => Text.trims_iff, ⟨?_, ?_⟩, ?_, refused, ?_, ⟨_, signed_eq _⟩, ?_⟩
  · intro number
    by_contra other
    rw [refused other] at number
    exact absurd number (by decide)
  · rintro ⟨l, spelled⟩
    rw [accepted spelled]
    exact isNaN_value spelled
  · intro l spelled
    rw [accepted spelled]
    exact denotes_value l
  · rintro lone ⟨l, spelled⟩
    obtain ⟨⟨before, after, split, blank⟩, -⟩ := Text.strip_spec t.decode
    have member := Text.replacement_mem_decode lone
    rw [split, List.append_assoc, List.mem_append, List.mem_append] at member
    have outside : Text.replacement ∉ before ++ after := fun inside => absurd (blank _ inside) (by decide)
    rcases member with first | inside | last
    · exact outside (List.mem_append_left _ first)
    · exact absurd (spelled.graphic _ inside) (by decide)
    · exact outside (List.mem_append_right _ last)
  · intro negative whole fraction e spelled
    obtain ⟨rest, text, signed, found, form⟩ := spelled.canonical
    exact ⟨rest, text, _, signed, found, form, form.parse?_amount, by rw [accepted spelled, value]⟩

/-- A zero keeps its sign through a point, an exponent and the blanks around it. -/
theorem ofText_accepts_literals_zero :
    (ofText (Text.ofString " -.0e+7\n")).isNaN = false ∧ signBit (ofText (Text.ofString " -.0e+7\n")) = true ∧
      ∃ x, parse? ['0', '.', '0', 'e', '+', '7'] = some x ∧ ofText (Text.ofString " -.0e+7\n") = -x := by
  obtain ⟨body, trims, number, denotes, -, -, -, decimals⟩ := ofText_accepts_literals (Text.ofString " -.0e+7\n")
  have trimmed : Text.Trims (Text.ofString " -.0e+7\n").decode ['-', '.', '0', 'e', '+', '7'] := by
    rw [Text.decode_ofString]
    refine ⟨⟨[' '], ['\n'], by simp, ?_⟩, ?_, ?_⟩ <;> simp [Text.blankPoints]
  obtain rfl := (trims _).1 trimmed
  have significand : Significand ['.', '0'] [] ['0'] := .fraction ⟨by simp, by simp⟩
  have power : Power ('e' :: (['+'] ++ ['7'])) (if false then -natOfDigits 10 ['7'] else natOfDigits 10 ['7']) :=
    .some (.inl rfl) .plus ⟨by simp, by simp⟩
  have spelled : Spells ['-', '.', '0', 'e', '+', '7'] (.decimal true [] ['0'] 7) := .decimal .minus significand power
  obtain ⟨_, _, _, negative⟩ := denotes _ spelled
  obtain ⟨rest, text, x, signed, found, -, parsed, same⟩ := decimals _ _ _ _ spelled
  have scanned : signAt ['-', '.', '0', 'e', '+', '7'] = .ok (true, ['.', '0', 'e', '+', '7']) := rfl
  obtain rfl : ['.', '0', 'e', '+', '7'] = rest := by
    rw [scanned] at signed
    cases signed
    rfl
  have spelling : canonical ['.', '0', 'e', '+', '7'] = .ok (some ['0', '.', '0', 'e', '+', '7']) := rfl
  rw [spelling] at found
  cases found
  exact ⟨number.2 ⟨_, spelled⟩, negative, x, parsed, same⟩

end Number

end Ecma
