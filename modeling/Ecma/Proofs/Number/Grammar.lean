import Ecma.Proofs.Number.Hexadecimal

/-!
# The grammar of numeric texts

`Literal.Spells` is the grammar of StringNumericLiteral, with one rule for each of its forms, and `Text.Trims` takes the
white space off. `Literal.read?` reads a literal character by character; it accepts the grammar (`read?_of_spells`) and
nothing else (`spells_of_read?`).
-/

namespace Ecma

/-! ## White space around a text -/

namespace Text

/-- WhiteSpace and LineTerminator of the language, by code point. -/
def blankPoints : List Nat :=
  [0x9, 0xA, 0xB, 0xC, 0xD, 0x20, 0xA0, 0x1680, 0x2000, 0x2001, 0x2002, 0x2003, 0x2004, 0x2005, 0x2006, 0x2007, 0x2008,
    0x2009, 0x200A, 0x2028, 0x2029, 0x202F, 0x205F, 0x3000, 0xFEFF]

/-- The second text is the first without the blanks at both of its ends. -/
def Trims (cs body : List Char) : Prop :=
  (∃ before after, cs = before ++ body ++ after ∧ ∀ c ∈ before ++ after, c.toNat ∈ blankPoints) ∧
    (∀ c ∈ body.head?, c.toNat ∉ blankPoints) ∧ ∀ c ∈ body.getLast?, c.toNat ∉ blankPoints

theorem isBlank_iff {c : Char} : isBlank c = true ↔ c.toNat ∈ blankPoints := by
  have point (d : Char) : c = d ↔ c.toNat = d.toNat := Char.toNat_inj.symm
  have mark : ('\ufeff' : Char).toNat = 0xFEFF := rfl
  have line : ('\u0085' : Char).toNat = 0x85 := rfl
  simp only [isBlank, Bool.or_eq_true, Bool.and_eq_true, decide_eq_true_eq, ne_eq, point, mark, line,
    CodePoints.contains_iff, whiteSpace, blankPoints]
  simp
  omega

theorem dropWhile_of_head {p : Char → Bool} {cs : List Char} (stops : ∀ c ∈ cs.head?, p c = false) :
    cs.dropWhile p = cs := by
  cases cs with
  | nil => rfl
  | cons c rest => simp [stops c rfl]

theorem head_dropWhile {p : Char → Bool} {cs : List Char} : ∀ c ∈ (cs.dropWhile p).head?, p c = false := by
  intro c first
  have := List.head?_dropWhile_not p cs
  rw [Option.mem_def.1 first] at this
  exact this

theorem strip_spec (cs : List Char) : Trims cs (strip cs) := by
  have front := List.takeWhile_append_dropWhile (p := isBlank) (l := cs)
  have back := List.takeWhile_append_dropWhile (p := isBlank) (l := (cs.dropWhile isBlank).reverse)
  have split : strip cs ++ ((cs.dropWhile isBlank).reverse.takeWhile isBlank).reverse = cs.dropWhile isBlank := by
    rw [strip, ← List.reverse_append, back, List.reverse_reverse]
  refine ⟨⟨cs.takeWhile isBlank, ((cs.dropWhile isBlank).reverse.takeWhile isBlank).reverse, ?_, ?_⟩, ?_, ?_⟩
  · rw [List.append_assoc, split, front]
  · intro c member
    rw [List.mem_append, List.mem_reverse] at member
    exact isBlank_iff.1 (member.elim List.mem_takeWhile_imp List.mem_takeWhile_imp)
  · intro c first blank
    have whole : (cs.dropWhile isBlank).head? = some c := by
      rw [← split, List.head?_append, Option.mem_def.1 first]
      rfl
    have := head_dropWhile c (Option.mem_def.2 whole)
    rw [isBlank_iff.2 blank] at this
    cases this
  · intro c last blank
    rw [strip, List.getLast?_reverse] at last
    have := head_dropWhile c last
    rw [isBlank_iff.2 blank] at this
    cases this

/-- There is one way to take the blanks off. -/
theorem trims_iff {cs body : List Char} : Trims cs body ↔ body = strip cs := by
  constructor
  · rintro ⟨⟨before, after, rfl, blank⟩, first, last⟩
    have clear {c : Char} (apart : c.toNat ∉ blankPoints) : isBlank c = false := by
      rw [← Bool.not_eq_true, isBlank_iff]
      exact apart
    have start : ∀ c ∈ before, isBlank c = true := fun c member =>
      isBlank_iff.2 (blank c (List.mem_append_left _ member))
    have finish : ∀ c ∈ after.reverse, isBlank c = true := fun c member =>
      isBlank_iff.2 (blank c (List.mem_append_right _ (List.mem_reverse.1 member)))
    rw [strip, List.append_assoc, List.dropWhile_append_of_pos start]
    cases body with
    | nil =>
      have all : after.dropWhile isBlank = [] :=
        List.dropWhile_eq_nil_iff.2 fun c member => finish c (List.mem_reverse.2 member)
      rw [List.nil_append, all]
      rfl
    | cons c rest =>
      have kept : (c :: rest ++ after).dropWhile isBlank = c :: rest ++ after :=
        dropWhile_of_head fun d first' => clear (first d first')
      have stops : ∀ d ∈ (c :: rest).reverse.head?, isBlank d = false := by
        intro d final
        rw [List.head?_reverse] at final
        exact clear (last d final)
      rw [kept, List.reverse_append, List.dropWhile_append_of_pos finish, dropWhile_of_head stops, List.reverse_reverse]
  · rintro rfl
    exact strip_spec cs

end Text

namespace Number

/-- A text that denotes a number. -/
inductive Literal where
  | empty
  | hex (digits : List Char)
  | infinity (negative : Bool)
  /-- Digits before and after the point, and the power of ten that scales them. -/
  | decimal (negative : Bool) (whole fraction : List Char) (exponent : Int)
deriving DecidableEq

namespace Literal

/-! ## Reading by characters -/

/-- A decimal without its sign. -/
def decimal? (negative : Bool) (cs : List Char) : Option Literal :=
  let whole := cs.takeWhile Char.isDigit
  let (fraction, rest) := fraction (cs.dropWhile Char.isDigit)
  if whole = [] ∧ fraction = [] then none
  else (exponent? rest).map (decimal negative whole fraction)

/-- A decimal or infinity with its sign. -/
def signed? (cs : List Char) : Option Literal :=
  let (negative, body) := sign cs
  if body = "Infinity".toList then some (infinity negative) else decimal? negative body

/-- A hexadecimal integer without its mark. -/
def hex? (digits : List Char) : Option Literal :=
  if digits ≠ [] ∧ digits.all isHexDigit then some (hex digits) else none

/-- The literal that characters spell, blanks at both ends apart. -/
def read? (cs : List Char) : Option Literal :=
  match Text.strip cs with
  | [] => some empty
  | '0' :: 'x' :: digits => hex? digits
  | '0' :: 'X' :: digits => hex? digits
  | cs => signed? cs

/-! ## The grammar -/

/-- An optional sign, and whether it is a minus. -/
inductive Signs : List Char → Bool → Prop where
  | none : Signs [] false
  | plus : Signs ['+'] false
  | minus : Signs ['-'] true

/-- The characters of literals: one byte each, and none of them blank. -/
def Graphic (c : Char) : Prop := 32 < c.toNat ∧ c.toNat < 128

instance (c : Char) : Decidable (Graphic c) := inferInstanceAs (Decidable (_ ∧ _))

/-- One or more decimal digits. -/
def Digits (cs : List Char) : Prop := cs ≠ [] ∧ ∀ c ∈ cs, c.isDigit = true

/-- Digits with their point, and the digits on both sides of it. -/
inductive Significand : List Char → List Char → List Char → Prop where
  | integer {whole} : Digits whole → Significand whole whole []
  | pointed {whole fraction} : Digits whole → (∀ c ∈ fraction, c.isDigit = true) →
    Significand (whole ++ '.' :: fraction) whole fraction
  | fraction {fraction} : Digits fraction → Significand ('.' :: fraction) [] fraction

/-- An optional exponent part, and the exponent. -/
inductive Power : List Char → Int → Prop where
  | none : Power [] 0
  | some {mark sign negative digits} : mark = 'e' ∨ mark = 'E' → Signs sign negative → Digits digits →
    Power (mark :: (sign ++ digits)) (if negative then -natOfDigits 10 digits else natOfDigits 10 digits)

/-- StringNumericLiteral without the white space around it, and the literal that each form of it is. -/
inductive Spells : List Char → Literal → Prop where
  | empty : Spells [] .empty
  | hex {mark digits} : mark = 'x' ∨ mark = 'X' → digits ≠ [] → (∀ c ∈ digits, isHexDigit c = true) →
    Spells ('0' :: mark :: digits) (.hex digits)
  | infinity {sign negative} : Signs sign negative → Spells (sign ++ "Infinity".toList) (.infinity negative)
  | decimal {sign negative text whole fraction power exponent} : Signs sign negative →
    Significand text whole fraction → Power power exponent →
    Spells (sign ++ (text ++ power)) (.decimal negative whole fraction exponent)

/-! ## Signs -/

/-- A sign that is written is taken off, unless another follows none. -/
theorem sign_append {s body : List Char} {negative : Bool} (signs : Signs s negative)
    (bare : ∀ c ∈ body.head?, c ≠ '+' ∧ c ≠ '-') : sign (s ++ body) = (negative, body) := by
  cases signs with
  | plus => rfl
  | minus => rfl
  | none =>
    cases body with
    | nil => rfl
    | cons c rest =>
      obtain ⟨plus, minus⟩ := bare c rfl
      rw [List.nil_append]
      unfold sign
      split
      · rename_i equal
        exact absurd (List.cons.inj equal).1 plus
      · rename_i equal
        exact absurd (List.cons.inj equal).1 minus
      · rfl

/-- Either a sign is taken off or there is none. -/
theorem sign_cases (cs : List Char) :
    (∃ tail, cs = '+' :: tail ∧ sign cs = (false, tail)) ∨ (∃ tail, cs = '-' :: tail ∧ sign cs = (true, tail)) ∨
      (cs.head? ≠ some '+' ∧ cs.head? ≠ some '-') ∧ sign cs = (false, cs) := by
  unfold sign
  split
  · exact .inl ⟨_, rfl, rfl⟩
  · exact .inr (.inl ⟨_, rfl, rfl⟩)
  · rename_i plus minus
    refine .inr (.inr ⟨⟨?_, ?_⟩, rfl⟩)
    · exact fun first => plus _ (List.eq_cons_of_mem_head? first)
    · exact fun first => minus _ (List.eq_cons_of_mem_head? first)

theorem signs_sign (cs : List Char) : ∃ s, Signs s (sign cs).1 ∧ cs = s ++ (sign cs).2 := by
  rcases sign_cases cs with ⟨tail, rfl, -⟩ | ⟨tail, rfl, -⟩ | ⟨-, bare⟩
  · exact ⟨['+'], .plus, rfl⟩
  · exact ⟨['-'], .minus, rfl⟩
  · rw [bare]
    exact ⟨[], .none, rfl⟩

theorem Signs.graphic {s : List Char} {negative : Bool} (signs : Signs s negative) : ∀ c ∈ s, Graphic c := by
  cases signs <;> simp [Graphic]

theorem isDigit_bare {c : Char} (digit : c.isDigit = true) : c ≠ '+' ∧ c ≠ '-' ∧ c ≠ '.' := by
  refine ⟨?_, ?_, ?_⟩ <;> rintro rfl <;> cases digit

/-! ## Exponents -/

theorem power_of_exponent? {cs : List Char} {e : Int} (read : exponent? cs = some e) : Power cs e := by
  unfold exponent? at read
  split at read
  · cases read
    exact .none
  · rename_i mark rest
    split at read
    · rename_i marked
      obtain ⟨s, signs, whole⟩ := signs_sign rest
      simp only at read
      split at read
      · rename_i digits
        cases read
        conv => arg 1; rw [whole]
        exact .some marked signs ⟨digits.1, List.all_eq_true.1 digits.2⟩
      · cases read
    · cases read

theorem exponent?_of_power {cs : List Char} {e : Int} (power : Power cs e) : exponent? cs = some e := by
  cases power with
  | none => rfl
  | @some mark s negative digits marked signs some =>
    have bare : ∀ c ∈ digits.head?, c ≠ '+' ∧ c ≠ '-' := fun c first =>
      ⟨(isDigit_bare (some.2 c (List.mem_of_head? first))).1, (isDigit_bare (some.2 c (List.mem_of_head? first))).2.1⟩
    have all : digits ≠ [] ∧ digits.all Char.isDigit = true := ⟨some.1, List.all_eq_true.2 some.2⟩
    simp only [exponent?, if_pos marked, sign_append signs bare, if_pos all]

theorem exponent?_eq_some_iff {cs : List Char} {e : Int} : exponent? cs = some e ↔ Power cs e :=
  ⟨power_of_exponent?, exponent?_of_power⟩

/-- An exponent part begins with its mark. -/
theorem Power.head {cs : List Char} {e : Int} (power : Power cs e) : ∀ c ∈ cs.head?, c = 'e' ∨ c = 'E' := by
  cases power with
  | none => simp
  | some marked => simpa using marked

/-! ## Decimals -/

theorem takeWhile_digits {digits : List Char} (rest : List Char) (all : ∀ c ∈ digits, c.isDigit = true)
    (stops : ∀ c ∈ rest.head?, c.isDigit = false) :
    (digits ++ rest).takeWhile Char.isDigit = digits ∧ (digits ++ rest).dropWhile Char.isDigit = rest := by
  have none : rest.takeWhile Char.isDigit = [] := by
    cases rest with
    | nil => rfl
    | cons c rest => simp [stops c rfl]
  rw [List.takeWhile_append_of_pos all, List.dropWhile_append_of_pos all, none, Text.dropWhile_of_head stops,
    List.append_nil]
  exact ⟨rfl, rfl⟩

/-- The characters that follow digits end them. -/
theorem Power.stops {cs : List Char} {e : Int} (power : Power cs e) :
    ∀ c ∈ cs.head?, c.isDigit = false ∧ c ≠ '.' := by
  intro c first
  rcases power.head c first with rfl | rfl <;> exact ⟨rfl, by decide⟩

/-- Either a point and the digits after it are taken off, or nothing is. -/
theorem fraction_cases (cs : List Char) :
    (∃ tail, cs = '.' :: tail ∧ fraction cs = (tail.takeWhile Char.isDigit, tail.dropWhile Char.isDigit)) ∨
      cs.head? ≠ some '.' ∧ fraction cs = ([], cs) := by
  unfold fraction
  split
  · exact .inl ⟨_, rfl, rfl⟩
  · rename_i other
    exact .inr ⟨fun first => other _ (List.eq_cons_of_mem_head? first), rfl⟩

theorem fraction_of_bare {cs : List Char} (bare : ∀ c ∈ cs.head?, c ≠ '.') : fraction cs = ([], cs) := by
  rcases fraction_cases cs with ⟨tail, rfl, -⟩ | ⟨-, kept⟩
  · exact absurd rfl (bare '.' rfl)
  · exact kept

theorem decimal?_of_significand {negative : Bool} {text whole part power : List Char} {e : Int}
    (significand : Significand text whole part) (exponent : Power power e) :
    decimal? negative (text ++ power) = some (.decimal negative whole part e) := by
  have ends : ∀ c ∈ power.head?, c.isDigit = false := fun c first => (exponent.stops c first).1
  cases significand with
  | integer digits =>
    obtain ⟨taken, rest⟩ := takeWhile_digits power digits.2 ends
    have none := fraction_of_bare fun c first => (exponent.stops c first).2
    simp [decimal?, taken, rest, none, digits.1, exponent?_of_power exponent]
  | pointed digits all =>
    obtain ⟨taken, rest⟩ := takeWhile_digits ('.' :: (part ++ power)) digits.2 (by simp)
    obtain ⟨inner, after⟩ := takeWhile_digits power all ends
    rw [List.append_assoc, List.cons_append]
    simp [decimal?, taken, rest, fraction, inner, after, digits.1, exponent?_of_power exponent]
  | fraction digits =>
    obtain ⟨inner, after⟩ := takeWhile_digits power digits.2 ends
    simp [decimal?, fraction, inner, after, digits.1, exponent?_of_power exponent]

theorem significand_of_decimal? {negative : Bool} {cs : List Char} {l : Literal} (read : decimal? negative cs = some l) :
    ∃ text whole part power e, cs = text ++ power ∧ Significand text whole part ∧ Power power e ∧
      l = .decimal negative whole part e := by
  have split := List.takeWhile_append_dropWhile (p := Char.isDigit) (l := cs)
  have all : ∀ c ∈ cs.takeWhile Char.isDigit, c.isDigit = true := fun c => List.mem_takeWhile_imp
  simp only [decimal?] at read
  generalize cs.takeWhile Char.isDigit = whole at *
  generalize cs.dropWhile Char.isDigit = after at *
  subst split
  split at read
  · cases read
  rename_i some
  obtain ⟨e, power, rfl⟩ := Option.map_eq_some_iff.1 read
  rw [exponent?_eq_some_iff] at power
  rcases fraction_cases after with ⟨tail, rfl, taken⟩ | ⟨-, kept⟩
  · rw [taken] at some power ⊢
    have inner : ∀ c ∈ tail.takeWhile Char.isDigit, c.isDigit = true := fun c => List.mem_takeWhile_imp
    have joined := List.takeWhile_append_dropWhile (p := Char.isDigit) (l := tail)
    by_cases none : whole = []
    · refine ⟨'.' :: tail.takeWhile Char.isDigit, [], _, _, e, ?_, .fraction ⟨?_, inner⟩, power, by rw [none]⟩
      · rw [none, List.nil_append, List.cons_append, joined]
      · exact fun empty => some ⟨none, empty⟩
    · refine ⟨whole ++ '.' :: tail.takeWhile Char.isDigit, whole, _, _, e, ?_, .pointed ⟨none, all⟩ inner, power, rfl⟩
      rw [List.append_assoc, List.cons_append, joined]
  · rw [kept] at some power ⊢
    exact ⟨whole, whole, [], after, e, rfl, .integer ⟨fun none => some ⟨none, rfl⟩, all⟩, power, rfl⟩

theorem Digits.head {cs : List Char} (digits : Digits cs) (rest : List Char) : ∃ c ∈ (cs ++ rest).head?, c.isDigit = true := by
  obtain ⟨nonempty, all⟩ := digits
  cases cs with
  | nil => exact absurd rfl nonempty
  | cons c cs => exact ⟨c, rfl, all c List.mem_cons_self⟩

/-- Digits with their point begin with a digit or the point. -/
theorem Significand.head {text whole part : List Char} (significand : Significand text whole part) (rest : List Char) :
    ∃ c ∈ (text ++ rest).head?, c.isDigit = true ∨ c = '.' := by
  cases significand with
  | integer digits =>
    obtain ⟨c, first, digit⟩ := digits.head rest
    exact ⟨c, first, .inl digit⟩
  | pointed digits =>
    obtain ⟨c, first, digit⟩ := digits.head ('.' :: part ++ rest)
    rw [List.append_assoc]
    exact ⟨c, first, .inl digit⟩
  | fraction => exact ⟨'.', rfl, .inr rfl⟩

/-! ## Texts -/

theorem spells_of_signed? {cs : List Char} {l : Literal} (read : signed? cs = some l) : Spells cs l := by
  obtain ⟨s, signs, whole⟩ := signs_sign cs
  simp only [signed?] at read
  rw [whole]
  split at read
  · rename_i infinite
    cases read
    rw [infinite]
    exact .infinity signs
  · obtain ⟨text, whole, part, power, e, split, significand, exponent, rfl⟩ := significand_of_decimal? read
    rw [split]
    exact .decimal signs significand exponent

theorem signed?_infinity {s : List Char} {negative : Bool} (signs : Signs s negative) :
    signed? (s ++ "Infinity".toList) = some (.infinity negative) := by
  have taken : sign (s ++ "Infinity".toList) = (negative, "Infinity".toList) := sign_append signs (by simp)
  simp only [signed?, taken, if_true]

/-- Digits with their point do not begin with a sign. -/
theorem Significand.bare {text whole part : List Char} (significand : Significand text whole part) (rest : List Char) :
    ∀ c ∈ (text ++ rest).head?, c ≠ '+' ∧ c ≠ '-' := by
  obtain ⟨c, first, start⟩ := significand.head rest
  intro d same
  obtain rfl := Option.some.inj ((Option.mem_def.1 first).symm.trans same)
  rcases start with digit | rfl
  · exact ⟨(isDigit_bare digit).1, (isDigit_bare digit).2.1⟩
  · decide

theorem signed?_decimal {s text whole part power : List Char} {negative : Bool} {e : Int} (signs : Signs s negative)
    (significand : Significand text whole part) (exponent : Power power e) :
    signed? (s ++ (text ++ power)) = some (.decimal negative whole part e) := by
  have finite : text ++ power ≠ "Infinity".toList := by
    obtain ⟨c, first, start⟩ := significand.head power
    intro infinite
    rw [infinite] at first
    cases first
    rcases start with digit | equal
    · cases digit
    · cases equal
  simp only [signed?, sign_append signs (significand.bare power), if_neg finite]
  exact decimal?_of_significand significand exponent

/-- A hexadecimal mark makes no decimal. -/
theorem signed?_hex {mark : Char} (marked : mark = 'x' ∨ mark = 'X') (rest : List Char) :
    signed? ('0' :: mark :: rest) = none := by
  rcases marked with rfl | rfl <;> simp [signed?, sign, decimal?, fraction, exponent?]

theorem spells_of_hex? {mark : Char} {digits : List Char} {l : Literal} (marked : mark = 'x' ∨ mark = 'X')
    (read : hex? digits = some l) : Spells ('0' :: mark :: digits) l := by
  rw [hex?] at read
  split at read
  · rename_i all
    cases read
    exact .hex marked all.1 (List.all_eq_true.1 all.2)
  · cases read

theorem spells_of_read? {cs : List Char} {l : Literal} (read : read? cs = some l) : Spells (Text.strip cs) l := by
  unfold read? at read
  split at read
  · rename_i blank
    cases read
    rw [blank]
    exact .empty
  · rename_i hex
    rw [hex]
    exact spells_of_hex? (.inl rfl) read
  · rename_i hex
    rw [hex]
    exact spells_of_hex? (.inr rfl) read
  · exact spells_of_signed? read

theorem read?_of_signed? {cs : List Char} {l : Literal} (read : signed? (Text.strip cs) = some l) :
    read? cs = some l := by
  unfold read?
  split
  · rename_i blank
    rw [blank] at read
    cases read
  · rename_i hex
    rw [hex, signed?_hex (.inl rfl)] at read
    cases read
  · rename_i hex
    rw [hex, signed?_hex (.inr rfl)] at read
    cases read
  · exact read

theorem read?_of_spells {cs : List Char} {l : Literal} (spelled : Spells (Text.strip cs) l) : read? cs = some l := by
  generalize body : Text.strip cs = text at spelled
  cases spelled with
  | empty => rw [read?, body]
  | hex marked some all =>
    have every := List.all_eq_true.2 all
    rcases marked with rfl | rfl <;> simp [read?, body, hex?, some, every]
  | infinity signs => exact read?_of_signed? (body ▸ signed?_infinity signs)
  | decimal signs significand exponent => exact read?_of_signed? (body ▸ signed?_decimal signs significand exponent)

/-! ## Characters -/

theorem isDigit_graphic {c : Char} (digit : c.isDigit = true) : Graphic c := by
  simp only [Char.isDigit, Bool.and_eq_true, decide_eq_true_eq] at digit
  exact ⟨Nat.lt_of_lt_of_le (by decide) (UInt32.le_iff_toNat_le.1 digit.1),
    Nat.lt_of_le_of_lt (UInt32.le_iff_toNat_le.1 digit.2) (by decide)⟩

theorem isHexDigit_graphic {c : Char} (hex : isHexDigit c = true) : Graphic c := by
  have between {a b : Char} (low : Graphic a) (high : Graphic b) (above : a ≤ c) (below : c ≤ b) : Graphic c :=
    ⟨Nat.lt_of_lt_of_le low.1 (UInt32.le_iff_toNat_le.1 above), Nat.lt_of_le_of_lt (UInt32.le_iff_toNat_le.1 below) high.2⟩
  simp only [isHexDigit, Bool.or_eq_true, Bool.and_eq_true, decide_eq_true_eq] at hex
  rcases hex with (digit | lower) | upper
  · exact isDigit_graphic digit
  · exact between (by decide) (by decide) lower.1 lower.2
  · exact between (by decide) (by decide) upper.1 upper.2

theorem Significand.graphic {text whole part : List Char} (significand : Significand text whole part) :
    ∀ c ∈ text, Graphic c := by
  intro c member
  cases significand with
  | integer digits => exact isDigit_graphic (digits.2 c member)
  | pointed digits all =>
    rcases List.mem_append.1 member with before | later
    · exact isDigit_graphic (digits.2 c before)
    · rcases List.mem_cons.1 later with rfl | after
      · decide
      · exact isDigit_graphic (all c after)
  | fraction digits =>
    rcases List.mem_cons.1 member with rfl | after
    · decide
    · exact isDigit_graphic (digits.2 c after)

theorem Power.graphic {cs : List Char} {e : Int} (power : Power cs e) : ∀ c ∈ cs, Graphic c := by
  intro c member
  cases power with
  | none => cases member
  | some marked signs digits =>
    rcases List.mem_cons.1 member with rfl | later
    · rcases marked with rfl | rfl <;> decide
    · rcases List.mem_append.1 later with before | after
      · exact signs.graphic c before
      · exact isDigit_graphic (digits.2 c after)

theorem Spells.graphic {cs : List Char} {l : Literal} (spelled : Spells cs l) : ∀ c ∈ cs, Graphic c := by
  intro c member
  cases spelled with
  | empty => cases member
  | hex marked _ all =>
    rcases List.mem_cons.1 member with rfl | later
    · decide
    · rcases List.mem_cons.1 later with rfl | digit
      · rcases marked with rfl | rfl <;> decide
      · exact isHexDigit_graphic (all c digit)
  | infinity signs =>
    rcases List.mem_append.1 member with before | after
    · exact signs.graphic c before
    · exact (show ∀ d ∈ "Infinity".toList, Graphic d by simp [Graphic]) c after
  | decimal signs significand exponent =>
    rcases List.mem_append.1 member with before | after
    · exact signs.graphic c before
    · exact (List.mem_append.1 after).elim (significand.graphic c) (exponent.graphic c)

/-- Without blanks there is nothing to strip. -/
theorem Spells.strip {cs : List Char} {l : Literal} (spelled : Spells cs l) : Text.strip cs = cs := by
  have clear (c : Char) (member : c ∈ cs) : c.toNat ∉ Text.blankPoints := by
    have graphic := spelled.graphic c member
    intro blank
    simp only [Text.blankPoints, List.mem_cons, List.not_mem_nil, or_false] at blank
    have low := graphic.1
    have high := graphic.2
    omega
  refine (Text.trims_iff.1 ⟨⟨[], [], by simp, by simp⟩, ?_, ?_⟩).symm
  · exact fun c first => clear c (List.mem_of_head? first)
  · exact fun c last => clear c (List.mem_of_getLast? last)

end Literal

end Number

theorem Text.replacement_mem_decode {t : Text} (lone : t.isWellFormed = false) : replacement ∈ t.decode := by
  fun_induction Text.decode t with
  | case1 => cases lone
  | case2 => exact List.mem_cons_self
  | case3 u plain => simp [isWellFormed, plain] at lone
  | case4 u v rest pair ih =>
    rw [isWellFormed, if_pos pair] at lone
    exact List.mem_cons_of_mem _ (ih lone)
  | case5 => exact List.mem_cons_self
  | case6 u v rest apart plain ih =>
    simp only [isWellFormed, if_neg apart, plain, Bool.not_false, Bool.true_and] at lone
    exact List.mem_cons_of_mem _ (ih lone)

end Ecma
