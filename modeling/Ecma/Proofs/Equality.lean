import Ecma.Coercion
import Ecma.Proofs.Number.Double

/-!
# Abstract equality

The comparison `==` is given by a table of rules over the types of its operands, and a rule that does not decide hands
the comparison on with one operand replaced: a Boolean by a number, an object by the primitive that it stands for. What
a method of the object returns may be a Boolean again, so the table is entered more than once. It still ends, since each
replacement brings an operand closer to a number or a string, and it comes to the same in both orders: an object is
converted in at most one place, and what is left to compare then are two primitives.
-/

namespace Ecma

namespace Value

/-- The types of the language. -/
inductive Tag where
  | undefined | null | boolean | number | string | object
deriving DecidableEq

def tag : Value → Tag
  | undefined => .undefined
  | null => .null
  | boolean _ => .boolean
  | number _ => .number
  | string _ => .string
  | object _ => .object

/-- How often `==` may have to replace this operand: an object by a primitive, which may be a Boolean, and a Boolean by
a number. -/
def replacements : Value → Nat
  | object _ => 2
  | boolean _ => 1
  | _ => 0

/-- The object that `==` converts, where one operand is an object and the other neither an object nor nullish, and the
other operand. -/
def conversion : Value → Value → Option (ObjectRef × Value)
  | object _, object _ => none
  | object o, v | v, object o => if v.isNullish then none else some (o, v)
  | _, _ => none

/-- The rules of `==`, of which the first that fits is followed. A comparison with an operand replaced is left to
`again`. -/
def equalityRule (E : Engine) (again : Value → Value → Action Bool) (v w : Value) : Action Bool :=
  match v, w with
  | undefined, undefined | undefined, null | null, undefined | null, null => pure true
  | number _, number _ | string _, string _ | boolean _, boolean _ | object _, object _ => pure (v.strictEquals w)
  | number x, string t => pure (x == Number.ofText t)
  | string t, number y => pure (Number.ofText t == y)
  | boolean b, _ => again (number (if b then 1.0 else 0.0)) w
  | _, boolean b => again v (number (if b then 1.0 else 0.0))
  | number _, object p | string _, object p => do again v (← p.defaultValue E .default)
  | object o, number _ | object o, string _ => do again (← o.defaultValue E .default) w
  | _, _ => pure false

variable {E : Engine} {v w : Value}

/-! ## Both orders -/

theorem strictEquals_comm (v w : Value) : v.strictEquals w = w.strictEquals v := by
  cases v <;> cases w <;> simp only [strictEquals, BEq.comm]

theorem looselyEquals_comm (v w : Value) : v.looselyEquals w = w.looselyEquals v := by
  cases v <;> cases w <;> simp only [looselyEquals, unboolean, strictEquals_comm, BEq.comm]

theorem conversion_comm (v w : Value) : v.conversion w = w.conversion v := by
  cases v <;> cases w <;> rfl

/-- Where nothing is converted, no code runs. -/
theorem abstractEquals_of_conversion_none (h : v.conversion w = none) :
    v.abstractEquals E w = pure (v.looselyEquals w) := by
  cases v <;> cases w <;> simp_all [conversion, abstractEquals, looselyEquals, unboolean, strictEquals, isNullish]

/-- Where an object is converted, two primitives are left to compare. -/
theorem abstractEquals_of_conversion_some {o : ObjectRef} {u : Value} (h : v.conversion w = some (o, u)) :
    v.abstractEquals E w = (·.looselyEquals u) <$> o.defaultValue E .default := by
  cases v <;> cases w <;> simp_all [conversion, abstractEquals, isNullish, looselyEquals_comm]

theorem abstractEquals_comm (E : Engine) (v w : Value) : v.abstractEquals E w = w.abstractEquals E v := by
  cases asked : v.conversion w with
  | none =>
    have asked' : w.conversion v = none := (conversion_comm w v).trans asked
    rw [abstractEquals_of_conversion_none asked, abstractEquals_of_conversion_none asked', looselyEquals_comm]
  | some pair =>
    have asked' : w.conversion v = some pair := (conversion_comm w v).trans asked
    rw [abstractEquals_of_conversion_some asked, abstractEquals_of_conversion_some asked']

/-! ## Operands of one type -/

theorem tag_eq_of_strictEquals (h : v.strictEquals w = true) : v.tag = w.tag := by
  cases v <;> cases w <;> simp_all [strictEquals, tag]

theorem conversion_of_tag_eq (h : v.tag = w.tag) : v.conversion w = none := by
  cases v <;> cases w <;> cases h <;> rfl

theorem looselyEquals_of_tag_eq (h : v.tag = w.tag) : v.looselyEquals w = v.strictEquals w := by
  cases v <;> cases w <;> cases h <;> rfl

theorem abstractEquals_of_tag_eq (h : v.tag = w.tag) : v.abstractEquals E w = pure (v.strictEquals w) := by
  rw [abstractEquals_of_conversion_none (conversion_of_tag_eq h), looselyEquals_of_tag_eq h]

/-! ## The rules end -/

theorem conversion_of_isPrimitive (left : v.isPrimitive = true) (right : w.isPrimitive = true) :
    v.conversion w = none := by
  cases v <;> cases w <;> cases left <;> cases right <;> rfl

theorem abstractEquals_of_isPrimitive (left : v.isPrimitive = true) (right : w.isPrimitive = true) :
    v.abstractEquals E w = pure (v.looselyEquals w) :=
  abstractEquals_of_conversion_none (conversion_of_isPrimitive left right)

/-- A Boolean is compared as the number it stands for, also with another Boolean. -/
theorem looselyEquals_boolean (b : Bool) (w : Value) :
    (boolean b).looselyEquals w = (number (if b then 1.0 else 0.0)).looselyEquals w := by
  cases w with
  | boolean c => cases b <;> cases c <;> decide
  | _ => rfl

theorem replacements_lt_object {o : ObjectRef} (primitive : v.isPrimitive = true) :
    v.replacements < (object o).replacements := by
  cases v with
  | object => cases primitive
  | _ => simp [replacements]

theorem replacements_number_lt {x : Float} {b : Bool} : (number x).replacements < (boolean b).replacements :=
  Nat.zero_lt_one

end Value

/-- What an object converts to is a primitive, so only that counts for what follows. -/
theorem ObjectRef.firstPrimitive_bind_congr {E : Engine} {α : Type} {f g : Value → Action α} (o : ObjectRef)
    (same : ∀ u : Value, u.isPrimitive = true → f u = g u) (methods : List String) :
    o.firstPrimitive E methods >>= f = o.firstPrimitive E methods >>= g := by
  induction methods with
  | nil => rfl
  | cons method rest ih =>
    simp only [firstPrimitive, bind_assoc]
    refine bind_congr fun callee => bind_congr fun callable => ?_
    cases callable with
    | false => exact ih
    | true =>
      simp only [↓reduceIte, bind_assoc]
      refine bind_congr fun u => ?_
      split
      next primitive => rw [pure_bind, pure_bind, same u primitive]
      · exact ih

theorem ObjectRef.defaultValue_bind_congr {E : Engine} {α : Type} {f g : Value → Action α} {o : ObjectRef} {hint : Hint}
    (same : ∀ u : Value, u.isPrimitive = true → f u = g u) : o.defaultValue E hint >>= f = o.defaultValue E hint >>= g :=
  o.firstPrimitive_bind_congr same hint.methods

namespace Value

variable {E : Engine} {v w : Value}

/-- Each rule that does not decide hands on operands with fewer replacements left to make. -/
theorem equalityRule_congr {f g : Value → Value → Action Bool}
    (same : ∀ v' w' : Value, v'.replacements + w'.replacements < v.replacements + w.replacements → f v' w' = g v' w') :
    equalityRule E f v w = equalityRule E g v w := by
  fun_cases equalityRule E f v w
  all_goals simp only [equalityRule]
  case case11 => exact same _ _ (Nat.add_lt_add_right replacements_number_lt _)
  case case12 => exact same _ _ (Nat.add_lt_add_left replacements_number_lt _)
  case case13 | case14 =>
    exact ObjectRef.defaultValue_bind_congr fun u primitive =>
      same _ _ (Nat.add_lt_add_left (replacements_lt_object primitive) _)
  case case15 | case16 =>
    exact ObjectRef.defaultValue_bind_congr fun u primitive =>
      same _ _ (Nat.add_lt_add_right (replacements_lt_object primitive) _)

theorem abstractEquals_boolean (E : Engine) (b : Bool) (w : Value) :
    (boolean b).abstractEquals E w = (number (if b then 1.0 else 0.0)).abstractEquals E w := by
  cases w with
  | object o =>
    rw [abstractEquals_of_conversion_some rfl, abstractEquals_of_conversion_some rfl]
    refine congrArg (· <$> _) (funext fun u => ?_)
    rw [looselyEquals_comm, looselyEquals_boolean, looselyEquals_comm]
  | _ => rw [abstractEquals_of_isPrimitive rfl rfl, abstractEquals_of_isPrimitive rfl rfl, looselyEquals_boolean]

/-- Converting an object and comparing what it stands for. -/
theorem abstractEquals_object {o : ObjectRef} (primitive : v.isPrimitive = true)
    (asked : (object o).conversion v = some (o, v)) :
    (do (← o.defaultValue E .default).abstractEquals E v) = (object o).abstractEquals E v := by
  rw [abstractEquals_of_conversion_some asked, map_eq_pure_bind]
  exact ObjectRef.defaultValue_bind_congr fun u primitive' => abstractEquals_of_isPrimitive primitive' primitive

theorem equalityRule_abstractEquals (E : Engine) (v w : Value) :
    equalityRule E (abstractEquals E) v w = abstractEquals E v w := by
  fun_cases equalityRule E (abstractEquals E) v w
  case case11 => exact (abstractEquals_boolean ..).symm
  case case12 => rw [abstractEquals_comm, ← abstractEquals_boolean, abstractEquals_comm]
  case case13 | case14 =>
    simp only [abstractEquals_comm E _ (object _), abstractEquals_comm E (number _), abstractEquals_comm E (string _)]
    exact abstractEquals_object rfl rfl
  case case15 | case16 => exact abstractEquals_object rfl rfl
  case case17 => cases v <;> cases w <;> simp_all [abstractEquals, looselyEquals, unboolean, strictEquals, isNullish]
  all_goals rfl

theorem iterate_equalityRule (again : Value → Value → Action Bool) (n : Nat) :
    ∀ v w : Value, v.replacements + w.replacements < n → (equalityRule E)^[n] again v w = abstractEquals E v w := by
  induction n with
  | zero => exact fun _ _ few => absurd few (Nat.not_lt_zero _)
  | succ n ih =>
    intro v w few
    rw [Function.iterate_succ_apply', ← equalityRule_abstractEquals]
    exact equalityRule_congr fun v' w' fewer => ih v' w' (by omega)

end Value

/-- The comparison `==` is symmetric, in its effects too, and goes no further than `===` where that decides. At most one
object is converted, with the default hint, and only primitives are compared after that. Following the rules comes to it
within one turn more than there are replacements to make, whatever would be done after those. -/
theorem abstract_equality (E : Engine) (v w : Value) :
    v.abstractEquals E w = w.abstractEquals E v ∧
      (v.tag = w.tag ∨ v.strictEquals w = true → v.abstractEquals E w = pure (v.strictEquals w)) ∧
      (v.conversion w = none → v.abstractEquals E w = pure (v.looselyEquals w)) ∧
      (∀ o u, v.conversion w = some (o, u) →
        v.abstractEquals E w = (·.looselyEquals u) <$> o.defaultValue E .default) ∧
      ∀ again n, v.replacements + w.replacements < n → (Value.equalityRule E)^[n] again v w = v.abstractEquals E w := by
  refine ⟨v.abstractEquals_comm E w, ?_, Value.abstractEquals_of_conversion_none,
    fun _ _ => Value.abstractEquals_of_conversion_some, fun again n => Value.iterate_equalityRule again n v w⟩
  rintro (same | equal)
  · exact Value.abstractEquals_of_tag_eq same
  · exact Value.abstractEquals_of_tag_eq (Value.tag_eq_of_strictEquals equal)

/-- NaN differs from itself, and no code is asked; a Boolean and an object ask the object, in either order. -/
theorem abstract_equality_nan :
    (Value.number Number.nan).tag = (Value.number Number.nan).tag ∧
      (Value.number Number.nan).abstractEquals .spent (.number Number.nan) = pure false ∧
      (Value.boolean true).conversion (.object ⟨0⟩) = some (⟨0⟩, .boolean true) ∧
      (Value.boolean true).abstractEquals .spent (.object ⟨0⟩) =
        (·.looselyEquals (.boolean true)) <$> ObjectRef.defaultValue .spent ⟨0⟩ .default :=
  ⟨rfl, (abstract_equality .spent (.number Number.nan) (.number Number.nan)).2.1 (.inl rfl), rfl,
    (abstract_equality .spent (.boolean true) (.object ⟨0⟩)).2.2.2.1 _ _ rfl⟩

end Ecma
