import Ecma.Object.Create
import Ecma.Object.Read

/-!
# Conversions

An object converts to a primitive through its methods `valueOf` and `toString`, in the order that a hint asks for.
Conversions to numbers, strings and property names go through that primitive.
-/

namespace Ecma

/-- The methods that a conversion tries, in order. -/
def Hint.methods : Hint → List String
  | .string => ["toString", "valueOf"]
  | .number | .default => ["valueOf", "toString"]

namespace ObjectRef

/-- The first primitive that one of the methods gives. -/
def firstPrimitive (E : Engine) (o : ObjectRef) : List String → Action Value
  | [] => .fail .noPrimitiveValue
  | method :: rest => do
    let f ← o.get E method
    if ← .read (·.isCallable f) then
      let v ← E.call f (.object o) []
      if v.isPrimitive then pure v else firstPrimitive E o rest
    else firstPrimitive E o rest

/-- The primitive that an object stands for (`object_default_value`). -/
def defaultValue (E : Engine) (o : ObjectRef) (hint : Hint) : Action Value := o.firstPrimitive E hint.methods

end ObjectRef

namespace Value

def toPrimitive (E : Engine) (v : Value) (hint : Hint) : Action Value :=
  match v with
  | object o => o.defaultValue E hint
  | v => pure v

def toNumber (E : Engine) (v : Value) : Action Float := primitiveNumber <$> v.toPrimitive E .number

def toInteger (E : Engine) (v : Value) : Action Float := Number.toInteger <$> v.toNumber E

def toInt32 (E : Engine) (v : Value) : Action Int := Number.toInt32 <$> v.toNumber E

def toUint32 (E : Engine) (v : Value) : Action Nat := Number.toUint32 <$> v.toNumber E

def toUint16 (E : Engine) (v : Value) : Action Nat := Number.toUint16 <$> v.toNumber E

/-- The low 32 bits of a number, for the bitwise operators. -/
def toWord (E : Engine) (v : Value) : Action (BitVec 32) := Number.toWord <$> v.toNumber E

/-- ToString (`to_js_string`). -/
def toText (E : Engine) (v : Value) : Action Text := primitiveString <$> v.toPrimitive E .string

/-- ToString for use as a property name (`to_property_key`). -/
def toName (E : Engine) (v : Value) : Action String := Text.toString <$> v.toText E

/-- The comparison `==` (`abstract_equals`). At most one operand is converted, and only when the other is a primitive
that is not nullish. -/
def abstractEquals (E : Engine) (v w : Value) : Action Bool :=
  match v, w with
  | object o, object p => pure (o == p)
  | object o, w => if w.isNullish then pure false else return (← o.defaultValue E .default).looselyEquals w
  | v, object p => if v.isNullish then pure false else return v.looselyEquals (← p.defaultValue E .default)
  | v, w => pure (v.looselyEquals w)

/-- The order of two primitives: texts by code unit, and anything else as numbers. NaN has no order. -/
def primitiveLess (v w : Value) : Option Bool :=
  match v, w with
  | string s, string t => some (s.precedes t)
  | v, w =>
    if v.primitiveNumber.isNaN || w.primitiveNumber.isNaN then none
    else some (v.primitiveNumber < w.primitiveNumber)

/-- Whether `v` is less than `w`, converting `v` first or last (`abstract_relational_comparison`). -/
def compare (E : Engine) (v w : Value) (leftFirst : Bool) : Action (Option Bool) := do
  if leftFirst then
    let v ← v.toPrimitive E .number
    let w ← w.toPrimitive E .number
    pure (v.primitiveLess w)
  else
    let w ← w.toPrimitive E .number
    let v ← v.toPrimitive E .number
    pure (v.primitiveLess w)

end Value

end Ecma
