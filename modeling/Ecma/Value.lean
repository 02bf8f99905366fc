import Ecma.Number.Literal
import Ecma.Number.Printer

/-!
# Values

The values a program computes with. An object is known by the place it has in the store, so two values are the same
object exactly when they hold the same reference. The equalities here run no code.
-/

namespace Ecma

/-- The place of an object in the store. -/
structure ObjectRef where
  index : Nat
deriving DecidableEq, Repr

inductive Value where
  | undefined
  | null
  | boolean (b : Bool)
  | number (x : Float)
  | string (t : Text)
  | object (o : ObjectRef)
deriving DecidableEq

instance : Inhabited Value := ⟨.undefined⟩

/-- Which kind of primitive a conversion would rather have. -/
inductive Hint where
  | default | number | string
deriving DecidableEq, Repr

namespace Value

/-- The value of a string known when the program is written. -/
def ofString (s : String) : Value := .string (Text.ofString s)

def ofNat (n : Nat) : Value := .number (Float.ofNat n)

def isUndefined : Value → Bool
  | undefined => true
  | _ => false

def isNullish : Value → Bool
  | undefined | null => true
  | _ => false

def isPrimitive : Value → Bool
  | object _ => false
  | _ => true

def object? : Value → Option ObjectRef
  | object o => some o
  | _ => none

/-- ToBoolean. -/
def toBoolean : Value → Bool
  | undefined | null => false
  | boolean b => b
  | number x => !(x.isNaN || x == 0.0)
  | string t => !t.isEmpty
  | object _ => true

/-- ToNumber of a primitive. An object is no number of its own. -/
def primitiveNumber : Value → Float
  | undefined | object _ => Number.nan
  | null => 0.0
  | boolean b => if b then 1.0 else 0.0
  | number x => x
  | string t => Number.ofText t

/-- The text of a primitive that is no string. -/
def primitiveText : Value → String
  | undefined | object _ => "undefined"
  | null => "null"
  | boolean b => if b then "true" else "false"
  | number x => Number.toText x
  | string t => t.toString

/-- ToString of a primitive. -/
def primitiveString : Value → Text
  | string t => t
  | v => Text.ofString v.primitiveText

/-- The comparison `===` (`strict_equals`): numbers by their value, so that NaN differs from itself and the zeros are
equal. -/
def strictEquals : Value → Value → Bool
  | undefined, undefined | null, null => true
  | number x, number y => x == y
  | string s, string t => s == t
  | boolean a, boolean b => a == b
  | object o, object p => o == p
  | _, _ => false

/-- SameValue (`same_value`): like `===`, but NaN is itself and the two zeros differ. -/
def same : Value → Value → Bool
  | number x, number y =>
    (x.isNaN && y.isNaN) || (x == y && Number.signBit x == Number.signBit y)
  | v, w => v.strictEquals w

/-- A Boolean as a number; any other value as it is. -/
def unboolean : Value → Value
  | boolean b => number (if b then 1.0 else 0.0)
  | v => v

/-- The comparison `==` of two values of which at most one kind of conversion is left to do: numbers meet strings as
numbers, and Booleans meet anything else as numbers. -/
def looselyEquals (v w : Value) : Bool :=
  match v, w with
  | boolean a, boolean b => a == b
  | v, w =>
    match v.unboolean, w.unboolean with
    | undefined, undefined | undefined, null | null, undefined | null, null => true
    | number x, string t => x == Number.ofText t
    | string t, number y => Number.ofText t == y
    | v, w => v.strictEquals w

end Value

end Ecma
