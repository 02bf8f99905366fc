import Ecma.Builtin.Object

/-!
# The methods of booleans, numbers and strings

They work on a primitive of their type and on an object around one, and refuse anything else.
-/

namespace Ecma

namespace Object

/-- The primitive that an object is around. -/
def primitive? (obj : Object) : Option Value :=
  match obj.kind with
  | .boolean b => some (.boolean b)
  | .number x => some (.number x)
  | .string t => some (.string t)
  | _ => none

end Object

/-- The primitive that a method is called on, directly or through an object. -/
def Store.receiver? (s : Store) : Value → Option Value
  | .object o => (s.object o).primitive?
  | v => some v

namespace Builtin

/-- The boolean that a method is called on (`this_boolean_value`). -/
def thisBoolean (this : Value) (method : String) : Action Bool := do
  match ← .read (·.receiver? this) with
  | some (.boolean b) => pure b
  | _ => .fail (.receiverExpected "Boolean" method)

/-- The number that a method is called on (`this_number_value`). -/
def thisNumber (this : Value) (method : String) : Action Float := do
  match ← .read (·.receiver? this) with
  | some (.number x) => pure x
  | _ => .fail (.receiverExpected "Number" method)

/-- The text that a method is called on (`this_string_value`). -/
def thisText (this : Value) (method : String) : Action Text := do
  match ← .read (·.receiver? this) with
  | some (.string t) => pure t
  | _ => .fail (.receiverExpected "String" method)

def booleanToString (this : Value) : Action Value := do
  return .ofString (if ← thisBoolean this "toString" then "true" else "false")

def booleanValueOf (this : Value) : Action Value := Value.boolean <$> thisBoolean this "valueOf"

/-- The method `toString` of numbers (`number_to_string_method`); its argument is the radix. -/
def numberToString (E : Engine) (this : Value) (args : List Value) : Action Value := do
  let x ← thisNumber this "toString"
  let radix ← if (argument args 0).isUndefined then pure 10.0 else (argument args 0).toInteger E
  if 2.0 ≤ radix && radix ≤ 36.0 then
    let n := Number.toUint32 radix
    pure (.ofString (if n = 10 then Number.toText x else Number.toRadixText x n))
  else .fail .invalidRadix

def numberValueOf (this : Value) : Action Value := Value.number <$> thisNumber this "valueOf"

def stringToString (this : Value) : Action Value := Value.string <$> thisText this "toString"

def stringValueOf (this : Value) : Action Value := Value.string <$> thisText this "valueOf"

end Builtin

end Ecma
