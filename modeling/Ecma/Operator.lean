import Ecma.Coercion

/-!
# Operators

The binary operators on values. Arithmetic converts both operands to numbers, left before right; `+` joins texts when
one of the primitives is a text; the comparisons convert in source order.
-/

namespace Ecma

namespace ObjectRef

/-- The operator `instanceof` (`has_instance`): the object that `prototype` names is among those the value inherits
from. -/
def hasInstance (E : Engine) (f : ObjectRef) (v : Value) : Action Bool := do
  match v with
  | .object o =>
    match ← f.get E "prototype" with
    | .object prototype => .read fun s => (s.ancestors o).contains prototype
    | _ => .fail .nonObjectPrototype
  | _ => pure false

end ObjectRef

namespace BinaryOp

/-- Applies a function to both operands as numbers. -/
def numeric (E : Engine) (f : Float → Float → Float) (v w : Value) : Action Value := do
  let x ← v.toNumber E
  let y ← w.toNumber E
  pure (.number (f x y))

/-- Applies a function to the low 32 bits of both operands; the result is a signed number. -/
def bitwise (E : Engine) (f : BitVec 32 → BitVec 32 → BitVec 32) (v w : Value) : Action Value := do
  let a ← v.toWord E
  let b ← w.toWord E
  pure (.number (Float.ofInt (f a b).toInt))

/-- How far a shift goes: the low five bits of its right operand. -/
def distance (b : BitVec 32) : Nat := b.toNat % 32

/-- The operator `+`. -/
def sum (E : Engine) (v w : Value) : Action Value := do
  let v ← v.toPrimitive E .default
  let w ← w.toPrimitive E .default
  match v, w with
  | .string s, w => pure (.string (s ++ w.primitiveString))
  | v, .string t => pure (.string (v.primitiveString ++ t))
  | v, w => pure (.number (v.primitiveNumber + w.primitiveNumber))

/-- Applies an operator to two values (`apply_binary_operator`). -/
def apply (E : Engine) (op : BinaryOp) (v w : Value) : Action Value :=
  match op with
  | add => sum E v w
  | sub => numeric E (· - ·) v w
  | mul => numeric E (· * ·) v w
  | div => numeric E (· / ·) v w
  | mod => numeric E Number.remainder v w
  | leftShift => bitwise E (fun a b => a <<< distance b) v w
  | rightShift => bitwise E (fun a b => a.sshiftRight (distance b)) v w
  | unsignedRightShift => do
    let a ← v.toWord E
    let b ← w.toWord E
    pure (.number (Float.ofNat (a >>> distance b).toNat))
  | bitAnd => bitwise E (· &&& ·) v w
  | bitOr => bitwise E (· ||| ·) v w
  | bitXor => bitwise E (· ^^^ ·) v w
  | equal => return .boolean (← v.abstractEquals E w)
  | notEqual => return .boolean !(← v.abstractEquals E w)
  | strictEqual => pure (.boolean (v.strictEquals w))
  | strictNotEqual => pure (.boolean !(v.strictEquals w))
  | less => return .boolean ((← v.compare E w true) == some true)
  | greater => return .boolean ((← w.compare E v false) == some true)
  | lessEqual => return .boolean ((← w.compare E v false) == some false)
  | greaterEqual => return .boolean ((← v.compare E w true) == some false)
  | instanceOf => do
    match w with
    | .object f =>
      if ← .read fun s => (s.object f).isCallable then return .boolean (← f.hasInstance E v)
      else .fail .instanceOfNotCallable
    | _ => .fail .instanceOfNotCallable
  | isIn => do
    match w with
    | .object o =>
      let name ← v.toName E
      .boolean <$> .read (·.hasProperty o name)
    | _ => .fail .keyOfPrimitive

end BinaryOp

end Ecma
