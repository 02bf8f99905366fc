import Ecma.Coercion

/-!
# Construction

The operator `new`. A native constructor makes its own object; any other function is called with a new object, which is
the result unless the function returns another.
-/

namespace Ecma

/-- Calls a function with `new`. -/
def construct (E : Engine) (f : Value) (args : List Value) : Action Value := do
  match f with
  | .object callee =>
    let obj ← .read (·.object callee)
    if obj.isConstructor then
      match obj.kind with
      | .function (.script ..) =>
        let parent := (← callee.get E "prototype").object?.getD Intrinsic.objectPrototype.ref
        let o ← .alloc (.ordinary (some parent) [])
        match ← E.call f (.object o) args with
        | .object result => pure (.object result)
        | _ => pure (.object o)
      | _ => E.call f .undefined args
    else .fail (.notConstructor (← .read (·.describe f)))
  | _ => .fail (.notConstructor (← .read (·.describe f)))

end Ecma
