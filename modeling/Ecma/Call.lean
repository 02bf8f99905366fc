import Ecma.Builtin.Array
import Ecma.Builtin.Error
import Ecma.Builtin.Function
import Ecma.Builtin.Wrapper
import Ecma.Generator

/-!
# Calls

What calling a function does: a native function is carried out here, and code runs in a context of its own.
-/

namespace Ecma

/-- Carries out a native function. -/
def Native.apply (E : Engine) (n : Native) (callee : ObjectRef) (this : Value) (args : List Value) : Action Value :=
  match n with
  | functionPrototype => pure .undefined
  | throwTypeError => .fail .poisonedAccess
  | object => Builtin.object args
  | objectToString => Builtin.objectToString this
  | objectValueOf => Value.object <$> this.toObject
  | hasOwnProperty => Builtin.hasOwnProperty E this args
  | isPrototypeOf => Builtin.isPrototypeOf this args
  | propertyIsEnumerable => Builtin.propertyIsEnumerable E this args
  | getPrototypeOf => Builtin.getPrototypeOf args
  | getOwnPropertyDescriptor => Builtin.getOwnPropertyDescriptor E args
  | getOwnPropertyNames => Builtin.getOwnPropertyNames args
  | create => Builtin.create E args
  | defineProperty => Builtin.defineProperty E args
  | defineProperties => Builtin.defineProperties E args
  | objectSeal => Builtin.restrict E args false
  | objectFreeze => Builtin.restrict E args true
  | preventExtensions => Builtin.preventExtensions args
  | isSealed => Builtin.isRestricted args false
  | isFrozen => Builtin.isRestricted args true
  | isExtensible => Builtin.isExtensible args
  | keys => Builtin.keys args
  | functionCall => Builtin.functionCall E this args
  | functionApply => Builtin.functionApply E this args
  | functionToString => Builtin.functionToString this
  | arrayJoin => Builtin.arrayJoin E this args
  | arrayToString => Builtin.arrayToString E this
  | booleanToString => Builtin.booleanToString this
  | booleanValueOf => Builtin.booleanValueOf this
  | numberToString => Builtin.numberToString E this args
  | numberValueOf => Builtin.numberValueOf this
  | stringToString => Builtin.stringToString this
  | stringValueOf => Builtin.stringValueOf this
  | error _ => Builtin.error E callee args
  | errorToString => Builtin.errorToString E this
  | generatorNext => do (← this.generator).resume E
  | generatorReturn => do
    let g ← this.generator
    g.abandon
    .iteratorResult (argument args 0) true
  | generatorThrow => do
    let g ← this.generator
    g.abandon
    .throwValue (argument args 0)

/-- What `this` is in a call (`function_call_context`). Only strict code sees a primitive or nothing at all. -/
def receiver (this : Value) (strict : Bool) : Action Value :=
  if strict then pure this
  else if this.isNullish then pure (.object Intrinsic.global.ref)
  else Value.object <$> this.toObject

/-- The context of a call (`function_call_context`): a new scope inside the one that the function closes over. -/
def callContext (code : FunctionCode) (scope : ScopeRef) (strict : Bool) (this : Value) : Action Context := do
  let thisValue ← receiver this strict
  let own ← .declarativeScope (some scope)
  return { lexical := own, vars := own, thisValue, strict, functionName := code.name }

/-- What a call gives when the body of the function has ended. -/
def Completion.returned : Completion → Action Value
  | normal _ => pure .undefined
  | returns v => pure v
  | breaks _ | continues _ => .fail .strayJump

/-- Runs the code of a function (`call_script_function`). -/
def callScript (E : Engine) (callee : ObjectRef) (code : FunctionCode) (scope : ScopeRef) (strict : Bool) (this : Value)
    (args : List Value) : Action Value := do
  let ctx ← callContext code scope strict this
  let call : Invocation := ⟨callee, code.params, args⟩
  if code.generator then createGenerator E code ctx call
  else
    Action.inContext ctx do
      instantiate E .function code.body (some call)
      (← Stmt.evaluateBody E code.body).returned

/-- Calls a value (`call_function`). -/
def call (E : Engine) (f this : Value) (args : List Value) : Action Value := do
  match f with
  | .object callee =>
    match (← .read (·.object callee)).kind with
    | .function (.native n) => n.apply E callee this args
    | .function (.script code scope strict) => callScript E callee code scope strict this args
    | _ => .fail (.notCallable (← .read (·.describe f)))
  | _ => .fail (.notCallable (← .read (·.describe f)))

end Ecma
