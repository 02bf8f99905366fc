import Ecma.Builtin.Object

/-!
# The methods of functions

Calling a function with arguments from a list or an array, and the text that a function shows itself as.
-/

namespace Ecma

namespace ObjectRef

/-- The values under the indices from `i` on, `count` of them, in front of which stand the values read so far, last
first. -/
def readElements (E : Engine) (o : ObjectRef) : (count i : Nat) → List Value → Action (List Value)
  | 0, _, values => pure values.reverse
  | count + 1, i, values => do
    let v ← o.get E (Index.name i)
    o.readElements E count (i + 1) (v :: values)

end ObjectRef

/-- The text of a function: its name and parameters. -/
def FunctionData.text : FunctionData → String
  | .native n => "function " ++ n.name ++ "() \x7b [native code] \x7d"
  | .script code _ _ =>
    "function " ++ code.name.getD "" ++ "(" ++ ", ".intercalate code.params ++ ") \x7b [code] \x7d"

namespace Builtin

/-- The method `call` (`function_prototype_call_method`). -/
def functionCall (E : Engine) (this : Value) (args : List Value) : Action Value :=
  E.call this (argument args 0) args.tail

/-- More arguments than this are refused. -/
def maxArguments : Nat := 65535

/-- The arguments that `apply` takes from its second argument. -/
def argumentList (E : Engine) : Value → Action (List Value)
  | .undefined | .null => pure []
  | .object o => do
    let count ← (← o.get E "length").toUint32 E
    if count > maxArguments then .fail .tooManyArguments else o.readElements E count 0 []
  | _ => .fail .applyNonObject

/-- The method `apply` (`function_prototype_apply`). -/
def functionApply (E : Engine) (this : Value) (args : List Value) : Action Value := do
  if ← .read (·.isCallable this) then
    let list ← argumentList E (argument args 1)
    E.call this (argument args 0) list
  else .fail .applyNonFunction

/-- The method `toString` of functions (`function_prototype_to_string`). -/
def functionToString (this : Value) : Action Value := do
  match this with
  | .object o =>
    match (← .read (·.object o)).kind with
    | .function f => pure (.ofString f.text)
    | _ => .fail .functionExpected
  | _ => .fail .functionExpected

end Builtin

end Ecma
