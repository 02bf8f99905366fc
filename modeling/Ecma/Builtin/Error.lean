import Ecma.Builtin.Object

/-!
# The functions of errors

The error classes make their objects alike, called with or without `new`.
-/

namespace Ecma

namespace Builtin

/-- An error class as a function and as a constructor (`error_constructor`): a message that is not given is
inherited. -/
def error (E : Engine) (callee : ObjectRef) (args : List Value) : Action Value := do
  let parent := (← callee.get E "prototype").object?.getD (Intrinsic.errorPrototype .error).ref
  let message ←
    if (argument args 0).isUndefined then pure none else some <$> (argument args 0).toText E
  Value.object <$> .alloc (.error parent message)

/-- A property as text; an undefined one is as given. -/
def textOr (E : Engine) (o : ObjectRef) (name : String) (otherwise : String) : Action Text := do
  let v ← o.get E name
  if v.isUndefined then pure (Text.ofString otherwise) else v.toText E

/-- Name and message with a colon between them; what is empty is left out. -/
def errorText (name message : Text) : Text :=
  if name.isEmpty then message else if message.isEmpty then name else name ++ Text.ofString ": " ++ message

/-- The method `toString` of errors (`error_prototype_to_string`). -/
def errorToString (E : Engine) (this : Value) : Action Value := do
  match this with
  | .object o =>
    let name ← textOr E o "name" "Error"
    let message ← textOr E o "message" ""
    pure (.string (errorText name message))
  | _ => .fail .errorTextOfPrimitive

end Builtin

end Ecma
