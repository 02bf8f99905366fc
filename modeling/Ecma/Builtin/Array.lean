import Ecma.Builtin.Object

/-!
# The methods of arrays

`join` works on anything with a length, and nullish elements stand for nothing.
-/

namespace Ecma

namespace Builtin

/-- The text of an element. -/
def elementText (E : Engine) (v : Value) : Action Text := if v.isNullish then pure [] else v.toText E

/-- Joins the elements from index `i` on, `count` of them, each after a separator; `out` is the text so far, last unit
first. -/
def joinFrom (E : Engine) (o : ObjectRef) (separator : Text) : (count i : Nat) → Text → Action Text
  | 0, _, out => pure out.reverse
  | count + 1, i, out => do
    let out := if i = 0 then out else separator.reverseAux out
    let v ← o.get E (Index.name i)
    let t ← elementText E v
    joinFrom E o separator count (i + 1) (t.reverseAux out)

/-- The method `join`. -/
def arrayJoin (E : Engine) (this : Value) (args : List Value) : Action Value := do
  let o ← this.toObject
  let count ← (← o.get E "length").toUint32 E
  let separator ← if (argument args 0).isUndefined then pure (Text.ofString ",") else (argument args 0).toText E
  Value.string <$> joinFrom E o separator count 0 []

/-- The method `toString` of arrays. -/
def arrayToString (E : Engine) (this : Value) : Action Value := do
  let o ← this.toObject
  let join ← o.get E "join"
  if ← .read (·.isCallable join) then E.call join (.object o) []
  else .read fun s => .ofString (s.classTag o)

end Builtin

end Ecma
