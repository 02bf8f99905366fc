import Ecma.Engine
import Ecma.Store.Lookup

/-!
# Reading properties

The value of a property is what data holds or what its getter returns.
-/

namespace Ecma.ObjectRef

/-- The value of a property for a receiver, which a getter sees as `this` (`object_get_with_receiver`). -/
def getFor (E : Engine) (o : ObjectRef) (name : String) (receiver : Value) : Action Value := do
  match ← .read (·.getProperty? o name) with
  | none => pure .undefined
  | some p =>
    if p.isAccessor then
      match p.getter? with
      | some getter => E.call (.object getter) receiver []
      | none => pure .undefined
    else pure p.content

/-- The value of a property (`object_get`). -/
def get (E : Engine) (o : ObjectRef) (name : String) : Action Value := o.getFor E name (.object o)

end Ecma.ObjectRef
