import Ecma.Object.Define

/-!
# Writing properties

An assignment changes the data an object has of its own, calls an inherited or own setter, or adds a property. Where
`Store.canPut` says it cannot succeed, nothing happens, or a fault where the caller wants one.
-/

namespace Ecma

namespace ObjectRef

/-- Assigns to a property (`object_put`). -/
def put (E : Engine) (o : ObjectRef) (name : String) (v : Value) (throw : Bool) : Action Unit := do
  if ← .read (·.canPut o name) then
    if (← .read (·.getOwn? o name)).any (·.isData) then
      let _ ← o.define E name (.ofValue v) throw
    else
      match (← .read (·.getProperty? o name)).bind (·.setter?) with
      | some setter =>
        let _ ← E.call (.object setter) (.object o) [v]
      | none =>
        let _ ← o.define E name (Property.plain v).descriptor throw
  else if throw then .fail (.readOnlyProperty name)
  else pure ()

end ObjectRef

namespace Descriptor

/-- A field of an object that describes a property. -/
def field? (E : Engine) (o : ObjectRef) (name : String) : Action (Option Value) := do
  if ← .read (·.hasProperty o name) then some <$> o.get E name else pure none

/-- A flag of an object that describes a property. -/
def flag? (E : Engine) (o : ObjectRef) (name : String) : Action (Option Bool) := do
  return (← field? E o name).map (·.toBoolean)

/-- An accessor of an object that describes a property: a function or undefined. -/
def accessor? (E : Engine) (o : ObjectRef) (name : String) (otherwise : Fault) : Action (Option Value) := do
  let f ← field? E o name
  match f with
  | none => pure f
  | some v => if v.isUndefined || (← .read (·.isCallable v)) then pure f else .fail otherwise

/-- The request that an object describes (`from_object`). Its fields are read one after the other, inherited ones
too. -/
def ofObject (E : Engine) (o : ObjectRef) : Action Descriptor := do
  let enumerable ← flag? E o "enumerable"
  let configurable ← flag? E o "configurable"
  let value ← field? E o "value"
  let writable ← flag? E o "writable"
  let get ← accessor? E o "get" .getterNotCallable
  let set ← accessor? E o "set" .setterNotCallable
  let d : Descriptor := { value, writable, get, set, enumerable, configurable }
  d.check
  pure d

/-- The object that describes a request, every field of its kind filled in (`to_object`). -/
def toObject (d : Descriptor) : Action ObjectRef := .alloc (.description ⟨d⟩)

end Descriptor

end Ecma
