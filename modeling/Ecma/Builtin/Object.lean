import Ecma.Function.Create
import Ecma.Object.Write

/-!
# The built-in functions of objects

`Object` with its reflective functions, and the methods that every object inherits. The functions that take an object
refuse anything else; the methods convert what they are called on.
-/

namespace Ecma

/-- The argument at a place; a missing one is undefined. -/
def argument (args : List Value) (i : Nat) : Value := args.getD i .undefined

/-- The object that a function works on. -/
def Value.requireObject (v : Value) (method : String) : Action ObjectRef :=
  match v with
  | .object o => pure o
  | _ => .fail (.objectExpected method)

/-- The request that a value describes (`to_descriptor`). -/
def Value.toDescriptor (E : Engine) : Value → Action Descriptor
  | .object o => Descriptor.ofObject E o
  | _ => .fail .descriptorNotObject

namespace ObjectRef

/-- Reads the requests that the enumerable properties of an object describe. -/
def readDescriptors (E : Engine) (o : ObjectRef) : List String → Action (List (String × Descriptor))
  | [] => pure []
  | name :: rest => do
    if ← .read (·.isEnumerable o name) then
      let d ← (← o.get E name).toDescriptor E
      return (name, d) :: (← o.readDescriptors E rest)
    else o.readDescriptors E rest

/-- Carries out requests in order. -/
def defineAll (E : Engine) (o : ObjectRef) : List (String × Descriptor) → Action Unit
  | [] => pure ()
  | (name, d) :: rest => do
    let _ ← o.define E name d true
    o.defineAll E rest

/-- Defines what the properties of an object describe. All are read before the first is defined. -/
def defineProperties (E : Engine) (o : ObjectRef) (properties : Value) : Action Unit := do
  let p ← properties.toObject
  o.defineAll E (← p.readDescriptors E (← .read (·.ownKeys p)))

/-- The request that takes freedom from a property: it can no longer be configured, and with `freeze` data is read
only. -/
def restriction (p : Property) (freeze : Bool) : Descriptor :=
  { Descriptor.empty with
    configurable := some false
    writable := if freeze && p.isData then some false else none }

/-- Restricts properties one by one. -/
def restrictAll (E : Engine) (o : ObjectRef) (freeze : Bool) : List String → Action Unit
  | [] => pure ()
  | name :: rest => do
    if let some p ← .read (·.getOwn? o name) then
      let _ ← o.define E name (restriction p freeze) true
    o.restrictAll E freeze rest

/-- Allows no new properties. -/
def preventExtensions (o : ObjectRef) : Action Unit := .modify (·.modifyObject o Object.closed)

/-- Seals or freezes an object (`restrict_properties`). -/
def restrict (E : Engine) (o : ObjectRef) (freeze : Bool) : Action Unit := do
  o.restrictAll E freeze (← .read (·.ownKeys o))
  o.preventExtensions

end ObjectRef

/-- A property that leaves no freedom, as far as sealing or freezing goes. -/
def Property.isRestricted (p : Property) (freeze : Bool) : Bool :=
  !p.configurable && !(freeze && p.isData && p.writable)

/-- An object that is sealed or frozen, however it became so (`properties_restricted`). -/
def Store.isRestricted (s : Store) (o : ObjectRef) (freeze : Bool) : Bool :=
  !(s.object o).extensible && (s.ownKeys o).all fun name => (s.getOwn? o name).all (·.isRestricted freeze)

/-- Names as an array of strings. -/
def Action.nameArray (names : List String) : Action Value := Value.object <$> .newArray (names.map .ofString)

namespace Builtin

/-- `Object` as a function and as a constructor (`object_constructor`). -/
def object (args : List Value) : Action Value := do
  let v := argument args 0
  if v.isNullish then Value.object <$> .newObject else Value.object <$> v.toObject

/-- The method `toString` of objects (`object_prototype_to_string`). -/
def objectToString : Value → Action Value
  | .undefined => pure (.ofString "[object Undefined]")
  | .null => pure (.ofString "[object Null]")
  | this => do
    let o ← this.toObject
    .read fun s => .ofString (s.classTag o)

/-- The method `hasOwnProperty`. -/
def hasOwnProperty (E : Engine) (this : Value) (args : List Value) : Action Value := do
  let name ← (argument args 0).toName E
  let o ← this.toObject
  .read fun s => .boolean (s.getOwn? o name).isSome

/-- The method `propertyIsEnumerable`. -/
def propertyIsEnumerable (E : Engine) (this : Value) (args : List Value) : Action Value := do
  let name ← (argument args 0).toName E
  let o ← this.toObject
  .read fun s => .boolean (s.isEnumerable o name)

/-- The method `isPrototypeOf`. -/
def isPrototypeOf (this : Value) (args : List Value) : Action Value := do
  match argument args 0 with
  | .object p =>
    let o ← this.toObject
    .read fun s => .boolean ((s.ancestors p).contains o)
  | _ => pure (.boolean false)

/-- `Object.getPrototypeOf`. -/
def getPrototypeOf (args : List Value) : Action Value := do
  let o ← (argument args 0).requireObject "getPrototypeOf"
  .read fun s => ((s.object o).prototype.map Value.object).getD .null

/-- `Object.getOwnPropertyDescriptor`. -/
def getOwnPropertyDescriptor (E : Engine) (args : List Value) : Action Value := do
  let o ← (argument args 0).requireObject "getOwnPropertyDescriptor"
  let name ← (argument args 1).toName E
  match ← .read (·.getOwn? o name) with
  | some p => Value.object <$> p.descriptor.toObject
  | none => pure .undefined

/-- `Object.getOwnPropertyNames`. -/
def getOwnPropertyNames (args : List Value) : Action Value := do
  let o ← (argument args 0).requireObject "getOwnPropertyNames"
  .nameArray (← .read (·.ownKeys o))

/-- `Object.keys`. -/
def keys (args : List Value) : Action Value := do
  let o ← (argument args 0).requireObject "keys"
  .nameArray (← .read fun s => (s.ownKeys o).filter (s.isEnumerable o))

/-- `Object.create`. -/
def create (E : Engine) (args : List Value) : Action Value := do
  let o ←
    match argument args 0 with
    | .object parent => .alloc (.ordinary (some parent) [])
    | .null => .alloc (.ordinary none [])
    | _ => .fail .prototypeNotObject
  unless (argument args 1).isUndefined do o.defineProperties E (argument args 1)
  pure (.object o)

/-- `Object.defineProperty`. -/
def defineProperty (E : Engine) (args : List Value) : Action Value := do
  let o ← (argument args 0).requireObject "defineProperty"
  let name ← (argument args 1).toName E
  let d ← (argument args 2).toDescriptor E
  let _ ← o.define E name d true
  pure (.object o)

/-- `Object.defineProperties`. -/
def defineProperties (E : Engine) (args : List Value) : Action Value := do
  let o ← (argument args 0).requireObject "defineProperties"
  o.defineProperties E (argument args 1)
  pure (.object o)

/-- `Object.seal` and `Object.freeze`. -/
def restrict (E : Engine) (args : List Value) (freeze : Bool) : Action Value := do
  let o ← (argument args 0).requireObject (if freeze then "freeze" else "seal")
  o.restrict E freeze
  pure (.object o)

/-- `Object.preventExtensions`. -/
def preventExtensions (args : List Value) : Action Value := do
  let o ← (argument args 0).requireObject "preventExtensions"
  o.preventExtensions
  pure (.object o)

/-- `Object.isSealed` and `Object.isFrozen`. -/
def isRestricted (args : List Value) (freeze : Bool) : Action Value := do
  let o ← (argument args 0).requireObject (if freeze then "isFrozen" else "isSealed")
  .read fun s => .boolean (s.isRestricted o freeze)

/-- `Object.isExtensible`. -/
def isExtensible (args : List Value) : Action Value := do
  let o ← (argument args 0).requireObject "isExtensible"
  .read fun s => .boolean (s.object o).extensible

end Builtin

end Ecma
