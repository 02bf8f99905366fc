import Ecma.Store

/-!
# The initial store

The intrinsic objects and native functions of a fresh runtime, each at its place, and the global scope.
-/

namespace Ecma

namespace Native

/-- A native function as a value. -/
def value (n : Native) : Value := .object n.ref

/-- A native function as a property of the object it belongs to. -/
def method (n : Native) : String × Property := (n.name, .builtin n.value)

/-- The object of a native function. -/
def toObject (n : Native) (properties : List (String × Property)) : Object :=
  .fresh (some Intrinsic.functionPrototype.ref) .function (.function (.native n))
    (("length", .frozen (.ofNat n.length)) :: properties)

/-- The properties that a native function has besides its length. -/
def statics : Native → List (String × Property)
  | object =>
    ("prototype", .frozen (.object Intrinsic.objectPrototype.ref)) ::
      [getPrototypeOf, getOwnPropertyDescriptor, getOwnPropertyNames, create, defineProperty, defineProperties,
       objectSeal, objectFreeze, preventExtensions, isSealed, isFrozen, isExtensible, keys].map method
  | error kind => [("prototype", .frozen (.object (Intrinsic.errorPrototype kind).ref))]
  | _ => []

end Native

namespace Intrinsic

/-- An intrinsic object that inherits from the prototype of all objects. -/
def derived (className : ClassName) (kind : ObjectKind) (properties : List (String × Property)) : Object :=
  .fresh (some objectPrototype.ref) className kind properties

/-- What the prototype of an error class holds. -/
def errorProperties (kind : ErrorKind) : List (String × Property) :=
  [("constructor", .builtin (Native.error kind).value), ("name", .builtin (.ofString kind.name)),
   ("message", .builtin (.ofString ""))]

/-- The global names and what they stand for. -/
def globals : List (String × Property) :=
  [("NaN", .frozen (.number Number.nan)), ("Infinity", .frozen (.number Number.infinity)),
   ("undefined", .frozen .undefined), Native.object.method] ++ ErrorKind.all.map fun kind => (Native.error kind).method

/-- An intrinsic object in a fresh runtime. -/
def toObject : Intrinsic → Object
  | objectPrototype =>
    .ordinary none (("constructor", .builtin Native.object.value) ::
      [Native.objectToString, .objectValueOf, .hasOwnProperty, .isPrototypeOf, .propertyIsEnumerable].map Native.method)
  | functionPrototype =>
    derived .function (.function (.native .functionPrototype)) (("length", .frozen (.ofNat 0)) ::
      [Native.functionCall, .functionApply, .functionToString].map Native.method)
  | arrayPrototype =>
    derived .array .array (("length", .data (.ofNat 0) true false false) ::
      [Native.arrayJoin, .arrayToString].map Native.method)
  | booleanPrototype =>
    derived .boolean (.boolean false) ([Native.booleanToString, .booleanValueOf].map Native.method)
  | numberPrototype =>
    derived .number (.number 0.0) ([Native.numberToString, .numberValueOf].map Native.method)
  | stringPrototype =>
    derived .string (.string []) (("length", .frozen (.ofNat 0)) ::
      [Native.stringToString, .stringValueOf].map Native.method)
  | errorPrototype .error =>
    derived .error .ordinary (Native.errorToString.method :: errorProperties .error)
  | errorPrototype kind =>
    .fresh (some (errorPrototype .error).ref) .error .ordinary (errorProperties kind)
  | generatorPrototype =>
    derived .object .ordinary ([Native.generatorNext, .generatorReturn, .generatorThrow].map Native.method)
  | throwTypeError => (Native.throwTypeError.toObject []).closed
  | global => derived .global .ordinary globals

end Intrinsic

/-- The store of a fresh runtime (`create_intrinsics`). -/
def Store.initial : Store where
  objects := (Intrinsic.all.map Intrinsic.toObject ++ Native.installed.map fun n => n.toObject n.statics).toArray
  scopes := #[⟨.object Intrinsic.global.ref false, none⟩]
  generators := #[]
  contexts := []

end Ecma
