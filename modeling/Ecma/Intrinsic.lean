import Ecma.Value

/-!
# Intrinsic objects and native functions

The objects that exist before any program runs. The intrinsic ones have fixed places in every store, and the native
functions follow them in the order of `Native.installed`, so that both are known without looking anything up.
-/

namespace Ecma

/-- The native error classes. -/
inductive ErrorKind where
  | error | evalError | rangeError | referenceError | syntaxError | typeError | uriError
deriving DecidableEq, Repr

namespace ErrorKind

def all : List ErrorKind := [error, evalError, rangeError, referenceError, syntaxError, typeError, uriError]

def name : ErrorKind → String
  | error => "Error"
  | evalError => "EvalError"
  | rangeError => "RangeError"
  | referenceError => "ReferenceError"
  | syntaxError => "SyntaxError"
  | typeError => "TypeError"
  | uriError => "URIError"

def index : ErrorKind → Nat
  | error => 0
  | evalError => 1
  | rangeError => 2
  | referenceError => 3
  | syntaxError => 4
  | typeError => 5
  | uriError => 6

end ErrorKind

/-- The objects that the runtime itself refers to. -/
inductive Intrinsic where
  | objectPrototype | functionPrototype | arrayPrototype | booleanPrototype | numberPrototype | stringPrototype
  | errorPrototype (kind : ErrorKind)
  | generatorPrototype
  /-- The accessor that guards what strict code may not read. -/
  | throwTypeError
  | global
deriving DecidableEq, Repr

namespace Intrinsic

/-- The place of an intrinsic object. A prototype comes before what inherits from it. -/
def ref : Intrinsic → ObjectRef
  | objectPrototype => ⟨0⟩
  | functionPrototype => ⟨1⟩
  | arrayPrototype => ⟨2⟩
  | booleanPrototype => ⟨3⟩
  | numberPrototype => ⟨4⟩
  | stringPrototype => ⟨5⟩
  | errorPrototype kind => ⟨6 + kind.index⟩
  | generatorPrototype => ⟨13⟩
  | throwTypeError => ⟨14⟩
  | global => ⟨15⟩

def all : List Intrinsic :=
  [objectPrototype, functionPrototype, arrayPrototype, booleanPrototype, numberPrototype, stringPrototype] ++
    ErrorKind.all.map errorPrototype ++ [generatorPrototype, throwTypeError, global]

end Intrinsic

/-- The functions that the runtime itself carries out. -/
inductive Native where
  | functionPrototype | throwTypeError
  | object
  | objectToString | objectValueOf | hasOwnProperty | isPrototypeOf | propertyIsEnumerable
  | getPrototypeOf | getOwnPropertyDescriptor | getOwnPropertyNames | create | defineProperty | defineProperties
  | objectSeal | objectFreeze | preventExtensions | isSealed | isFrozen | isExtensible | keys
  | functionCall | functionApply | functionToString
  | arrayJoin | arrayToString
  | booleanToString | booleanValueOf | numberToString | numberValueOf | stringToString | stringValueOf
  | error (kind : ErrorKind) | errorToString
  | generatorNext | generatorReturn | generatorThrow
deriving DecidableEq, Repr

namespace Native

/-- The name a native function shows itself under. -/
def name : Native → String
  | functionPrototype => ""
  | throwTypeError => "ThrowTypeError"
  | object => "Object"
  | objectToString | functionToString | arrayToString | booleanToString | numberToString | stringToString
  | errorToString => "toString"
  | objectValueOf | booleanValueOf | numberValueOf | stringValueOf => "valueOf"
  | hasOwnProperty => "hasOwnProperty"
  | isPrototypeOf => "isPrototypeOf"
  | propertyIsEnumerable => "propertyIsEnumerable"
  | getPrototypeOf => "getPrototypeOf"
  | getOwnPropertyDescriptor => "getOwnPropertyDescriptor"
  | getOwnPropertyNames => "getOwnPropertyNames"
  | create => "create"
  | defineProperty => "defineProperty"
  | defineProperties => "defineProperties"
  | objectSeal => "seal"
  | objectFreeze => "freeze"
  | preventExtensions => "preventExtensions"
  | isSealed => "isSealed"
  | isFrozen => "isFrozen"
  | isExtensible => "isExtensible"
  | keys => "keys"
  | functionCall => "call"
  | functionApply => "apply"
  | arrayJoin => "join"
  | error kind => kind.name
  | generatorNext => "next"
  | generatorReturn => "return"
  | generatorThrow => "throw"

/-- The number of parameters a native function declares. -/
def length : Native → Nat
  | defineProperty => 3
  | getOwnPropertyDescriptor | create | defineProperties | functionApply => 2
  | functionPrototype | throwTypeError | objectToString | objectValueOf | functionToString | arrayToString
  | booleanToString | booleanValueOf | numberValueOf | stringToString | stringValueOf | errorToString => 0
  | _ => 1

/-- May be called with `new`. -/
def isConstructor : Native → Bool
  | object | error _ => true
  | _ => false

/-- The native functions that are no intrinsic objects, in the order of their places. -/
def installed : List Native :=
  [object, objectToString, objectValueOf, hasOwnProperty, isPrototypeOf, propertyIsEnumerable,
   getPrototypeOf, getOwnPropertyDescriptor, getOwnPropertyNames, create, defineProperty, defineProperties,
   objectSeal, objectFreeze, preventExtensions, isSealed, isFrozen, isExtensible, keys,
   functionCall, functionApply, functionToString, arrayJoin, arrayToString,
   booleanToString, booleanValueOf, numberToString, numberValueOf, stringToString, stringValueOf,
   errorToString] ++ ErrorKind.all.map error ++ [generatorNext, generatorReturn, generatorThrow]

/-- The place of a native function. -/
def ref : Native → ObjectRef
  | functionPrototype => Intrinsic.functionPrototype.ref
  | throwTypeError => Intrinsic.throwTypeError.ref
  | n => ⟨16 + installed.idxOf n⟩

end Native

end Ecma
