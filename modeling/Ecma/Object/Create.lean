import Ecma.Action

/-!
# Making objects

The objects that evaluation makes. Each is added to the store complete, with all the properties it starts out with.
-/

namespace Ecma

namespace Object

/-- An array with the given elements (`create_array`). -/
def array (values : List Value) : Object :=
  fresh (some Intrinsic.arrayPrototype.ref) .array .array
    (("length", .data (.ofNat values.length) true false false) :: elements values)

/-- The object around a string (`create_string_object`): its length is fixed. -/
def string (t : Text) : Object :=
  fresh (some Intrinsic.stringPrototype.ref) .string (.string t) [("length", .frozen (.ofNat t.length))]

def boolean (b : Bool) : Object := fresh (some Intrinsic.booleanPrototype.ref) .boolean (.boolean b) []

def number (x : Float) : Object := fresh (some Intrinsic.numberPrototype.ref) .number (.number x) []

/-- An error object (`create_error`); without a message it inherits one. -/
def error (prototype : ObjectRef) (message : Option Text) : Object :=
  fresh (some prototype) .error .error (message.toList.map fun t => ("message", .builtin (.string t)))

/-- What a step of a generator gives (`create_iterator_result`). -/
def iteratorResult (v : Value) (done : Bool) : Object :=
  ordinary (some Intrinsic.objectPrototype.ref) [("value", .plain v), ("done", .plain (.boolean done))]

/-- The object that stands for a generator. -/
def generator (prototype : ObjectRef) (g : GeneratorRef) : Object :=
  fresh (some prototype) .generator (.generator g) []

/-- The object that describes a property, every field of its kind filled in. -/
def description (p : Property) : Object :=
  ordinary (some Intrinsic.objectPrototype.ref)
    ((if p.isAccessor then
        [("get", .plain (p.descriptor.get.getD .undefined)), ("set", .plain (p.descriptor.set.getD .undefined))]
      else [("value", .plain p.content), ("writable", .plain (.boolean p.writable))]) ++
      [("enumerable", .plain (.boolean p.enumerable)), ("configurable", .plain (.boolean p.configurable))])

end Object

namespace Action

/-- A new empty object. -/
def newObject : Action ObjectRef := alloc (.ordinary (some Intrinsic.objectPrototype.ref) [])

/-- A new array. -/
def newArray (values : List Value) : Action ObjectRef := alloc (.array values)

/-- A new error of a class. -/
def newError (kind : ErrorKind) (message : String) : Action ObjectRef :=
  alloc (.error (Intrinsic.errorPrototype kind).ref (some (Text.ofString message)))

/-- The result of a generator step. -/
def iteratorResult (v : Value) (done : Bool) : Action Value := Value.object <$> alloc (.iteratorResult v done)

end Action

namespace Report

/-- The class of error object that a report turns into. -/
def errorKind : Report → ErrorKind
  | typeError _ => .typeError
  | referenceError _ => .referenceError
  | rangeError _ => .rangeError
  | syntaxError _ => .syntaxError
  | internal .. | uncaught _ => .error

/-- The report as an error object (`error_to_object`). -/
def toObject (r : Report) : Action ObjectRef := Action.newError r.errorKind r.message

end Report

/-- The value that a `catch` clause receives (`into_thrown`). -/
def Abrupt.thrownValue : Abrupt → Action Value
  | .thrown v => pure v
  | .fault f => Value.object <$> f.report.toObject

namespace Value

/-- ToObject: a primitive is wrapped. -/
def toObject : Value → Action ObjectRef
  | undefined => .fail (.cannotConvert "undefined")
  | null => .fail (.cannotConvert "null")
  | boolean b => .alloc (.boolean b)
  | number x => .alloc (.number x)
  | string t => .alloc (.string t)
  | object o => pure o

/-- Refuses what has no properties (`check_object_coercible`). -/
def checkCoercible : Value → Action Unit
  | undefined => .fail (.cannotConvert "undefined")
  | null => .fail (.cannotConvert "null")
  | _ => pure ()

end Value

end Ecma
