import Ecma.Value

/-!
# Faults and reports

A fault is the reason why an operation of the runtime cannot be carried out; its kind and its wording are decided here
once. A report is what reaches the host when a run fails: a fault, or a thrown value that nothing caught.
-/

namespace Ecma

/-- The class of error a fault belongs to. Internal faults are of the runtime, not of the program it runs. -/
inductive FaultKind where
  | typeError | referenceError | rangeError | syntaxError | internal
deriving DecidableEq, Repr

/-- Why an operation could not be carried out. -/
inductive Fault where
  -- conversions
  | cannotConvert (nullish : String)
  | noPrimitiveValue
  -- properties
  | getterNotCallable
  | setterNotCallable
  | mixedDescriptor
  | descriptorNotObject
  | readOnlyProperty (name : String)
  | readOnlyValue (name : String)
  | cannotRedefine (name : String)
  | cannotDelete (name : String)
  | notExtensible (name : String)
  | propertyOfPrimitive (name : String)
  -- arrays
  | readOnlyLength
  | elementBeyondLength (index : Nat)
  | elementNotDeleted (index : Nat)
  | invalidLength
  -- functions
  | notCallable (what : String)
  | notConstructor (what : String)
  | nonObjectPrototype
  | poisonedAccess
  | applyNonFunction
  | applyNonObject
  | tooManyArguments
  | functionExpected
  | stackOverflow
  -- operators
  | instanceOfNotCallable
  | keyOfPrimitive
  | invalidTarget
  -- built-in objects
  | receiverExpected (className method : String)
  | objectExpected (method : String)
  | prototypeNotObject
  | errorTextOfPrimitive
  | invalidRadix
  -- generators
  | generatorExpected
  | generatorRunning
  -- bindings
  | notDefined (name : String)
  | notInitialized (name : String)
  | constantBinding (name : String)
  | redeclaredGlobal (name : String)
  -- early errors
  | strictTarget (name : String)
  | strictDelete (name : String)
  | strictWith
  | strayReturn
  | strayJump
  | strayBreak
  | strayContinue
  | undefinedLabel (label : String)
  | strayYield
  -- internal
  | bindingExists (name : String)
  | bindingMissing (name : String)
  | declarativeRecordNeeded
  | notUninitialized (name : String)
  | noContext
deriving DecidableEq

namespace Fault

def kind : Fault → FaultKind
  | notDefined _ | notInitialized _ | invalidTarget => .referenceError
  | stackOverflow | invalidLength | tooManyArguments | invalidRadix => .rangeError
  | strictTarget _ | strictDelete _ | strictWith | strayReturn | strayJump | strayBreak | strayContinue
  | undefinedLabel _ | strayYield => .syntaxError
  | bindingExists _ | bindingMissing _ | declarativeRecordNeeded | notUninitialized _ | noContext => .internal
  | _ => .typeError

def message : Fault → String
  | cannotConvert nullish => s!"Cannot convert {nullish} to object"
  | noPrimitiveValue => "Cannot convert object to primitive value"
  | getterNotCallable => "Getter must be a function"
  | setterNotCallable => "Setter must be a function"
  | mixedDescriptor =>
    "Invalid property descriptor. Cannot both specify accessors and a value or writable attribute"
  | descriptorNotObject => "Property description must be an object"
  | readOnlyProperty name => s!"Cannot assign to read only property '{name}' of object"
  | readOnlyValue name => s!"Cannot assign to read only property '{name}'"
  | cannotRedefine name => s!"Cannot redefine property: {name}"
  | cannotDelete name => s!"Cannot delete property '{name}'"
  | notExtensible name => s!"Cannot define property {name}, object is not extensible"
  | propertyOfPrimitive name => s!"Cannot create property '{name}' on primitive value"
  | readOnlyLength => "Cannot assign to read only property 'length' of array"
  | elementBeyondLength index => s!"Cannot add element {index}, array length is read only"
  | elementNotDeleted index => s!"Cannot delete array element {index}"
  | invalidLength => "Invalid array length"
  | notCallable what => s!"{what} is not a function"
  | notConstructor what => s!"{what} is not a constructor"
  | nonObjectPrototype => "Function has non-object prototype in instanceof check"
  | poisonedAccess =>
    "'caller', 'callee', and 'arguments' properties may not be accessed on strict mode functions or the arguments " ++
      "objects for calls to them"
  | applyNonFunction => "Function.prototype.apply was called on a non-function"
  | applyNonObject => "CreateListFromArrayLike called on non-object"
  | tooManyArguments => "Too many arguments in function call"
  | functionExpected => "Function.prototype.toString requires that 'this' be a Function"
  | stackOverflow => "Maximum call stack size exceeded"
  | instanceOfNotCallable => "Right-hand side of 'instanceof' is not callable"
  | keyOfPrimitive => "Cannot use 'in' operator to search for a key in a non-object"
  | invalidTarget => "Invalid left-hand side in assignment"
  | receiverExpected className method => s!"{className}.prototype.{method} requires that 'this' be a {className}"
  | objectExpected method => s!"Object.{method} called on non-object"
  | prototypeNotObject => "Object prototype may only be an Object or null"
  | errorTextOfPrimitive => "Error.prototype.toString called on non-object"
  | invalidRadix => "toString() radix must be between 2 and 36"
  | generatorExpected => "next method called on incompatible receiver"
  | generatorRunning => "Generator is already running"
  | notDefined name => s!"{name} is not defined"
  | notInitialized name => s!"Cannot access '{name}' before initialization"
  | constantBinding name => s!"Assignment to constant variable '{name}'"
  | redeclaredGlobal name => s!"Cannot redeclare global property '{name}' as a function"
  | strictTarget name => s!"Unexpected eval or arguments in strict mode: '{name}'"
  | strictDelete name => s!"Delete of an unqualified identifier '{name}' in strict mode"
  | strictWith => "Strict mode code may not include a with statement"
  | strayReturn => "Illegal return statement"
  | strayJump => "Illegal break or continue statement"
  | strayBreak => "Illegal break statement"
  | strayContinue => "Illegal continue statement"
  | undefinedLabel label => s!"Undefined label '{label}'"
  | strayYield => "yield is only supported as a top-level statement of a generator body"
  | bindingExists name => s!"binding '{name}' already exists"
  | bindingMissing name => s!"binding '{name}' does not exist"
  | declarativeRecordNeeded => "immutable bindings need a declarative record"
  | notUninitialized name => s!"'{name}' is not an uninitialized immutable binding"
  | noContext => "no running execution context"

end Fault

/-- What ends an evaluation early: a fault of the runtime, or a value that the program threw. -/
inductive Abrupt where
  | fault (f : Fault)
  | thrown (v : Value)
deriving DecidableEq

/-- Syntax faults stand for errors of the whole code unit, and no `try` statement sees them. -/
def Abrupt.isEarly : Abrupt → Bool
  | .fault f => f.kind = .syntaxError
  | .thrown _ => false

/-- The place in the runtime that an internal fault names. -/
structure Site where
  file : String
  line : Nat
  method : String
deriving DecidableEq

/-- What the host is told about a failed run. -/
inductive Report where
  | typeError (message : String)
  | referenceError (message : String)
  | rangeError (message : String)
  | syntaxError (message : String)
  | internal (message : String) (site : Site)
  /-- A thrown value that is no error of a known kind. -/
  | uncaught (message : String)
deriving DecidableEq

namespace Report

def message : Report → String
  | typeError m | referenceError m | rangeError m | syntaxError m | internal m _ | uncaught m => m

/-- The report as one line of text. -/
def display : Report → String
  | typeError m => s!"TypeError: {m}"
  | referenceError m => s!"ReferenceError: {m}"
  | rangeError m => s!"RangeError: {m}"
  | syntaxError m => s!"SyntaxError: {m}"
  | internal m site =>
    "Evaluation failed at " ++ site.method ++ " " ++ site.file ++ ":" ++ Nat.repr site.line ++ ": " ++ m
  | uncaught m => s!"Uncaught {m}"

/-- A report of an early error. -/
def isEarly : Report → Bool
  | syntaxError _ => true
  | _ => false

end Report

/-- A fault as the host sees it. -/
def Fault.report (f : Fault) : Report :=
  match f.kind with
  | .typeError => .typeError f.message
  | .referenceError => .referenceError f.message
  | .rangeError => .rangeError f.message
  | .syntaxError => .syntaxError f.message
  | .internal => .internal f.message ⟨"", 0, ""⟩

end Ecma
