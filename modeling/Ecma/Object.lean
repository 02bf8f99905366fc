import Ecma.Code
import Ecma.Index
import Ecma.Intrinsic
import Ecma.NameMap
import Ecma.Property

/-!
# Objects

What the store holds for an object: its properties in the order they were added, the object it inherits from, and what
makes it more than an ordinary one.
-/

namespace Ecma

/-- The place of a scope in the store. -/
structure ScopeRef where
  index : Nat
deriving DecidableEq, Repr

/-- The place of a generator in the store. -/
structure GeneratorRef where
  index : Nat
deriving DecidableEq, Repr

/-- The class an object shows itself under. -/
inductive ClassName where
  | object | function | array | boolean | number | string | error | arguments | generator | global
deriving DecidableEq, Repr

def ClassName.text : ClassName → String
  | object => "Object"
  | function => "Function"
  | array => "Array"
  | boolean => "Boolean"
  | number => "Number"
  | string => "String"
  | error => "Error"
  | arguments => "Arguments"
  | generator => "Generator"
  | global => "global"

/-- The parameters that the leading indices of an `arguments` object stand for. -/
structure ParameterMap where
  scope : ScopeRef
  names : List (Option String)
deriving DecidableEq

namespace ParameterMap

/-- The parameter that a property name stands for (`mapped_name`). -/
def parameter? (m : ParameterMap) (name : String) : Option String :=
  (Index.ofName? name).bind fun i => (m.names[i]?).join

/-- The map in which a name no longer stands for a parameter. -/
def detach (m : ParameterMap) (name : String) : ParameterMap :=
  match Index.ofName? name with
  | some i => { m with names := m.names.set i none }
  | none => m

end ParameterMap

/-- What calling a function object runs. -/
inductive FunctionData where
  /-- Code, the scope it closes over, and whether it runs in strict mode. -/
  | script (code : FunctionCode) (scope : ScopeRef) (strict : Bool)
  | native (n : Native)

/-- What makes an object more than an ordinary one. -/
inductive ObjectKind where
  | ordinary
  | array
  | error
  | boolean (b : Bool)
  | number (x : Float)
  | string (t : Text)
  | function (f : FunctionData)
  /-- Strict `arguments` objects stand for no parameters. -/
  | arguments (mapped : Option ParameterMap)
  | generator (g : GeneratorRef)

structure Object where
  properties : NameMap Property
  prototype : Option ObjectRef
  className : ClassName
  extensible : Bool
  kind : ObjectKind

namespace Object

/-- A new object, extensible and with the given properties. -/
def fresh (prototype : Option ObjectRef) (className : ClassName) (kind : ObjectKind)
    (properties : List (String × Property)) : Object :=
  ⟨⟨properties⟩, prototype, className, true, kind⟩

/-- A new ordinary object. -/
def ordinary (prototype : Option ObjectRef) (properties : List (String × Property)) : Object :=
  fresh prototype .object .ordinary properties

instance : Inhabited Object := ⟨ordinary none []⟩

def isCallable (obj : Object) : Bool :=
  match obj.kind with
  | .function _ => true
  | _ => false

/-- Generators cannot be called with `new`. -/
def isConstructor (obj : Object) : Bool :=
  match obj.kind with
  | .function (.native n) => n.isConstructor
  | .function (.script code _ _) => !code.generator
  | _ => false

def isError (obj : Object) : Bool :=
  match obj.kind with
  | .error => true
  | _ => false

/-- The object with a property in its place or at the end (`insert`). -/
def withProperty (obj : Object) (name : String) (p : Property) : Object :=
  { obj with properties := obj.properties.insert name p }

/-- The object that nothing can be added to (`prevent_extensions`). -/
def closed (obj : Object) : Object := { obj with extensible := false }

/-- The object in which an index no longer stands for a parameter (`unmap`). -/
def detached (obj : Object) (name : String) : Object :=
  match obj.kind with
  | .arguments (some m) => { obj with kind := .arguments (some (m.detach name)) }
  | _ => obj

/-- The object without a property, nor the parameter it stood for. -/
def without (obj : Object) (name : String) : Object :=
  { obj with properties := obj.properties.erase name }.detached name

/-- The properties that hold the elements of a list under their indices. -/
def elements (values : List Value) : List (String × Property) :=
  values.zipIdx.map fun (v, i) => (Index.name i, .plain v)

end Object

end Ecma
