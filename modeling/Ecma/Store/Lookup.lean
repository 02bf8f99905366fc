import Ecma.Store

/-!
# Looking things up

Reading the store without running any code: the objects a property may be inherited from, own and inherited properties,
own names, and the scopes around a scope. A prototype is older than what inherits from it and an outer scope older than
what it surrounds, so a chain has at most as many members as the store.
-/

namespace Ecma

namespace Store

/-- An object and those it inherits from, at most `bound` of them, nearest first. -/
def chainFrom (s : Store) : (bound : Nat) → ObjectRef → List ObjectRef
  | 0, _ => []
  | bound + 1, o => o :: ((s.object o).prototype.map (s.chainFrom bound)).getD []

/-- An object and those it inherits from, nearest first. -/
def prototypeChain (s : Store) (o : ObjectRef) : List ObjectRef := s.chainFrom (s.objects.size + 1) o

/-- The objects that an object inherits from, without itself. -/
def ancestors (s : Store) (o : ObjectRef) : List ObjectRef := (s.prototypeChain o).tail

/-- A scope and those around it, at most `bound` of them, innermost first. -/
def scopesFrom (s : Store) : (bound : Nat) → ScopeRef → List ScopeRef
  | 0, _ => []
  | bound + 1, e => e :: ((s.scope e).outer.map (s.scopesFrom bound)).getD []

/-- A scope and those around it, innermost first. -/
def scopeChain (s : Store) (e : ScopeRef) : List ScopeRef := s.scopesFrom (s.scopes.size + 1) e

/-- The character of a text that a property name picks (`string_index_descriptor`). -/
def character? (t : Text) (name : String) : Option Property :=
  (Index.ofName? name).bind fun i => (t[i]?).map fun u => .data (.string [u]) false true false

/-- An own property of an object, when `parameter` reads the parameters that its indices may stand for
(`get_own_property`). String objects show their characters under the indices that no property of theirs has. -/
def ownWith (s : Store) (parameter : ScopeRef → String → Value) (o : ObjectRef) (name : String) : Option Property :=
  let obj := s.object o
  match obj.kind, obj.properties.get? name with
  | .string t, none => character? t name
  | .arguments (some m), some p =>
    match m.parameter? name with
    | some aliased => some (p.withValue (parameter m.scope aliased))
    | none => some p
  | _, found => found

/-- The value of a parameter that an index stands for (`binding_value`). Where the scope keeps its bindings in an
object, that object is older than the one that is read, so `bound` never runs out on a store that was built by
allocation. -/
def parameterValue (s : Store) : (bound : Nat) → ScopeRef → String → Value
  | 0, _, _ => .undefined
  | bound + 1, e, name =>
    match (s.scope e).record with
    | .declarative bindings => ((bindings.get? name).map (·.value)).getD .undefined
    | .object o _ =>
      (((s.prototypeChain o).findSome? fun p => s.ownWith (s.parameterValue bound) p name).bind (·.value?)).getD
        .undefined

/-- An own property of an object (`get_own_property`). -/
def getOwn? (s : Store) (o : ObjectRef) (name : String) : Option Property :=
  s.ownWith (s.parameterValue (s.objects.size + 1)) o name

/-- A property of an object or of the nearest one that it inherits from (`get_property`). -/
def getProperty? (s : Store) (o : ObjectRef) (name : String) : Option Property :=
  (s.prototypeChain o).findSome? fun p => s.getOwn? p name

def hasProperty (s : Store) (o : ObjectRef) (name : String) : Bool := (s.getProperty? o name).isSome

/-- The value of a data property, own or inherited (`object_get_key_value`). -/
def dataValue? (s : Store) (o : ObjectRef) (name : String) : Option Value := (s.getProperty? o name).bind (·.value?)

/-- The names of own properties (`own_property_keys`): the characters of a string object, then in the order they were
added. -/
def ownKeys (s : Store) (o : ObjectRef) : List String :=
  let obj := s.object o
  match obj.kind with
  | .string t => (List.range t.length).map Index.name ++ obj.properties.keys
  | _ => obj.properties.keys

/-- An own property is there and enumerated. -/
def isEnumerable (s : Store) (o : ObjectRef) (name : String) : Bool := (s.getOwn? o name).any (·.enumerable)

/-- Whether an assignment to a property can succeed (`object_can_put`). -/
def canPut (s : Store) (o : ObjectRef) (name : String) : Bool :=
  match s.getOwn? o name with
  | some p => if p.isAccessor then p.setter?.isSome else p.writable
  | none =>
    match (s.object o).prototype.bind fun parent => s.getProperty? parent name with
    | none => (s.object o).extensible
    | some p => if p.isAccessor then p.setter?.isSome else (s.object o).extensible && p.writable

def isCallable (s : Store) : Value → Bool
  | .object o => (s.object o).isCallable
  | _ => false

def isConstructor (s : Store) : Value → Bool
  | .object o => (s.object o).isConstructor
  | _ => false

/-- An error object, as opposed to any other value that may be thrown. -/
def isError (s : Store) : Value → Bool
  | .object o => (s.object o).isError
  | _ => false

/-- The result of `typeof`. -/
def typeOf (s : Store) : Value → String
  | .undefined => "undefined"
  | .null => "object"
  | .boolean _ => "boolean"
  | .number _ => "number"
  | .string _ => "string"
  | .object o => if (s.object o).isCallable then "function" else "object"

/-- The tag that names the class of an object. -/
def classTag (s : Store) (o : ObjectRef) : String := "[object " ++ (s.object o).className.text ++ "]"

/-- A value as it stands in messages (`value_to_string`); no code runs. -/
def describe (s : Store) : Value → String
  | .object o => s.classTag o
  | v => v.primitiveText

/-- A scope has a binding for a name (`has_binding`). -/
def hasBinding (s : Store) (e : ScopeRef) (name : String) : Bool :=
  match (s.scope e).record with
  | .declarative bindings => bindings.contains name
  | .object o _ => s.hasProperty o name

/-- What `this` is in a call through a name of this scope (`implicit_this_value`). -/
def implicitThis (s : Store) (e : ScopeRef) : Value :=
  match (s.scope e).record with
  | .object o true => .object o
  | _ => .undefined

/-- The innermost scope around `e`, itself included, that binds a name (`get_identifier_reference`). -/
def resolve? (s : Store) (e : ScopeRef) (name : String) : Option ScopeRef :=
  (s.scopeChain e).find? fun e => s.hasBinding e name

end Store

end Ecma
