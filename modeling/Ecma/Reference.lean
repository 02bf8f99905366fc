import Ecma.Scope.Binding

/-!
# References

What the left side of an assignment evaluates to: a name in a scope, a name that no scope binds, or a property of a
value. A reference remembers whether the code it stands in is strict.
-/

namespace Ecma

inductive ReferenceBase where
  | unresolvable
  | scope (e : ScopeRef)
  | value (v : Value)
deriving DecidableEq

structure Reference where
  base : ReferenceBase
  name : String
  strict : Bool
deriving DecidableEq

namespace Reference

/-- A property of a value. -/
def property (v : Value) (name : String) (strict : Bool) : Reference := ⟨.value v, name, strict⟩

/-- A name, looked up from a scope outward (`get_identifier_reference`). -/
def identifier (s : Store) (e : Option ScopeRef) (name : String) (strict : Bool) : Reference :=
  match e.bind fun e => s.resolve? e name with
  | some e => ⟨.scope e, name, strict⟩
  | none => ⟨.unresolvable, name, strict⟩

def isUnresolvable (r : Reference) : Bool :=
  match r.base with
  | .unresolvable => true
  | _ => false

def isProperty (r : Reference) : Bool :=
  match r.base with
  | .value _ => true
  | _ => false

def hasPrimitiveBase (r : Reference) : Bool :=
  match r.base with
  | .value v => v.isPrimitive
  | _ => false

/-- Strict code may not assign to the names `eval` and `arguments` (`check_strict_target`). -/
def checkTarget (r : Reference) : Action Unit :=
  if r.strict && !r.isProperty && (r.name == "eval" || r.name == "arguments") then .fail (.strictTarget r.name)
  else pure ()

/-- The value that a reference stands for (`get_value`). A getter found from a primitive sees the primitive itself. -/
def getValue (E : Engine) (r : Reference) : Action Value :=
  match r.base with
  | .unresolvable => .fail (.notDefined r.name)
  | .scope e => e.getBinding E r.name r.strict
  | .value v => do (← v.toObject).getFor E r.name v

/-- The answer to an assignment that a primitive cannot keep. -/
def discarded (name : String) (strict : Bool) : Action Unit :=
  if strict then .fail (.propertyOfPrimitive name) else pure ()

/-- Assigns to a property of a primitive (`put_on_primitive`): only a setter can take the value. -/
def putOnPrimitive (E : Engine) (v : Value) (name : String) (w : Value) (strict : Bool) : Action Unit := do
  let wrapper ← v.toObject
  if ← .read (·.canPut wrapper name) then
    if (← .read (·.getOwn? wrapper name)).any (·.isData) then discarded name strict
    else
      match (← .read (·.getProperty? wrapper name)).bind (·.setter?) with
      | some setter =>
        let _ ← E.call (.object setter) v [w]
      | none => discarded name strict
  else discarded name strict

/-- Assigns to what a reference stands for, in the head of a `for`-`in` loop or elsewhere. Outside of strict code, a
name that nothing binds becomes global. -/
def assign (E : Engine) (r : Reference) (head : Bool) (w : Value) : Action Unit :=
  match r.base with
  | .unresolvable => do
    .note (.assigns r.name head)
    if r.strict then .fail (.notDefined r.name) else Intrinsic.global.ref.put E r.name w false
  | .scope e => do
    .note (.assigns r.name head)
    e.setMutable E r.name w r.strict
  | .value (.object o) => o.put E r.name w r.strict
  | .value v => putOnPrimitive E v r.name w r.strict

/-- Assigns as an operator or a declarator does (`put_value`). -/
def putValue (E : Engine) (r : Reference) (w : Value) : Action Unit := r.assign E false w

/-- The operator `delete` (`delete_reference`). -/
def delete (r : Reference) : Action Bool :=
  match r.base with
  | .unresolvable => if r.strict then .fail (.strictDelete r.name) else pure true
  | .scope e => if r.strict then .fail (.strictDelete r.name) else e.deleteBinding r.name
  | .value v => do (← v.toObject).delete r.name r.strict

/-- What `this` is in a call of the function that a reference stands for. -/
def thisValue (s : Store) (r : Reference) : Value :=
  match r.base with
  | .value v => v
  | .scope e => s.implicitThis e
  | .unresolvable => .undefined

end Reference

end Ecma
