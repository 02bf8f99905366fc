import Ecma.Object.Write

/-!
# Bindings

Creating, reading, setting and deleting the bindings of a scope. A declarative record has bindings of its own; the
bindings of any other scope are properties of its object, and all that properties can do happens to them.
-/

namespace Ecma

namespace Binding

/-- A binding that may be set, with no value of its own yet. -/
def mutableOf (deletable : Bool) : Binding := ⟨.undefined, true, deletable, true⟩

/-- A binding that is to be given its only value later. -/
def uninitialized : Binding := ⟨.undefined, false, false, false⟩

end Binding

namespace ScopeRef

/-- Replaces the bindings of a declarative record. -/
def setBindings (e : ScopeRef) (bindings : NameMap Binding) : Action Unit :=
  .modify (·.modifyScope e fun scope => { scope with record := .declarative bindings })

/-- Adds a binding that may be set (`create_mutable_binding`). -/
def createMutable (E : Engine) (e : ScopeRef) (name : String) (deletable : Bool) : Action Unit := do
  match ← .read fun s => (s.scope e).record with
  | .declarative bindings =>
    if bindings.contains name then .fail (.bindingExists name)
    else e.setBindings (bindings.insert name (.mutableOf deletable))
  | .object o _ =>
    let _ ← o.define E name (Property.data .undefined true true deletable).descriptor true

/-- Sets a binding (`set_mutable_binding`). -/
def setMutable (E : Engine) (e : ScopeRef) (name : String) (v : Value) (strict : Bool) : Action Unit := do
  match ← .read fun s => (s.scope e).record with
  | .declarative bindings => e.setDeclarative bindings name v strict
  | .object o _ => o.put E name v strict

/-- The value of a binding (`get_binding_value`). One that has none yet is a fault in strict code and undefined
elsewhere. -/
def getBinding (E : Engine) (e : ScopeRef) (name : String) (strict : Bool) : Action Value := do
  match ← .read fun s => (s.scope e).record with
  | .declarative bindings =>
    match bindings.get? name with
    | none => .fail (.bindingMissing name)
    | some b =>
      if b.initialized then pure b.value
      else if strict then .fail (.notInitialized name)
      else pure .undefined
  | .object o _ =>
    if ← .read (·.hasProperty o name) then o.get E name
    else if strict then .fail (.notDefined name)
    else pure .undefined

/-- Deletes a binding, if it may be (`delete_binding`). A name that is not there counts as deleted. -/
def deleteBinding (e : ScopeRef) (name : String) : Action Bool := do
  match ← .read fun s => (s.scope e).record with
  | .declarative bindings =>
    match bindings.get? name with
    | none => pure true
    | some b =>
      if b.deletable then e.setBindings (bindings.erase name)
      pure b.deletable
  | .object o _ => o.delete name false

/-- Adds a binding that is given its value once (`create_immutable_binding`). -/
def createImmutable (e : ScopeRef) (name : String) : Action Unit := do
  match ← .read fun s => (s.scope e).record with
  | .declarative bindings =>
    if bindings.contains name then .fail (.bindingExists name)
    else e.setBindings (bindings.insert name .uninitialized)
  | .object .. => .fail .declarativeRecordNeeded

/-- Gives an immutable binding its value (`initialize_immutable_binding`). -/
def initializeImmutable (e : ScopeRef) (name : String) (v : Value) : Action Unit := do
  match ← .read fun s => (s.scope e).record with
  | .declarative bindings =>
    match bindings.get? name with
    | some b =>
      if !b.mutable && !b.initialized then
        e.setBindings (bindings.insert name { b with value := v, initialized := true })
      else .fail (.notUninitialized name)
    | none => .fail (.notUninitialized name)
  | .object .. => .fail .declarativeRecordNeeded

end ScopeRef

end Ecma
