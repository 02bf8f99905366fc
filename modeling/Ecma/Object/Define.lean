import Ecma.Coercion

/-!
# Defining properties

`ObjectRef.define` makes or changes an own property as a descriptor asks. Arrays keep their length beyond their last
element, and `arguments` objects pass values on to the parameters that their indices stand for. A request that is turned
down gives a fault or `false`, as the caller wishes, and the result is the same otherwise.
-/

namespace Ecma

/-- Refuses a request for both kinds of property at once (`validate`). -/
def Descriptor.check (d : Descriptor) : Action Unit := if d.isMixed then .fail .mixedDescriptor else pure ()

namespace ObjectRef

/-- Defines a property of an ordinary object (`ordinary_define_own_property`). -/
def defineOrdinary (o : ObjectRef) (name : String) (d : Descriptor) (throw : Bool) : Action Bool := do
  match ← .read (·.getOwn? o name) with
  | none =>
    if ← .read fun s => (s.object o).extensible then
      .modify (·.modifyObject o (·.withProperty name d.complete))
      pure true
    else .reject throw (.notExtensible name)
  | some p =>
    match p.redefine d name with
    | .unchanged => pure true
    | .refused why => .reject throw why
    | .changed p =>
      .modify (·.modifyObject o (·.withProperty name p))
      pure true

/-- Deletes an own property (`object_delete`). A name that is not there counts as deleted. -/
def delete (o : ObjectRef) (name : String) (throw : Bool) : Action Bool := do
  match ← .read (·.getOwn? o name) with
  | none => pure true
  | some p =>
    if p.configurable then
      .modify (·.modifyObject o (·.without name))
      pure true
    else .reject throw (.cannotDelete name)

/-- The length that an array records, and whether it may be written (`current_length`). -/
def arrayLength (s : Store) (o : ObjectRef) : Nat × Bool :=
  match s.getOwn? o "length" with
  | some p =>
    match p.value? with
    | some (.number x) => (x.toUInt32.toNat, p.writable)
    | _ => (0, p.writable)
  | none => (0, true)

/-- Puts an index in its place in a descending list. -/
def insertDescending (i : Nat) : List Nat → List Nat
  | [] => [i]
  | j :: rest => if j ≤ i then i :: j :: rest else j :: insertDescending i rest

/-- The elements of an array from an index on, the last one first. -/
def elementsFrom (s : Store) (o : ObjectRef) (start : Nat) : List Nat :=
  (((s.ownKeys o).filterMap Index.element?).filter (start ≤ ·)).foldl (fun found i => insertDescending i found) []

/-- Deletes elements in the order given, up to the first that cannot be deleted, which is the result. -/
def deleteElements (o : ObjectRef) : List Nat → Action (Option Nat)
  | [] => pure none
  | i :: rest => do
    if ← o.delete (Index.name i) false then o.deleteElements rest else pure (some i)

/-- Shortens an array (`array_define_own_property`). Elements that cannot be deleted stop it right after them. A request
to make the length read-only is granted last, since the deletions need it writable. -/
def shorten (o : ObjectRef) (length : Nat) (d : Descriptor) (throw : Bool) : Action Bool := do
  let readOnly := d.writable = some false
  let granted : Descriptor := if readOnly then { d with writable := some true } else d
  if ← o.defineOrdinary "length" granted false then
    match ← o.deleteElements (← .read fun s => o.elementsFrom s length) with
    | some i =>
      let stopped : Descriptor := { granted with value := some (.number (Float.ofNat i + 1.0)) }
      let stopped : Descriptor := if readOnly then { stopped with writable := some false } else stopped
      let _ ← o.defineOrdinary "length" stopped false
      .reject throw (.elementNotDeleted i)
    | none =>
      if readOnly then
        let _ ← o.defineOrdinary "length" { Descriptor.empty with writable := some false } false
      pure true
  else .reject throw (.cannotRedefine "length")

/-- Defines the length of an array (`array_define_own_property`). The value is converted twice, and must be the same
number both times. -/
def defineLength (E : Engine) (o : ObjectRef) (d : Descriptor) (throw : Bool) : Action Bool := do
  let (old, writable) ← .read o.arrayLength
  match d.value with
  | none => o.defineOrdinary "length" d throw
  | some v =>
    .sizing o v
    let length ← v.toUint32 E
    if Float.ofNat length != (← v.toNumber E) then .fail .invalidLength
    else
      let d := { d with value := some (.ofNat length) }
      if length ≥ old then o.defineOrdinary "length" d throw
      else if writable then o.shorten length d throw
      else .reject throw .readOnlyLength

/-- Defines an element of an array, which grows when the element lies beyond its length
(`array_define_own_property`). -/
def defineElement (o : ObjectRef) (i : Nat) (name : String) (d : Descriptor) (throw : Bool) : Action Bool := do
  let (length, writable) ← .read o.arrayLength
  if i ≥ length && !writable then .reject throw (.elementBeyondLength i)
  else if ← o.defineOrdinary name d false then
    if i ≥ length then
      let _ ← o.defineOrdinary "length" (.ofValue (.number (Float.ofNat i + 1.0))) false
    pure true
  else .reject throw (.cannotRedefine name)

/-- Defines a property of an array (`array_define_own_property`). -/
def defineInArray (E : Engine) (o : ObjectRef) (name : String) (d : Descriptor) (throw : Bool) : Action Bool :=
  if name = "length" then o.defineLength E d throw
  else
    match Index.element? name with
    | some i => o.defineElement i name d throw
    | none => o.defineOrdinary name d throw

end ObjectRef

namespace ScopeRef

/-- Sets a binding of a declarative record. An immutable one keeps its value, with a fault in strict code. -/
def setDeclarative (e : ScopeRef) (bindings : NameMap Binding) (name : String) (v : Value) (strict : Bool) :
    Action Unit :=
  match bindings.get? name with
  | none => .fail (.bindingMissing name)
  | some b =>
    if b.mutable then
      .modify (·.modifyScope e fun scope =>
        { scope with record := .declarative (bindings.insert name { b with value := v }) })
    else if strict then .fail (.constantBinding name)
    else pure ()

end ScopeRef

namespace ObjectRef

/-- Passes a value on to a parameter. -/
def passOn (E : Engine) (e : ScopeRef) (parameter : String) (v : Value) : Action Unit := do
  match ← .read fun s => (s.scope e).record with
  | .declarative bindings => e.setDeclarative bindings parameter v false
  | .object o _ => E.put o parameter v false

/-- Defines a property of an `arguments` object (`arguments_define_own_property`). An index that stands for a parameter
passes its value on, and stands for it no longer once it is an accessor or read-only. -/
def defineInArguments (E : Engine) (o : ObjectRef) (m : ParameterMap) (name : String) (d : Descriptor)
    (throw : Bool) : Action Bool := do
  if ← o.defineOrdinary name d false then
    match m.parameter? name with
    | none => pure true
    | some parameter =>
      if d.isAccessor then .modify (·.modifyObject o (·.detached name))
      else
        if let some v := d.value then passOn E m.scope parameter v
        if d.writable = some false then .modify (·.modifyObject o (·.detached name))
      pure true
  else .reject throw (.cannotRedefine name)

/-- Defines an own property as a descriptor asks (`object_define_own_property`). -/
def define (E : Engine) (o : ObjectRef) (name : String) (d : Descriptor) (throw : Bool) : Action Bool := do
  d.check
  match ← .read fun s => (s.object o).kind with
  | .array => o.defineInArray E name d throw
  | .arguments (some m) => o.defineInArguments E m name d throw
  | _ => o.defineOrdinary name d throw

end ObjectRef

end Ecma
