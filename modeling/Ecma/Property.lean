import Ecma.Fault

/-!
# Properties and descriptors

A descriptor has two fields for data, two for a pair of accessors and two flags that both kinds share, and any of them may
be absent. It is a request to make or change a property, and it is also what an object stores for one. A stored property
should be complete: all fields of one kind, and none of the other. Nothing enforces that but the functions here.
`Property.redefine` decides what a request does to a property that exists; `Descriptor.complete` is the property that it
makes where there is none.
-/

namespace Ecma

/-- The fields of a property. In a request to define one, what is absent is left as it is or takes its default
(`PropertyDescriptor`). -/
structure Descriptor where
  value : Option Value
  writable : Option Bool
  get : Option Value
  set : Option Value
  enumerable : Option Bool
  configurable : Option Bool
deriving DecidableEq

namespace Descriptor

/-- The request that says nothing. -/
def empty : Descriptor := ⟨none, none, none, none, none, none⟩

/-- The request for a value alone, as an assignment makes it (`with_value`). -/
def ofValue (v : Value) : Descriptor := { empty with value := some v }

/-- Has a field of a pair of accessors (`is_accessor_descriptor`). -/
def isAccessor (d : Descriptor) : Bool := d.get.isSome || d.set.isSome

/-- Has a field of data (`is_data_descriptor`). -/
def isData (d : Descriptor) : Bool := d.value.isSome || d.writable.isSome

/-- Asks for neither kind (`is_generic_descriptor`). -/
def isGeneric (d : Descriptor) : Bool := !d.isAccessor && !d.isData

/-- Asks for both kinds, which `validate` refuses. -/
def isMixed (d : Descriptor) : Bool := d.isAccessor && d.isData

def isEmpty (d : Descriptor) : Bool := d.isGeneric && d.enumerable.isNone && d.configurable.isNone

/-- A requested value is the one there is, or none is requested. -/
def keepsValue (requested current : Option Value) : Bool :=
  match requested, current with
  | none, _ => true
  | some v, some w => v.same w
  | some _, none => false

def keepsFlag (requested current : Option Bool) : Bool := requested.isNone || requested == current

end Descriptor

/-- What an object stores for a property. -/
structure Property where
  descriptor : Descriptor
deriving DecidableEq

namespace Property

/-- Data (`new_data`). -/
@[match_pattern]
def data (value : Value) (writable enumerable configurable : Bool) : Property :=
  ⟨⟨some value, some writable, none, none, some enumerable, some configurable⟩⟩

/-- A pair of accessors, which may be undefined (`new_accessor`). -/
@[match_pattern]
def accessor (get set : Value) (enumerable configurable : Bool) : Property :=
  ⟨⟨none, none, some get, some set, some enumerable, some configurable⟩⟩

/-! Flags and values that are absent are false and undefined. -/

def enumerable (p : Property) : Bool := p.descriptor.enumerable.getD false

def configurable (p : Property) : Bool := p.descriptor.configurable.getD false

def writable (p : Property) : Bool := p.descriptor.writable.getD false

def isData (p : Property) : Bool := p.descriptor.isData

def isAccessor (p : Property) : Bool := p.descriptor.isAccessor

def value? (p : Property) : Option Value := p.descriptor.value

/-- The value that is read (`value_or_undefined`). -/
def content (p : Property) : Value := p.descriptor.value.getD .undefined

/-- The function to call on reading, if there is one (`getter`). -/
def getter? (p : Property) : Option ObjectRef := p.descriptor.get.bind (·.object?)

/-- The function to call on writing, if there is one (`setter`). -/
def setter? (p : Property) : Option ObjectRef := p.descriptor.set.bind (·.object?)

/-- Data as an assignment creates it: writable, enumerable and configurable. -/
def plain (v : Value) : Property := data v true true true

/-- Data as built-in objects hold it: not enumerated. -/
def builtin (v : Value) : Property := data v true false true

/-- Data that nothing can change. -/
def frozen (v : Value) : Property := data v false false false

/-- The property with another value, whatever kind it is. -/
def withValue (p : Property) (v : Value) : Property := ⟨{ p.descriptor with value := some v }⟩

theorem data_inj {v v' : Value} {w w' e e' c c' : Bool} (h : data v w e c = data v' w' e' c') :
    v = v' ∧ w = w' ∧ e = e' ∧ c = c' := by
  cases h
  exact ⟨rfl, rfl, rfl, rfl⟩

section

variable (v g s : Value) (w e c : Bool)

@[simp] theorem isData_data : (data v w e c).isData = true := rfl

@[simp] theorem isData_accessor : (accessor g s e c).isData = false := rfl

@[simp] theorem isAccessor_data : (data v w e c).isAccessor = false := rfl

@[simp] theorem isAccessor_accessor : (accessor g s e c).isAccessor = true := rfl

@[simp] theorem writable_data : (data v w e c).writable = w := rfl

@[simp] theorem writable_accessor : (accessor g s e c).writable = false := rfl

@[simp] theorem enumerable_data : (data v w e c).enumerable = e := rfl

@[simp] theorem enumerable_accessor : (accessor g s e c).enumerable = e := rfl

@[simp] theorem configurable_data : (data v w e c).configurable = c := rfl

@[simp] theorem configurable_accessor : (accessor g s e c).configurable = c := rfl

@[simp] theorem value?_data : (data v w e c).value? = some v := rfl

@[simp] theorem value?_accessor : (accessor g s e c).value? = none := rfl

@[simp] theorem get_accessor : (accessor g s e c).descriptor.get = some g := rfl

@[simp] theorem set_accessor : (accessor g s e c).descriptor.set = some s := rfl

@[simp] theorem content_data : (data v w e c).content = v := rfl

@[simp] theorem getter?_accessor : (accessor g s e c).getter? = g.object? := rfl

@[simp] theorem setter?_data : (data v w e c).setter? = none := rfl

@[simp] theorem setter?_accessor : (accessor g s e c).setter? = s.object? := rfl

@[simp] theorem withValue_data : (data v w e c).withValue g = data g w e c := rfl

end

end Property

namespace Descriptor

/-- Every field that is requested has the value it already has (`is_contained_in`). -/
def holdsOf (d : Descriptor) (p : Property) : Bool :=
  keepsValue d.value p.descriptor.value && keepsValue d.get p.descriptor.get && keepsValue d.set p.descriptor.set &&
    keepsFlag d.writable p.descriptor.writable && keepsFlag d.enumerable p.descriptor.enumerable &&
    keepsFlag d.configurable p.descriptor.configurable

/-- The property a request makes where there is none: what is absent is undefined or false (`into_complete`). -/
def complete (d : Descriptor) : Property :=
  if d.isAccessor then
    .accessor (d.get.getD .undefined) (d.set.getD .undefined) (d.enumerable.getD false) (d.configurable.getD false)
  else
    .data (d.value.getD .undefined) (d.writable.getD false) (d.enumerable.getD false) (d.configurable.getD false)

end Descriptor

/-- What a request does to a property that exists. -/
inductive Redefinition where
  | unchanged
  | changed (p : Property)
  | refused (why : Fault)
deriving DecidableEq

namespace Property

/-- The property with the requested fields in place of its own (`merge_into`). -/
def update (p : Property) (d : Descriptor) : Property where
  descriptor :=
    { value := d.value.or p.descriptor.value
      writable := d.writable.or p.descriptor.writable
      get := d.get.or p.descriptor.get
      set := d.set.or p.descriptor.set
      enumerable := d.enumerable.or p.descriptor.enumerable
      configurable := d.configurable.or p.descriptor.configurable }

/-- The property turned into the kind that is asked for. A change of kind keeps the two common flags and resets the
rest. -/
def convert (p : Property) (d : Descriptor) : Property :=
  if d.isGeneric || p.isData == d.isData then p
  else if p.isData then accessor .undefined .undefined p.enumerable p.configurable
  else data .undefined false p.enumerable p.configurable

/-- Why a property that is not configurable refuses a request, if it does. -/
def refusal? (p : Property) (d : Descriptor) (name : String) : Option Fault :=
  if p.configurable then none
  else if d.configurable = some true then some (.cannotRedefine name)
  else if d.enumerable.any (· ≠ p.enumerable) then some (.cannotRedefine name)
  else if d.isGeneric then none
  else if p.isData ≠ d.isData then some (.cannotRedefine name)
  else if p.isData then
    if p.writable then none
    else if d.writable = some true then some (.cannotRedefine name)
    else if d.value.any (fun requested => !requested.same p.content) then some (.readOnlyValue name)
    else none
  else if d.set.any (fun requested => !requested.same (p.descriptor.set.getD .undefined)) ||
      d.get.any (fun requested => !requested.same (p.descriptor.get.getD .undefined)) then
    some (.cannotRedefine name)
  else none

/-- What a request for one kind of property does to this one. A request that changes nothing is always granted
(`ordinary_define_own_property`). -/
def redefine (p : Property) (d : Descriptor) (name : String) : Redefinition :=
  if d.isEmpty || d.holdsOf p then .unchanged
  else
    match p.refusal? d name with
    | some why => .refused why
    | none => .changed ((p.convert d).update d)

end Property

end Ecma
