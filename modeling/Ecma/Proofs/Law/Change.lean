import Ecma.Proofs.Law.Reading
import Ecma.Proofs.Targets

/-!
# What a run can do to a store

Every change that evaluation makes, listed once with the conditions it is made under. What those conditions demand of
values, scopes and generators is left open: `Terms` names it, and each law says what it means by the terms. Whatever
holds of a fresh store and is kept by every `Change` holds along every run.
-/

namespace Ecma

/-- What code may use, seen from a world. -/
structure Terms where
  World : Type
  /-- The store of a world. -/
  left : World → Store
  value : World → Value → Prop
  /-- Code that is strict, or is not, may look names up in a scope. -/
  scope : World → ScopeRef → Bool → Prop
  /-- A name that was found in a scope, and is still there. -/
  bound : World → ScopeRef → String → Prop
  /-- A binding that an index of an `arguments` object may stand for. -/
  parameter : World → ScopeRef → String → Prop
  /-- A scope that keeps its bindings in a record of its own. -/
  declarative : World → ScopeRef → Prop
  /-- A scope lies in another, or is that scope. -/
  within : World → ScopeRef → ScopeRef → Prop
  /-- A property name of an object that is defined like that of any other: it stands for no parameter, and is not one of
  an array that a law watches. -/
  unaliased : World → ObjectRef → String → Prop
  /-- Names may be declared in a scope, deletable or not. -/
  declares : World → ScopeRef → Bool → Prop
  /-- A generator whose record may be changed. -/
  drives : GeneratorRef → Prop
  /-- A generator all of whose jumps lead somewhere. -/
  watches : World → GeneratorRef → Prop
  /-- A fault that may be raised. -/
  permits : Fault → Prop

namespace Terms

variable (V : Terms) (w : V.World)

def object (o : ObjectRef) : Prop := V.value w (.object o)

def values (vs : List Value) : Prop := ∀ v ∈ vs, V.value w v

def option (v : Option Value) : Prop := ∀ u, v = some u → V.value w u

/-- The values that a request mentions. -/
def descriptor (d : Descriptor) : Prop := V.option w d.value ∧ V.option w d.get ∧ V.option w d.set

/-- The values that a property holds. -/
def property (p : Property) : Prop := V.descriptor w p.descriptor

/-- Code has its variables in a scope that names are looked up from, with those around it: the global one, or one of its
own. -/
def context (ctx : Context) : Prop :=
  V.scope w ctx.lexical ctx.strict ∧ V.scope w ctx.vars ctx.strict ∧ V.value w ctx.thisValue ∧
    V.within w ctx.lexical ctx.vars ∧ (ctx.vars = .global ∨ V.declarative w ctx.vars)

/-- All that the steps of a generator declare is bound in a scope. -/
def hoisted (e : ScopeRef) (steps : List GeneratorStep) : Prop :=
  ∀ step ∈ steps, ∀ name ∈ step.stmt.varNames, V.bound w e name

/-- The context of a generator, and what is bound there for its steps. -/
def generator (gen : Generator) : Prop := V.context w gen.context ∧ V.hoisted w gen.context.vars gen.steps

/-- The value that a completion carries. -/
def completion : Completion → Prop
  | .normal v => V.option w v
  | .returns v => V.value w v
  | .breaks _ | .continues _ => True

/-- Nothing is asked of scopes, so whatever goes wrong with them is allowed. -/
def free : Prop := (∀ f, V.permits f) ∧ ∀ w e name, V.bound w e name ∧ V.parameter w e name ∧ V.declarative w e

/-- Strictness that is that of the running code. -/
def mode (strict : Bool) : Prop := ∀ ctx, (V.left w).context? = some ctx → strict = ctx.strict

/-- What a reference leads to. -/
def reference (r : Reference) : Prop :=
  match r.base with
  | .unresolvable => V.mode w r.strict
  | .scope e => V.scope w e r.strict ∧ V.bound w e r.name ∧ V.mode w r.strict
  | .value v => V.value w v

end Terms

/-- The objects that evaluation makes. -/
inductive Makes (V : Terms) (w : V.World) : Object → Prop where
  | ordinary {parent : Option ObjectRef} (known : ∀ p, parent = some p → V.object w p) : Makes V w (.ordinary parent [])
  | array {values : List Value} (known : V.values w values) : Makes V w (.array values)
  | string (t : Text) : Makes V w (.string t)
  | boolean (b : Bool) : Makes V w (.boolean b)
  | number (x : Float) : Makes V w (.number x)
  | error {prototype : ObjectRef} (message : Option Text) (known : V.object w prototype) :
    Makes V w (.error prototype message)
  | iteratorResult {v : Value} (done : Bool) (known : V.value w v) : Makes V w (.iteratorResult v done)
  | description {p : Property} (known : V.property w p) : Makes V w (.description p)
  | generator {prototype : ObjectRef} (g : GeneratorRef) (known : V.object w prototype) :
    Makes V w (.generator prototype g)
  | arguments {callee : ObjectRef} {params : List String} {args : List Value} {e : ScopeRef} {strict : Bool}
      (callee_known : V.object w callee) (args_known : V.values w args)
      (aliases : ∀ name ∈ params, V.parameter w e name) :
    Makes V w (.arguments callee params args e strict)

/-- The scopes that evaluation makes for code that is strict, or is not. -/
inductive Encloses (V : Terms) (w : V.World) (strict : Bool) : Scope → Prop where
  | declarative {e : ScopeRef} (outer : V.scope w e strict) : Encloses V w strict ⟨.declarative .empty, some e⟩
  | object {e : ScopeRef} {o : ObjectRef} (provideThis : Bool) (known : V.object w o) (outer : V.scope w e strict) :
    Encloses V w strict ⟨.object o provideThis, some e⟩

namespace Store

/-- Replaces the bindings of a scope. -/
def withBindings (e : ScopeRef) (bindings : NameMap Binding) (s : Store) : Store :=
  s.modifyScope e fun scope => { scope with record := .declarative bindings }

/-- What defining an index that stands for a parameter does: the property changes, the value is passed on, and an
accessor or read-only property stands for the parameter no longer. -/
def defineAliased (o : ObjectRef) (name : String) (d : Descriptor) (change : Option Property) (e : ScopeRef)
    (bindings : NameMap Binding) (parameter : String) (b : Binding) (s : Store) : Store :=
  let s := (change.map fun q => s.modifyObject o (·.withProperty name q)).getD s
  if d.isAccessor then s.modifyObject o (·.detached name)
  else
    let s := (d.value.map fun v => withBindings e (bindings.insert parameter { b with value := v }) s).getD s
    if d.writable = some false then s.modifyObject o (·.detached name) else s

end Store

/-- What a request that is granted does to a property: nothing, or it puts another one in its place. -/
def Property.Grants (p : Property) (d : Descriptor) (name : String) (change : Option Property) : Prop :=
  p.redefine d name = (change.map Redefinition.changed).getD .unchanged

/-- A value that an array is given as its length: a natural number, which may come of counting one further than an
index. -/
inductive Value.IsCount : Value → Prop where
  | counted (n : Nat) : IsCount (.ofNat n)
  | beyond {i : Nat} (small : i < 4294967295) : IsCount (.number (Float.ofNat i + 1.0))

/-- A request on a property after which the length of an array is still a length. -/
def Store.KeepsLength (s : Store) (o : ObjectRef) (name : String) (d : Descriptor) : Prop :=
  (s.object o).kind = .array → name = "length" → ∀ v, d.value = some v → v.IsCount

theorem Store.KeepsLength.of_kind {s : Store} {o : ObjectRef} {name : String} {d : Descriptor}
    (plain : (s.object o).kind ≠ .array) : s.KeepsLength o name d := fun array => absurd array plain

/-- The changes that a run makes, each under the conditions it is made under. -/
inductive Change (V : Terms) (w : V.World) : (Store → Store) → Prop where
  | addObject {obj : Object} (made : Makes V w obj) : Change V w (·.addObject obj)
  | addFunction {code : FunctionCode} {e : ScopeRef} {strict : Bool} (known : V.scope w e strict) :
    Change V w (·.addFunction code e strict)
  | addProperty {o : ObjectRef} {name : String} {d : Descriptor} (absent : (V.left w).getOwn? o name = none)
      (extensible : ((V.left w).object o).extensible = true) (known : V.descriptor w d) (unmixed : d.isMixed = false)
      (unaliased : V.unaliased w o name) :
    Change V w (·.modifyObject o (·.withProperty name d.complete))
  | changeProperty {o : ObjectRef} {name : String} {d : Descriptor} {p q : Property}
      (present : (V.left w).getOwn? o name = some p) (granted : p.redefine d name = .changed q)
      (known : V.descriptor w d) (unmixed : d.isMixed = false) (unaliased : V.unaliased w o name)
      (length : (V.left w).KeepsLength o name d) :
    Change V w (·.modifyObject o (·.withProperty name q))
  | changeAliased {o : ObjectRef} {m : ParameterMap} {name parameter : String} {d : Descriptor} {p : Property}
      {change : Option Property} {bindings : NameMap Binding} {b : Binding}
      (kind : ((V.left w).object o).kind = .arguments (some m)) (aliased : m.parameter? name = some parameter)
      (present : (V.left w).getOwn? o name = some p) (granted : p.Grants d name change) (known : V.descriptor w d)
      (unmixed : d.isMixed = false) (record : ((V.left w).scope m.scope).record = .declarative bindings)
      (found : bindings.get? parameter = some b) (mutable : b.mutable = true) :
    Change V w (Store.defineAliased o name d change m.scope bindings parameter b)
  | deleteProperty {o : ObjectRef} {name : String} {p : Property} (present : (V.left w).getOwn? o name = some p)
      (configurable : p.configurable = true) :
    Change V w (·.modifyObject o (·.without name))
  | close (o : ObjectRef) : Change V w (·.modifyObject o Object.closed)
  | addScope {scope : Scope} {strict : Bool} (made : Encloses V w strict scope) : Change V w (·.addScope scope)
  | declare {e : ScopeRef} {bindings : NameMap Binding} {name : String} {deletable : Bool}
      (record : ((V.left w).scope e).record = .declarative bindings) (absent : bindings.contains name = false)
      (allowed : V.declares w e deletable) :
    Change V w (Store.withBindings e (bindings.insert name (.mutableOf deletable)))
  | declareImmutable {e : ScopeRef} {bindings : NameMap Binding} {name : String}
      (record : ((V.left w).scope e).record = .declarative bindings) (absent : bindings.contains name = false) :
    Change V w (Store.withBindings e (bindings.insert name .uninitialized))
  | assign {e : ScopeRef} {bindings : NameMap Binding} {name : String} {b : Binding} {v : Value}
      (record : ((V.left w).scope e).record = .declarative bindings) (found : bindings.get? name = some b)
      (mutable : b.mutable = true) (known : V.value w v) :
    Change V w (Store.withBindings e (bindings.insert name { b with value := v }))
  | settle {e : ScopeRef} {bindings : NameMap Binding} {name : String} {b : Binding} {v : Value}
      (record : ((V.left w).scope e).record = .declarative bindings) (found : bindings.get? name = some b)
      (immutable : b.mutable = false) (pending : b.initialized = false) (known : V.value w v) :
    Change V w (Store.withBindings e (bindings.insert name { b with value := v, initialized := true }))
  | undeclare {e : ScopeRef} {bindings : NameMap Binding} {name : String} {b : Binding}
      (record : ((V.left w).scope e).record = .declarative bindings) (found : bindings.get? name = some b)
      (deletable : b.deletable = true) (sloppy : V.scope w e false) :
    Change V w (Store.withBindings e (bindings.erase name))
  | addGenerator {gen : Generator} (known : V.generator w gen) : Change V w (·.addGenerator gen)
  | steer {g : GeneratorRef} {f : Generator → Generator} (drives : V.drives g)
      (known : ∀ gen, (V.left w).generator? g = some gen → V.generator w (f gen))
      (started : ∀ gen, (V.left w).generator? g = some gen → (f gen).status ≠ .suspendedStart)
      (aimed : V.watches w g → ∀ gen, (V.left w).generator? g = some gen → GeneratorStep.aimed (f gen).steps = true) :
    Change V w (·.modifyGenerator g f)
  | enter {ctx : Context} (known : V.context w ctx) : Change V w (·.pushContext ctx)
  | leave : Change V w Store.popContext
  | shift {e : ScopeRef}
      (known : ∀ ctx, (V.left w).context? = some ctx → V.scope w e ctx.strict ∧ V.within w e ctx.vars) :
    Change V w (·.setLexical e)

end Ecma
