import Ecma.Object

/-!
# The store

Everything that outlives a single step: objects, scopes, generators and the stack of execution contexts. Places are
never reused, so what once existed can always be found again.
-/

namespace Ecma

/-- A binding of a declarative scope. One that is not initialized has no value yet. -/
structure Binding where
  value : Value
  mutable : Bool
  deletable : Bool
  initialized : Bool
deriving DecidableEq

/-- Where a scope keeps its bindings: in a record of its own, or as the properties of an object. -/
inductive ScopeRecord where
  | declarative (bindings : NameMap Binding)
  | object (object : ObjectRef) (provideThis : Bool)

/-- A scope and the one around it. -/
structure Scope where
  record : ScopeRecord
  outer : Option ScopeRef

instance : Inhabited Scope := ⟨⟨.declarative .empty, none⟩⟩

/-- What code runs in: where names are looked up, where declarations go, `this`, and the mode. -/
structure Context where
  lexical : ScopeRef
  vars : ScopeRef
  thisValue : Value
  strict : Bool
  functionName : Option String
deriving DecidableEq

inductive GeneratorStatus where
  | suspendedStart | suspendedYield | running | completed
deriving DecidableEq, Repr

/-- What a suspended generator has yet to do. -/
inductive GeneratorStep where
  | run (s : Stmt)
  /-- The end of a loop body that was laid out in the queue: tests the loop again, and is where `break` and `continue`
  lead. -/
  | boundary (s : Stmt)

structure Generator where
  status : GeneratorStatus
  context : Context
  steps : List GeneratorStep

structure Store where
  objects : Array Object
  scopes : Array Scope
  generators : Array Generator
  /-- The running context first. -/
  contexts : List Context

/-- What the host decides about a runtime. -/
structure Config where
  /-- Global code is strict even without saying so. -/
  strictGlobal : Bool
  /-- How many contexts may be entered at once. -/
  maxCallDepth : Nat
deriving DecidableEq

namespace Config

def standard : Config := ⟨false, 512⟩

end Config

/-- The scope of global code. -/
def ScopeRef.global : ScopeRef := ⟨0⟩

namespace Store

/-- The object at a place. -/
def object (s : Store) (o : ObjectRef) : Object := s.objects[o.index]?.getD default

/-- The scope at a place. -/
def scope (s : Store) (e : ScopeRef) : Scope := s.scopes[e.index]?.getD default

/-- The generator at a place. -/
def generator? (s : Store) (g : GeneratorRef) : Option Generator := s.generators[g.index]?

/-- The place the next object will have. -/
def nextObject (s : Store) : ObjectRef := ⟨s.objects.size⟩

def addObject (s : Store) (obj : Object) : Store := { s with objects := s.objects.push obj }

def modifyObject (s : Store) (o : ObjectRef) (f : Object → Object) : Store :=
  { s with objects := s.objects.modify o.index f }

def addScope (s : Store) (scope : Scope) : Store := { s with scopes := s.scopes.push scope }

def modifyScope (s : Store) (e : ScopeRef) (f : Scope → Scope) : Store :=
  { s with scopes := s.scopes.modify e.index f }

def addGenerator (s : Store) (g : Generator) : Store := { s with generators := s.generators.push g }

def modifyGenerator (s : Store) (g : GeneratorRef) (f : Generator → Generator) : Store :=
  { s with generators := s.generators.modify g.index f }

def context? (s : Store) : Option Context := s.contexts.head?

def depth (s : Store) : Nat := s.contexts.length

def pushContext (s : Store) (ctx : Context) : Store := { s with contexts := ctx :: s.contexts }

def popContext (s : Store) : Store := { s with contexts := s.contexts.tail }

/-- Names are looked up in another scope from now on. -/
def setLexical (s : Store) (e : ScopeRef) : Store :=
  match s.contexts with
  | [] => s
  | ctx :: rest => { s with contexts := { ctx with lexical := e } :: rest }

/-- Outside of all code, names are global (`lexical_environment`). -/
def lexicalScope (s : Store) : ScopeRef := (s.context?.map (·.lexical)).getD .global

def variableScope (s : Store) : ScopeRef := (s.context?.map (·.vars)).getD .global

/-- Outside of all code, `this` is the global object (`this_binding`). -/
def thisBinding (s : Store) : Value := (s.context?.map (·.thisValue)).getD (.object Intrinsic.global.ref)

@[simp] theorem object_addObject_next (s : Store) (obj : Object) : (s.addObject obj).object s.nextObject = obj := by
  simp [object, addObject, nextObject]

theorem object_addObject_old (s : Store) (obj : Object) {o : ObjectRef} (h : o.index < s.objects.size) :
    (s.addObject obj).object o = s.object o := by
  simp [object, addObject, Array.getElem?_push, Nat.ne_of_lt h]

theorem object_modifyObject (s : Store) (f : Object → Object) {o : ObjectRef} (h : o.index < s.objects.size) :
    (s.modifyObject o f).object o = f (s.object o) := by
  rw [object, modifyObject, Array.getElem?_modify, if_pos rfl]
  simp [object, h]

theorem object_modifyObject_of_ne (s : Store) (f : Object → Object) {o other : ObjectRef} (h : other ≠ o) :
    (s.modifyObject o f).object other = s.object other := by
  have apart : o.index ≠ other.index := fun e => h (by cases o; cases other; simpa using e.symm)
  simp [object, modifyObject, Array.getElem?_modify, apart]

end Store

end Ecma
