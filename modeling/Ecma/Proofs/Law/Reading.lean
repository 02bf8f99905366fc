import Ecma.Machine

/-!
# Reading past the generators

All that is read off a store, the records of generators apart, is the same whatever the generators are. Two runs whose
stores differ only there read the same values.
-/

namespace Ecma

namespace Store

/-- The store with other generators. -/
def withGenerators (s : Store) (gs : Array Generator) : Store := { s with generators := gs }

variable (s : Store) (gs : Array Generator)

@[simp] theorem objects_withGenerators : (s.withGenerators gs).objects = s.objects := rfl

@[simp] theorem scopes_withGenerators : (s.withGenerators gs).scopes = s.scopes := rfl

@[simp] theorem contexts_withGenerators : (s.withGenerators gs).contexts = s.contexts := rfl

@[simp] theorem generators_withGenerators : (s.withGenerators gs).generators = gs := rfl

@[simp] theorem object_withGenerators (o : ObjectRef) : (s.withGenerators gs).object o = s.object o := rfl

@[simp] theorem scope_withGenerators (e : ScopeRef) : (s.withGenerators gs).scope e = s.scope e := rfl

@[simp] theorem context?_withGenerators : (s.withGenerators gs).context? = s.context? := rfl

@[simp] theorem depth_withGenerators : (s.withGenerators gs).depth = s.depth := rfl

@[simp] theorem nextObject_withGenerators : (s.withGenerators gs).nextObject = s.nextObject := rfl

@[simp] theorem lexicalScope_withGenerators : (s.withGenerators gs).lexicalScope = s.lexicalScope := rfl

@[simp] theorem thisBinding_withGenerators : (s.withGenerators gs).thisBinding = s.thisBinding := rfl

@[simp] theorem chainFrom_withGenerators (bound : Nat) : (s.withGenerators gs).chainFrom bound = s.chainFrom bound := by
  induction bound with
  | zero => rfl
  | succ bound ih =>
    funext o
    simp [chainFrom, ih]

@[simp] theorem prototypeChain_withGenerators (o : ObjectRef) :
    (s.withGenerators gs).prototypeChain o = s.prototypeChain o := by
  simp [prototypeChain]

@[simp] theorem ancestors_withGenerators (o : ObjectRef) : (s.withGenerators gs).ancestors o = s.ancestors o := by
  simp [ancestors]

@[simp] theorem scopesFrom_withGenerators (bound : Nat) :
    (s.withGenerators gs).scopesFrom bound = s.scopesFrom bound := by
  induction bound with
  | zero => rfl
  | succ bound ih =>
    funext e
    simp [scopesFrom, ih]

@[simp] theorem scopeChain_withGenerators (e : ScopeRef) : (s.withGenerators gs).scopeChain e = s.scopeChain e := by
  simp [scopeChain]

@[simp] theorem ownWith_withGenerators (parameter : ScopeRef → String → Value) (o : ObjectRef) (name : String) :
    (s.withGenerators gs).ownWith parameter o name = s.ownWith parameter o name := rfl

@[simp] theorem parameterValue_withGenerators (bound : Nat) :
    (s.withGenerators gs).parameterValue bound = s.parameterValue bound := by
  induction bound with
  | zero => rfl
  | succ bound ih =>
    funext e name
    simp [parameterValue, ih]

@[simp] theorem getOwn?_withGenerators (o : ObjectRef) (name : String) :
    (s.withGenerators gs).getOwn? o name = s.getOwn? o name := by
  simp [getOwn?]

@[simp] theorem getProperty?_withGenerators (o : ObjectRef) (name : String) :
    (s.withGenerators gs).getProperty? o name = s.getProperty? o name := by
  simp [getProperty?]

@[simp] theorem hasProperty_withGenerators (o : ObjectRef) (name : String) :
    (s.withGenerators gs).hasProperty o name = s.hasProperty o name := by
  simp [hasProperty]

@[simp] theorem ownKeys_withGenerators (o : ObjectRef) : (s.withGenerators gs).ownKeys o = s.ownKeys o := rfl

@[simp] theorem isEnumerable_withGenerators (o : ObjectRef) (name : String) :
    (s.withGenerators gs).isEnumerable o name = s.isEnumerable o name := by
  simp [isEnumerable]

@[simp] theorem canPut_withGenerators (o : ObjectRef) (name : String) :
    (s.withGenerators gs).canPut o name = s.canPut o name := by
  simp [canPut]

@[simp] theorem isCallable_withGenerators (v : Value) : (s.withGenerators gs).isCallable v = s.isCallable v := rfl

@[simp] theorem isConstructor_withGenerators (v : Value) :
    (s.withGenerators gs).isConstructor v = s.isConstructor v := rfl

@[simp] theorem typeOf_withGenerators (v : Value) : (s.withGenerators gs).typeOf v = s.typeOf v := rfl

@[simp] theorem classTag_withGenerators (o : ObjectRef) : (s.withGenerators gs).classTag o = s.classTag o := rfl

@[simp] theorem describe_withGenerators (v : Value) : (s.withGenerators gs).describe v = s.describe v := rfl

@[simp] theorem hasBinding_withGenerators (e : ScopeRef) (name : String) :
    (s.withGenerators gs).hasBinding e name = s.hasBinding e name := by
  simp [hasBinding]

@[simp] theorem resolve?_withGenerators (e : ScopeRef) (name : String) :
    (s.withGenerators gs).resolve? e name = s.resolve? e name := by
  simp [resolve?]

@[simp] theorem identifier_withGenerators (e : Option ScopeRef) (name : String) (strict : Bool) :
    Reference.identifier (s.withGenerators gs) e name strict = Reference.identifier s e name strict := by
  simp [Reference.identifier]

@[simp] theorem visible_withGenerators (places : List (ObjectRef × String)) (seen : List String) :
    visible (s.withGenerators gs) places seen = visible s places seen := by
  induction places generalizing seen with
  | nil => rfl
  | cons place rest ih => simp [visible, ih]

@[simp] theorem enumerableKeys_withGenerators (o : ObjectRef) :
    (s.withGenerators gs).enumerableKeys o = s.enumerableKeys o := by
  simp [enumerableKeys]

@[simp] theorem isRestricted_withGenerators (o : ObjectRef) (freeze : Bool) :
    (s.withGenerators gs).isRestricted o freeze = s.isRestricted o freeze := by
  simp [isRestricted]

@[simp] theorem receiver?_withGenerators (v : Value) : (s.withGenerators gs).receiver? v = s.receiver? v := rfl

@[simp] theorem arrayLength_withGenerators (o : ObjectRef) :
    o.arrayLength (s.withGenerators gs) = o.arrayLength s := by
  simp [ObjectRef.arrayLength]

@[simp] theorem elementsFrom_withGenerators (o : ObjectRef) (start : Nat) :
    o.elementsFrom (s.withGenerators gs) start = o.elementsFrom s start := by
  simp [ObjectRef.elementsFrom]

@[simp] theorem textProperty_withGenerators (o : ObjectRef) (name : String) :
    (s.withGenerators gs).textProperty o name = s.textProperty o name := by
  simp [textProperty, dataValue?]

@[simp] theorem thisValue_withGenerators (r : Reference) : r.thisValue (s.withGenerators gs) = r.thisValue s := rfl

@[simp] theorem evalCaller_withGenerators (direct : Bool) :
    Program.evalCaller (s.withGenerators gs) direct = Program.evalCaller s direct := rfl

end Store

/-- A reading of the store that no generator has a part in. -/
def Blind {α : Type} (f : Store → α) : Prop := ∀ s gs, f (Store.withGenerators s gs) = f s

end Ecma
