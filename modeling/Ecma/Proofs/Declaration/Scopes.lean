import Ecma.Proofs.Bindings
import Ecma.Proofs.Declaration.Names

/-!
# Scopes that take declarations

Functions are declared in the scope that has the variables of the code. In every run this is a scope with bindings of
its own, of which those that can be set have a value, or the global scope, which is that of the global object, an
ordinary object. So code that runs has a place to declare functions in: `Machine.takesDeclarations`.
-/

namespace Ecma

namespace Store

variable {s t u : Store} {e : ScopeRef} {key name : String} {v : Value} {names names' : List String}

/-- A scope in which functions can be declared. It has bindings of its own, which have a value if they can be set, or
is the scope of an object with no rules of its own. The global scope is that of the global object. -/
inductive TakesDeclarations (s : Store) (e : ScopeRef) : Prop where
  | declarative {bindings : NameMap Binding} (inside : e.index < s.scopes.size) (own : e ≠ .global)
      (record : (s.scope e).record = .declarative bindings)
      (initialized : ∀ name b, bindings.get? name = some b → b.mutable = true → b.initialized = true)
  | object {o : ObjectRef} {provideThis : Bool} (record : (s.scope e).record = .object o provideThis)
      (plain : s.Plain o)
      (global : e = .global → o = Intrinsic.global.ref)

/-- A name of a scope has a value, and can be set. -/
inductive BoundTo (s : Store) (e : ScopeRef) (name : String) (v : Value) : Prop where
  | binding {bindings : NameMap Binding} {b : Binding} (record : (s.scope e).record = .declarative bindings)
      (found : bindings.get? name = some b) (value : b.value = v) (settable : b.mutable = true)
      (initialized : b.initialized = true)
  | property {o : ObjectRef} {provideThis en c : Bool} (record : (s.scope e).record = .object o provideThis)
      (own : s.getOwn? o name = some (.data v true en c))

/-- Code finds the data that the object of a scope has, and none runs to find it. -/
theorem getBinding_of_own {o : ObjectRef} {provideThis w en d : Bool}
    (record : (s.scope e).record = .object o provideThis)
    (own : s.getOwn? o name = some (.data v w en d)) (E : Engine) (c : Config) (strict : Bool) :
    (e.getBinding E name strict).Does c s v s := by
  refine .read_bind ?_
  rw [record]
  refine .read_bind ?_
  rw [hasProperty, getProperty?_of_own own, Option.isSome_some, if_pos rfl]
  exact ObjectRef.get_of_getOwn? own

/-- The value that a name has is the one that code finds. -/
theorem BoundTo.getBinding (h : s.BoundTo e name v) (E : Engine) (c : Config) (strict : Bool) :
    (e.getBinding E name strict).Does c s v s := by
  cases h with
  | binding record found value _ initialized =>
    refine .read_bind ?_
    rw [record]
    dsimp only
    rw [found]
    dsimp only
    rw [initialized, if_pos rfl, value]
    exact .pure
  | property record own => exact getBinding_of_own record own E c strict

/-- Nothing obstructs a name that can be set. -/
theorem BoundTo.not_obstructs {ctx : Context} (h : s.BoundTo ctx.vars name v) (kind : CodeKind) (r : Option ObjectRef) :
    ¬s.Obstructs kind ctx name r := by
  intro obstructs
  cases h with
  | binding record found _ settable =>
    cases obstructs with
    | constant record' found' fixed =>
      cases record.symm.trans record'
      cases found.symm.trans found'
      cases settable.symm.trans fixed
    | unwritable record' => cases record.symm.trans record'
    | setter record' => cases record.symm.trans record'
  | property record own =>
    cases obstructs with
    | constant record' => cases record.symm.trans record'
    | unwritable record' _ _ no =>
      cases record.symm.trans record'
      rw [canPut, own] at no
      cases no
    | setter record' found _ _ setter =>
      cases record.symm.trans record'
      cases (getProperty?_of_own own).symm.trans found
      cases setter

/-- A scope has a name as it did. -/
inductive SameBinding (s t : Store) (e : ScopeRef) (key : String) : Prop where
  | declarative {bindings bindings' : NameMap Binding} (before : (s.scope e).record = .declarative bindings)
      (after : (t.scope e).record = .declarative bindings') (same : bindings'.get? key = bindings.get? key)
  | object {o : ObjectRef} {provideThis : Bool} (before : (s.scope e).record = .object o provideThis)
      (after : (t.scope e).record = .object o provideThis) (same : s.SameName t o key)

namespace SameBinding

theorem boundTo (h : s.SameBinding t e key) (bound : s.BoundTo e key v) : t.BoundTo e key v := by
  cases h with
  | declarative before after same =>
    cases bound with
    | binding record found value settable initialized =>
      cases before.symm.trans record
      exact .binding after (same.trans found) value settable initialized
    | property record => cases before.symm.trans record
  | object before after same =>
    cases bound with
    | binding record => cases before.symm.trans record
    | property record own =>
      cases before.symm.trans record
      exact .property after (same.own.trans own)

theorem obstructs {kind : CodeKind} {ctx : Context} {r : Option ObjectRef} (h : s.SameBinding t ctx.vars key)
    (obstructs : t.Obstructs kind ctx key r) : s.Obstructs kind ctx key r := by
  cases h with
  | declarative before after same =>
    cases obstructs with
    | constant record found fixed lenient =>
      cases after.symm.trans record
      exact .constant before (same.symm.trans found) fixed lenient
    | unwritable record => cases after.symm.trans record
    | setter record => cases after.symm.trans record
  | object before after same =>
    cases obstructs with
    | constant record => cases after.symm.trans record
    | unwritable record found assigned no lenient =>
      cases after.symm.trans record
      exact .unwritable before (same.found.symm.trans found) assigned (same.writable.symm.trans no) lenient
    | setter record found assigned can setter =>
      cases after.symm.trans record
      exact .setter before (same.found.symm.trans found) assigned (same.writable.symm.trans can) setter

theorem symm (h : s.SameBinding t e key) : t.SameBinding s e key := by
  cases h with
  | declarative before after same => exact .declarative after before same.symm
  | object before after same => exact .object after before ⟨same.own.symm, same.found.symm, same.writable.symm⟩

theorem trans (first : s.SameBinding t e key) (second : t.SameBinding u e key) : s.SameBinding u e key := by
  cases first with
  | declarative before after same =>
    cases second with
    | declarative before' after' same' =>
      cases after.symm.trans before'
      exact .declarative before after' (same'.trans same)
    | object before' => cases after.symm.trans before'
  | object before after same =>
    cases second with
    | declarative before' => cases after.symm.trans before'
    | object before' after' same' =>
      cases after.symm.trans before'
      exact .object before after'
        ⟨same'.own.trans same.own, same'.found.trans same.found, same'.writable.trans same.writable⟩

end SameBinding

/-- Names of a scope are set. Other names are as they were, and so are all objects but the one that may keep the
bindings. -/
structure SetsNames (s t : Store) (e : ScopeRef) (names : List String) : Prop where
  orderly : t.Orderly
  takes : t.TakesDeclarations e
  same : ∀ key, key ∉ names → s.SameBinding t e key
  keeper : (t.scope e).record.object? = (s.scope e).record.object?
  objects : ∀ x : ObjectRef, x.index < s.objects.size → (s.scope e).record.object? ≠ some x → t.object x = s.object x
  size : s.objects.size ≤ t.objects.size

namespace SetsNames

theorem refl (orderly : s.Orderly) (takes : s.TakesDeclarations e) : s.SetsNames s e [] where
  orderly := orderly
  takes := takes
  same key _ := by
    cases takes with
    | declarative _ _ record => exact .declarative record record rfl
    | object record => exact .object record record ⟨rfl, rfl, rfl⟩
  keeper := rfl
  objects _ _ _ := rfl
  size := Nat.le_refl _

theorem trans (first : s.SetsNames t e names) (second : t.SetsNames u e names') :
    s.SetsNames u e (names ++ names') where
  orderly := second.orderly
  takes := second.takes
  same key absent :=
    have absent := not_or.1 (mt List.mem_append.2 absent)
    (first.same key absent.1).trans (second.same key absent.2)
  keeper := second.keeper.trans first.keeper
  objects x inside other :=
    have later := second.objects x (Nat.lt_of_lt_of_le inside first.size) (first.keeper ▸ other)
    later.trans (first.objects x inside other)
  size := Nat.le_trans first.size second.size

theorem mono (h : s.SetsNames t e names) (all : ∀ key ∈ names, key ∈ names') : s.SetsNames t e names' :=
  { h with same := fun key absent => h.same key (mt (all key) absent) }

/-- Functions that were made after the scope stay what they are. -/
theorem isClosure (h : s.SetsNames t e names) {f : ObjectRef} {code : FunctionCode} {e' : ScopeRef} {strict : Bool}
    (closure : s.IsClosure f code e' strict) (younger : ∀ o, (s.scope e).record.object? = some o → o.index < f.index) :
    t.IsClosure f code e' strict := by
  have apart (x : ObjectRef) (after : f.index ≤ x.index) : (s.scope e).record.object? ≠ some x := by
    intro same
    have := younger x same
    omega
  have inside := closure.inside
  refine ⟨Nat.lt_of_lt_of_le inside h.size, ?_, ?_⟩
  · rw [h.objects f (Nat.lt_of_succ_lt inside) (apart f (Nat.le_refl _))]
    exact closure.function
  · rw [h.objects _ inside (apart _ (Nat.le_succ _))]
    exact closure.prototype

end SetsNames

theorem TakesDeclarations.keeper_inside (h : s.TakesDeclarations e) (o : ObjectRef)
    (keeper : (s.scope e).record.object? = some o) : o.index < s.objects.size := by
  cases h with
  | declarative _ _ record =>
    rw [record] at keeper
    cases keeper
  | object record plain =>
    rw [record] at keeper
    cases keeper
    exact plain.inside

/-- A function that is made and not bound to anything yet. -/
theorem TakesDeclarations.addFunction (takes : s.TakesDeclarations e) (orderly : s.Orderly) (code : FunctionCode)
    (strict : Bool) :
    s.SetsNames (s.addFunction code e strict) e [] where
  orderly := orderly.addFunction code e strict
  takes := by
    cases takes with
    | declarative inside own record initialized => exact .declarative inside own record initialized
    | object record plain global => exact .object record (plain.addFunction code e strict) global
  same key _ := by
    cases takes with
    | declarative _ _ record => exact .declarative record record rfl
    | object record plain => exact .object record record (orderly.sameName_addFunction plain.inside code e strict key)
  keeper := rfl
  objects x inside _ := by rw [object_addFunction, if_neg (by omega), if_neg (by omega)]
  size := by simp only [Store.addFunction, Store.addObject, Array.size_push]; omega

end Store

/-! ## Scopes of running code -/

/-- What is true of scopes in every run. -/
structure Store.Settled (s : Store) : Prop where
  initialized : ∀ e name b, s.binding? e name = some b → b.mutable = true → b.initialized = true
  global : ∃ provideThis, (s.scope .global).record = .object Intrinsic.global.ref provideThis
  ordinary : (s.object Intrinsic.global.ref).kind = .ordinary

theorem Store.Rebinds.initialized {s t : Store} (h : s.Rebinds t)
    (before : ∀ e name b, s.binding? e name = some b → b.mutable = true → b.initialized = true) (e : ScopeRef)
    (name : String) (b : Binding) (found : t.binding? e name = some b) (settable : b.mutable = true) :
    b.initialized = true := by
  have step := h e name
  rw [found] at step
  generalize old : s.binding? e name = b' at step
  cases step with
  | same => exact before e name b old settable
  | created _ valued => exact valued settable
  | advanced advances => exact advances.initialized (before e name _ old (advances.mutable ▸ settable))

namespace World

variable {w u : World} {F : Store → Store}

theorem Step.settled (step : w.Step F u) (before : w.store.Settled) : u.store.Settled where
  initialized := step.store ▸ step.made.rebinds.initialized before.initialized
  global := by
    obtain ⟨provideThis, record⟩ := before.global
    have grows := step.grows.records .global w.ok.global.1
    rw [record] at grows
    generalize (u.store.scope .global).record = after at grows ⊢
    cases grows
    exact ⟨provideThis, rfl⟩
  ordinary := by
    have narrows := (step.preserves.keeps Intrinsic.global.ref (w.ok.intrinsics .global)).kind
    rw [before.ordinary] at narrows
    generalize (u.store.object Intrinsic.global.ref).kind = after at narrows ⊢
    cases narrows with
    | same => rfl
    | detached before => cases before

theorem Steps.settled (steps : w.Steps u) (before : w.store.Settled) : u.store.Settled := by
  induction steps with
  | refl => exact before
  | step _ last ih => exact last.settled ih

theorem settled_initial : initial.store.Settled where
  initialized e name b found := by
    cases (Bindings.binding?_initial e name).symm.trans found
  global := ⟨_, rfl⟩
  ordinary := rfl

end World

/-- Where code runs, it has its variables in a scope that takes declarations. -/
theorem Store.Settled.takesDeclarations {s : Store} {reserved : ScopeRef → Prop} {ctx : Context} (h : s.Settled)
    (ok : s.WellFormed reserved) (mem : ctx ∈ s.contexts) : s.TakesDeclarations ctx.vars := by
  obtain ⟨provideThis, global⟩ := h.global
  rcases (ok.contexts ctx mem).own with here | ⟨inside, bindings, record⟩
  · rw [here]
    refine .object global ⟨ok.intrinsics .global, ?_, fun name m kind => ?_⟩ fun _ => rfl
    · rw [h.ordinary]
      nofun
    · cases h.ordinary.symm.trans kind
  · refine .declarative inside (fun here => ?_) record fun name b found => ?_
    · rw [here] at record
      cases global.symm.trans record
    · refine h.initialized ctx.vars name b ?_
      rw [Store.binding?, record]
      exact found

/-- In every state of a history objects are older than what inherits from them, and whatever code runs can declare
functions. -/
theorem Machine.takesDeclarations {config : Config} {units : List (Nat × CodeUnit)} {s : Store}
    (mem : s ∈ (Machine.new config).states units) : s.Orderly ∧ ∀ ctx ∈ s.contexts, s.TakesDeclarations ctx.vars := by
  have closed : s.Closed := by
    have governed : Law.closed.Governs ⟨.initial, Store.closed_initial⟩ (.new config) units :=
      Law.governs Closed.hosts.exotics (fun _ _ => trivial) rfl units
    obtain ⟨worlds, states, _, _⟩ := governed.worlds
    rw [← states] at mem
    obtain ⟨w, _, rfl⟩ := List.mem_map.1 mem
    exact w.2
  obtain ⟨worlds, states, _, reached⟩ := (Machine.governed config units).worlds
  rw [← states] at mem
  obtain ⟨w, there, rfl⟩ := List.mem_map.1 mem
  have settled := World.Steps.settled (reached w there) World.settled_initial
  exact ⟨closed.orderly (World.ok w), fun ctx running => settled.takesDeclarations (World.ok w) running⟩

end Ecma
