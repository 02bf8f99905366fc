import Ecma.Proofs.WellFormed.Basic

/-!
# New objects are well formed

Every object that evaluation makes refers only to what is there, and the indices of an `arguments` object that stand for
parameters are the places of its arguments.
-/

namespace Ecma

theorem NameMap.mem_of_get? {α : Type} {m : NameMap α} {name : String} {a : α} (h : m.get? name = some a) :
    (name, a) ∈ m.entries := by
  obtain ⟨before, after, split, _⟩ := List.lookup_eq_some_iff.1 h
  rw [split]
  exact List.mem_append_right _ (List.mem_cons_self ..)

theorem Index.name_injective {i j : Nat} (h : Index.name i = Index.name j) : i = j := by
  rw [← Index.natOfDigits_repr i, h, Index.natOfDigits_repr]

namespace Object

/-- The elements of a list stand under their indices. -/
theorem lookup_elements {values : List Value} {i : Nat} {v : Value} (h : values[i]? = some v) :
    (elements values).lookup (Index.name i) = some (.plain v) := by
  have shifted (values : List Value) (start i : Nat) (h : values[i]? = some v) :
      ((values.zipIdx start).map fun p => (Index.name p.2, Property.plain p.1)).lookup (Index.name (start + i)) =
        some (.plain v) := by
    induction values generalizing start i with
    | nil => cases h
    | cons head rest ih =>
      rw [List.zipIdx_cons, List.map_cons, List.lookup_cons]
      cases i with
      | zero =>
        cases h
        simp
      | succ i =>
        have apart : (Index.name (start + (i + 1)) == Index.name start) = false := by
          rw [beq_eq_false_iff_ne]
          exact fun e => by have := Index.name_injective e; omega
        rw [apart]
        have found := ih (start + 1) i h
        rwa [show start + 1 + i = start + (i + 1) by omega] at found
  have found := shifted values 0 i h
  rwa [Nat.zero_add] at found

theorem kind_instancePrototype (code : FunctionCode) (f : ObjectRef) : (instancePrototype code f).kind = .ordinary := by
  unfold instancePrototype
  split <;> rfl

/-- What instances inherit from is neither code nor an `arguments` object. -/
theorem instancePrototype_plain (code : FunctionCode) (f : ObjectRef) :
    (∀ code' e strict, (instancePrototype code f).kind ≠ .function (.script code' e strict)) ∧
      ∀ m, (instancePrototype code f).kind ≠ .arguments (some m) := by
  rw [kind_instancePrototype]
  constructor
  · intro _ _ _ function
    cases function
  · intro _ arguments
    cases arguments

theorem getElem?_parameterNames {params : List String} {i : Nat} {parameter : String}
    (h : (parameterNames params)[i]? = some (some parameter)) : params[i]? = some parameter := by
  induction params generalizing i with
  | nil => cases h
  | cons name rest ih =>
    cases i with
    | zero =>
      rw [parameterNames, List.getElem?_cons_zero] at h
      split at h <;> cases h
      rfl
    | succ i => exact ih h

end Object

theorem ParameterMap.parameter?_eq_some {m : ParameterMap} {name parameter : String}
    (h : m.parameter? name = some parameter) :
    ∃ i, Index.ofName? name = some i ∧ m.names[i]? = some (some parameter) := by
  obtain ⟨i, index, found⟩ := Option.bind_eq_some_iff.1 h
  exact ⟨i, index, Option.join_eq_some_iff.1 found⟩

namespace Store

variable {s : Store} {reserved : ScopeRef → Prop}

theorem holds_of_isPrimitive {v : Value} (h : v.isPrimitive = true) : s.Holds v := by
  rintro o rfl
  cases h

theorem holds_object {o : ObjectRef} (h : o.index < s.objects.size) : s.Holds (.object o) := by
  rintro _ ⟨⟩
  exact h

theorem objectHeld_fresh {prototype : Option ObjectRef} {className : ClassName} {kind : ObjectKind}
    {entries : List (String × Property)} (parent : ∀ p, prototype = some p → p.index < s.objects.size)
    (values : ∀ entry ∈ entries, s.KeepsProperty entry.2) : s.ObjectHeld (.fresh prototype className kind entries) where
  prototype := parent
  properties name p found := values (name, p) (NameMap.mem_of_get? found)

/-- An object that is neither code nor an `arguments` object is well formed when its prototype and properties are. -/
theorem ObjectHeld.ok {obj : Object} (held : s.ObjectHeld obj)
    (noCode : ∀ code e strict, obj.kind ≠ .function (.script code e strict))
    (noAlias : ∀ m, obj.kind ≠ .arguments (some m)) : s.ObjectOk reserved obj where
  prototype := held.prototype
  properties := held.properties
  closure code e strict kind := absurd kind (noCode code e strict)
  aliases m _ _ kind := absurd kind (noAlias m)

theorem objectOk_fresh {prototype : Option ObjectRef} {className : ClassName} {kind : ObjectKind}
    {entries : List (String × Property)} (parent : ∀ p, prototype = some p → p.index < s.objects.size)
    (values : ∀ entry ∈ entries, s.KeepsProperty entry.2)
    (noCode : ∀ code e strict, kind ≠ .function (.script code e strict)) (noAlias : ∀ m, kind ≠ .arguments (some m)) :
    s.ObjectOk reserved (.fresh prototype className kind entries) := (objectHeld_fresh parent values).ok noCode noAlias

theorem keepsProperty_elements {values : List Value} (known : ∀ v ∈ values, s.Holds v) :
    ∀ entry ∈ Object.elements values, s.KeepsProperty entry.2 := by
  intro entry mem
  obtain ⟨⟨v, i⟩, there, rfl⟩ := List.mem_map.1 mem
  exact .data (known v (List.fst_mem_of_mem_zipIdx there))

/-- What an index of an `arguments` object stands for is a parameter of the call, and the index holds its argument. -/
theorem aliases_arguments {callee : ObjectRef} {params : List String} {args : List Value} {e : ScopeRef} {strict : Bool}
    {m : ParameterMap} {name parameter : String}
    (kind : (Object.arguments callee params args e strict).kind = .arguments (some m))
    (aliased : m.parameter? name = some parameter) : m.scope = e ∧ parameter ∈ params ∧
      ∃ v, (Object.arguments callee params args e strict).properties.get? name = some (.data v true true true) := by
  cases strict with
  | true => cases kind
  | false =>
    cases kind
    obtain ⟨i, index, there⟩ := ParameterMap.parameter?_eq_some aliased
    have taken := Object.getElem?_parameterNames there
    obtain ⟨inside, _⟩ := List.getElem?_eq_some_iff.1 taken
    rw [List.length_take] at inside
    have given : i < args.length := by omega
    refine ⟨rfl, List.mem_of_mem_take (List.mem_of_getElem? taken), args[i], ?_⟩
    have apart : (name == "length") = false := by
      rw [beq_eq_false_iff_ne]
      rintro rfl
      have noIndex : Index.ofName? "length" = none := by decide
      rw [noIndex] at index
      cases index
    show List.lookup name (("length", _) :: Object.elements args ++ _) = _
    rw [List.cons_append, List.lookup_cons, apart, List.lookup_append, ← (Index.name_of_ofName? index).1,
      Object.lookup_elements (List.getElem?_eq_getElem given)]
    rfl

section Intrinsics

variable (intrinsics : ∀ i : Intrinsic, i.ref.index < s.objects.size)
include intrinsics

/-- Objects that inherit from a built-in one. -/
theorem intrinsic_parent (i : Intrinsic) : ∀ p, some i.ref = some p → p.index < s.objects.size := by
  rintro _ ⟨⟩
  exact intrinsics i

theorem keepsProperty_poisoned : s.KeepsProperty .poisoned :=
  .accessor (holds_object (intrinsics .throwTypeError)) (holds_object (intrinsics .throwTypeError))

theorem objectHeld_function {code : FunctionCode} {e : ScopeRef} {strict : Bool} {prototype : ObjectRef}
    (instances : prototype.index < s.objects.size) : s.ObjectHeld (.function code e strict prototype) := by
  refine ⟨intrinsic_parent intrinsics .functionPrototype, fun name p found => ?_⟩
  rcases List.mem_append.1 (NameMap.mem_of_get? found) with mem | mem
  · rcases List.mem_cons.1 mem with same | mem
    · cases same
      exact .data (holds_of_isPrimitive rfl)
    · cases List.mem_singleton.1 mem
      exact .data (holds_object instances)
  · split at mem
    · rcases List.mem_cons.1 mem with same | mem
      · cases same
        exact keepsProperty_poisoned intrinsics
      · cases List.mem_singleton.1 mem
        exact keepsProperty_poisoned intrinsics
    · cases mem

theorem objectHeld_instancePrototype {code : FunctionCode} {f : ObjectRef} (constructs : f.index < s.objects.size) :
    s.ObjectHeld (.instancePrototype code f) := by
  unfold Object.instancePrototype
  split
  · exact objectHeld_fresh (intrinsic_parent intrinsics .generatorPrototype) (List.forall_mem_nil _)
  · exact objectHeld_fresh (intrinsic_parent intrinsics .objectPrototype)
      (List.forall_mem_cons.2 ⟨.data (holds_object constructs), List.forall_mem_nil _⟩)

theorem objectHeld_arguments {callee : ObjectRef} {params : List String} {args : List Value} {e : ScopeRef}
    {strict : Bool} (called : callee.index < s.objects.size) (known : ∀ v ∈ args, s.Holds v) :
    s.ObjectHeld (.arguments callee params args e strict) := by
  have poisoned := keepsProperty_poisoned intrinsics
  have own : ∀ entry ∈ ("length", Property.builtin (.ofNat args.length)) :: Object.elements args,
      s.KeepsProperty entry.2 :=
    List.forall_mem_cons.2 ⟨.data (holds_of_isPrimitive rfl), keepsProperty_elements known⟩
  have parent := intrinsic_parent intrinsics .objectPrototype
  cases strict with
  | true =>
    refine objectHeld_fresh parent (List.forall_mem_append.2 ⟨own, ?_⟩)
    exact List.forall_mem_cons.2 ⟨poisoned, List.forall_mem_cons.2 ⟨poisoned, List.forall_mem_nil _⟩⟩
  | false =>
    refine objectHeld_fresh parent (List.forall_mem_append.2 ⟨own, ?_⟩)
    exact List.forall_mem_cons.2 ⟨.data (holds_object called), List.forall_mem_nil _⟩

/-- All that evaluation makes refers to what is there, by whatever terms. -/
theorem objectHeld_of_makes {V : Terms} {w : V.World} (holds : ∀ v, V.value w v → s.Holds v) {obj : Object}
    (made : Makes V w obj) : s.ObjectHeld obj := by
  have parent := intrinsic_parent intrinsics
  have inside {o : ObjectRef} (known : V.object w o) : o.index < s.objects.size := holds _ known o rfl
  cases made with
  | ordinary known => exact objectHeld_fresh (fun p h => inside (known p h)) (List.forall_mem_nil _)
  | array known =>
    refine objectHeld_fresh (parent .arrayPrototype) (List.forall_mem_cons.2 ⟨.data (holds_of_isPrimitive rfl), ?_⟩)
    exact keepsProperty_elements fun v mem => holds v (known v mem)
  | string t =>
    refine objectHeld_fresh (parent .stringPrototype) ?_
    exact List.forall_mem_cons.2 ⟨.data (holds_of_isPrimitive rfl), List.forall_mem_nil _⟩
  | boolean b => exact objectHeld_fresh (parent .booleanPrototype) (List.forall_mem_nil _)
  | number x => exact objectHeld_fresh (parent .numberPrototype) (List.forall_mem_nil _)
  | error message known =>
    refine objectHeld_fresh (fun p h => by cases h; exact inside known) fun entry mem => ?_
    obtain ⟨t, _, rfl⟩ := List.mem_map.1 mem
    exact .data (holds_of_isPrimitive rfl)
  | iteratorResult done known =>
    refine objectHeld_fresh (parent .objectPrototype) (List.forall_mem_cons.2 ⟨.data (holds _ known), ?_⟩)
    exact List.forall_mem_cons.2 ⟨.data (holds_of_isPrimitive rfl), List.forall_mem_nil _⟩
  | @description p known =>
    refine objectHeld_fresh (parent .objectPrototype) ?_
    have flag (b : Bool) : s.KeepsProperty (.plain (.boolean b)) := .data (holds_of_isPrimitive rfl)
    have value {v : Option Value} (given : V.option w v) : s.KeepsProperty (.plain (v.getD .undefined)) := by
      cases v with
      | none => exact .data (holds_of_isPrimitive rfl)
      | some v => exact .data (holds v (given v rfl))
    have flags : ∀ entry ∈ [("enumerable", Property.plain (.boolean p.enumerable)),
        ("configurable", Property.plain (.boolean p.configurable))], s.KeepsProperty entry.2 :=
      List.forall_mem_cons.2 ⟨flag _, List.forall_mem_cons.2 ⟨flag _, List.forall_mem_nil _⟩⟩
    refine List.forall_mem_append.2 ⟨?_, flags⟩
    split
    · exact List.forall_mem_cons.2 ⟨value known.2.1, List.forall_mem_cons.2 ⟨value known.2.2, List.forall_mem_nil _⟩⟩
    · exact List.forall_mem_cons.2 ⟨value known.1, List.forall_mem_cons.2 ⟨flag _, List.forall_mem_nil _⟩⟩
  | generator g known => exact objectHeld_fresh (fun p h => by cases h; exact inside known) (List.forall_mem_nil _)
  | arguments callee args _ => exact objectHeld_arguments intrinsics (inside callee) fun v mem => holds v (args v mem)

end Intrinsics

end Store

/-- Evaluation makes no code but what functions close over. -/
theorem Makes.kind_ne_script {V : Terms} {w : V.World} {obj : Object} (made : Makes V w obj) (code : FunctionCode)
    (e : ScopeRef) (strict : Bool) : obj.kind ≠ .function (.script code e strict) := by
  cases made with
  | @arguments _ _ _ _ strict => cases strict <;> exact nofun
  | _ => exact nofun

/-- The indices that stand for parameters hold writable data, and the parameters are known. -/
theorem Makes.aliases {V : Terms} {w : V.World} {obj : Object} (made : Makes V w obj) {m : ParameterMap}
    {name parameter : String} (kind : obj.kind = .arguments (some m)) (aliased : m.parameter? name = some parameter) :
    V.parameter w m.scope parameter ∧ ∃ v, obj.properties.get? name = some (.data v true true true) := by
  cases made with
  | arguments _ _ known =>
    obtain ⟨rfl, mem, stored⟩ := Store.aliases_arguments kind aliased
    exact ⟨known parameter mem, stored⟩
  | _ => cases kind

/-- A well-formed store, with the scopes of it that are reserved for strict code. -/
structure World where
  store : Store
  reserved : ScopeRef → Prop
  ok : store.WellFormed reserved

namespace World

/-- What code may use in a well-formed store. -/
def terms : Terms where
  World := World
  left w := w.store
  value w v := w.store.Holds v
  scope w e strict := w.store.Usable w.reserved e strict
  bound w e name := w.store.Binds e name
  parameter w e name := w.store.BindsAliasable e name
  declarative w e := w.store.Declarative e
  within w e d := w.store.Within e d
  unaliased w o name := o.index < w.store.objects.size ∧ w.store.Unaliased o name
  declares w e deletable :=
    deletable = true → w.reserved e ∨ ∃ o provideThis, (w.store.scope e).record = .object o provideThis
  drives _ := True
  watches _ _ := False
  permits f := f.kind ≠ .internal

variable {w : World}

theorem inside {o : ObjectRef} (known : terms.object w o) : o.index < w.store.objects.size := known o rfl

theorem objectOk_of_makes {obj : Object} (made : Makes terms w obj) : w.store.ObjectOk w.reserved obj := by
  have held : w.store.ObjectHeld obj := Store.objectHeld_of_makes w.ok.intrinsics (fun _ => id) made
  refine ⟨held.prototype, held.properties, fun code e strict kind => ?_, fun m name parameter kind aliased => ?_⟩
  · exact absurd kind (made.kind_ne_script code e strict)
  · obtain ⟨known, v, stored⟩ := made.aliases kind aliased
    exact ⟨⟨v, true, true, stored⟩, known⟩

end World

end Ecma
