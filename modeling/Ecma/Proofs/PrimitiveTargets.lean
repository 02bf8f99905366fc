import Ecma.Proofs.Assignment
import Ecma.Proofs.Description

/-!
# Assignments to properties of primitives

A primitive has no properties of its own to assign to. An assignment wraps it in an object that nothing else refers to,
and looks there for what may take the value. Only a setter can, and it is called with the primitive itself. In all other
cases the value is dropped with the wrapper, which strict code is told. A new object is in no chain from an object that was
there and shows nothing that was not shown, so all that was there is as it was.
-/

namespace Ecma

namespace Store

/-- Whatever was in a store is there as it was, and shows what it showed. -/
structure Untouched (s t : Store) : Prop where
  objects : ∀ o, o.index < s.objects.size → t.object o = s.object o
  own : ∀ o name, o.index < s.objects.size → t.getOwn? o name = s.getOwn? o name
  properties : ∀ o name, o.index < s.objects.size → t.getProperty? o name = s.getProperty? o name
  scopes : t.scopes = s.scopes
  bindings : ∀ e name, t.hasBinding e name = s.hasBinding e name
  generators : t.generators = s.generators
  contexts : t.contexts = s.contexts

variable {s : Store} {o : ObjectRef} {name : String} {obj : Object}

theorem ownWith_addObject (read : ScopeRef → String → Value) (inside : o.index < s.objects.size) :
    (s.addObject obj).ownWith read o name = s.ownWith read o name := by
  unfold ownWith
  rw [object_addObject_of_inside inside]

section Growth

variable (closed : s.Closed)
include closed

/-- A chain from an object that was there is as long as it was. -/
theorem prototypeChain_addObject (inside : o.index < s.objects.size) :
    (s.addObject obj).prototypeChain o = s.prototypeChain o := by
  have size : (s.addObject obj).objects.size = s.objects.size + 1 := Array.size_push ..
  have further : Walk s.parent? (some o) (s.chainFrom (s.objects.size + 1 + 1) o) :=
    .of_bounded closed.parent_older (fun _ _ => rfl) (.inl (by omega))
  rw [prototypeChain, size, (chainFrom_addObject closed obj _ inside).1]
  exact (closed.walk_prototypeChain o).unique further

/-- The objects that parameters are read from were there. -/
theorem parameterValue_addObject (bound : Nat) :
    (s.addObject obj).parameterValue bound = s.parameterValue bound := by
  induction bound with
  | zero => rfl
  | succ bound ih =>
    funext e name
    have scope : (s.addObject obj).scope e = s.scope e := rfl
    rw [parameterValue, parameterValue, scope, ih]
    cases kept : (s.scope e).record with
    | declarative bindings => rfl
    | object x provideThis =>
      have inside : x.index < s.objects.size := (closed.scopes e).object x (congrArg ScopeRecord.object? kept)
      have within := (chainFrom_addObject closed obj (s.objects.size + 1) inside).2
      have same : (s.prototypeChain x).findSome? (fun p => (s.addObject obj).ownWith (s.parameterValue bound) p name) =
          (s.prototypeChain x).findSome? fun p => s.ownWith (s.parameterValue bound) p name :=
        findSome?_congr fun p mem => ownWith_addObject _ (within p mem)
      dsimp only
      rw [prototypeChain_addObject closed inside, same]

theorem getOwn?_addObject (inside : o.index < s.objects.size) : (s.addObject obj).getOwn? o name = s.getOwn? o name := by
  have size : (s.addObject obj).objects.size = s.objects.size + 1 := Array.size_push ..
  rw [getOwn?, size, parameterValue_addObject closed, ownWith_addObject _ inside]
  exact closed.chainsEnd.own o name _ (by omega)

theorem getProperty?_addObject_of_inside (inside : o.index < s.objects.size) :
    (s.addObject obj).getProperty? o name = s.getProperty? o name := by
  have within := (chainFrom_addObject closed obj (s.objects.size + 1) inside).2
  rw [getProperty?, prototypeChain_addObject closed inside]
  exact findSome?_congr fun p mem => getOwn?_addObject closed (within p mem)

theorem untouched_addObject : s.Untouched (s.addObject obj) where
  objects _ := object_addObject_of_inside
  own _ _ := getOwn?_addObject closed
  properties _ _ := getProperty?_addObject_of_inside closed
  scopes := rfl
  bindings e name := by
    have scope : (s.addObject obj).scope e = s.scope e := rfl
    rw [hasBinding, hasBinding, scope]
    cases kept : (s.scope e).record with
    | declarative bindings => rfl
    | object x provideThis =>
      have inside : x.index < s.objects.size := (closed.scopes e).object x (congrArg ScopeRecord.object? kept)
      dsimp only
      rw [hasProperty, hasProperty, getProperty?_addObject_of_inside closed inside]
  generators := rfl
  contexts := rfl

end Growth

/-- What a new object shows of its own is in the object. -/
theorem getOwn?_addObject_next (unmapped : ∀ m, obj.kind ≠ .arguments (some m)) :
    (s.addObject obj).getOwn? s.nextObject name = (obj.properties.get? name).or (characters obj name) := by
  have new : (s.addObject obj).object s.nextObject = obj := object_addObject_next s obj
  cases stored : obj.properties.get? name with
  | none =>
    rw [getOwn?_of_get?_eq_none (by rw [new, stored]), new]
    rfl
  | some p =>
    refine getOwn?_of_unaliased (by rw [new, stored]) fun m kind => ?_
    rw [new] at kind
    exact absurd kind (unmapped m)

/-- An accessor with a setter does not stand in the way of an assignment. -/
theorem canPut_of_setter {f : ObjectRef} {p : Property} (ends : ∀ o, Walk s.parent? (some o) (s.prototypeChain o))
    (found : s.getProperty? o name = some p) (setter : p.setter? = some f) : s.canPut o name = true := by
  have accessor : p.isAccessor = true := by
    obtain ⟨v, set, _⟩ := Option.bind_eq_some_iff.1 setter
    simp [Property.isAccessor, Descriptor.isAccessor, set]
  unfold canPut
  cases own : s.getOwn? o name with
  | some q =>
    cases (getProperty?_of_own own).symm.trans found
    dsimp only
    rw [if_pos accessor, setter]
    rfl
  | none =>
    rw [getProperty?_of_inherited ends own] at found
    dsimp only
    rw [found]
    dsimp only
    rw [if_pos accessor, setter]
    rfl

end Store

/-- The objects that primitives are wrapped in. -/
inductive Value.Wraps : Value → Object → Prop where
  | boolean (b : Bool) : Wraps (.boolean b) (.boolean b)
  | number (x : Float) : Wraps (.number x) (.number x)
  | string (t : Text) : Wraps (.string t) (.string t)

theorem Value.exists_wraps {v : Value} (primitive : v.isPrimitive = true) (present : v.isNullish = false) :
    ∃ obj, v.Wraps obj := by
  cases v with
  | undefined | null => cases present
  | boolean b => exact ⟨_, .boolean b⟩
  | number x => exact ⟨_, .number x⟩
  | string t => exact ⟨_, .string t⟩
  | object o => cases primitive

namespace Value.Wraps

variable {v : Value} {obj : Object} {s : Store} {name : String} (h : v.Wraps obj)
include h

theorem toObject_does (c : Config) (s : Store) : v.toObject.Does c s s.nextObject (s.addObject obj) := by
  cases h <;> exact ⟨rfl, rfl⟩

theorem unmapped (m : ParameterMap) : obj.kind ≠ .arguments (some m) := by
  cases h <;> exact nofun

theorem inherits : ∃ i : Intrinsic, obj.prototype = some i.ref := by
  cases h with
  | boolean => exact ⟨.booleanPrototype, rfl⟩
  | number => exact ⟨.numberPrototype, rfl⟩
  | string => exact ⟨.stringPrototype, rfl⟩

theorem objectClosed (closed : s.Closed) : s.ObjectClosed s.nextObject obj := by
  have held : s.ObjectHeld obj := by
    have parent (i : Intrinsic) (p : ObjectRef) (same : some i.ref = some p) : p.index < s.objects.size :=
      Option.some.inj same ▸ closed.intrinsics i
    cases h with
    | boolean => exact Store.objectHeld_fresh (parent .booleanPrototype) (List.forall_mem_nil _)
    | number => exact Store.objectHeld_fresh (parent .numberPrototype) (List.forall_mem_nil _)
    | string =>
      refine Store.objectHeld_fresh (parent .stringPrototype) (List.forall_mem_singleton.2 ?_)
      exact .data (Store.holds_of_isPrimitive rfl)
  refine .of_held held (fun code e strict kind => ?_) (fun m _ _ kind _ => absurd kind (h.unmapped m))
    (fun m _ _ _ kind => absurd kind (h.unmapped m)) fun e => (closed.scopes e).object
  cases h <;> cases kind

theorem closed_addObject (closed : s.Closed) : (s.addObject obj).Closed := closed.addObject (h.objectClosed closed)

/-- What is found from a wrapper was made with it or is found from the prototype. -/
theorem getProperty?_next {parent : ObjectRef} (closed : s.Closed) (inherits : obj.prototype = some parent)
    (inside : parent.index < s.objects.size) :
    (s.addObject obj).getProperty? s.nextObject name =
      ((obj.properties.get? name).or (Store.characters obj name)).or (s.getProperty? parent name) := by
  rw [← Store.getOwn?_addObject_next h.unmapped]
  cases found : (s.addObject obj).getOwn? s.nextObject name with
  | some p => rw [Store.getProperty?_of_own found, Option.some_or]
  | none =>
    rw [Store.getProperty?_of_inherited (h.closed_addObject closed).walk_prototypeChain found,
      Store.object_addObject_next, inherits, Option.bind_some,
      Store.getProperty?_addObject_of_inside closed inside, Option.none_or]

/-- One wrapper of a primitive shows what another shows that was made before. -/
theorem getProperty?_again (closed : s.Closed) (name : String) :
    ((s.addObject obj).addObject obj).getProperty? (s.addObject obj).nextObject name =
      (s.addObject obj).getProperty? s.nextObject name := by
  obtain ⟨i, inherits⟩ := h.inherits
  have inside := closed.intrinsics i
  have later := h.closed_addObject closed
  rw [h.getProperty?_next later inherits (later.intrinsics i), h.getProperty?_next closed inherits inside,
    Store.getProperty?_addObject_of_inside closed inside]

end Value.Wraps

namespace Reference

variable {v : Value} {obj : Object} {s : Store} {name : String}

theorem putValue_primitive (wraps : v.Wraps obj) (E : Engine) (strict : Bool) (w : Value) :
    (property v name strict).putValue E w = putOnPrimitive E v name w strict := by
  cases wraps <;> rfl

/-- A setter that is found from the wrapper is called on the primitive. -/
theorem putOnPrimitive_of_setter {f : ObjectRef} (wraps : v.Wraps obj) (closed : s.Closed)
    (setter : ((s.addObject obj).getProperty? s.nextObject name).bind (·.setter?) = some f) (E : Engine) (w : Value)
    (strict : Bool) (c : Config) :
    (putOnPrimitive E v name w strict).ActsAs (do let _ ← v.toObject; let _ ← E.call (.object f) v [w]) c s := by
  obtain ⟨p, found, own⟩ := Option.bind_eq_some_iff.1 setter
  refine .bind (.refl ..) fun o t run => ?_
  cases (wraps.toObject_does c s).run.symm.trans run
  refine .read_bind ?_
  rw [Store.canPut_of_setter (wraps.closed_addObject closed).walk_prototypeChain found own, if_pos rfl]
  refine .read_bind ?_
  have complete := ((wraps.closed_addObject closed).holding.keepsProperty_getProperty? found).complete
  rw [if_neg (Store.not_own_data_of_setter found complete own)]
  refine .read_bind ?_
  rw [setter]
  exact .refl ..

/-- Without a setter the wrapper is left alone. -/
theorem putOnPrimitive_of_no_setter (wraps : v.Wraps obj)
    (unset : ((s.addObject obj).getProperty? s.nextObject name).bind (·.setter?) = none) (E : Engine) (w : Value)
    (strict : Bool) (c : Config) :
    (putOnPrimitive E v name w strict).ActsAs (do let _ ← v.toObject; discarded name strict) c s := by
  refine .bind (.refl ..) fun o t run => ?_
  cases (wraps.toObject_does c s).run.symm.trans run
  refine .read_bind ?_
  cases (s.addObject obj).canPut s.nextObject name with
  | false => exact .refl ..
  | true =>
    refine .read_bind ?_
    cases ((s.addObject obj).getOwn? s.nextObject name).any (·.isData) with
    | true => exact .refl ..
    | false =>
      refine .read_bind ?_
      rw [unset]
      exact .refl ..

/-- Without a getter, what is read is the data that is found from the wrapper. -/
theorem getValue_of_no_getter (wraps : v.Wraps obj) (closed : s.Closed)
    (plain : ((s.addObject obj).getProperty? s.nextObject name).bind (·.getter?) = none) (E : Engine) (strict : Bool)
    (c : Config) :
    ((property v name strict).getValue E).Does c s (((s.addObject obj).dataValue? s.nextObject name).getD .undefined)
      (s.addObject obj) := by
  refine (wraps.toObject_does c s).bind ?_
  show (s.nextObject.getFor E name v).Does c (s.addObject obj) _ _
  refine .read_bind ?_
  rw [Store.dataValue?]
  cases found : (s.addObject obj).getProperty? s.nextObject name with
  | none => exact .pure
  | some p =>
    cases ((wraps.closed_addObject closed).holding.keepsProperty_getProperty? found).complete with
    | data => exact .pure
    | accessor =>
      rw [found, Option.bind_some] at plain
      dsimp only
      rw [plain]
      exact .pure

/-- A primitive keeps nothing. Let a primitive other than undefined and null be wrapped. Everything that was there is as
it was then. If a setter is found from the wrapper, an assignment to the property wraps the primitive and calls that
setter on the primitive itself, and whatever the call comes to, the assignment comes to. If none is found, the assignment
does nothing but to wrap the primitive, and strict code gets a type error; and where no getter is found either, the
property has the value that it had. -/
theorem primitives_keep_nothing (closed : s.Closed) (primitive : v.isPrimitive = true) (present : v.isNullish = false)
    (name : String) (w : Value) (strict : Bool) (E : Engine) (c : Config) :
    ∃ t, v.toObject.Does c s s.nextObject t ∧ s.Untouched t ∧
      (∀ f, (t.getProperty? s.nextObject name).bind (·.setter?) = some f →
        ((property v name strict).putValue E w).ActsAs (do let _ ← v.toObject; let _ ← E.call (.object f) v [w]) c s) ∧
      ((t.getProperty? s.nextObject name).bind (·.setter?) = none →
        (strict = false → ((property v name strict).putValue E w).Does c s () t) ∧
        (strict = true → ∃ f, f.kind = .typeError ∧ (property v name strict).putValue E w c s = .abrupt (.fault f) t ∧
          ((property v name strict).putValue E w).path c s = [.raised f]) ∧
        ((t.getProperty? s.nextObject name).bind (·.getter?) = none →
          ∃ x u, ((property v name strict).getValue E).Does c s x t ∧
            ((property v name strict).getValue E).Does c t x u)) := by
  obtain ⟨obj, wraps⟩ := Value.exists_wraps primitive present
  have wrapped := wraps.toObject_does c s
  refine ⟨s.addObject obj, wrapped, Store.untouched_addObject closed, fun f setter => ?_, fun unset => ⟨?_, ?_, ?_⟩⟩
  · rw [putValue_primitive wraps]
    exact putOnPrimitive_of_setter wraps closed setter E w strict c
  · rintro rfl
    rw [putValue_primitive wraps]
    exact (putOnPrimitive_of_no_setter wraps unset E w false c).does (wrapped.bind .pure)
  · rintro rfl
    have acts := putOnPrimitive_of_no_setter wraps unset E w true c
    refine ⟨.propertyOfPrimitive name, rfl, ?_, ?_⟩
    · rw [putValue_primitive wraps, acts.run, Action.bind_run wrapped.run]
      rfl
    · rw [putValue_primitive wraps, acts.path, Action.path_bind, wrapped.path, wrapped.run]
      rfl
  · intro plain
    have again := wraps.getProperty?_again closed name
    have second := getValue_of_no_getter wraps (wraps.closed_addObject closed) (again ▸ plain) E strict c
    rw [Store.dataValue?, again] at second
    exact ⟨_, _, getValue_of_no_getter wraps closed plain E strict c, second⟩

/-- A string has a length of its own, which strict code cannot replace, and inherits a setter. -/
theorem primitives_keep_nothing_string :
    ((property (.string (Text.ofString "ab")) "x" true).putValue (.ofBudget 1) .null).ActsAs (do
      let _ ← (Value.string (Text.ofString "ab")).toObject
      let _ ← (Engine.ofBudget 1).call (.object Intrinsic.throwTypeError.ref) (.string (Text.ofString "ab")) [.null])
      .standard Store.inheriting ∧
    ∃ t, Store.inheriting.Untouched t ∧
      (∃ f, f.kind = .typeError ∧ (property (.string (Text.ofString "ab")) "length" true).putValue (.ofBudget 1) .null
        .standard Store.inheriting = .abrupt (.fault f) t) ∧
      ∃ x u, ((property (.string (Text.ofString "ab")) "length" true).getValue (.ofBudget 1)).Does .standard
          Store.inheriting x t ∧
        ((property (.string (Text.ofString "ab")) "length" true).getValue (.ofBudget 1)).Does .standard t x u := by
  have known (name : String) := primitives_keep_nothing Store.closed_inheriting (v := .string (Text.ofString "ab"))
    rfl rfl name .null true (.ofBudget 1) .standard
  refine ⟨?_, ?_⟩
  · obtain ⟨t, wrapped, _, called, _⟩ := known "x"
    cases wrapped.run
    exact called _ (by decide +kernel)
  · obtain ⟨t, wrapped, untouched, _, dropped⟩ := known "length"
    cases wrapped.run
    obtain ⟨_, refused, reads⟩ := dropped (by decide +kernel)
    obtain ⟨f, kind, run, _⟩ := refused rfl
    exact ⟨_, untouched, ⟨f, kind, run⟩, reads (by decide +kernel)⟩

end Reference

end Ecma
