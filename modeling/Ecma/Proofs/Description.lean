import Ecma.Builtin.Object
import Ecma.Proofs.Chains
import Ecma.Proofs.Restatement

/-!
# Objects that describe properties

A request becomes an object with one property for each of its fields, and is read from an object by looking the fields up
one after the other, inherited ones too. The two are inverse to each other up to the fields that were absent and got their
defaults, as long as `Object.prototype`, which the describing object inherits from, has nothing under the name of a
field. All that is read then is data of the object itself, so no code runs.
-/

namespace Ecma

/-- The names of the fields of a request. -/
def Descriptor.fieldNames : List String := ["value", "writable", "get", "set", "enumerable", "configurable"]

/-- The accessors that a request mentions are functions or undefined. -/
def Store.AcceptsAccessors (s : Store) (d : Descriptor) : Prop :=
  ∀ v, d.get = some v ∨ d.set = some v → (v.isUndefined || s.isCallable v) = true

/-- An object has data for the fields of a request, and nothing where the request has none. -/
structure Store.Describes (s : Store) (o : ObjectRef) (d : Descriptor) : Prop where
  data : ∀ name ∈ Descriptor.fieldNames, ∀ p, s.getProperty? o name = some p → ∃ v, p = .plain v
  value : s.dataValue? o "value" = d.value
  writable : (s.dataValue? o "writable").map (·.toBoolean) = d.writable
  get : s.dataValue? o "get" = d.get
  set : s.dataValue? o "set" = d.set
  enumerable : (s.dataValue? o "enumerable").map (·.toBoolean) = d.enumerable
  configurable : (s.dataValue? o "configurable").map (·.toBoolean) = d.configurable

namespace Store

variable {s t : Store} {o : ObjectRef} {name : String} {obj : Object}

/-- Whether an object has a property depends on nothing but the object. -/
theorem getOwn?_eq_none_congr (same : t.object o = s.object o) : t.getOwn? o name = none ↔ s.getOwn? o name = none := by
  have half {s t : Store} (same : t.object o = s.object o) (absent : s.getOwn? o name = none) :
      t.getOwn? o name = none := by
    have stored := get?_eq_none_of_getOwn? absent
    rw [getOwn?_of_get?_eq_none stored] at absent
    rw [getOwn?_of_get?_eq_none (same ▸ stored), same, absent]
  exact ⟨half same.symm, half same⟩

theorem object_addObject_of_inside (inside : o.index < s.objects.size) : (s.addObject obj).object o = s.object o := by
  rw [object_addObject, if_neg (Nat.ne_of_lt inside)]

/-- A new object is in no chain from an object that was there. -/
theorem chainFrom_addObject (closed : s.Closed) (obj : Object) (bound : Nat) (inside : o.index < s.objects.size) :
    (s.addObject obj).chainFrom bound o = s.chainFrom bound o ∧
      ∀ p ∈ s.chainFrom bound o, p.index < s.objects.size := by
  induction bound generalizing o with
  | zero => exact ⟨rfl, List.forall_mem_nil _⟩
  | succ bound ih =>
    rw [chainFrom, chainFrom, object_addObject_of_inside inside]
    cases inherits : (s.object o).prototype with
    | none => exact ⟨rfl, List.forall_mem_cons.2 ⟨inside, List.forall_mem_nil _⟩⟩
    | some parent =>
      obtain ⟨same, within⟩ := ih (closed.prototype_inside inherits)
      exact ⟨congrArg (o :: ·) same, List.forall_mem_cons.2 ⟨inside, within⟩⟩

/-- A new object shows its own properties, and nothing under a name that its prototype has not. -/
theorem getProperty?_addObject {parent : ObjectRef} (closed : s.Closed) (inherits : obj.prototype = some parent)
    (inside : parent.index < s.objects.size) (clear : s.hasProperty parent name = false) :
    (s.addObject obj).getProperty? s.nextObject name = (s.addObject obj).getOwn? s.nextObject name := by
  obtain ⟨same, within⟩ := chainFrom_addObject closed obj (s.objects.size + 1) inside
  have chain : (s.addObject obj).prototypeChain s.nextObject = s.nextObject :: s.prototypeChain parent := by
    have size : (s.addObject obj).objects.size = s.objects.size + 1 := Array.size_push ..
    rw [prototypeChain, prototypeChain, ← same, size, chainFrom, object_addObject_next, inherits]
    rfl
  have absent : (s.prototypeChain parent).findSome? (fun p => (s.addObject obj).getOwn? p name) = none := by
    rw [List.findSome?_eq_none_iff]
    intro p mem
    have none : (s.prototypeChain parent).findSome? (fun p => s.getOwn? p name) = none := by
      simpa [hasProperty, getProperty?] using clear
    exact (getOwn?_eq_none_congr (object_addObject_of_inside (within p mem))).2 (List.findSome?_eq_none_iff.1 none p mem)
  rw [getProperty?, chain, List.findSome?_cons]
  cases own : (s.addObject obj).getOwn? s.nextObject name with
  | none => exact absent
  | some p => rfl

end Store

namespace Action.Does

variable {α : Type} {c : Config} {s : Store} {a b : α}

theorem map {β : Type} {x : Action α} {t : Store} (f : α → β) (does : x.Does c s a t) : (f <$> x).Does c s (f a) t := by
  rw [map_eq_pure_bind]
  exact does.bind .pure

end Action.Does

namespace Descriptor

variable {E : Engine} {c : Config} {s : Store} {o : ObjectRef} {name : String}

/-- A field that is data or absent is read without any code. -/
theorem field?_does (data : ∀ p, s.getProperty? o name = some p → ∃ v, p = .plain v) :
    (field? E o name).Does c s (s.dataValue? o name) s := by
  refine .read_bind ?_
  rw [Store.hasProperty, Store.dataValue?]
  cases found : s.getProperty? o name with
  | none => exact .pure
  | some p =>
    obtain ⟨v, rfl⟩ := data p found
    have value : (o.get E name).Does c s v s := by
      refine .read_bind ?_
      rw [found]
      exact .pure
    exact value.map some

theorem flag?_does (data : ∀ p, s.getProperty? o name = some p → ∃ v, p = .plain v) :
    (flag? E o name).Does c s ((s.dataValue? o name).map (·.toBoolean)) s :=
  .bind (field?_does data) .pure

theorem accessor?_does {otherwise : Fault} (data : ∀ p, s.getProperty? o name = some p → ∃ v, p = .plain v)
    (callable : ∀ v, s.dataValue? o name = some v → (v.isUndefined || s.isCallable v) = true) :
    (accessor? E o name otherwise).Does c s (s.dataValue? o name) s := by
  refine .bind (field?_does data) ?_
  cases found : s.dataValue? o name with
  | none => exact .pure
  | some v =>
    refine .read_bind ?_
    rw [if_pos (callable v found)]
    exact .pure

/-- What an object describes is read without any code. -/
theorem ofObject_does {d : Descriptor} (describes : s.Describes o d) (unmixed : d.isMixed = false)
    (accepts : s.AcceptsAccessors d) : (ofObject E o).Does c s d s := by
  have data (name : String) (field : name ∈ fieldNames) := describes.data name field
  refine .bind (flag?_does (data _ (by decide))) (.bind (flag?_does (data _ (by decide)))
    (.bind (field?_does (data _ (by decide))) (.bind (flag?_does (data _ (by decide)))
    (.bind (accessor?_does (data _ (by decide)) fun v given => accepts v (.inl (describes.get ▸ given)))
    (.bind (accessor?_does (data _ (by decide)) fun v given => accepts v (.inr (describes.set ▸ given))) ?_)))))
  rw [describes.value, describes.writable, describes.get, describes.set, describes.enumerable, describes.configurable]
  exact .bind (check_does unmixed c s) .pure

end Descriptor

/-- A describing object has plain data and nothing else. -/
theorem Object.plain_of_description {p q : Property} {name : String}
    (found : (description p).properties.get? name = some q) : ∃ v, q = .plain v := by
  have mem := NameMap.mem_of_get? found
  rcases List.mem_append.1 mem with mem | mem
  · split at mem <;> simp at mem <;> rcases mem with ⟨_, rfl⟩ | ⟨_, rfl⟩ <;> exact ⟨_, rfl⟩
  · simp at mem
    rcases mem with ⟨_, rfl⟩ | ⟨_, rfl⟩ <;> exact ⟨_, rfl⟩

namespace Store

variable {s : Store} {name : String} {p : Property}

/-- The describing object has nothing but its own properties, as far as fields go. -/
theorem getProperty?_description (closed : s.Closed)
    (clear : s.hasProperty Intrinsic.objectPrototype.ref name = false) :
    (s.addObject (.description p)).getProperty? s.nextObject name = (Object.description p).properties.get? name := by
  rw [getProperty?_addObject closed rfl (closed.intrinsics .objectPrototype) clear, getOwn?, ownWith, object_addObject_next]
  rfl

theorem inside_of_isCallable {o : ObjectRef} (callable : s.isCallable (.object o) = true) : o.index < s.objects.size := by
  refine Nat.lt_of_not_le fun outside => ?_
  rw [isCallable, object, Array.getElem?_eq_none outside] at callable
  cases callable

theorem isCallable_addObject {obj : Object} {v : Value} (callable : s.isCallable v = true) :
    (s.addObject obj).isCallable v = true := by
  cases v with
  | object o =>
    rw [isCallable, object_addObject_of_inside (inside_of_isCallable callable)]
    exact callable
  | _ => cases callable

theorem AcceptsAccessors.addObject {d : Descriptor} {obj : Object} (accepts : s.AcceptsAccessors d) :
    (s.addObject obj).AcceptsAccessors d := by
  intro v given
  rcases Bool.or_eq_true_iff.1 (accepts v given) with undefined | callable
  · rw [undefined, Bool.true_or]
  · rw [isCallable_addObject callable, Bool.or_true]

/-- The new object has data for every field of the property that it describes, and for no other. -/
theorem describes_description (closed : s.Closed) (complete : p.Complete)
    (clear : ∀ name ∈ Descriptor.fieldNames, s.hasProperty Intrinsic.objectPrototype.ref name = false) :
    (s.addObject (.description p)).Describes s.nextObject p.descriptor := by
  have found (name : String) (field : name ∈ Descriptor.fieldNames) :
      (s.addObject (.description p)).getProperty? s.nextObject name = (Object.description p).properties.get? name :=
    getProperty?_description closed (clear name field)
  have shown (name : String) (field : name ∈ Descriptor.fieldNames) :
      (s.addObject (.description p)).dataValue? s.nextObject name =
        ((Object.description p).properties.get? name).bind (·.value?) := by
    rw [dataValue?, found name field]
  constructor
  case data =>
    intro name field q own
    rw [found name field] at own
    exact Object.plain_of_description own
  all_goals
    rw [shown _ (by decide)]
    cases complete <;> rfl

end Store

/-- An ordinary object shows the property that it was given. -/
theorem Store.getOwn?_withProperty_ordinary {s : Store} {o : ObjectRef} {name : String} {p : Property}
    (inside : o.index < s.objects.size) (kind : (s.object o).kind = .ordinary) :
    (s.modifyObject o (·.withProperty name p)).getOwn? o name = some p := by
  have new := object_modifyObject s (·.withProperty name p) inside
  refine getOwn?_of_unaliased ?_ fun m arguments => ?_
  · rw [new, Object.withProperty, NameMap.get?_insert, if_pos rfl]
  · rw [new, Object.withProperty, kind] at arguments
    cases arguments

theorem Property.Complete.complete_descriptor {p : Property} (complete : p.Complete) : p.descriptor.complete = p := by
  cases complete <;> rfl

namespace ObjectRef

variable {s : Store} {o : ObjectRef} {name : String} {d : Descriptor} {E : Engine} {c : Config} {throw : Bool}

/-- An extensible ordinary object takes a name that it has not as it is asked to. -/
theorem define_absent (kind : (s.object o).kind = .ordinary) (extensible : (s.object o).extensible = true)
    (absent : s.getOwn? o name = none) (unmixed : d.isMixed = false) :
    (o.define E name d throw).Does c s true (s.modifyObject o (·.withProperty name d.complete)) := by
  refine .bind (Descriptor.check_does unmixed c s) (.read_bind ?_)
  rw [kind]
  refine .read_bind ?_
  rw [absent]
  refine .read_bind ?_
  rw [extensible]
  exact .modify_bind .pure

end ObjectRef

theorem Value.toName_does {E : Engine} {c : Config} {s : Store} {v : Value} (primitive : v.isPrimitive = true) :
    (v.toName E).Does c s v.primitiveString.toString s := by
  cases v with
  | object => cases primitive
  | _ => exact .pure

/-- What a request leaves out is described as what it stands for. -/
theorem Object.description_complete (d : Descriptor) : description d.complete = description ⟨d⟩ := by
  have same : (⟨d⟩ : Property).isAccessor = d.isAccessor := rfl
  unfold description Descriptor.complete
  rw [same]
  split <;> simp <;> rfl

theorem Descriptor.toObject_does (d : Descriptor) (c : Config) (s : Store) :
    d.toObject.Does c s s.nextObject (s.addObject (.description d.complete)) := by
  rw [Object.description_complete]
  exact ⟨rfl, rfl⟩

/-- What a request leaves out is undefined in the property that it makes. -/
theorem Store.AcceptsAccessors.complete {s : Store} {d : Descriptor} (accepts : s.AcceptsAccessors d) :
    s.AcceptsAccessors d.complete.descriptor := by
  have default {given : Option Value} (known : ∀ v, given = some v → (v.isUndefined || s.isCallable v) = true) :
      ((given.getD .undefined).isUndefined || s.isCallable (given.getD .undefined)) = true := by
    cases given with
    | none => rfl
    | some v => exact known v rfl
  intro v given
  unfold Descriptor.complete at given
  split at given
  · rcases given with get | set
    · cases get
      exact default fun v given => accepts v (.inl given)
    · cases set
      exact default fun v given => accepts v (.inr given)
  · rcases given with get | set
    · cases get
    · cases set

namespace Builtin

variable {s : Store} {o q : ObjectRef} {key : Value} {p : Property}

theorem getOwnPropertyDescriptor_does (primitive : key.isPrimitive = true)
    (own : s.getOwn? o key.primitiveString.toString = some p) (E : Engine) (c : Config) :
    (getOwnPropertyDescriptor E [.object o, key]).Does c s (.object s.nextObject) (s.addObject (.description p)) := by
  refine .bind .pure (.bind (Value.toName_does primitive) (.read_bind ?_))
  rw [show argument [.object o, key] 1 = key from rfl, own]
  have described : p.descriptor.toObject.Does c s s.nextObject (s.addObject (.description p)) := ⟨rfl, rfl⟩
  exact described.map Value.object

theorem defineProperty_does {r : ObjectRef} {d : Descriptor} {E : Engine} {c : Config} (primitive : key.isPrimitive = true)
    (described : (Descriptor.ofObject E r).Does c s d s) (kind : (s.object q).kind = .ordinary)
    (extensible : (s.object q).extensible = true) (absent : s.getOwn? q key.primitiveString.toString = none)
    (unmixed : d.isMixed = false) :
    (defineProperty E [.object q, key, .object r]).Does c s (.object q)
      (s.modifyObject q (·.withProperty key.primitiveString.toString d.complete)) :=
  .bind .pure (.bind (Value.toName_does primitive) (.bind described
    (.bind (ObjectRef.define_absent kind extensible absent unmixed) .pure)))

end Builtin

/-- Whatever a host has done, as long as `Object.prototype` shows nothing under the name of a field: a request whose
accessors are functions or undefined becomes one new object, and reading that object gives the request with its defaults,
runs no code and changes nothing. So what `Object.getOwnPropertyDescriptor` tells of a property makes the same property
when `Object.defineProperty` is asked to define it on an extensible ordinary object that has none of the name. -/
theorem Machine.description_read_back {config : Config} {calls : List (Nat × HostCall)} {s : Store}
    (provides : (new config).Provides calls) (reached : .reached s ∈ (new config).chronicle calls)
    (clear : ∀ name ∈ Descriptor.fieldNames, s.hasProperty Intrinsic.objectPrototype.ref name = false)
    (E : Engine) (c : Config) :
    (∀ d : Descriptor, s.AcceptsAccessors d →
      d.toObject.Does c s s.nextObject (s.addObject (.description d.complete)) ∧
      (Descriptor.ofObject E s.nextObject).Does c (s.addObject (.description d.complete)) d.complete.descriptor
        (s.addObject (.description d.complete))) ∧
    ∀ (o q : ObjectRef) (key : Value) (p : Property), key.isPrimitive = true →
      s.getOwn? o key.primitiveString.toString = some p → s.AcceptsAccessors p.descriptor → q.index < s.objects.size →
      (s.object q).kind = .ordinary → (s.object q).extensible = true →
      s.getOwn? q key.primitiveString.toString = none →
      (Builtin.getOwnPropertyDescriptor E [.object o, key]).Does c s (.object s.nextObject)
        (s.addObject (.description p)) ∧
      ∃ u, (Builtin.defineProperty E [.object q, key, .object s.nextObject]).Does c (s.addObject (.description p))
          (.object q) u ∧
        u = (s.addObject (.description p)).modifyObject q (·.withProperty key.primitiveString.toString p) ∧
        u.getOwn? q key.primitiveString.toString = some p := by
  have closed := closed_of_chronicle provides reached
  have read (p : Property) (complete : p.Complete) (accepts : s.AcceptsAccessors p.descriptor) :
      (Descriptor.ofObject E s.nextObject).Does c (s.addObject (.description p)) p.descriptor
        (s.addObject (.description p)) :=
    Descriptor.ofObject_does (Store.describes_description closed complete clear) complete.isMixed_descriptor
      accepts.addObject
  refine ⟨fun d accepts => ⟨d.toObject_does c s, read _ d.complete_complete accepts.complete⟩, ?_⟩
  intro o q key p primitive own accepts inside kind extensible absent
  refine ⟨Builtin.getOwnPropertyDescriptor_does primitive own E c, ?_⟩
  have complete := (closed.holding.keepsProperty_getOwn? own).complete
  have old : (s.addObject (.description p)).object q = s.object q := Store.object_addObject_of_inside inside
  have defined := Builtin.defineProperty_does primitive (read p complete accepts) (old ▸ kind) (old ▸ extensible)
    ((Store.getOwn?_eq_none_congr old).2 absent) complete.isMixed_descriptor
  rw [complete.complete_descriptor] at defined
  have size : q.index < (s.addObject (.description p)).objects.size := by
    rw [Store.addObject, Array.size_push]
    exact Nat.lt_succ_of_lt inside
  exact ⟨_, defined, rfl, Store.getOwn?_withProperty_ordinary size (old ▸ kind)⟩

/-- A function alone is asked for as a getter, and the NaN of the global object, which is read-only, is told to
`Object.prototype`. -/
theorem Machine.description_read_back_partial :
    Store.initial.AcceptsAccessors { Descriptor.empty with get := some (.object Intrinsic.throwTypeError.ref) } ∧
      (Descriptor.ofObject .spent ⟨57⟩).Does .standard
        (Store.initial.addObject
          (.description (.accessor (.object Intrinsic.throwTypeError.ref) .undefined false false)))
        (Property.accessor (.object Intrinsic.throwTypeError.ref) .undefined false false).descriptor
        (Store.initial.addObject
          (.description (.accessor (.object Intrinsic.throwTypeError.ref) .undefined false false))) ∧
      Store.initial.getOwn? Intrinsic.global.ref "NaN" = some (.frozen (.number Number.nan)) ∧
      ∃ u, (Builtin.defineProperty .spent [.object Intrinsic.objectPrototype.ref, .ofString "NaN", .object ⟨57⟩]).Does
          .standard (Store.initial.addObject (.description (.frozen (.number Number.nan))))
          (.object Intrinsic.objectPrototype.ref) u ∧
        u.getOwn? Intrinsic.objectPrototype.ref "NaN" = some (.frozen (.number Number.nan)) := by
  have provides : (new .standard).Provides [] := trivial
  have reached : .reached Store.initial ∈ (new .standard).chronicle [] := List.mem_singleton.2 rfl
  have next : Store.initial.nextObject = ⟨57⟩ := congrArg ObjectRef.mk Store.size_initial
  have name : (Value.ofString "NaN").primitiveString.toString = "NaN" := by decide
  obtain ⟨clear, callable, own, absent⟩ : (∀ name ∈ Descriptor.fieldNames,
        Store.initial.hasProperty Intrinsic.objectPrototype.ref name = false) ∧
      Store.initial.isCallable (.object Intrinsic.throwTypeError.ref) = true ∧
      Store.initial.getOwn? Intrinsic.global.ref "NaN" = some (.frozen (.number Number.nan)) ∧
      Store.initial.getOwn? Intrinsic.objectPrototype.ref "NaN" = none := by decide +kernel
  have accepts : Store.initial.AcceptsAccessors
      { Descriptor.empty with get := some (.object Intrinsic.throwTypeError.ref) } := by
    rintro v (⟨⟨⟩⟩ | ⟨⟨⟩⟩)
    rw [callable, Bool.or_true]
  obtain ⟨requests, copies⟩ := description_read_back provides reached clear .spent .standard
  have read := (requests _ accepts).2
  obtain ⟨_, u, defined, _, shown⟩ := copies Intrinsic.global.ref Intrinsic.objectPrototype.ref (.ofString "NaN")
    (.frozen (.number Number.nan)) rfl (name ▸ own) (by rintro v (⟨⟨⟩⟩ | ⟨⟨⟩⟩)) (Store.intrinsic_initial _) rfl rfl
    (name ▸ absent)
  rw [next] at read defined
  rw [name] at shown
  exact ⟨accepts, read, own, u, defined, shown⟩

end Ecma
