import Ecma.Proofs.Redefinition
import Ecma.Proofs.WellFormed.Own

/-!
# What changes leave as it was

A change reaches one place of the store. Each lemma about an object, a scope or a parameter says what is there
afterwards, and each lemma about growth that nothing was taken away.
-/

namespace Ecma

namespace ParameterMap

/-- Once detached, a name stands for no parameter, and the others for what they stood for. -/
theorem parameter?_detach (m : ParameterMap) (name other : String) :
    (m.detach name).parameter? other = if other = name then none else m.parameter? other := by
  unfold detach
  cases index : Index.ofName? name with
  | none =>
    by_cases same : other = name
    · rw [if_pos same, same, parameter?, index, Option.bind_none]
    · rw [if_neg same]
  | some i =>
    by_cases same : other = name
    · rw [if_pos same, same, parameter?, index, Option.bind_some, List.getElem?_set_self']
      cases m.names[i]? <;> rfl
    · rw [if_neg same, parameter?, parameter?]
      cases index' : Index.ofName? other with
      | none => rfl
      | some j =>
        have apart : i ≠ j := by
          rintro rfl
          exact same ((Index.name_of_ofName? index').1.symm.trans (Index.name_of_ofName? index).1)
        rw [Option.bind_some, Option.bind_some, List.getElem?_set_ne apart]

/-- Detaching a name empties one slot at most. -/
theorem names_detach (m : ParameterMap) (name : String) (i : Nat) :
    (m.detach name).names[i]? = m.names[i]? ∨ i < m.names.length ∧ (m.detach name).names[i]? = some none := by
  unfold detach
  split
  next j _ =>
    rw [List.getElem?_set]
    split
    next same =>
      subst same
      split
      next inside => exact .inr ⟨inside, rfl⟩
      next outside => exact .inl (List.getElem?_eq_none (Nat.le_of_not_lt outside)).symm
    · exact .inl rfl
  · exact .inl rfl

theorem scope_detach (m : ParameterMap) (name : String) : (m.detach name).scope = m.scope := by
  unfold detach
  split <;> rfl

end ParameterMap

/-- What may become of the kind of an object: nothing, or some indices stand for parameters no longer. -/
inductive ObjectKind.Narrows (kind : ObjectKind) : ObjectKind → Prop where
  | same : Narrows kind kind
  | detached {m m' : ParameterMap} (before : kind = .arguments (some m)) (scope : m'.scope = m.scope)
      (slots : ∀ i, m'.names[i]? = m.names[i]? ∨ i < m.names.length ∧ m'.names[i]? = some none) :
    Narrows kind (.arguments (some m'))

namespace ObjectKind.Narrows

variable {kind kind' kind'' : ObjectKind}

theorem trans (first : kind.Narrows kind') (second : kind'.Narrows kind'') : kind.Narrows kind'' := by
  cases second with
  | same => exact first
  | detached before scope slots =>
    cases first with
    | same => exact .detached before scope slots
    | detached before' scope' slots' =>
      cases before
      refine .detached before' (scope.trans scope') fun i => ?_
      rcases slots i with same | ⟨inside, emptied⟩
      · exact same ▸ slots' i
      · refine .inr ⟨?_, emptied⟩
        rcases slots' i with same | ⟨inside', _⟩
        · exact (List.getElem?_eq_some_iff.1 (same ▸ List.getElem?_eq_getElem inside)).1
        · exact inside'

theorem parameter? {m : ParameterMap} (h : kind.Narrows kind') (after : kind' = .arguments (some m)) :
    ∃ old, kind = .arguments (some old) ∧ m.scope = old.scope ∧
      ∀ name, m.parameter? name = none ∨ m.parameter? name = old.parameter? name := by
  cases h with
  | same => exact ⟨m, after, rfl, fun _ => .inr rfl⟩
  | detached before scope slots =>
    cases after
    refine ⟨_, before, scope, fun name => ?_⟩
    unfold ParameterMap.parameter?
    cases Index.ofName? name with
    | none => exact .inl rfl
    | some i =>
      rw [Option.bind_some, Option.bind_some]
      rcases slots i with same | ⟨_, emptied⟩
      · exact .inr (same ▸ rfl)
      · exact .inl (emptied ▸ rfl)

end ObjectKind.Narrows

namespace Object

variable {obj : Object} {name : String}

@[simp] theorem properties_detached : (obj.detached name).properties = obj.properties := by
  unfold detached
  split <;> rfl

@[simp] theorem prototype_detached : (obj.detached name).prototype = obj.prototype := by
  unfold detached
  split <;> rfl

@[simp] theorem className_detached : (obj.detached name).className = obj.className := by
  unfold detached
  split <;> rfl

@[simp] theorem extensible_detached : (obj.detached name).extensible = obj.extensible := by
  unfold detached
  split <;> rfl

/-- What an object stands for after one of its names is detached. -/
theorem kind_detached (obj : Object) (name : String) :
    (∃ m, obj.kind = .arguments (some m) ∧ (obj.detached name).kind = .arguments (some (m.detach name))) ∨
    (∀ m, obj.kind ≠ .arguments (some m)) ∧ (obj.detached name).kind = obj.kind := by
  unfold detached
  split
  next m kind => exact .inl ⟨m, kind, rfl⟩
  next other => exact .inr ⟨other, rfl⟩

/-- A name that stood for nothing, or is detached, stands for nothing. -/
theorem parameter?_of_detached {m : ParameterMap} (kind : (obj.detached name).kind = .arguments (some m)) :
    ∃ old, obj.kind = .arguments (some old) ∧ m.scope = old.scope ∧
      ∀ other, m.parameter? other = if other = name then none else old.parameter? other := by
  rcases kind_detached obj name with ⟨old, before, after⟩ | ⟨other, after⟩
  · rw [after] at kind
    cases kind
    exact ⟨old, before, old.scope_detach name, old.parameter?_detach name⟩
  · rw [after] at kind
    exact absurd kind (other m)

theorem narrows_detached (obj : Object) (name : String) : obj.kind.Narrows (obj.detached name).kind := by
  rcases kind_detached obj name with ⟨m, before, after⟩ | ⟨_, after⟩
  · rw [after]
    exact .detached before (m.scope_detach name) (m.names_detach name)
  · rw [after]
    exact .same

theorem narrows_without (obj : Object) (name : String) : obj.kind.Narrows (obj.without name).kind :=
  narrows_detached { obj with properties := obj.properties.erase name } name

/-- Detaching a name and replacing properties are independent. -/
theorem detached_withProperties (properties : NameMap Property) :
    { obj with properties := properties }.detached name = { obj.detached name with properties := properties } := by
  obtain ⟨_, _, _, _, kind⟩ := obj
  cases kind with
  | arguments mapped => cases mapped <;> rfl
  | _ => rfl

theorem detached_withProperty (q : Property) :
    (obj.withProperty name q).detached name = (obj.detached name).withProperty name q := by
  rw [withProperty, detached_withProperties, withProperty, properties_detached]

/-- What defining an index that stands for a parameter makes of its object. -/
def redefined (obj : Object) (name : String) (d : Descriptor) (change : Option Property) : Object :=
  let obj := (change.map (obj.withProperty name)).getD obj
  if d.isAccessor = true ∨ d.writable = some false then obj.detached name else obj

/-- What defining an index changes, besides what the object stands for. -/
theorem redefined_eq (obj : Object) (name : String) (d : Descriptor) (change : Option Property) :
    (obj.redefined name d change).properties = (change.map (obj.properties.insert name)).getD obj.properties ∧
      (obj.redefined name d change).prototype = obj.prototype ∧
      (obj.redefined name d change).className = obj.className ∧
      (obj.redefined name d change).extensible = obj.extensible := by
  unfold redefined
  cases change <;> dsimp only <;> split <;> simp [withProperty]

theorem narrows_redefined (obj : Object) (name : String) (d : Descriptor) (change : Option Property) :
    obj.kind.Narrows (obj.redefined name d change).kind := by
  have first : ((change.map (obj.withProperty name)).getD obj).kind = obj.kind := by cases change <;> rfl
  unfold redefined
  split
  · exact first ▸ narrows_detached _ name
  · rw [first]
    exact .same

end Object

namespace Store

variable {s t : Store} {o : ObjectRef} {e : ScopeRef} {name : String}

theorem modifyObject_modifyObject (s : Store) (o : ObjectRef) (f g : Object → Object) :
    (s.modifyObject o f).modifyObject o g = s.modifyObject o (g ∘ f) := by
  have fused : (s.objects.modify o.index f).modify o.index g = s.objects.modify o.index (g ∘ f) := by
    refine Array.ext (by simp only [Array.size_modify]) fun i _ _ => ?_
    rw [Array.getElem_modify, Array.getElem_modify, Array.getElem_modify]
    split <;> rfl
  rw [modifyObject, modifyObject, modifyObject, fused]

/-- An object is set to what it is. -/
theorem modifyObject_of_fixed {s : Store} {o : ObjectRef} {f : Object → Object} (fixed : f (s.object o) = s.object o) :
    s.modifyObject o f = s := by
  have same : s.objects.modify o.index f = s.objects := by
    refine Array.ext Array.size_modify fun i _ inside => ?_
    rw [Array.getElem_modify]
    split
    next here =>
      subst here
      simpa [object, Array.getElem?_eq_getElem inside] using fixed
    · rfl
  rw [modifyObject, same]

theorem modifyObject_id (s : Store) (o : ObjectRef) : s.modifyObject o id = s := modifyObject_of_fixed rfl

theorem modifyObject_change (s : Store) (o : ObjectRef) (name : String) (change : Option Property) :
    (change.map fun q => s.modifyObject o (·.withProperty name q)).getD s =
      s.modifyObject o fun obj => (change.map (obj.withProperty name)).getD obj := by
  cases change with
  | none => exact (modifyObject_id s o).symm
  | some q => rfl

/-- An index is redefined and detached. -/
theorem modifyObject_detached {d : Descriptor} (detaches : d.isAccessor = true ∨ d.writable = some false) (s : Store)
    (o : ObjectRef) (name : String) (change : Option Property) :
    ((change.map fun q => s.modifyObject o (·.withProperty name q)).getD s).modifyObject o (·.detached name) =
      s.modifyObject o (·.redefined name d change) := by
  simp only [modifyObject_change, modifyObject_modifyObject, Object.redefined, if_pos detaches]
  rfl

/-- Defining an aliased index replaces the object, and then passes the value on. -/
theorem defineAliased_eq (s : Store) (o : ObjectRef) (name : String) (d : Descriptor) (change : Option Property)
    (e : ScopeRef) (bindings : NameMap Binding) (parameter : String) (b : Binding) :
    s.defineAliased o name d change e bindings parameter b =
      let s := s.modifyObject o (·.redefined name d change)
      if d.isAccessor then s
      else (d.value.map fun v => s.withBindings e (bindings.insert parameter { b with value := v })).getD s := by
  unfold defineAliased
  by_cases accessor : d.isAccessor = true
  · simp only [accessor, if_true, modifyObject_detached (.inl accessor)]
  · simp only [accessor, Bool.false_eq_true, if_false]
    by_cases readOnly : d.writable = some false
    · have fused := modifyObject_detached (.inr readOnly) s o name change
      simp only [readOnly, if_true]
      cases d.value with
      | none => exact fused
      | some v => exact congrArg (withBindings e (bindings.insert parameter { b with value := v })) fused
    · simp only [readOnly, accessor, if_false, modifyObject_change, Object.redefined, or_false, Bool.false_eq_true]

theorem object_defineAliased_of_ne {o other : ObjectRef} (s : Store) (name : String) (d : Descriptor)
    (change : Option Property) (e : ScopeRef) (bindings : NameMap Binding) (parameter : String) (b : Binding)
    (apart : other ≠ o) : (s.defineAliased o name d change e bindings parameter b).object other = s.object other := by
  rw [defineAliased_eq]
  dsimp only
  split
  · exact object_modifyObject_of_ne s _ apart
  · cases d.value with
    | none => exact object_modifyObject_of_ne s _ apart
    | some v => exact object_modifyObject_of_ne s _ apart

theorem object_addObject (s : Store) (obj : Object) (o : ObjectRef) :
    (s.addObject obj).object o = if o.index = s.objects.size then obj else s.object o := by
  rw [object, addObject, Array.getElem?_push]
  split
  · rfl
  · rfl

theorem object_addFunction (s : Store) (code : FunctionCode) (e : ScopeRef) (strict : Bool) (o : ObjectRef) :
    (s.addFunction code e strict).object o =
      if o.index = s.objects.size + 1 then .instancePrototype code s.nextObject
      else if o.index = s.objects.size then .function code e strict ⟨s.nextObject.index + 1⟩ else s.object o := by
  have size : (s.addObject (.function code e strict ⟨s.nextObject.index + 1⟩)).objects.size = s.objects.size + 1 := by
    simp [addObject]
  rw [addFunction, object_addObject, object_addObject, size]

theorem size_addFunction (s : Store) (code : FunctionCode) (e : ScopeRef) (strict : Bool) :
    (s.addFunction code e strict).objects.size = s.objects.size + 2 := by simp [addFunction, addObject]

/-- Replacing an object replaces no other, nor one that is not there. -/
theorem object_modifyObject_cases (s : Store) (o : ObjectRef) (f : Object → Object) (other : ObjectRef) :
    (s.modifyObject o f).object other = s.object other ∨
      other = o ∧ o.index < s.objects.size ∧ (s.modifyObject o f).object other = f (s.object o) := by
  by_cases same : other = o
  · subst same
    by_cases inside : other.index < s.objects.size
    · exact .inr ⟨rfl, inside, object_modifyObject s f inside⟩
    · rw [object, object, modifyObject, Array.getElem?_modify, if_pos rfl,
        Array.getElem?_eq_none (Nat.le_of_not_lt inside)]
      exact .inl rfl
  · exact .inl (object_modifyObject_of_ne s f same)

/-- All that is no property of one object is the same in two stores. -/
structure SameOutside (s t : Store) (o : ObjectRef) : Prop where
  size : t.objects.size = s.objects.size
  others : ∀ other, other ≠ o → t.object other = s.object other
  prototype : (t.object o).prototype = (s.object o).prototype
  className : (t.object o).className = (s.object o).className
  extensible : (t.object o).extensible = (s.object o).extensible
  kind : (t.object o).kind = (s.object o).kind
  scopes : t.scopes = s.scopes
  generators : t.generators = s.generators
  contexts : t.contexts = s.contexts

namespace SameOutside

theorem refl (s : Store) (o : ObjectRef) : s.SameOutside s o :=
  ⟨rfl, fun _ _ => rfl, rfl, rfl, rfl, rfl, rfl, rfl, rfl⟩

theorem trans {u : Store} (first : s.SameOutside t o) (second : t.SameOutside u o) : s.SameOutside u o where
  size := second.size.trans first.size
  others other apart := (second.others other apart).trans (first.others other apart)
  prototype := second.prototype.trans first.prototype
  className := second.className.trans first.className
  extensible := second.extensible.trans first.extensible
  kind := second.kind.trans first.kind
  scopes := second.scopes.trans first.scopes
  generators := second.generators.trans first.generators
  contexts := second.contexts.trans first.contexts

/-- An object gets other properties. -/
theorem modifyObject {f : Object → Object} {properties : NameMap Property}
    (new : f (s.object o) = { s.object o with properties := properties }) :
    s.SameOutside (s.modifyObject o f) o := by
  have rest : ((s.modifyObject o f).object o).prototype = (s.object o).prototype ∧
      ((s.modifyObject o f).object o).className = (s.object o).className ∧
      ((s.modifyObject o f).object o).extensible = (s.object o).extensible ∧
      ((s.modifyObject o f).object o).kind = (s.object o).kind := by
    rcases object_modifyObject_cases s o f o with same | ⟨_, _, changed⟩
    · simp [same]
    · simp [changed, new]
  obtain ⟨prototype, className, extensible, kind⟩ := rest
  exact ⟨by simp [Store.modifyObject], fun _ => object_modifyObject_of_ne s f, prototype, className, extensible, kind, rfl,
    rfl, rfl⟩

end SameOutside

theorem scope_withBindings_cases (s : Store) (e : ScopeRef) (bindings : NameMap Binding) (d : ScopeRef) :
    (s.withBindings e bindings).scope d = s.scope d ∨ d = e ∧ e.index < s.scopes.size ∧
      (s.withBindings e bindings).scope d = { s.scope e with record := .declarative bindings } := by
  rw [scope, withBindings, modifyScope, Array.getElem?_modify]
  by_cases same : e.index = d.index
  · obtain rfl : d = e := by
      cases d
      cases e
      cases same
      rfl
    rw [if_pos rfl, scope]
    by_cases inside : d.index < s.scopes.size
    · rw [Array.getElem?_eq_getElem inside]
      exact .inr ⟨rfl, inside, rfl⟩
    · rw [Array.getElem?_eq_none (Nat.le_of_not_lt inside)]
      exact .inl rfl
  · rw [if_neg same]
    exact .inl rfl

theorem scope_addScope (s : Store) (scope : Scope) (e : ScopeRef) :
    (s.addScope scope).scope e = if e.index = s.scopes.size then scope else s.scope e := by
  rw [Store.scope, addScope, Array.getElem?_push]
  split
  · rfl
  · rfl

theorem objects_setLexical (s : Store) (e : ScopeRef) : (s.setLexical e).objects = s.objects := by
  unfold setLexical
  split <;> rfl

theorem scopes_setLexical (s : Store) (e : ScopeRef) : (s.setLexical e).scopes = s.scopes := by
  unfold setLexical
  split <;> rfl

/-- Looking names up elsewhere changes the running context alone. -/
theorem mem_contexts_setLexical {ctx : Context} (mem : ctx ∈ (s.setLexical e).contexts) :
    ctx ∈ s.contexts ∨ ∃ head, s.context? = some head ∧ ctx = { head with lexical := e } := by
  unfold setLexical at mem
  split at mem
  · exact .inl mem
  next head rest contexts =>
    rcases List.mem_cons.1 mem with rfl | mem
    · exact .inr ⟨head, congrArg List.head? contexts, rfl⟩
    · exact .inl (contexts ▸ List.mem_cons_of_mem _ mem)

/-- Names that stand for no parameter never come to stand for one. -/
theorem unaliased_of_narrows (narrows : (s.object o).kind.Narrows (t.object o).kind) (free : s.Unaliased o name) :
    t.Unaliased o name := by
  intro m kind
  obtain ⟨old, before, _, names⟩ := narrows.parameter? kind
  exact (names name).elim id fun same => same.trans (free old before)

namespace Grows

theorem addObject (s : Store) (obj : Object) : s.Grows (s.addObject obj) where
  objects := by simp [Store.addObject]
  scopes := Nat.le_refl _
  records _ _ := .refl _
  outers _ _ := rfl
  unaliased o name inside free m kind := by
    rw [object_addObject_old s obj inside] at kind
    exact free m kind

theorem addFunction (s : Store) (code : FunctionCode) (e : ScopeRef) (strict : Bool) :
    s.Grows (s.addFunction code e strict) := (addObject s _).trans (addObject _ _)

theorem modifyObject {f : Object → Object} (narrows : (s.object o).kind.Narrows (f (s.object o)).kind) :
    s.Grows (s.modifyObject o f) where
  objects := by simp [Store.modifyObject]
  scopes := Nat.le_refl _
  records _ _ := .refl _
  outers _ _ := rfl
  unaliased other name _ free m kind := by
    rcases object_modifyObject_cases s o f other with same | ⟨rfl, _, new⟩
    · rw [same] at kind
      exact free m kind
    · exact unaliased_of_narrows (new ▸ narrows) free m kind

theorem withBindings {old new : NameMap Binding} (record : (s.scope e).record = .declarative old)
    (keeps : ∀ name b, old.get? name = some b → ∃ b', new.get? name = some b' ∧ (b.Aliasable → b'.Aliasable)) :
    s.Grows (s.withBindings e new) where
  objects := Nat.le_refl _
  scopes := by simp [Store.withBindings, Store.modifyScope]
  records d _ := by
    rcases scope_withBindings_cases s e new d with same | ⟨rfl, _, changed⟩
    · rw [same]
      exact .refl _
    · rw [changed, record]
      exact .declarative keeps
  outers d _ := by
    rcases scope_withBindings_cases s e new d with same | ⟨rfl, _, changed⟩
    · rw [same]
    · rw [changed]
  unaliased _ _ _ free := free

theorem addScope (s : Store) (scope : Scope) : s.Grows (s.addScope scope) where
  objects := Nat.le_refl _
  scopes := by simp [Store.addScope]
  records e inside := by
    rw [scope_addScope, if_neg (Nat.ne_of_lt inside)]
    exact .refl _
  outers e inside := by rw [scope_addScope, if_neg (Nat.ne_of_lt inside)]
  unaliased _ _ _ free := free

/-- Contexts and generators may change at will. -/
theorem of_same (objects : t.objects = s.objects) (scopes : t.scopes = s.scopes) : s.Grows t := by
  have object (o : ObjectRef) : t.object o = s.object o := by rw [Store.object, objects, Store.object]
  have scope (e : ScopeRef) : t.scope e = s.scope e := by rw [Store.scope, scopes, Store.scope]
  refine ⟨objects ▸ Nat.le_refl _, scopes ▸ Nat.le_refl _, fun e _ => ?_, fun e _ => by rw [scope],
    fun o name _ free m kind => ?_⟩
  · rw [scope]
    exact .refl _
  · rw [object] at kind
    exact free m kind

end Grows

end Store

end Ecma
