import Ecma.Proofs.ArgumentsAliasing
import Ecma.Proofs.Instantiation
import Ecma.Proofs.KeyOrder
import Ecma.Proofs.Reconciliation

/-!
# Definitions that pass values on

What comes of a request to define a property of an object that is no array, in one step for all such objects. The rule
`Store.Allows` decides, and a request that is granted leaves the fields that it asked for. An index that stands for a
parameter shows the value of the parameter, so the value that is asked for is passed on, and an index that becomes an
accessor or read-only stands for the parameter no longer. This takes no more than that the parameters of that object can
be set.
-/

namespace Ecma

/-- A name that stands for nothing is detached already. -/
theorem ParameterMap.detach_of_free {m : ParameterMap} {name : String} (free : m.parameter? name = none) :
    m.detach name = m := by
  unfold detach
  split
  next i index =>
    have slot : m.names.set i none = m.names := by
      apply List.ext_getElem?
      intro j
      by_cases same : i = j
      · subst same
        rw [List.getElem?_set_self']
        rw [parameter?, index, Option.bind_some] at free
        cases found : m.names[i]? with
        | none => rfl
        | some slot =>
          rw [found] at free
          exact congrArg some free.symm
      · rw [List.getElem?_set_ne same]
    rw [slot]
  · rfl

namespace Object

variable {obj : Object} {name : String} {d : Descriptor} {change : Option Property}

theorem detached_of_free (free : ∀ m, obj.kind = .arguments (some m) → m.parameter? name = none) :
    obj.detached name = obj := by
  unfold detached
  split
  next m kind => rw [ParameterMap.detach_of_free (free m kind), ← kind]
  · rfl

/-- Of a name that stands for nothing only the property changes. -/
theorem redefined_of_free (free : ∀ m, obj.kind = .arguments (some m) → m.parameter? name = none) :
    obj.redefined name d change = (change.map (obj.withProperty name)).getD obj := by
  unfold redefined
  dsimp only
  split
  · cases change with
    | none => exact detached_of_free free
    | some q => exact detached_of_free free
  · rfl

theorem kind_redefined : (obj.redefined name d change).kind = (obj.redefined name d none).kind := by
  cases change with
  | none => rfl
  | some q =>
    unfold redefined
    dsimp only [Option.map_some, Option.getD_some, Option.map_none, Option.getD_none]
    split
    · rw [detached_withProperty]
      rfl
    · rfl

end Object

namespace Store

variable {s t : Store} {o : ObjectRef} {name : String} {d : Descriptor}

/-- What is stored of an object is complete. Whatever index of it stands for a parameter is writable data, and the
parameter is bound for good. -/
structure Backed (s : Store) (o : ObjectRef) : Prop where
  complete : ∀ name p, (s.object o).properties.get? name = some p → p.Complete
  aliases : ∀ m name parameter, (s.object o).kind = .arguments (some m) → m.parameter? name = some parameter →
    (∃ v e c, (s.object o).properties.get? name = some (.data v true e c)) ∧ s.BindsAliasable m.scope parameter

theorem WellFormed.backed {reserved : ScopeRef → Prop} (ok : s.WellFormed reserved) (o : ObjectRef) : s.Backed o where
  complete name p stored := ((ok.objects o).properties name p stored).complete
  aliases := (ok.objects o).aliases

/-- The parameter that a property name stands for, and the scope that binds it. -/
def standsFor? (s : Store) (o : ObjectRef) (name : String) : Option (ScopeRef × String) :=
  match (s.object o).kind with
  | .arguments (some m) => (m.parameter? name).map (m.scope, ·)
  | _ => none

/-- A binding gets another value. -/
def withValue (s : Store) (e : ScopeRef) (name : String) (v : Value) : Store :=
  match (s.scope e).record with
  | .declarative bindings =>
    match bindings.get? name with
    | some b => s.withBindings e (bindings.insert name { b with value := v })
    | none => s
  | .object _ _ => s

/-- A value, if there is one, is passed on to the parameter that a name stands for, if it stands for one. -/
def passing (s : Store) (o : ObjectRef) (name : String) (v : Option Value) : Store :=
  match s.standsFor? o name, v with
  | some (e, parameter), some v => s.withValue e parameter v
  | _, _ => s

/-- What a request that is granted leaves: the fields that it asked for, under a name that keeps its place or is added
at the end. Its value is passed on, and the name is detached if it becomes an accessor or read-only. Nothing else
changes. -/
structure Redefines (s t : Store) (o : ObjectRef) (name : String) (d : Descriptor) : Prop where
  property : ∃ q : Property, q.descriptor = d.reconciled (s.getOwn? o name) ∧ t.getOwn? o name = some q
  complete : ∀ p, (t.object o).properties.get? name = some p → p.Complete
  keys : t.ownKeys o = if (s.getOwn? o name).isSome then s.ownKeys o else s.ownKeys o ++ [name]
  stored : ∀ key, key ≠ name → (t.object o).properties.get? key = (s.object o).properties.get? key
  kind : (t.object o).kind = ((s.object o).redefined name d none).kind
  prototype : (t.object o).prototype = (s.object o).prototype
  className : (t.object o).className = (s.object o).className
  extensible : (t.object o).extensible = (s.object o).extensible
  size : t.objects.size = s.objects.size
  others : ∀ other, other ≠ o → t.object other = s.object other
  scopes : t.scopes = (s.passing o name d.value).scopes
  generators : t.generators = s.generators
  contexts : t.contexts = s.contexts

theorem standsFor?_eq_none_iff : s.standsFor? o name = none ↔ s.Unaliased o name := by
  unfold standsFor? Unaliased
  cases (s.object o).kind with
  | arguments mapped => cases mapped <;> simp
  | _ => simp

theorem standsFor?_of_aliased {m : ParameterMap} {parameter : String} (kind : (s.object o).kind = .arguments (some m))
    (aliased : m.parameter? name = some parameter) : s.standsFor? o name = some (m.scope, parameter) := by
  simp [standsFor?, kind, aliased]

/-- A name stands for nothing or for a parameter of its object. -/
theorem unaliased_or (s : Store) (o : ObjectRef) (name : String) :
    s.Unaliased o name ∨
      ∃ m parameter, (s.object o).kind = .arguments (some m) ∧ m.parameter? name = some parameter := by
  by_cases free : s.Unaliased o name
  · exact .inl free
  · simp only [Unaliased, Classical.not_forall] at free
    obtain ⟨m, kind, aliased⟩ := free
    obtain ⟨parameter, aliased⟩ := Option.ne_none_iff_exists'.1 aliased
    exact .inr ⟨m, parameter, kind, aliased⟩

theorem passing_of_unaliased (free : s.Unaliased o name) (v : Option Value) : s.passing o name v = s := by
  unfold passing
  rw [standsFor?_eq_none_iff.2 free]

theorem passing_none : s.passing o name none = s := by
  unfold passing
  cases s.standsFor? o name <;> rfl

theorem binding?_congr (scopes : t.scopes = s.scopes) (e : ScopeRef) (name : String) :
    t.binding? e name = s.binding? e name := by
  rw [binding?, binding?, scope, scope, scopes]

theorem bindsAliasable_iff {e : ScopeRef} :
    s.BindsAliasable e name ↔ ∃ b, s.binding? e name = some b ∧ b.Aliasable := by
  unfold BindsAliasable binding?
  cases (s.scope e).record with
  | declarative bindings => simp
  | object x provideThis => simp

theorem record_of_binding? {e : ScopeRef} {b : Binding} (found : s.binding? e name = some b) :
    ∃ bindings, (s.scope e).record = .declarative bindings ∧ bindings.get? name = some b := by
  unfold binding? at found
  cases record : (s.scope e).record with
  | declarative bindings =>
    rw [record] at found
    exact ⟨bindings, rfl, found⟩
  | object x provideThis =>
    rw [record] at found
    cases found

theorem withValue_of_absent {e : ScopeRef} (absent : s.binding? e name = none) (v : Value) :
    s.withValue e name v = s := by
  unfold binding? at absent
  unfold withValue
  cases record : (s.scope e).record with
  | declarative bindings =>
    rw [record] at absent
    dsimp only at absent ⊢
    rw [absent]
  | object x provideThis => rfl

theorem binding?_withValue (s : Store) (e : ScopeRef) (name : String) (v : Value) (e' : ScopeRef) (name' : String) :
    (s.withValue e name v).binding? e' name' =
      if e' = e ∧ name' = name then (s.binding? e name).map ({ · with value := v }) else s.binding? e' name' := by
  cases bound : s.binding? e name with
  | none =>
    rw [withValue_of_absent bound]
    by_cases same : e' = e ∧ name' = name
    · rw [if_pos same, same.1, same.2, bound]
      rfl
    · rw [if_neg same]
  | some b =>
    obtain ⟨bindings, record, found⟩ := record_of_binding? bound
    have inside : e.index < s.scopes.size := by
      refine Nat.lt_of_not_le fun outside => ?_
      rw [scope, Array.getElem?_eq_none outside] at record
      cases record
      cases found
    have fills : s.Fills (s.withBindings e (bindings.insert name { b with value := v })) e _ := .withBindings inside
    have set : s.withValue e name v = s.withBindings e (bindings.insert name { b with value := v }) := by
      simp only [withValue, record, found]
    rw [set]
    by_cases here : e' = e
    · subst here
      simp only [binding?, fills.record, record, NameMap.get?_insert, true_and, Option.map_some]
    · rw [if_neg fun same => here same.1, binding?, binding?, fills.others e' here]

/-- Passing a value on changes the parameter that the name stands for, if it stands for one. -/
theorem binding?_passing (s : Store) (o : ObjectRef) (name : String) (v : Option Value) (e : ScopeRef) (n : String) :
    (s.passing o name v).binding? e n =
      if s.standsFor? o name = some (e, n) then (s.binding? e n).map fun b => { b with value := v.getD b.value }
      else s.binding? e n := by
  unfold passing
  cases s.standsFor? o name with
  | none => rfl
  | some place =>
    obtain ⟨e', n'⟩ := place
    cases v with
    | none => simp
    | some v =>
      dsimp only
      rw [binding?_withValue]
      by_cases same : e = e' ∧ n = n'
      · obtain ⟨rfl, rfl⟩ := same
        simp
      · rw [if_neg same, if_neg]
        simp only [Option.some.injEq, Prod.mk.injEq]
        exact fun there => same ⟨there.1.symm, there.2.symm⟩

/-- Data whose name stands for a parameter shows the value of the parameter. -/
theorem getOwn?_of_bound {v : Value} {w en c : Bool} {e : ScopeRef} {parameter : String} {b : Binding}
    (stored : (s.object o).properties.get? name = some (.data v w en c))
    (place : s.standsFor? o name = some (e, parameter)) (found : s.binding? e parameter = some b) :
    s.getOwn? o name = some (.data b.value w en c) := by
  rcases s.unaliased_or o name with free | ⟨m, parameter', kind, aliased⟩
  · rw [standsFor?_eq_none_iff.2 free] at place
    cases place
  · rw [standsFor?_of_aliased kind aliased] at place
    cases place
    obtain ⟨bindings, record, found⟩ := record_of_binding? found
    rw [getOwn?_of_aliased stored kind aliased, parameterValue, record]
    simp only [found, Option.map_some, Option.getD_some, Property.withValue_data]

/-- An index that stands for a parameter shows its value. -/
theorem Backed.getOwn? {m : ParameterMap} {parameter : String} (backed : s.Backed o)
    (kind : (s.object o).kind = .arguments (some m)) (aliased : m.parameter? name = some parameter) :
    ∃ b v e c, s.binding? m.scope parameter = some b ∧ b.Aliasable ∧
      (s.object o).properties.get? name = some (.data v true e c) ∧
        s.getOwn? o name = some (.data b.value true e c) := by
  obtain ⟨⟨v, e, c, stored⟩, bound⟩ := backed.aliases m name parameter kind aliased
  obtain ⟨b, found, aliasable⟩ := bindsAliasable_iff.1 bound
  exact ⟨b, v, e, c, found, aliasable, stored, getOwn?_of_bound stored (standsFor?_of_aliased kind aliased) found⟩

/-- What is shown is complete too. -/
theorem Backed.complete_getOwn? {p : Property} (backed : s.Backed o) (shown : s.getOwn? o name = some p) :
    p.Complete := by
  cases stored : (s.object o).properties.get? name with
  | none =>
    rw [getOwn?_of_get?_eq_none stored] at shown
    obtain ⟨u, rfl⟩ := characters_eq_some shown
    exact .data ..
  | some q =>
    rcases s.unaliased_or o name with free | ⟨m, parameter, kind, aliased⟩
    · cases (getOwn?_of_unaliased stored free).symm.trans shown
      exact backed.complete name p stored
    · obtain ⟨_, _, _, _, _, _, _, present⟩ := backed.getOwn? kind aliased
      cases present.symm.trans shown
      exact .data ..

/-- A name under which nothing is shown stands for nothing. -/
theorem Backed.unaliased_of_absent (backed : s.Backed o) (absent : s.getOwn? o name = none) : s.Unaliased o name := by
  rcases s.unaliased_or o name with free | ⟨m, parameter, kind, aliased⟩
  · exact free
  · obtain ⟨_, _, _, _, _, _, _, present⟩ := backed.getOwn? kind aliased
    cases absent.symm.trans present

/-- The object is redefined, and the value passed on. -/
theorem Redefines.of_redefined {change : Option Property} (new : t.object o = (s.object o).redefined name d change)
    (size : t.objects.size = s.objects.size) (others : ∀ other, other ≠ o → t.object other = s.object other)
    (scopes : t.scopes = (s.passing o name d.value).scopes) (generators : t.generators = s.generators)
    (contexts : t.contexts = s.contexts)
    (property : ∃ q : Property, q.descriptor = d.reconciled (s.getOwn? o name) ∧ t.getOwn? o name = some q)
    (complete : ∀ p, (t.object o).properties.get? name = some p → p.Complete)
    (shown : change = none → (s.getOwn? o name).isSome = true)
    (known : (s.getOwn? o name).isSome = true → change ≠ none → ∃ p, (s.object o).properties.get? name = some p) :
    s.Redefines t o name d := by
  obtain ⟨properties, prototype, className, extensible⟩ := (s.object o).redefined_eq name d change
  refine ⟨property, complete, ?_, fun key apart => ?_, ?_, ?_, ?_, ?_, size, others, scopes, generators, contexts⟩
  · rw [ownKeys_eq, new, ((s.object o).narrows_redefined name d change).indices, properties, ownKeys_eq]
    cases change with
    | none => rw [if_pos (shown rfl), Option.map_none, Option.getD_none]
    | some q =>
      rw [Option.map_some, Option.getD_some, NameMap.keys_insert]
      cases own : s.getOwn? o name with
      | none => rw [if_neg (Object.not_mem_keys (get?_eq_none_of_getOwn? own)), List.append_assoc]; rfl
      | some p =>
        obtain ⟨_, stored⟩ := known (by rw [own]; rfl) nofun
        rw [if_pos (Object.mem_keys stored)]
        rfl
  · rw [new, properties]
    cases change with
    | none => rfl
    | some q => rw [Option.map_some, Option.getD_some, NameMap.get?_insert, if_neg apart]
  · rw [new, Object.kind_redefined]
  · rw [new, prototype]
  · rw [new, className]
  · rw [new, extensible]

end Store

namespace ObjectRef

variable {s t : Store} {o : ObjectRef} {name : String} {d : Descriptor}

/-- A request that the rule decides, as an ordinary object does. -/
theorem defineOrdinary_decides (backed : s.Backed o) (unmixed : d.isMixed = false) (name : String) :
    (s.Allows o name d ∧ ∃ t, Defines s o name d (some true) t ∧
      ∀ c throw, (o.defineOrdinary name d throw).Does c s true t) ∨
    ¬s.Allows o name d ∧ ∀ c, Action.TurnsDown (o.defineOrdinary name d) c s := by
  have complete (p : Property) : s.getOwn? o name = some p → p.Complete := backed.complete_getOwn?
  rcases defineOrdinary_cases s o name d with ⟨t, defines, does⟩ | ⟨refused, turnsDown⟩
  · exact .inl ⟨(defines.decides complete unmixed).1.1 rfl, t, defines, does⟩
  · refine .inr ⟨fun allows => ?_, turnsDown⟩
    cases ((refused (some false) (by simp)).decides complete unmixed).1.2 allows

/-- A request that is granted under a name that stands for nothing. -/
theorem Defines.redefines (h : Defines s o name d (some true) t) (backed : s.Backed o) (free : s.Unaliased o name)
    (inside : o.index < s.objects.size) (unmixed : d.isMixed = false) : s.Redefines t o name d := by
  have set (q : Property) (complete : q.Complete) (fields : q.descriptor = d.reconciled (s.getOwn? o name))
      (known : (s.getOwn? o name).isSome = true → ∃ p, (s.object o).properties.get? name = some p) :
      s.Redefines (s.modifyObject o (·.withProperty name q)) o name d := by
    have new := Store.object_modifyObject s (·.withProperty name q) inside
    have redefined : (s.object o).redefined name d (some q) = (s.object o).withProperty name q :=
      Object.redefined_of_free free
    have stored : ((s.modifyObject o (·.withProperty name q)).object o).properties.get? name = some q := by
      rw [new, Object.withProperty, NameMap.get?_insert, if_pos rfl]
    refine .of_redefined (new.trans redefined.symm)
      (by simp [Store.modifyObject]) (fun _ => Store.object_modifyObject_of_ne s _)
      (by rw [Store.passing_of_unaliased free]; rfl) rfl rfl ⟨q, fields, ?_⟩ (fun p found => ?_)
      (fun unchanged => by cases unchanged) fun shown _ => known shown
    · refine Store.getOwn?_of_unaliased stored fun m kind => ?_
      rw [new] at kind
      exact free m kind
    · cases stored.symm.trans found
      exact complete
  cases h with
  | added absent =>
    refine set _ d.complete_complete ?_ fun shown => ?_
    · rw [absent]
      exact Descriptor.descriptor_complete unmixed
    · rw [absent] at shown
      cases shown
  | @kept p present granted =>
    have redefined : (s.object o).redefined name d none = s.object o := Object.redefined_of_free free
    refine .of_redefined redefined.symm rfl (fun _ _ => rfl)
      (by rw [Store.passing_of_unaliased free]) rfl rfl ⟨p, ?_, present⟩ (backed.complete name)
      (fun _ => by rw [present]; rfl) fun _ other => absurd rfl other
    rw [present]
    exact (Descriptor.reconciled_of_unchanged granted (backed.complete_getOwn? present)).symm
  | @changed p q present granted =>
    have complete := backed.complete_getOwn? present
    refine set q (Property.complete_of_changed granted complete unmixed) ?_ fun _ =>
      Store.stored_of_changed present granted unmixed
    rw [present]
    exact (Descriptor.reconciled_of_changed granted complete).symm
  | closed _ _ no => exact absurd rfl no
  | refused _ _ no => exact absurd rfl no

end ObjectRef

section Aliased

variable {s : Store} {o : ObjectRef} {name : String} {d : Descriptor} {m : ParameterMap} {parameter : String}
  {bindings : NameMap Binding} {b : Binding} {v : Value} {e c : Bool} {change : Option Property}

theorem Store.objects_defineAliased (s : Store) (scope : ScopeRef) :
    (s.defineAliased o name d change scope bindings parameter b).objects =
      (s.modifyObject o (·.redefined name d change)).objects := by
  rw [defineAliased_eq]
  dsimp only
  split
  · rfl
  · cases d.value <;> rfl

theorem Store.object_defineAliased (s : Store) (scope : ScopeRef) (other : ObjectRef) :
    (s.defineAliased o name d change scope bindings parameter b).object other =
      (s.modifyObject o (·.redefined name d change)).object other := by
  rw [object, objects_defineAliased]
  rfl

theorem Store.scopes_defineAliased (unmixed : d.isMixed = false) (kind : (s.object o).kind = .arguments (some m))
    (aliased : m.parameter? name = some parameter) (record : (s.scope m.scope).record = .declarative bindings)
    (found : bindings.get? parameter = some b) :
    (s.defineAliased o name d change m.scope bindings parameter b).scopes = (s.passing o name d.value).scopes := by
  rw [defineAliased_eq]
  unfold passing
  rw [standsFor?_of_aliased kind aliased]
  dsimp only
  cases value : d.value with
  | none => split <;> rfl
  | some v =>
    have data : d.isAccessor = false := by simpa [Descriptor.isMixed, Descriptor.isData, value] using unmixed
    simp only [data, Bool.false_eq_true, if_false, Option.map_some, Option.getD_some, withValue, record, found]
    rfl

theorem Property.descriptor_injective {p q : Property} (same : p.descriptor = q.descriptor) : p = q := by
  obtain ⟨_⟩ := p
  obtain ⟨_⟩ := q
  exact congrArg Property.mk same

/-- The fields that a request for data leaves of data. -/
theorem Descriptor.reconciled_data {w : Bool} (kind : d.isAccessor = false) :
    d.reconciled (some (.data v w e c)) = (Property.data (d.value.getD v) (d.writable.getD w) (d.enumerable.getD e)
      (d.configurable.getD c)).descriptor := by
  rw [← Property.update_convert_data kind]
  exact congrArg d.laidOver (resetFor_descriptor (.data ..))

/-- A request that leaves data as it is asks for no other value. -/
theorem Property.value_of_unchanged {w : Bool} (h : (data v w e c).redefine d name = .unchanged) :
    d.value.getD v = v := by
  rcases redefine_unchanged h with empty | holds
  · simp only [Descriptor.isEmpty, Bool.and_eq_true] at empty
    have generic : d.isAccessor = false ∧ d.isData = false := by simpa [Descriptor.isGeneric] using empty.1.1
    rw [(Descriptor.isData_eq_false.1 generic.2).1]
    rfl
  · simp only [Descriptor.holdsOf, Bool.and_eq_true] at holds
    cases asked : d.value with
    | none => rfl
    | some u => exact Value.same_iff.1 (same_of_keepsValue holds.1.1.1.1.1 u asked)

/-- A request that is granted at an index that stands for a parameter. -/
theorem Store.redefines_defineAliased (unmixed : d.isMixed = false) (kind : (s.object o).kind = .arguments (some m))
    (aliased : m.parameter? name = some parameter) (record : (s.scope m.scope).record = .declarative bindings)
    (found : bindings.get? parameter = some b)
    (stored : (s.object o).properties.get? name = some (.data v true e c))
    (present : s.getOwn? o name = some (.data b.value true e c))
    (granted : (Property.data b.value true e c).Grants d name change) :
    s.Redefines (s.defineAliased o name d change m.scope bindings parameter b) o name d := by
  generalize left : s.defineAliased o name d change m.scope bindings parameter b = t
  have objects : t.objects = (s.modifyObject o (·.redefined name d change)).objects := by
    rw [← left, objects_defineAliased]
  have scopes : t.scopes = (s.passing o name d.value).scopes := by
    rw [← left, scopes_defineAliased unmixed kind aliased record found]
  have rests : t.contexts = s.contexts ∧ t.generators = s.generators :=
    left ▸ World.rests_defineAliased s m.scope bindings b
  obtain ⟨contexts, generators⟩ := rests
  have new : t.object o = (s.object o).redefined name d change := by
    rw [object, objects, ← object]
    exact object_modifyObject s _ (inside_of_arguments kind)
  have properties : (t.object o).properties =
      (change.map ((s.object o).properties.insert name)).getD (s.object o).properties := by
    rw [new, ((s.object o).redefined_eq name d change).1]
  have complete (p : Property) (kept : (t.object o).properties.get? name = some p) : p.Complete := by
    rw [properties] at kept
    cases change with
    | none =>
      cases stored.symm.trans kept
      exact .data ..
    | some q =>
      rw [Option.map_some, Option.getD_some, NameMap.get?_insert, if_pos rfl] at kept
      cases kept
      exact Property.complete_of_changed granted (.data ..) unmixed
  refine .of_redefined new (by simp [objects, modifyObject]) (fun other apart => ?_) scopes generators contexts ?_
    complete (fun _ => by rw [present]; rfl) fun _ _ => ⟨_, stored⟩
  · rw [object, objects, ← object]
    exact object_modifyObject_of_ne s _ apart
  have after : (t.object o).kind = ((s.object o).redefined name d none).kind := by rw [new, Object.kind_redefined]
  rw [present]
  by_cases detaches : d.isAccessor = true ∨ d.writable = some false
  · cases change with
    | none =>
      obtain ⟨data, writable⟩ := Property.plain_of_unchanged granted
      exact absurd detaches (by simp [data, writable])
    | some q =>
      refine ⟨q, (Descriptor.reconciled_of_changed granted (.data ..)).symm, getOwn?_of_unaliased ?_ fun m' kind' => ?_⟩
      · rw [properties, Option.map_some, Option.getD_some, NameMap.get?_insert, if_pos rfl]
      · rw [after] at kind'
        unfold Object.redefined at kind'
        dsimp only at kind'
        rw [if_pos detaches] at kind'
        obtain ⟨_, _, _, names⟩ := Object.parameter?_of_detached kind'
        rw [names, if_pos rfl]
  · -- The index still stands for the parameter, which has the value that was asked for, or its own.
    have still : t.standsFor? o name = some (m.scope, parameter) := by
      refine standsFor?_of_aliased ?_ aliased
      rw [after]
      unfold Object.redefined
      dsimp only
      rw [if_neg detaches]
      exact kind
    have holds : t.binding? m.scope parameter = some { b with value := d.value.getD b.value } := by
      rw [binding?_congr scopes, binding?_passing, if_pos (standsFor?_of_aliased kind aliased)]
      simp [binding?, record, found]
    cases change with
    | none =>
      refine ⟨_, (Descriptor.reconciled_of_unchanged granted (.data ..)).symm, ?_⟩
      have kept : (t.object o).properties.get? name = some (.data v true e c) := by
        rw [properties]
        exact stored
      rw [getOwn?_of_bound kept still holds, Property.value_of_unchanged granted]
    | some q =>
      refine ⟨q, (Descriptor.reconciled_of_changed granted (.data ..)).symm, ?_⟩
      obtain ⟨_, _, rfl⟩ := Property.redefine_changed granted
      have data : d.isAccessor = false := Bool.eq_false_iff.2 fun accessor => detaches (.inl accessor)
      rw [Property.update_convert_data data] at properties ⊢
      refine getOwn?_of_bound (v := d.value.getD b.value) ?_ still holds
      rw [properties, Option.map_some, Option.getD_some, NameMap.get?_insert, if_pos rfl]

end Aliased

theorem Descriptor.check_does {d : Descriptor} (unmixed : d.isMixed = false) (c : Config) (s : Store) :
    d.check.Does c s () s := by
  rw [check, unmixed]
  exact .pure

namespace ObjectRef

variable {s : Store} {o : ObjectRef} {name : String} {d : Descriptor}

/-- A request to an `arguments` object that stands for parameters. -/
theorem defineInArguments_decides {m : ParameterMap} (kind : (s.object o).kind = .arguments (some m))
    (backed : s.Backed o) (unmixed : d.isMixed = false) (name : String) :
    (s.Allows o name d ∧ ∃ t, s.Redefines t o name d ∧
      ∀ E c throw, (o.defineInArguments E m name d throw).Does c s true t) ∨
    ¬s.Allows o name d ∧ ∀ E c, Action.TurnsDown (o.defineInArguments E m name d) c s := by
  rcases defineOrdinary_decides backed unmixed name with ⟨allows, t, defines, does⟩ | ⟨against, refuses⟩
  · refine .inl ⟨allows, ?_⟩
    cases aliased : m.parameter? name with
    | none =>
      have free : s.Unaliased o name := by
        intro m' kind'
        cases kind.symm.trans kind'
        exact aliased
      refine ⟨t, defines.redefines backed free (Store.inside_of_arguments kind) unmixed, fun E c throw => ?_⟩
      refine .bind (does c false) ?_
      rw [if_pos rfl, aliased]
      exact .pure
    | some parameter =>
      obtain ⟨b, v, e, configurable, bound, aliasable, stored, present⟩ := backed.getOwn? kind aliased
      obtain ⟨bindings, record, found⟩ := Store.record_of_binding? bound
      have granted : ∃ change, (Property.data b.value true e configurable).Grants d name change := by
        cases verdict : (Property.data b.value true e configurable).redefine d name with
        | unchanged => exact ⟨none, verdict⟩
        | changed q => exact ⟨some q, verdict⟩
        | refused why => exact absurd rfl (defines.not_granted present verdict)
      obtain ⟨change, granted⟩ := granted
      exact ⟨_, Store.redefines_defineAliased unmixed kind aliased record found stored present granted,
        fun E c throw => defineInArguments_aliased present granted aliased record found aliasable.mutable⟩
  · exact .inr ⟨against, fun E c => .after (refuses c).lenient (.reject rfl)⟩

/-- The rule decides what becomes of a request to any object that is no array. -/
theorem define_decides (backed : s.Backed o) (inside : o.index < s.objects.size) (other : (s.object o).kind ≠ .array)
    (unmixed : d.isMixed = false) (name : String) :
    (s.Allows o name d ∧ ∃ t, s.Redefines t o name d ∧ ∀ E c throw, (o.define E name d throw).Does c s true t) ∨
    ¬s.Allows o name d ∧ ∀ E c, Action.TurnsDown (o.define E name d) c s := by
  have checked (c : Config) : d.check.Does c s () s := Descriptor.check_does unmixed c s
  by_cases mapped : ∃ m, (s.object o).kind = .arguments (some m)
  · obtain ⟨m, kind⟩ := mapped
    rcases defineInArguments_decides kind backed unmixed name with ⟨allows, t, redefines, does⟩ | ⟨against, refuses⟩
    · refine .inl ⟨allows, t, redefines, fun E c throw => .bind (checked c) (.read_bind ?_)⟩
      rw [kind]
      exact does E c throw
    · refine .inr ⟨against, fun E c => .after (checked c) (.read_bind ?_)⟩
      rw [kind]
      exact refuses E c
  · have free : s.Unaliased o name := fun m kind => absurd ⟨m, kind⟩ mapped
    have does (E : Engine) (c : Config) (throw granted : Bool) (t : Store)
        (h : (o.defineOrdinary name d throw).Does c s granted t) : (o.define E name d throw).Does c s granted t := by
      refine .bind (checked c) (.read_bind ?_)
      split
      next kind => exact absurd kind other
      next m kind => exact absurd ⟨m, kind⟩ mapped
      · exact h
    have fails (E : Engine) (c : Config) (f : Fault) (h : (o.defineOrdinary name d true).Fails c s f) :
        (o.define E name d true).Fails c s f := by
      refine .after (checked c) (.read_bind ?_)
      split
      next kind => exact absurd kind other
      next m kind => exact absurd ⟨m, kind⟩ mapped
      · exact h
    rcases defineOrdinary_decides backed unmixed name with ⟨allows, t, defines, granted⟩ | ⟨against, refuses⟩
    · exact .inl ⟨allows, t, defines.redefines backed free inside unmixed,
        fun E c throw => does E c throw true t (granted c throw)⟩
    · refine .inr ⟨against, fun E c => ?_⟩
      obtain ⟨lenient, f, typeError, strict⟩ := refuses c
      exact ⟨does E c false false s lenient, f, typeError, fails E c f strict⟩

end ObjectRef

/-! ## What a granted request leaves as it was -/

theorem ObjectKind.Narrows.array {kind kind' : ObjectKind} (narrows : kind.Narrows kind') (array : kind' = .array) :
    kind = .array := by
  cases narrows with
  | same => exact array
  | detached => cases array

namespace Store

variable {s t : Store} {o other : ObjectRef} {name key : String} {d : Descriptor}

/-- Data that an `arguments` object shows is stored with the same flags. -/
theorem stored_of_arguments {mapped : Option ParameterMap} {v : Value} {w e c : Bool}
    (complete : ∀ p, (s.object o).properties.get? name = some p → p.Complete)
    (kind : (s.object o).kind = .arguments mapped) (shown : s.getOwn? o name = some (.data v w e c)) :
    ∃ v', (s.object o).properties.get? name = some (.data v' w e c) := by
  cases stored : (s.object o).properties.get? name with
  | none =>
    rw [getOwn?_of_get?_eq_none stored, characters, kind] at shown
    cases shown
  | some p =>
    rw [getOwn?_of_stored stored, showing] at shown
    generalize s.parameterAt? o name = parameter at shown
    cases complete p stored with
    | data => cases parameter <;> cases shown <;> exact ⟨_, rfl⟩
    | accessor => cases parameter <;> cases shown

/-- What an object shows depends on what it has stored and on the parameter that the name stands for. -/
theorem Backed.getOwn?_congr (backed : s.Backed o) (narrows : (s.object o).kind.Narrows (t.object o).kind)
    (stored : (t.object o).properties.get? key = (s.object o).properties.get? key)
    (place : t.standsFor? o key = s.standsFor? o key)
    (bound : ∀ e n, s.standsFor? o key = some (e, n) → t.binding? e n = s.binding? e n) :
    t.getOwn? o key = s.getOwn? o key := by
  rcases s.unaliased_or o key with free | ⟨m, parameter, kind, aliased⟩
  · have free' : t.Unaliased o key := standsFor?_eq_none_iff.1 (place.trans (standsFor?_eq_none_iff.2 free))
    cases found : (s.object o).properties.get? key with
    | some p => rw [getOwn?_of_unaliased found free, getOwn?_of_unaliased (stored.trans found) free']
    | none =>
      rw [getOwn?_of_get?_eq_none found, getOwn?_of_get?_eq_none (stored.trans found)]
      unfold characters
      generalize (t.object o).kind = kind' at narrows ⊢
      cases narrows with
      | same => rfl
      | detached before => rw [before]
  · obtain ⟨b, v, e, c, found, _, there, shown⟩ := backed.getOwn? kind aliased
    have place' := standsFor?_of_aliased kind aliased
    rw [shown, getOwn?_of_bound (stored.trans there) (place.trans place') ((bound _ _ place').trans found)]

/-- The parameters of an object can be set as long as it stands for the same ones, and the scopes are the same. -/
theorem Backed.of_same (backed : s.Backed o) (kind : (t.object o).kind = (s.object o).kind)
    (properties : (t.object o).properties = (s.object o).properties) (scopes : t.scopes = s.scopes) : t.Backed o := by
  refine ⟨properties ▸ backed.complete, fun m name parameter kind' aliased => ?_⟩
  obtain ⟨stored, bound⟩ := backed.aliases m name parameter (kind.symm.trans kind') aliased
  refine ⟨properties ▸ stored, ?_⟩
  rw [bindsAliasable_iff, binding?_congr scopes, ← bindsAliasable_iff]
  exact bound

/-- All that is stored of an object being the same, it shows the same. -/
theorem Backed.getOwn?_of_same (backed : s.Backed o) (kind : (t.object o).kind = (s.object o).kind)
    (properties : (t.object o).properties = (s.object o).properties) (scopes : t.scopes = s.scopes) (name : String) :
    t.getOwn? o name = s.getOwn? o name := by
  refine backed.getOwn?_congr (by rw [kind]; exact .same) (by rw [properties]) ?_ fun e n _ => binding?_congr scopes e n
  rw [standsFor?, kind, standsFor?]

namespace Redefines

variable (h : s.Redefines t o name d)
include h

theorem narrows : (s.object o).kind.Narrows (t.object o).kind := by
  rw [h.kind]
  exact (s.object o).narrows_redefined name d none

/-- A name is detached if it becomes an accessor or read-only, and no other name is. -/
theorem standsFor? (key : String) : t.standsFor? o key =
    if key = name ∧ (d.isAccessor = true ∨ d.writable = some false) then none else s.standsFor? o key := by
  unfold Store.standsFor?
  rw [h.kind]
  unfold Object.redefined
  dsimp only [Option.map_none, Option.getD_none]
  by_cases detaches : d.isAccessor = true ∨ d.writable = some false
  · rw [if_pos detaches]
    rcases (s.object o).kind_detached name with ⟨m, before, after⟩ | ⟨unmapped, after⟩
    · rw [before, after]
      dsimp only
      rw [m.parameter?_detach, m.scope_detach]
      by_cases here : key = name
      · simp [here, detaches]
      · simp [here]
    · have nothing : s.standsFor? o key = none := standsFor?_eq_none_iff.2 fun m kind => absurd kind (unmapped m)
      unfold Store.standsFor? at nothing
      rw [after, nothing, ite_self]
  · rw [if_neg detaches, if_neg fun both => detaches both.2]

/-- The parameter that the name stands for gets the value that was asked for, and no other binding changes. -/
theorem binding? (e : ScopeRef) (n : String) : t.binding? e n =
    if s.standsFor? o name = some (e, n) then (s.binding? e n).map fun b => { b with value := d.value.getD b.value }
    else s.binding? e n := by
  rw [binding?_congr h.scopes, binding?_passing]

/-- What other names show does not change, unless they stand for the parameter that the value is passed on to. -/
theorem shown (backed : s.Backed other) (apart : other ≠ o ∨ key ≠ name)
    (unshared : s.standsFor? other key = none ∨ d.value = none ∨ s.standsFor? other key ≠ s.standsFor? o name) :
    t.getOwn? other key = s.getOwn? other key := by
  have bound (e : ScopeRef) (n : String) (place : s.standsFor? other key = some (e, n)) :
      t.binding? e n = s.binding? e n := by
    rw [h.binding?]
    split
    next passed =>
      rcases unshared with none | nothing | different
      · cases none.symm.trans place
      · simp [nothing]
      · exact absurd (place.trans passed.symm) different
    · rfl
  by_cases here : other = o
  · subst here
    have differs : key ≠ name := apart.resolve_left (not_not_intro rfl)
    refine backed.getOwn?_congr h.narrows (h.stored key differs) ?_ bound
    rw [h.standsFor?, if_neg fun both => differs both.1]
  · have same := h.others other here
    refine backed.getOwn?_congr ?_ ?_ ?_ bound
    · rw [same]
      exact .same
    · rw [same]
    · unfold Store.standsFor?
      rw [same]

/-- The parameters of the object can still be set. -/
theorem backed (backed : s.Backed o) : t.Backed o := by
  refine ⟨fun key p stored => ?_, fun m' key parameter kind' aliased' => ?_⟩
  · by_cases here : key = name
    · exact h.complete p (here ▸ stored)
    · exact backed.complete key p ((h.stored key here).symm.trans stored)
  have place := h.standsFor? key
  rw [standsFor?_of_aliased kind' aliased'] at place
  split at place
  · cases place
  next stays =>
    rcases s.unaliased_or o key with free | ⟨m, parameter', kind, aliased⟩
    · rw [standsFor?_eq_none_iff.2 free] at place
      cases place
    rw [standsFor?_of_aliased kind aliased] at place
    simp only [Option.some.injEq, Prod.mk.injEq] at place
    obtain ⟨scope, rfl⟩ := place
    obtain ⟨b, v, e, c, found, aliasable, stored, present⟩ := backed.getOwn? kind aliased
    refine ⟨?_, bindsAliasable_iff.2 ?_⟩
    · by_cases here : key = name
      · subst here
        simp only [true_and, not_or, Bool.not_eq_true] at stays
        obtain ⟨q, fields, shown⟩ := h.property
        rw [present, Descriptor.reconciled_data stays.1] at fields
        cases Property.descriptor_injective fields
        have writable : d.writable.getD true = true := by
          cases asked : d.writable with
          | none => rfl
          | some w => cases w <;> simp_all
        rw [writable] at shown
        obtain ⟨v', stored'⟩ := stored_of_arguments h.complete kind' shown
        exact ⟨v', _, _, stored'⟩
      · exact ⟨v, e, c, (h.stored key here).trans stored⟩
    · rw [scope, h.binding?, found]
      split
      · exact ⟨_, rfl, ⟨aliasable.mutable, aliasable.fixed, aliasable.initialized⟩⟩
      · exact ⟨b, rfl, aliasable⟩

end Redefines

end Store

end Ecma
