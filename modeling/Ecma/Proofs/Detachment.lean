import Ecma.Proofs.Assignment

/-!
# Indices that stop standing for parameters

An index of an `arguments` object stands for a parameter until it becomes an accessor, becomes read-only or is deleted.
Until then every value that it is given goes to the parameter. From then on it is a property like any other: it keeps
what it had at that moment, whatever becomes of the parameter, and the parameter is out of its reach. It never comes to
stand for a parameter again, whatever code runs.
-/

namespace Ecma

namespace Store

variable {s t : Store} {o : ObjectRef} {m : ParameterMap} {name : String} {d : Descriptor}

/-- What a request leaves that an `arguments` object grants. The parameter that the name stands for gets the value that
is asked for. A name that becomes an accessor or read-only is detached and no other, and one that becomes read-only has
the value asked for, or else that of the parameter. -/
structure WritesThrough (s t : Store) (o : ObjectRef) (m : ParameterMap) (name : String) (d : Descriptor) : Prop
    extends s.Redefines t o name d where
  bindings : ∀ e n, t.binding? e n =
    if e = m.scope ∧ m.parameter? name = some n then
      (s.binding? e n).map fun b => { b with value := d.value.getD b.value }
    else s.binding? e n
  mapped : (t.object o).kind =
    .arguments (some (if d.isAccessor = true ∨ d.writable = some false then m.detach name else m))
  stands : ∀ key, t.standsFor? o key =
    if key = name ∧ (d.isAccessor = true ∨ d.writable = some false) then none else s.standsFor? o key
  readOnly : ∀ parameter, m.parameter? name = some parameter → d.writable = some false →
    ∃ b e c, s.binding? m.scope parameter = some b ∧ t.getOwn? o name = some (.data (d.value.getD b.value) false e c)

/-- An `arguments` object that stands for parameters, but not under this name. -/
def Detached (s : Store) (o : ObjectRef) (name : String) : Prop :=
  ∃ m, (s.object o).kind = .arguments (some m) ∧ m.parameter? name = none

/-- What is left when a name is deleted, and with it what it stood for. -/
structure Loses (s t : Store) (o : ObjectRef) (name : String) : Prop where
  gone : t.getOwn? o name = none
  detached : t.Detached o name
  stands : ∀ key, t.standsFor? o key = if key = name then none else s.standsFor? o key
  stored : ∀ key, key ≠ name → (t.object o).properties.get? key = (s.object o).properties.get? key
  prototype : (t.object o).prototype = (s.object o).prototype
  className : (t.object o).className = (s.object o).className
  extensible : (t.object o).extensible = (s.object o).extensible
  size : t.objects.size = s.objects.size
  others : ∀ other, other ≠ o → t.object other = s.object other
  scopes : t.scopes = s.scopes
  generators : t.generators = s.generators
  contexts : t.contexts = s.contexts

/-- What a name shows has nothing to do with any binding: it would be the same if scopes were different, and stays when
a binding is set. To define, delete or assign the property changes no binding either, unless it calls a setter. -/
structure Parted (s : Store) (o : ObjectRef) (name : String) : Prop where
  shown : ∀ scopes, { s with scopes := scopes }.getOwn? o name = s.getOwn? o name
  set : ∀ E c e bindings n v strict, (s.scope e).record = .declarative bindings →
    (e.setMutable E n v strict c s).store.getOwn? o name = s.getOwn? o name
  define : ∀ E c d throw, (o.define E name d throw).Quiet c s fun _ t => t.scopes = s.scopes
  delete : ∀ c throw, (o.delete name throw).Quiet c s fun _ t => t.scopes = s.scopes
  put : ∀ E c v throw, ((o.put E name v throw).Quiet c s fun _ t => t.scopes = s.scopes) ∨
    ∃ p f, s.getProperty? o name = some p ∧ p.setter? = some f ∧
      (o.put E name v throw).ActsAs (do let _ ← E.call (.object f) (.object o) [v]) c s

theorem Detached.unaliased (h : s.Detached o name) : s.Unaliased o name := by
  obtain ⟨m, kind, free⟩ := h
  intro m' kind'
  cases kind.symm.trans kind'
  exact free

/-- The parameters of an `arguments` object that satisfies the invariant of such objects can be set. -/
theorem backed_of_aliased (kind : (s.object o).kind = .arguments (some m))
    (complete : ∀ name p, (s.object o).properties.get? name = some p → p.Complete)
    (aliased : ∀ i parameter, m.names[i]? = some (some parameter) → s.Aliased o m i parameter) : s.Backed o := by
  refine ⟨complete, fun m' name parameter kind' stands => ?_⟩
  cases kind.symm.trans kind'
  obtain ⟨i, index, there⟩ := Option.bind_eq_some_iff.1 stands
  obtain ⟨named, small⟩ := Index.name_of_ofName? index
  have slot : m.names[i]? = some (some parameter) := by
    cases found : m.names[i]? with
    | none => simp [found] at there
    | some slot =>
      rw [found] at there
      exact congrArg some there
  obtain ⟨bindings, b, record, found, aliasable, own⟩ := (aliased i parameter slot).binding
  obtain ⟨stored, _⟩ := own small
  rw [named] at stored
  exact ⟨stored, bindings, b, record, found, aliasable⟩

theorem Redefines.writesThrough (h : s.Redefines t o name d) (kind : (s.object o).kind = .arguments (some m))
    (backed : s.Backed o) (unmixed : d.isMixed = false) : s.WritesThrough t o m name d where
  toRedefines := h
  bindings e n := by
    have place : s.standsFor? o name = some (e, n) ↔ e = m.scope ∧ m.parameter? name = some n := by
      simp only [Store.standsFor?, kind, Option.map_eq_some_iff, Prod.mk.injEq]
      constructor
      · rintro ⟨_, found, rfl, rfl⟩
        exact ⟨rfl, found⟩
      · rintro ⟨rfl, found⟩
        exact ⟨n, found, rfl, rfl⟩
    rw [h.binding?]
    simp only [place]
  mapped := by
    rw [h.kind]
    unfold Object.redefined
    dsimp only [Option.map_none, Option.getD_none]
    split
    · simp only [Object.detached, kind]
    · exact kind
  stands := h.standsFor?
  readOnly parameter aliased readOnly := by
    obtain ⟨b, v, e, c, bound, _, _, present⟩ := backed.getOwn? kind aliased
    obtain ⟨q, fields, shown⟩ := h.property
    have data : d.isAccessor = false := by
      simpa [Descriptor.isMixed, Descriptor.isData, readOnly] using unmixed
    rw [present, Descriptor.reconciled_data data, readOnly] at fields
    exact ⟨b, _, _, bound, shown.trans (congrArg some (Property.descriptor_injective fields))⟩

/-- A name that is not there is lost already. -/
theorem Loses.of_absent (kind : (s.object o).kind = .arguments (some m)) (backed : s.Backed o)
    (absent : s.getOwn? o name = none) : s.Loses s o name where
  gone := absent
  detached := ⟨m, kind, backed.unaliased_of_absent absent m kind⟩
  stands key := by
    split
    next same =>
      rw [same, standsFor?_eq_none_iff]
      exact backed.unaliased_of_absent absent
    · rfl
  stored _ _ := rfl
  prototype := rfl
  className := rfl
  extensible := rfl
  size := rfl
  others _ _ := rfl
  scopes := rfl
  generators := rfl
  contexts := rfl

theorem Loses.without (kind : (s.object o).kind = .arguments (some m)) (name : String) :
    s.Loses (s.modifyObject o (·.without name)) o name := by
  have new := object_modifyObject s (·.without name) (inside_of_arguments kind)
  have rest : ((s.object o).without name).kind = .arguments (some (m.detach name)) := by
    simp only [Object.without, Object.detached, kind]
  exact {
    gone := by
      have erased : ((s.modifyObject o (·.without name)).object o).properties.get? name = none := by
        rw [new, Object.without, Object.properties_detached, NameMap.get?_erase, if_pos rfl]
      rw [getOwn?_of_get?_eq_none erased, characters, new, rest]
    detached := ⟨m.detach name, by rw [new, rest], by rw [m.parameter?_detach, if_pos rfl]⟩
    stands := fun key => by
      unfold standsFor?
      rw [new, rest, kind]
      dsimp only
      rw [m.parameter?_detach, m.scope_detach]
      split <;> rfl
    stored := fun key apart => by
      rw [new, Object.without, Object.properties_detached, NameMap.get?_erase, if_neg apart]
    prototype := by rw [new, Object.without, Object.prototype_detached]
    className := by rw [new, Object.without, Object.className_detached]
    extensible := by rw [new, Object.without, Object.extensible_detached]
    size := by simp [modifyObject]
    others := fun _ => object_modifyObject_of_ne s _
    scopes := rfl
    generators := rfl
    contexts := rfl }

/-- Nothing that an object shows under a name that stands for nothing depends on scopes. -/
theorem Unaliased.getOwn?_congr (free : s.Unaliased o name) (objects : t.objects = s.objects) :
    t.getOwn? o name = s.getOwn? o name := by
  have same : t.object o = s.object o := by rw [object, objects, object]
  have free' : t.Unaliased o name := fun m kind => free m (same ▸ kind)
  cases stored : (s.object o).properties.get? name with
  | some p => rw [getOwn?_of_unaliased stored free, getOwn?_of_unaliased (same ▸ stored) free']
  | none => rw [getOwn?_of_get?_eq_none stored, getOwn?_of_get?_eq_none (same ▸ stored), same]

end Store

namespace ObjectRef

variable {s t : Store} {o : ObjectRef} {m : ParameterMap} {name : String} {d : Descriptor}

theorem Defines.scopes {r : Option Bool} (h : Defines s o name d r t) : t.scopes = s.scopes := by cases h <;> rfl

theorem define_parted (h : s.Detached o name) (E : Engine) (c : Config) (d : Descriptor) (throw : Bool) :
    (o.define E name d throw).Quiet c s fun _ t => t.scopes = s.scopes := by
  obtain ⟨m, kind, free⟩ := h
  refine check_quiet rfl fun _ => .read_bind ?_
  rw [kind]
  dsimp only
  refine .bind defineOrdinary_quiet (fun granted t defines => ?_) fun t defines => defines.scopes
  rw [free]
  split
  · exact .pure defines.scopes
  · exact .reject fun _ _ => defines.scopes

theorem delete_parted (c : Config) (throw : Bool) : (o.delete name throw).Quiet c s fun _ t => t.scopes = s.scopes := by
  refine .read_bind ?_
  cases s.getOwn? o name with
  | none => exact .pure rfl
  | some p =>
    dsimp only
    split
    · exact .modify_bind (.pure rfl)
    · exact .reject fun _ _ => rfl

theorem put_parted (h : s.Detached o name) (E : Engine) (c : Config) (v : Value) (throw : Bool) :
    ((o.put E name v throw).Quiet c s fun _ t => t.scopes = s.scopes) ∨
    ∃ p f, s.getProperty? o name = some p ∧ p.setter? = some f ∧
      (o.put E name v throw).ActsAs (do let _ ← E.call (.object f) (.object o) [v]) c s := by
  have defines (d : Descriptor) : (do let _ ← o.define E name d throw : Action Unit).Quiet c s fun _ t =>
      t.scopes = s.scopes :=
    .bind (define_parted h E c d throw) (fun _ _ same => .pure same) fun _ same => same
  cases can : s.canPut o name with
  | false =>
    refine .inl (.read_bind ?_)
    rw [can, if_neg Bool.false_ne_true]
    split
    · exact .fail rfl
    · exact .pure rfl
  | true =>
    by_cases data : (s.getOwn? o name).any (·.isData) = true
    · refine .inl (.read_bind ?_)
      rw [can, if_pos rfl]
      refine .read_bind ?_
      rw [if_pos data]
      exact defines _
    · cases setter : (s.getProperty? o name).bind (·.setter?) with
      | some f =>
        obtain ⟨p, found, settable⟩ := Option.bind_eq_some_iff.1 setter
        exact .inr ⟨p, f, found, settable, put_of_setter can found settable data E v throw c⟩
      | none =>
        refine .inl (.read_bind ?_)
        rw [can, if_pos rfl]
        refine .read_bind ?_
        rw [if_neg data]
        refine .read_bind ?_
        rw [setter]
        exact defines _

end ObjectRef

/-- A binding of a declarative record is set without any change to objects. -/
theorem ScopeRef.objects_setMutable {s : Store} {e : ScopeRef} {bindings : NameMap Binding}
    (record : (s.scope e).record = .declarative bindings) (E : Engine) (c : Config) (n : String) (v : Value)
    (strict : Bool) : (e.setMutable E n v strict c s).store.objects = s.objects := by
  rw [setMutable, Action.read_bind_run, record]
  dsimp only [setDeclarative]
  cases bindings.get? n with
  | none => rfl
  | some b =>
    dsimp only
    split
    · rfl
    · split <;> rfl

theorem Store.Detached.parted {s : Store} {o : ObjectRef} {name : String} (h : s.Detached o name) :
    s.Parted o name where
  shown _ := h.unaliased.getOwn?_congr rfl
  set E c _ _ n v strict record := h.unaliased.getOwn?_congr (ScopeRef.objects_setMutable record E c n v strict)
  define := ObjectRef.define_parted h
  delete := ObjectRef.delete_parted
  put := ObjectRef.put_parted h

namespace ObjectRef

variable {s t : Store} {o : ObjectRef} {m : ParameterMap} {name : String}

theorem delete_of_fixed {p : Property} (present : s.getOwn? o name = some p) (fixed : p.configurable = false)
    (c : Config) : Action.TurnsDown (o.delete name) c s := by
  refine .read_bind ?_
  rw [present]
  dsimp only
  rw [fixed]
  exact .reject rfl

/-- A name that can be deleted is deleted, and stands for nothing any more. -/
theorem delete_of_configurable (kind : (s.object o).kind = .arguments (some m)) (backed : s.Backed o)
    (configurable : ∀ p, s.getOwn? o name = some p → p.configurable = true) :
    ∃ t, (∀ c throw, (o.delete name throw).Does c s true t) ∧ s.Loses t o name := by
  cases own : s.getOwn? o name with
  | none =>
    refine ⟨s, fun c throw => .read_bind ?_, .of_absent kind backed own⟩
    rw [own]
    exact .pure
  | some p =>
    refine ⟨s.modifyObject o (·.without name), fun c throw => .read_bind ?_, .without kind name⟩
    rw [own]
    dsimp only
    rw [if_pos (configurable p own)]
    exact .modify_bind .pure

end ObjectRef

/-- An object that is there may give up what its names stand for, and is otherwise of the kind that it was. -/
theorem Change.narrows {V : Terms} {w : V.World} {F : Store → Store} (made : Change V w F) {o : ObjectRef}
    (inside : o.index < (V.left w).objects.size) :
    ((V.left w).object o).kind.Narrows ((F (V.left w)).object o).kind := by
  have same {t : Store} (object : t.object o = (V.left w).object o) :
      ((V.left w).object o).kind.Narrows (t.object o).kind := by
    rw [object]
    exact .same
  have modified {other : ObjectRef} {f : Object → Object} (narrows : ∀ obj : Object, obj.kind.Narrows (f obj).kind) :
      ((V.left w).object o).kind.Narrows (((V.left w).modifyObject other f).object o).kind := by
    rcases (V.left w).object_modifyObject_cases other f o with old | ⟨rfl, _, new⟩
    · exact same old
    · rw [new]
      exact narrows _
  cases made with
  | addObject => exact same (Store.object_addObject_old _ _ inside)
  | addFunction =>
    refine same ?_
    rw [Store.object_addFunction, if_neg (by omega), if_neg (by omega)]
  | addProperty => exact modified fun _ => .same
  | changeProperty => exact modified fun _ => .same
  | @changeAliased _ _ name _ d _ change =>
    rw [Store.object_defineAliased]
    exact modified fun obj => obj.narrows_redefined name d change
  | deleteProperty => exact modified fun obj => obj.narrows_without _
  | close => exact modified fun _ => .same
  | shift => exact same (by rw [Store.object, Store.objects_setLexical, Store.object])
  | _ => exact same rfl

theorem Store.Detached.narrows {s t : Store} {o : ObjectRef} {name : String} (h : s.Detached o name)
    (narrows : (s.object o).kind.Narrows (t.object o).kind) : t.Detached o name := by
  have free := unaliased_of_narrows narrows h.unaliased
  obtain ⟨m, kind, _⟩ := h
  obtain ⟨m', kind', _⟩ := narrows.after kind
  exact ⟨m', kind', free m' kind'⟩

/-- Stores in which a name of an `arguments` object is detached. -/
def Detachment.frame (o : ObjectRef) (name : String) :
    Frame (.lenient (fun w : { s : Store // s.Detached o name } => w.1) (fun _ _ _ => True) (fun _ => True)
      fun _ _ => False) where
  right w := w.1
  le _ _ := True
  allows _ _ := True
  refl _ := trivial
  trans _ _ := trivial
  agree _ := rfl
  agree_size _ := rfl
  agree_drives _ := rfl
  agree_head _ _ := rfl
  drives_idle _ := trivial
  change {w F} made :=
    have inside : o.index < w.1.objects.size := Store.inside_of_arguments w.2.choose_spec.1
    ⟨⟨F w.1, w.2.narrows (made.narrows inside)⟩, rfl, rfl, trivial⟩
  enclose {w _ scope} _ :=
    ⟨⟨w.1.addScope scope, w.2.narrows .same⟩, rfl, rfl, trivial, trivial, trivial, fun _ _ _ _ => trivial⟩

/-- The law of runs in which a name of an `arguments` object stays detached. -/
def Law.detachment (o : ObjectRef) (name : String) : Law :=
  .ofFrame (Detachment.frame o name) (fun _ _ => trivial) (fun _ _ => trivial) (fun _ _ => .rfl) nofun

namespace Detachment

variable {o : ObjectRef} {name : String} {t : Store}

theorem aliases : (Law.detachment o name).Aliases := by
  refine .of_free (fun _ => trivial) (fun _ _ => trivial) fun {c w other key} _ => ?_
  have narrows : (w.1.object o).kind.Narrows ((w.1.modifyObject other (·.detached key)).object o).kind := by
    rcases w.1.object_modifyObject_cases other (·.detached key) o with same | ⟨rfl, _, new⟩
    · rw [same]
      exact .same
    · rw [new]
      exact Object.narrows_detached ..
  have onward : (Law.detachment o name).Onward w ⟨_, w.2.narrows narrows⟩ := .of_generators trivial rfl
  exact fun _ => ⟨_, .done onward, .value_of (onward.reached rfl) trivial rfl rfl⟩

theorem exotics : (Law.detachment o name).Exotics := .of_aliases aliases (fun _ _ _ => trivial) nofun

/-- What obeys the law leaves the name detached. -/
theorem detached_of_obeys {α : Type} {c : Config} {x : Action α} {Q : (Law.detachment o name).World → α → Prop}
    (h : t.Detached o name) (obeys : (Law.detachment o name).Obeys c ⟨t, h⟩ x x Q) : (x c t).store.Detached o name := by
  obtain ⟨u, _, ends⟩ := obeys fun _ _ _ => trivial
  have left : (x c t).store = u.1 := ends.store
  rw [left]
  exact u.2

end Detachment

namespace ObjectRef

variable {s : Store} {o : ObjectRef} {m : ParameterMap}

/-- A name that is detached stays so, whatever code runs and whatever a host asks for. -/
theorem detached_for_good {t : Store} {name : String} (h : t.Detached o name) (config : Config) :
    (∀ requests, ∀ u ∈ (Machine.mk config t).visited requests, u.Detached o name) ∧
    ∀ budget, (∀ e, ((Engine.ofBudget budget).expr e config t).store.Detached o name) ∧
      (∀ labels stmt, ((Engine.ofBudget budget).stmt labels stmt config t).store.Detached o name) ∧
      ∀ f this args, ((Engine.ofBudget budget).call f this args config t).store.Detached o name := by
  refine ⟨fun requests u mem => ?_, fun budget => ?_⟩
  · have follows : (Law.detachment o name).Follows ⟨t, h⟩ ((Machine.mk config t).visited requests) :=
      Law.follows_visited Detachment.exotics rfl (.inr fun _ _ => trivial) fun _ _ _ => trivial
    obtain ⟨worlds, stores, _, _⟩ := follows
    rw [← stores] at mem
    obtain ⟨w, _, rfl⟩ := List.mem_map.1 mem
    exact w.2
  · have engines : (Law.detachment o name).Engines (.ofBudget budget) (.ofBudget budget) :=
      Law.engines_ofBudget Detachment.exotics (Nat.le_refl budget)
    exact ⟨fun e => Detachment.detached_of_obeys h engines.expr,
      fun labels stmt => Detachment.detached_of_obeys h (engines.stmt ⟨trivial, fun _ _ _ _ => trivial⟩),
      fun f this args => Detachment.detached_of_obeys h (engines.call trivial trivial fun _ _ => trivial)⟩

/-- What an `arguments` object does with its names, as long as its properties are complete and what they stand for is as
a call made it. A request that is turned down changes nothing. A value that is granted goes to the parameter, and a name
is detached, alone, by becoming an accessor, by becoming read-only, at the value asked for or that of the parameter, or by
being deleted; no other request detaches it. A name that is detached has nothing to do with any binding and stays so,
whatever runs. -/
theorem arguments_written_through (kind : (s.object o).kind = .arguments (some m))
    (complete : ∀ name p, (s.object o).properties.get? name = some p → p.Complete)
    (aliased : ∀ i parameter, m.names[i]? = some (some parameter) → s.Aliased o m i parameter) (name : String) :
    (∀ d : Descriptor, d.isMixed = false →
      (¬s.Allows o name d → ∀ E c, Action.TurnsDown (o.define E name d) c s) ∧
      (s.Allows o name d → ∃ t, (∀ E c throw, (o.define E name d throw).Does c s true t) ∧
        s.WritesThrough t o m name d)) ∧
    ((∃ p, s.getOwn? o name = some p ∧ p.configurable = false) → ∀ c, Action.TurnsDown (o.delete name) c s) ∧
    ((∀ p, s.getOwn? o name = some p → p.configurable = true) →
      ∃ t, (∀ c throw, (o.delete name throw).Does c s true t) ∧ s.Loses t o name) ∧
    ∀ t : Store, t.Detached o name → t.Parted o name ∧ ∀ config,
      (∀ requests, ∀ u ∈ (Machine.mk config t).visited requests, u.Detached o name) ∧
      ∀ budget, (∀ e, ((Engine.ofBudget budget).expr e config t).store.Detached o name) ∧
        (∀ labels stmt, ((Engine.ofBudget budget).stmt labels stmt config t).store.Detached o name) ∧
        ∀ f this args, ((Engine.ofBudget budget).call f this args config t).store.Detached o name := by
  have backed : s.Backed o := Store.backed_of_aliased kind complete aliased
  have inside := Store.inside_of_arguments kind
  have other : (s.object o).kind ≠ .array := by simp [kind]
  refine ⟨fun d unmixed => ?_, ?_, fun configurable => delete_of_configurable kind backed configurable,
    fun t detached => ⟨detached.parted, detached_for_good detached⟩⟩
  · rcases define_decides backed inside other unmixed name with ⟨allows, t, redefines, does⟩ | ⟨against, turnsDown⟩
    · exact ⟨fun against => absurd allows against, fun _ => ⟨t, does, redefines.writesThrough kind backed unmixed⟩⟩
    · exact ⟨fun _ => turnsDown, fun allows => absurd allows against⟩
  · rintro ⟨p, present, fixed⟩
    exact delete_of_fixed present fixed

/-- The last of the places of a repeated parameter is made read-only: it keeps the value of the parameter, and stands
for it no longer in any later state. -/
theorem arguments_written_through_repeated :
    ∃ s ∈ (Machine.new .standard).states [(9, .global ⟨[.expr (.call
        (.function ⟨none, ["a", "b", "a"], [], false, false⟩)
        [.null, .boolean true, .null])], false⟩)],
      ∃ t, (∀ E c throw, (ObjectRef.mk 59).define E "2" ⟨none, some false, none, none, none, none⟩ throw
          |>.Does c s true t) ∧
        t.getOwn? ⟨59⟩ "2" = some (.data .null false true true) ∧ t.Parted ⟨59⟩ "2" ∧
        ∀ requests, ∀ u ∈ (Machine.mk .standard t).visited requests, u.Detached ⟨59⟩ "2" := by
  have called : ((Machine.new .standard).states [(9, .global ⟨[.expr (.call
      (.function ⟨none, ["a", "b", "a"], [], false, false⟩) [.null, .boolean true, .null])], false⟩)]).any
        (fun s => (s.object ⟨59⟩).kind.mapped?.any (·.parameter? "2" = some "a") &&
          decide (s.getOwn? ⟨59⟩ "2" = some (.data .null true true true))) = true := by decide +kernel
  obtain ⟨s, mem, called⟩ := List.any_eq_true.1 called
  obtain ⟨mapped, shown⟩ := Bool.and_eq_true_iff.1 called
  obtain ⟨m, mapped, _⟩ := (Option.any_eq_true ..).1 mapped
  have kind := ObjectKind.eq_of_mapped? mapped
  have shown := of_decide_eq_true shown
  obtain ⟨worlds, states, _, reached⟩ := (Machine.governed .standard _).worlds
  rw [← states] at mem
  obtain ⟨w, there, rfl⟩ := List.mem_map.1 mem
  have descended := World.Steps.descended (reached w there) World.descended_initial
  have through := arguments_written_through kind (w.ok.backed _).complete
    (fun i parameter => World.aliased descended kind) "2"
  obtain ⟨t, does, written⟩ := (through.1 ⟨none, some false, none, none, none, none⟩ rfl).2
    (by rw [Store.Allows, shown]; exact .inl rfl)
  have detached : t.Detached ⟨59⟩ "2" := by
    refine ⟨_, written.mapped, ?_⟩
    rw [if_pos (.inr rfl), m.parameter?_detach, if_pos rfl]
  obtain ⟨parted, forGood⟩ := through.2.2.2 t detached
  refine ⟨w.store, states ▸ mem, t, does, ?_, parted, (forGood .standard).1⟩
  obtain ⟨q, fields, present⟩ := written.property
  rw [shown] at fields
  exact present.trans (congrArg some (Property.descriptor_injective (fields.trans rfl)))

end ObjectRef

end Ecma
