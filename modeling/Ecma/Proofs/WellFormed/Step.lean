import Ecma.Proofs.WellFormed.Effect

/-!
# Every change keeps a store well formed

One lemma for each shape a change can have: an object is added or replaced, the bindings of a scope are replaced, a scope
is added, or contexts and generators change. Deleting a binding is the change that never happens: only strict code is
where deletable bindings are, and strict code cannot ask for it.
-/

namespace Ecma

namespace Store

variable {s : Store} {reserved : ScopeRef → Prop} {o : ObjectRef} {e : ScopeRef} {name : String} {obj : Object}

namespace ObjectOk

variable (ok : s.ObjectOk reserved obj)
include ok

/-- Properties may be replaced by others that refer to what is there, where those that stand for parameters stay
writable data. -/
theorem withProperties {properties : NameMap Property}
    (held : ∀ name p, properties.get? name = some p → s.KeepsProperty p)
    (writable : ∀ m name parameter, obj.kind = .arguments (some m) → m.parameter? name = some parameter →
      ∃ v e c, properties.get? name = some (.data v true e c)) :
    s.ObjectOk reserved { obj with properties := properties } where
  prototype := ok.prototype
  properties := held
  closure := ok.closure
  aliases m name parameter kind aliased :=
    ⟨writable m name parameter kind aliased, (ok.aliases m name parameter kind aliased).2⟩

theorem withProperty {q : Property} (held : s.KeepsProperty q)
    (writable : ∀ m parameter, obj.kind = .arguments (some m) → m.parameter? name = some parameter →
      ∃ v e c, q = .data v true e c) : s.ObjectOk reserved (obj.withProperty name q) := by
  refine ok.withProperties (fun other p found => ?_) fun m other parameter kind aliased => ?_
  · rw [NameMap.get?_insert] at found
    split at found
    · cases found
      exact held
    · exact ok.properties other p found
  · rw [NameMap.get?_insert]
    split
    next same =>
      obtain ⟨v, e, c, rfl⟩ := writable m parameter kind (same ▸ aliased)
      exact ⟨v, e, c, rfl⟩
    · exact (ok.aliases m other parameter kind aliased).1

theorem detached (name : String) : s.ObjectOk reserved (obj.detached name) where
  prototype p found := ok.prototype p (by rwa [Object.prototype_detached] at found)
  properties other p found := ok.properties other p (by rwa [Object.properties_detached] at found)
  closure code e strict kind := by
    rcases Object.kind_detached obj name with ⟨m, _, after⟩ | ⟨_, after⟩
    · rw [after] at kind
      cases kind
    · exact ok.closure code e strict (after ▸ kind)
  aliases m other parameter kind aliased := by
    obtain ⟨old, before, scope, names⟩ := Object.parameter?_of_detached kind
    rw [names] at aliased
    split at aliased
    · cases aliased
    · rw [Object.properties_detached, scope]
      exact ok.aliases old other parameter before aliased

theorem without (name : String) : s.ObjectOk reserved (obj.without name) := by
  rw [Object.without, Object.detached_withProperties]
  refine (ok.detached name).withProperties (fun other p found => ?_) fun m other parameter kind aliased => ?_
  · rw [NameMap.get?_erase] at found
    split at found
    · cases found
    · exact ok.properties other p found
  · obtain ⟨old, before, _, names⟩ := Object.parameter?_of_detached kind
    rw [names] at aliased
    split at aliased
    · cases aliased
    next apart =>
      rw [NameMap.get?_erase, if_neg apart]
      exact (ok.aliases old other parameter before aliased).1

/-- Defining an index that stands for a parameter. -/
theorem redefined {d : Descriptor} {v : Value} {enumerable configurable : Bool} {change : Option Property}
    (granted : (Property.data v true enumerable configurable).Grants d name change)
    (held : ∀ q, change = some q → s.KeepsProperty q) : s.ObjectOk reserved (obj.redefined name d change) := by
  cases change with
  | none =>
    obtain ⟨noAccessor, writable⟩ := Property.plain_of_unchanged granted
    have plain : ¬(d.isAccessor = true ∨ d.writable = some false) := by simp [noAccessor, writable]
    rw [Object.redefined, if_neg plain]
    exact ok
  | some q =>
    obtain ⟨_, _, rfl⟩ := Property.redefine_changed granted
    unfold Object.redefined
    split
    · show s.ObjectOk reserved ((obj.withProperty name _).detached name)
      rw [Object.detached_withProperty]
      refine (ok.detached name).withProperty (held _ rfl) fun m parameter kind aliased => ?_
      obtain ⟨_, _, _, names⟩ := Object.parameter?_of_detached kind
      rw [names, if_pos rfl] at aliased
      cases aliased
    next plain =>
      refine ok.withProperty (held _ rfl) fun _ _ _ _ => ?_
      rw [not_or, Bool.not_eq_true] at plain
      have writable : d.writable.getD true = true := by
        rcases requested : d.writable with _ | (_ | _)
        · rfl
        · exact absurd requested plain.2
        · rfl
      rw [Property.update_convert_data plain.1, writable]
      exact ⟨_, _, _, rfl⟩

theorem closed : s.ObjectOk reserved obj.closed := ⟨ok.prototype, ok.properties, ok.closure, ok.aliases⟩

end ObjectOk

theorem holds_getD {v : Option Value} {u : Value} (known : ∀ u, v = some u → s.Holds u) (other : s.Holds u) :
    s.Holds (v.getD u) := by
  cases v with
  | none => exact other
  | some u => exact known u rfl

theorem keepsProperty_complete {d : Descriptor} (value : ∀ v, d.value = some v → s.Holds v)
    (get : ∀ v, d.get = some v → s.Holds v) (set : ∀ v, d.set = some v → s.Holds v) : s.KeepsProperty d.complete := by
  have undefined : s.Holds .undefined := holds_of_isPrimitive rfl
  unfold Descriptor.complete
  split
  · exact .accessor (holds_getD get undefined) (holds_getD set undefined)
  · exact .data (holds_getD value undefined)

theorem HoldsProperty.convert {p : Property} (held : s.HoldsProperty p) (d : Descriptor) :
    s.HoldsProperty (p.convert d) := by
  have undefined : s.Holds .undefined := holds_of_isPrimitive rfl
  unfold Property.convert
  split
  · exact held
  split
  · exact (KeepsProperty.accessor undefined undefined).holds
  · exact (KeepsProperty.data undefined).holds

theorem HoldsProperty.update {p : Property} {d : Descriptor} (held : s.HoldsProperty p)
    (value : ∀ v, d.value = some v → s.Holds v) (get : ∀ v, d.get = some v → s.Holds v)
    (set : ∀ v, d.set = some v → s.Holds v) : s.HoldsProperty (p.update d) := by
  have either {asked there : Option Value} (asks : ∀ v, asked = some v → s.Holds v)
      (holds : ∀ v, there = some v → s.Holds v) : ∀ v, asked.or there = some v → s.Holds v := by
    intro v new
    rcases Option.or_eq_some_iff.1 new with own | ⟨_, kept⟩
    · exact asks v own
    · exact holds v kept
  exact ⟨either value held.1, either get held.2.1, either set held.2.2⟩

/-- A request for one kind makes a complete property of one. -/
theorem Holding.redefine (h : s.Holding) {p q : Property} {d : Descriptor} (present : s.getOwn? o name = some p)
    (granted : p.redefine d name = .changed q) (unmixed : d.isMixed = false)
    (value : ∀ v, d.value = some v → s.Holds v) (get : ∀ v, d.get = some v → s.Holds v)
    (set : ∀ v, d.set = some v → s.Holds v) : s.KeepsProperty q := by
  obtain ⟨_, _, rfl⟩ := Property.redefine_changed granted
  have shown := h.keepsProperty_getOwn? present
  exact ((shown.holds.convert d).update value get set).keeps (shown.complete.update_convert unmixed)

/-- A function and what its instances inherit from refer to each other. -/
theorem objectHeld_addFunction (intrinsics : ∀ i : Intrinsic, i.ref.index < s.objects.size) (code : FunctionCode)
    (e : ScopeRef) (strict : Bool) :
    (s.addFunction code e strict).ObjectHeld (.instancePrototype code s.nextObject) ∧
      (s.addFunction code e strict).ObjectHeld (.function code e strict ⟨s.nextObject.index + 1⟩) := by
  have size := s.size_addFunction code e strict
  have still (i : Intrinsic) : i.ref.index < (s.addFunction code e strict).objects.size := by
    have := intrinsics i
    omega
  refine ⟨objectHeld_instancePrototype still ?_, objectHeld_function still ?_⟩
  all_goals
    simp only [size, nextObject]
    omega

end Store

namespace Store.WellFormed

variable {s t : Store} {reserved : ScopeRef → Prop} {o : ObjectRef} {e : ScopeRef} {name : String} {obj : Object}
  (h : s.WellFormed reserved)
include h

theorem addObject (ok : s.ObjectOk reserved obj) : (s.addObject obj).WellFormed reserved := by
  have grows := Grows.addObject s obj
  refine h.grow grows (fun _ _ => .rfl) h.bounded (fun o => ?_) (fun _ => .inl rfl) (fun _ mem => .inl mem)
    fun _ _ => .inl
  rw [object_addObject]
  split
  · exact .inr (grows.objectOk (fun _ _ => .rfl) ok)
  · exact .inl rfl

theorem modifyObject {f : Object → Object} (grows : s.Grows (s.modifyObject o f))
    (ok : o.index < s.objects.size → s.ObjectOk reserved (f (s.object o))) :
    (s.modifyObject o f).WellFormed reserved := by
  refine h.grow grows (fun _ _ => .rfl) h.bounded (fun other => ?_) (fun _ => .inl rfl) (fun _ mem => .inl mem)
    fun _ _ => .inl
  rcases object_modifyObject_cases s o f other with same | ⟨_, inside, new⟩
  · exact .inl same
  · rw [new]
    exact .inr (grows.objectOk (fun _ _ => .rfl) (ok inside))

/-- A name of a scope is bound anew. -/
theorem bind {old : NameMap Binding} {b : Binding} (record : (s.scope e).record = .declarative old)
    (grows : s.Grows (s.withBindings e (old.insert name b))) (held : s.Holds b.value)
    (deletable : b.deletable = true → reserved e) : (s.withBindings e (old.insert name b)).WellFormed reserved := by
  have bounded (d : ScopeRef) (mem : reserved d) : d.index < (s.withBindings e (old.insert name b)).scopes.size :=
    Nat.lt_of_lt_of_le (h.bounded d mem) grows.scopes
  refine h.grow grows (fun _ _ => .rfl) bounded (fun _ => .inl rfl) (fun d => ?_) (fun _ mem => .inl mem)
    fun _ _ => .inl
  rcases scope_withBindings_cases s e (old.insert name b) d with same | ⟨rfl, _, new⟩
  · exact .inl same
  · rw [new]
    refine .inr (grows.scopeOk (fun _ _ => .rfl) h.bounded ⟨(h.scopes d).outer, ?_, nofun⟩)
    rintro _ other b' ⟨⟩ found
    rw [NameMap.get?_insert] at found
    split at found
    · cases found
      exact ⟨held, deletable⟩
    · exact (h.scopes d).bindings old other b' record found

/-- Contexts and generators that refer to what is there. -/
theorem of_same (objects : t.objects = s.objects) (scopes : t.scopes = s.scopes)
    (contexts : ∀ ctx ∈ t.contexts, ctx ∈ s.contexts ∨ s.ContextOk reserved ctx)
    (generators : ∀ g gen, t.generator? g = some gen → s.generator? g = some gen ∨ s.GeneratorOk reserved gen) :
    t.WellFormed reserved := by
  have grows := Grows.of_same objects scopes
  have same (e : ScopeRef) (_ : e.index < s.scopes.size) : reserved e ↔ reserved e := .rfl
  refine h.grow grows same (fun e mem => scopes ▸ h.bounded e mem) (fun o => .inl ?_) (fun e => .inl ?_)
    (fun ctx mem => (contexts ctx mem).imp_right (grows.contextOk same))
    fun g gen found => (generators g gen found).imp_right (grows.generatorOk same)
  · rw [object, objects, object]
  · rw [scope, scopes, scope]

/-- A function and what its instances inherit from are added at once. -/
theorem addFunction {code : FunctionCode} {strict : Bool} (usable : s.Usable reserved e strict) :
    (s.addFunction code e strict).WellFormed reserved := by
  have grows := Grows.addFunction s code e strict
  have same (e : ScopeRef) (_ : e.index < s.scopes.size) : reserved e ↔ reserved e := .rfl
  obtain ⟨instances, function⟩ := objectHeld_addFunction h.intrinsics code e strict
  refine h.grow grows same h.bounded (fun o => ?_) (fun _ => .inl rfl) (fun _ mem => .inl mem)
    fun _ _ => .inl
  rw [object_addFunction]
  split
  · obtain ⟨noCode, noAlias⟩ := Object.instancePrototype_plain code s.nextObject
    exact .inr (instances.ok noCode noAlias)
  · split
    · refine .inr ⟨function.prototype, function.properties, ?_, ?_⟩
      · rintro _ _ _ ⟨⟩
        exact grows.usable same usable
      · intro _ _ _ arguments
        cases arguments
    · exact .inl rfl

end Store.WellFormed

end Ecma
