import Ecma.Proofs.WellFormed.Initial

/-!
# What objects keep for good

The invariants that every object upholds from one state of a history to any later one, whatever code runs in between. Its
prototype, class and kind stay, but for the indices of an `arguments` object that stop standing for parameters. An object
that was closed stays closed and gets no new names. A property that cannot be reconfigured stays with its flags and its
kind, and all of it stays unless it is writable data.

Each change of the store keeps the objects it does not reach, and what an object shows of them depends on nothing but
what it has stored and on the parameters it stands for, which are writable.
-/

namespace Ecma

/-- What a property that cannot be reconfigured may become. An accessor is not writable, so it stays the very same, as
read-only data does. -/
structure Property.Stays (p q : Property) : Prop where
  configurable : q.configurable = p.configurable
  enumerable : q.enumerable = p.enumerable
  kind : q.isData = p.isData
  fixed : p.writable = false → q = p

namespace Property.Stays

theorem refl (p : Property) : p.Stays p := ⟨rfl, rfl, rfl, fun _ => rfl⟩

theorem trans {p q r : Property} (first : p.Stays q) (second : q.Stays r) : p.Stays r where
  configurable := second.configurable.trans first.configurable
  enumerable := second.enumerable.trans first.enumerable
  kind := second.kind.trans first.kind
  fixed readOnly := by
    obtain rfl := first.fixed readOnly
    exact second.fixed readOnly

/-- Writable data may get any value and may become read-only. -/
theorem data (v v' : Value) (w e c : Bool) : (Property.data v true e c).Stays (.data v' w e c) :=
  ⟨rfl, rfl, rfl, nofun⟩

end Property.Stays

namespace Store

/-- What an object keeps from one store to a later one. -/
structure Keeps (s t : Store) (o : ObjectRef) : Prop where
  prototype : (t.object o).prototype = (s.object o).prototype
  className : (t.object o).className = (s.object o).className
  kind : (s.object o).kind.Narrows (t.object o).kind
  closed : (s.object o).extensible = false → (t.object o).extensible = false ∧ ∀ name ∈ t.ownKeys o, name ∈ s.ownKeys o
  fixed : ∀ name p, s.getOwn? o name = some p → p.configurable = false → ∃ q, t.getOwn? o name = some q ∧ p.Stays q

/-- Every object of the one store keeps in the other what it must. -/
structure Preserves (s t : Store) : Prop where
  objects : s.objects.size ≤ t.objects.size
  keeps : ∀ o : ObjectRef, o.index < s.objects.size → s.Keeps t o

variable {s t u : Store} {o : ObjectRef} {name : String}

theorem Keeps.trans (first : s.Keeps t o) (second : t.Keeps u o) : s.Keeps u o where
  prototype := second.prototype.trans first.prototype
  className := second.className.trans first.className
  kind := first.kind.trans second.kind
  closed closed :=
    have now := first.closed closed
    have later := second.closed now.1
    ⟨later.1, fun name mem => now.2 name (later.2 name mem)⟩
  fixed name p found fixed := by
    obtain ⟨q, found', stays⟩ := first.fixed name p found fixed
    obtain ⟨r, found'', stays'⟩ := second.fixed name q found' (stays.configurable.trans fixed)
    exact ⟨r, found'', stays.trans stays'⟩

theorem Preserves.trans (first : s.Preserves t) (second : t.Preserves u) : s.Preserves u where
  objects := Nat.le_trans first.objects second.objects
  keeps o inside := (first.keeps o inside).trans (second.keeps o (Nat.lt_of_lt_of_le inside first.objects))

/-- Own names come from the names that are stored, and from what the object is. -/
theorem ownKeys_subset (narrows : (s.object o).kind.Narrows (t.object o).kind)
    (keys : ∀ name ∈ (t.object o).properties.keys, name ∈ (s.object o).properties.keys) :
    ∀ name ∈ t.ownKeys o, name ∈ s.ownKeys o := by
  intro name
  unfold ownKeys
  dsimp only
  generalize (s.object o).kind = kind at narrows ⊢
  generalize (t.object o).kind = kind' at narrows ⊢
  cases narrows with
  | same =>
    cases kind with
    | string text => exact fun mem => List.mem_append.2 ((List.mem_append.1 mem).imp_right (keys name))
    | _ => exact keys name
  | detached before =>
    subst before
    exact keys name

theorem characters_eq (narrows : (s.object o).kind.Narrows (t.object o).kind) :
    characters (t.object o) name = characters (s.object o) name := by
  unfold characters
  generalize (s.object o).kind = kind at narrows ⊢
  generalize (t.object o).kind = kind' at narrows ⊢
  cases narrows with
  | same => rfl
  | detached before =>
    subst before
    rfl

section Shown

variable {reserved : ScopeRef → Prop} (before : s.WellFormed reserved)
include before

/-- Where the same is stored, the same is shown, but for the values of parameters. -/
theorem stays_of_stored {p : Property} (narrows : (s.object o).kind.Narrows (t.object o).kind)
    (stored : (t.object o).properties.get? name = (s.object o).properties.get? name)
    (shown : s.getOwn? o name = some p) : ∃ q, t.getOwn? o name = some q ∧ p.Stays q := by
  cases found : (s.object o).properties.get? name with
  | none =>
    refine ⟨p, ?_, .refl p⟩
    rw [getOwn?_of_get?_eq_none (stored.trans found), characters_eq narrows, ← getOwn?_of_get?_eq_none found, shown]
  | some p' =>
    by_cases free : s.Unaliased o name
    · have same := (getOwn?_of_unaliased found free).symm.trans shown
      cases same
      exact ⟨p, getOwn?_of_unaliased (stored.trans found) (unaliased_of_narrows narrows free), .refl p⟩
    · simp only [Unaliased, Classical.not_forall] at free
      obtain ⟨m, kind, aliased⟩ := free
      obtain ⟨parameter, aliased⟩ := Option.ne_none_iff_exists'.1 aliased
      obtain ⟨_, b, v, e, c, _, _, _, found', shown'⟩ := before.getOwn?_aliased kind aliased
      have same := shown'.symm.trans shown
      cases same
      rcases getOwn?_of_get? (stored.trans found') with now | ⟨_, _, _, _, now⟩
      · exact ⟨_, now, .data ..⟩
      · exact ⟨_, now, .data ..⟩

theorem keeps_of (narrows : (s.object o).kind.Narrows (t.object o).kind)
    (prototype : (t.object o).prototype = (s.object o).prototype)
    (className : (t.object o).className = (s.object o).className)
    (closed : (s.object o).extensible = false → (t.object o).extensible = false ∧
      ∀ name ∈ (t.object o).properties.keys, name ∈ (s.object o).properties.keys)
    (fixed : ∀ name p, s.getOwn? o name = some p → p.configurable = false →
      (t.object o).properties.get? name = (s.object o).properties.get? name ∨
        ∃ q, t.getOwn? o name = some q ∧ p.Stays q) : s.Keeps t o where
  prototype := prototype
  className := className
  kind := narrows
  closed h := ⟨(closed h).1, ownKeys_subset narrows (closed h).2⟩
  fixed name p shown h := (fixed name p shown h).elim (fun stored => stays_of_stored before narrows stored shown) id

/-- An object that a change does not reach. -/
theorem keeps_of_same (same : t.object o = s.object o) : s.Keeps t o := by
  refine keeps_of before (same ▸ .same) (same ▸ rfl) (same ▸ rfl) (fun closed => ?_) fun _ _ _ _ => .inl (same ▸ rfl)
  rw [same]
  exact ⟨closed, fun _ mem => mem⟩

/-- An object that a change replaces, when all the others stay. -/
theorem keeps_modifyObject {f : Object → Object} (narrows : (s.object o).kind.Narrows (f (s.object o)).kind)
    (prototype : (f (s.object o)).prototype = (s.object o).prototype)
    (className : (f (s.object o)).className = (s.object o).className)
    (closed : (s.object o).extensible = false → (f (s.object o)).extensible = false ∧
      ∀ name ∈ (f (s.object o)).properties.keys, name ∈ (s.object o).properties.keys)
    (fixed : (s.modifyObject o f).object o = f (s.object o) → ∀ name p, s.getOwn? o name = some p →
      p.configurable = false → (f (s.object o)).properties.get? name = (s.object o).properties.get? name ∨
        ∃ q, (s.modifyObject o f).getOwn? o name = some q ∧ p.Stays q)
    (other : ObjectRef) : s.Keeps (s.modifyObject o f) other := by
  rcases object_modifyObject_cases s o f other with same | ⟨rfl, _, new⟩
  · exact keeps_of_same before same
  · refine keeps_of before ?_ ?_ ?_ ?_ ?_ <;> rw [new]
    · exact narrows
    · exact prototype
    · exact className
    · exact closed
    · exact fixed new

end Shown

theorem keys_withProperty {obj : Object} {p q : Property} (stored : obj.properties.get? name = some p) :
    ∀ other ∈ (obj.withProperty name q).properties.keys, other ∈ obj.properties.keys := by
  intro other mem
  have present : name ∈ obj.properties.keys :=
    NameMap.contains_iff_mem_keys.1 (Option.isSome_iff_exists.2 ⟨p, stored⟩)
  rwa [Object.withProperty, NameMap.keys_insert, if_pos present] at mem

/-- A property that changes is stored: the characters of a string do not change. -/
theorem stored_of_changed {p q : Property} {d : Descriptor} (present : s.getOwn? o name = some p)
    (granted : p.redefine d name = .changed q) (unmixed : d.isMixed = false) :
    ∃ p', (s.object o).properties.get? name = some p' := by
  cases found : (s.object o).properties.get? name with
  | some p' => exact ⟨p', rfl⟩
  | none =>
    rw [getOwn?_of_get?_eq_none found] at present
    obtain ⟨u, rfl⟩ := characters_eq_some present
    obtain ⟨_, _, writable, _⟩ := Property.fixed_changed granted (.data ..) unmixed rfl
    cases writable

end Store

namespace World

variable {w : World} {F : Store → Store} {o : ObjectRef} {name : String}

/-- The first half of defining an aliased index. -/
theorem keeps_redefined {m : ParameterMap} {parameter : String} {d : Descriptor} {p : Property} {change : Option Property}
    (kind : (w.store.object o).kind = .arguments (some m)) (aliased : m.parameter? name = some parameter)
    (present : w.store.getOwn? o name = some p) (granted : p.Grants d name change) (unmixed : d.isMixed = false)
    (other : ObjectRef) : w.store.Keeps (w.store.modifyObject o (·.redefined name d change)) other := by
  obtain ⟨properties, prototype, className, extensible⟩ := (w.store.object o).redefined_eq name d change
  obtain ⟨_, _, _, _, _, _, _, _, stored, _⟩ := w.ok.getOwn?_aliased kind aliased
  refine Store.keeps_modifyObject w.ok (Object.narrows_redefined ..) prototype className (fun closed => ?_)
    (fun new name' p' shown fixed => ?_) other
  · rw [extensible, properties]
    refine ⟨closed, ?_⟩
    cases change with
    | none => exact fun _ mem => mem
    | some q => exact Store.keys_withProperty stored
  · cases change with
    | none => exact .inl (properties ▸ rfl)
    | some q =>
      have inserted : ((w.store.object o).redefined name d (some q)).properties.get? name' =
          if name' = name then some q else (w.store.object o).properties.get? name' := by
        rw [properties]
        exact NameMap.get?_insert ..
      by_cases same : name' = name
      · subst same
        cases Option.some.inj (present.symm.trans shown)
        obtain ⟨v, e, rfl, rfl⟩ := Property.fixed_changed granted (w.ok.complete_getOwn? present) unmixed fixed
        rw [if_pos rfl, ← new] at inserted
        rcases Store.getOwn?_of_get? inserted with now | ⟨_, _, _, _, now⟩
        · exact .inr ⟨_, now, .data ..⟩
        · exact .inr ⟨_, now, .data ..⟩
      · exact .inl (inserted.trans (if_neg same))

/-- Every object keeps what it must when a change is made. -/
theorem keeps_of_change (made : Change terms w F) (inside : o.index < w.store.objects.size) :
    w.store.Keeps (F w.store) o := by
  have untouched {t : Store} (objects : t.objects = w.store.objects) : w.store.Keeps t o :=
    Store.keeps_of_same w.ok (by rw [Store.object, objects, Store.object])
  cases made with
  | addObject => exact Store.keeps_of_same w.ok (Store.object_addObject_old _ _ inside)
  | @addFunction code e strict =>
    refine Store.keeps_of_same w.ok ?_
    rw [Store.object_addFunction, if_neg (by omega), if_neg (by omega)]
  | @addProperty o' name d absent extensible =>
    refine Store.keeps_modifyObject (f := (·.withProperty name d.complete)) w.ok .same rfl rfl (fun closed => ?_)
      (fun _ name' p shown _ => .inl ?_) o
    · exact absurd (extensible.symm.trans closed) Bool.noConfusion
    · refine (NameMap.get?_insert ..).trans (if_neg ?_)
      rintro rfl
      have clash := absent.symm.trans shown
      cases clash
  | @changeProperty o' name d p q present granted known unmixed unaliased =>
    obtain ⟨p', stored⟩ := Store.stored_of_changed present granted unmixed
    refine Store.keeps_modifyObject (f := (·.withProperty name q)) w.ok .same rfl rfl
      (fun closed => ⟨closed, Store.keys_withProperty stored⟩) (fun new name' p shown fixed => ?_) o
    by_cases same : name' = name
    · subst same
      cases Option.some.inj (present.symm.trans shown)
      obtain ⟨v, e, rfl, shape⟩ := Property.fixed_changed granted (w.ok.complete_getOwn? present) unmixed fixed
      refine .inr ⟨q, Store.getOwn?_of_unaliased ?_ ?_, shape ▸ .data ..⟩
      · rw [new]
        exact (NameMap.get?_insert ..).trans (if_pos rfl)
      · exact Store.unaliased_of_narrows (new ▸ .same) unaliased.2
    · exact .inl ((NameMap.get?_insert ..).trans (if_neg same))
  | @changeAliased o' m name parameter d p change bindings b kind aliased present granted known unmixed record found =>
    have first := keeps_redefined kind aliased present granted unmixed o
    rw [Store.defineAliased_eq]
    dsimp only
    split
    · exact first
    · cases d.value with
      | none => exact first
      | some v => exact first.trans (Store.keeps_of_same (wellFormed_redefined kind aliased present granted known unmixed) rfl)
  | @deleteProperty o' name p present configurable =>
    have properties : ((w.store.object o').without name).properties = (w.store.object o').properties.erase name :=
      Object.properties_detached
    refine Store.keeps_modifyObject (f := (·.without name)) w.ok (Object.narrows_without ..)
      Object.prototype_detached Object.className_detached (fun closed => ⟨?_, fun name' mem => ?_⟩)
      (fun _ name' p' shown fixed => .inl ?_) o
    · rw [Object.without, Object.extensible_detached]
      exact closed
    · rw [properties, NameMap.keys_erase] at mem
      exact (List.mem_filter.1 mem).1
    · rw [properties, NameMap.get?_erase, if_neg]
      rintro rfl
      cases Option.some.inj (present.symm.trans shown)
      exact absurd (configurable.symm.trans fixed) Bool.noConfusion
  | close o' =>
    exact Store.keeps_modifyObject (f := Object.closed) w.ok .same rfl rfl (fun _ => ⟨rfl, fun _ mem => mem⟩)
      (fun _ _ _ _ _ => .inl rfl) o
  | addScope => exact untouched rfl
  | declare => exact untouched rfl
  | declareImmutable => exact untouched rfl
  | assign => exact untouched rfl
  | settle => exact untouched rfl
  | undeclare => exact untouched rfl
  | addGenerator => exact untouched rfl
  | steer => exact untouched rfl
  | enter => exact untouched rfl
  | leave => exact untouched rfl
  | shift => exact untouched (Store.objects_setLexical ..)

theorem Step.preserves {u : World} (step : w.Step F u) : w.store.Preserves u.store := by
  refine ⟨step.grows.objects, fun o inside => ?_⟩
  rw [step.store]
  exact keeps_of_change step.made inside

theorem Steps.preserves {u : World} (steps : w.Steps u) : w.store.Preserves u.store := by
  induction steps with
  | refl => exact ⟨Nat.le_refl _, fun o _ => Store.keeps_of_same w.ok rfl⟩
  | step _ last ih => exact ih.trans last.preserves

end World

/-- From each state of a history to every later one, all objects keep what they must. -/
theorem object_invariants (config : Config) (units : List (Nat × CodeUnit)) :
    ((Machine.new config).states units).Pairwise Store.Preserves := by
  obtain ⟨worlds, states, ordered, _⟩ := (Machine.governed config units).worlds
  rw [← states]
  exact ordered.map _ fun _ _ steps => World.Steps.preserves steps

end Ecma
