import Ecma.Proofs.WellFormed.Step

/-!
# Worlds that follow each other

Each change of a well-formed store leads to another one. The scopes that are reserved for strict code stay reserved, and
a new scope is reserved when it is made for strict code.
-/

namespace Ecma.World

/-- A change leads from a world to another. -/
structure Step (w : World) (F : Store → Store) (u : World) : Prop where
  made : Change terms w F
  store : u.store = F w.store
  grows : w.store.Grows u.store
  reserved : ∀ e, e.index < w.store.scopes.size → (u.reserved e ↔ w.reserved e)

/-- Changes, one after the other, lead from a world to another. -/
inductive Steps (w : World) : World → Prop where
  | refl : Steps w w
  | step {v u : World} {F : Store → Store} (first : Steps w v) (last : v.Step F u) : Steps w u

theorem Steps.trans {w v u : World} (first : w.Steps v) (second : v.Steps u) : w.Steps u := by
  induction second with
  | refl => exact first
  | step _ last ih => exact .step ih last

theorem Steps.grows {w u : World} (h : w.Steps u) :
    w.store.Grows u.store ∧ ∀ e, e.index < w.store.scopes.size → (u.reserved e ↔ w.reserved e) := by
  induction h with
  | refl => exact ⟨.refl _, fun _ _ => .rfl⟩
  | step _ last ih =>
    exact ⟨ih.1.trans last.grows, fun e inside =>
      (last.reserved e (Nat.lt_of_lt_of_le inside ih.1.scopes)).trans (ih.2 e inside)⟩

variable {w : World} {F : Store → Store} {o : ObjectRef} {e : ScopeRef} {name : String}

/-- A change after which the same scopes are reserved. -/
theorem step_of (made : Change terms w F) (grows : w.store.Grows (F w.store))
    (ok : (F w.store).WellFormed w.reserved) : ∃ u : World, w.Step F u :=
  ⟨⟨F w.store, w.reserved, ok⟩, made, rfl, grows, fun _ _ => .rfl⟩

theorem step_modifyObject {f : Object → Object} (made : Change terms w (·.modifyObject o f))
    (narrows : (w.store.object o).kind.Narrows (f (w.store.object o)).kind)
    (ok : o.index < w.store.objects.size → w.store.ObjectOk w.reserved (f (w.store.object o))) :
    ∃ u : World, w.Step (·.modifyObject o f) u :=
  have grows := Store.Grows.modifyObject narrows
  step_of made grows (w.ok.modifyObject grows ok)

section Bindings

variable {s : Store} {reserved : ScopeRef → Prop} {old : NameMap Binding} {b : Binding}

theorem grows_bind (record : (s.scope e).record = .declarative old)
    (kept : ∀ b', old.get? name = some b' → b'.Aliasable → b.Aliasable) :
    s.Grows (s.withBindings e (old.insert name b)) := by
  refine .withBindings record fun other b' found => ?_
  rw [NameMap.get?_insert]
  split
  next same => exact ⟨b, rfl, kept b' (same ▸ found)⟩
  · exact ⟨b', found, id⟩

/-- A binding that stays what it was, but for its value. -/
theorem grows_assign {v : Value} (record : (s.scope e).record = .declarative old) (found : old.get? name = some b) :
    s.Grows (s.withBindings e (old.insert name { b with value := v })) := by
  refine grows_bind record fun b' found' aliasable => ?_
  rw [found] at found'
  cases found'
  exact ⟨aliasable.mutable, aliasable.fixed, aliasable.initialized⟩

theorem wellFormed_assign {v : Value} (h : s.WellFormed reserved) (record : (s.scope e).record = .declarative old)
    (found : old.get? name = some b) (held : s.Holds v) :
    (s.withBindings e (old.insert name { b with value := v })).WellFormed reserved :=
  h.bind record (grows_assign record found) held ((h.scopes e).bindings old name b record found).2

theorem step_bind (made : Change terms w (Store.withBindings e (old.insert name b)))
    (record : (w.store.scope e).record = .declarative old)
    (kept : ∀ b', old.get? name = some b' → b'.Aliasable → b.Aliasable) (held : w.store.Holds b.value)
    (deletable : b.deletable = true → w.reserved e) : ∃ u : World, w.Step (Store.withBindings e (old.insert name b)) u :=
  have grows := grows_bind record kept
  step_of made grows (w.ok.bind record grows held deletable)

end Bindings

section Aliased

variable {m : ParameterMap} {parameter : String} {d : Descriptor} {p : Property} {change : Option Property}

/-- The first half of defining an aliased index: the object changes. -/
theorem wellFormed_redefined (kind : (w.store.object o).kind = .arguments (some m))
    (aliased : m.parameter? name = some parameter) (present : w.store.getOwn? o name = some p)
    (granted : p.Grants d name change) (known : terms.descriptor w d) (unmixed : d.isMixed = false) :
    (w.store.modifyObject o (·.redefined name d change)).WellFormed w.reserved := by
  obtain ⟨_, b, _, enumerable, configurable, _, _, _, _, shown⟩ := w.ok.getOwn?_aliased kind aliased
  obtain rfl : Property.data b.value true enumerable configurable = p := Option.some.inj (shown.symm.trans present)
  refine w.ok.modifyObject (.modifyObject (Object.narrows_redefined ..)) fun _ => ?_
  refine (w.ok.objects o).redefined granted ?_
  rintro q rfl
  exact w.ok.holding.redefine present granted unmixed known.1 known.2.1 known.2.2

theorem step_changeAliased {bindings : NameMap Binding} {b : Binding}
    (kind : (w.store.object o).kind = .arguments (some m)) (aliased : m.parameter? name = some parameter)
    (present : w.store.getOwn? o name = some p) (granted : p.Grants d name change) (known : terms.descriptor w d)
    (unmixed : d.isMixed = false) (record : (w.store.scope m.scope).record = .declarative bindings)
    (found : bindings.get? parameter = some b) (mutable : b.mutable = true) :
    ∃ u : World, w.Step (Store.defineAliased o name d change m.scope bindings parameter b) u := by
  have grows : w.store.Grows (w.store.modifyObject o (·.redefined name d change)) :=
    .modifyObject (Object.narrows_redefined ..)
  have ok := wellFormed_redefined kind aliased present granted known unmixed
  refine step_of (.changeAliased kind aliased present granted known unmixed record found mutable) ?_ ?_
  · rw [Store.defineAliased_eq]
    dsimp only
    split
    · exact grows
    · cases d.value with
      | none => exact grows
      | some v => exact grows.trans (grows_assign record found)
  · rw [Store.defineAliased_eq]
    dsimp only
    split
    · exact ok
    · cases requested : d.value with
      | none => exact ok
      | some v => exact wellFormed_assign ok record found (grows.holds (known.1 v requested))

end Aliased

section Scopes

variable {scope : Scope} {strict : Bool}

/-- What is reserved once a scope is added for code that is strict, or is not. -/
def reserve (w : World) (strict : Bool) (e : ScopeRef) : Prop :=
  if e.index = w.store.scopes.size then strict = true else w.reserved e

theorem reserve_old (inside : e.index < w.store.scopes.size) : w.reserve strict e ↔ w.reserved e := by
  rw [reserve, if_neg (Nat.ne_of_lt inside)]

theorem reserve_new (at_end : e.index = w.store.scopes.size) : w.reserve strict e ↔ strict = true := by
  rw [reserve, if_pos at_end]

/-- A scope that code may look names up in, around a new one. -/
theorem reserved_outer {d : ScopeRef} (outer : w.store.Usable w.reserved d strict)
    (at_end : e.index = w.store.scopes.size) : w.reserve strict d → w.reserve strict e := by
  rw [reserve_old outer.1, reserve_new at_end]
  cases strict with
  | true => exact fun _ => rfl
  | false => exact fun taken => absurd taken (outer.2 rfl)

theorem scopeOk_of_encloses (made : Encloses terms w strict scope) (at_end : e.index = w.store.scopes.size) :
    (w.store.addScope scope).ScopeOk (w.reserve strict) e scope := by
  have grows := Store.Grows.addScope w.store scope
  cases made with
  | @declarative d outer =>
    refine ⟨?_, ?_, nofun⟩
    · rintro _ ⟨⟩
      exact ⟨Nat.lt_of_lt_of_le outer.1 grows.scopes, reserved_outer outer at_end⟩
    · rintro _ _ _ ⟨⟩ found
      cases found
  | @object d o provideThis known outer =>
    refine ⟨?_, nofun, ?_⟩
    · rintro _ ⟨⟩
      exact ⟨Nat.lt_of_lt_of_le outer.1 grows.scopes, reserved_outer outer at_end⟩
    · rintro _ _ ⟨⟩
      exact inside known

/-- The scope around a new one is there. -/
theorem outer_inside (made : Encloses terms w strict scope) (outer : scope.outer = some e) :
    e.index < w.store.scopes.size := by
  cases made with
  | declarative known =>
    cases outer
    exact known.1
  | object _ _ known =>
    cases outer
    exact known.1

theorem wellFormed_addScope (made : Encloses terms w strict scope) :
    (w.store.addScope scope).WellFormed (w.reserve strict) := by
  have size : (w.store.addScope scope).scopes.size = w.store.scopes.size + 1 := by simp [Store.addScope]
  refine w.ok.grow (.addScope w.store scope) (fun e => reserve_old) (fun e taken => ?_) (fun _ => .inl rfl)
    (fun e => ?_) (fun _ mem => .inl mem) fun _ _ => .inl
  · rw [size]
    rw [reserve] at taken
    split at taken
    next at_end => exact at_end ▸ Nat.lt_succ_self _
    · exact Nat.lt_succ_of_lt (w.ok.bounded e taken)
  · rw [Store.scope_addScope]
    split
    next at_end => exact .inr (scopeOk_of_encloses made at_end)
    · exact .inl rfl

theorem step_encloses (made : Encloses terms w strict scope) :
    ∃ u : World, w.Step (·.addScope scope) u ∧ terms.scope u ⟨w.store.scopes.size⟩ strict ∧
      terms.declares u ⟨w.store.scopes.size⟩ strict ∧
        ∀ e d, scope.outer = some e → terms.within w e d → terms.within u ⟨w.store.scopes.size⟩ d := by
  refine ⟨⟨w.store.addScope scope, w.reserve strict, wellFormed_addScope made⟩,
    ⟨.addScope made, rfl, .addScope w.store scope, fun e => reserve_old⟩, ⟨?_, ?_⟩, fun deletable => .inl ?_,
    fun e d outer within => .inside ?_ (outer_inside made outer) (Store.Grows.within (.addScope w.store scope) within)⟩
  · simp [Store.addScope]
  · rintro rfl
    exact mt (reserve_new rfl).1 Bool.false_ne_true
  · exact (reserve_new rfl).2 deletable
  · show ((w.store.addScope scope).scope ⟨w.store.scopes.size⟩).outer = some e
    rw [Store.scope_addScope, if_pos rfl, outer]

end Scopes

theorem contextOk_of_known {ctx : Context} (known : terms.context w ctx) : w.store.ContextOk w.reserved ctx :=
  ⟨known.1, known.2.1, known.2.2.1, known.2.2.2.1, known.2.2.2.2⟩

theorem generatorOk_of_known {gen : Generator} (known : terms.generator w gen) : w.store.GeneratorOk w.reserved gen :=
  ⟨contextOk_of_known known.1, known.2⟩

/-- Every change leads to a world. -/
theorem exists_step (made : Change terms w F) : ∃ u : World, w.Step F u := by
  cases id made with
  | addObject new => exact step_of made (.addObject ..) (w.ok.addObject (objectOk_of_makes new))
  | addFunction known => exact step_of made (.addFunction ..) (w.ok.addFunction known)
  | @addProperty o name d absent extensible known =>
    refine step_modifyObject made .same fun _ => (w.ok.objects o).withProperty ?_ fun m parameter kind aliased => ?_
    · exact Store.keepsProperty_complete known.1 known.2.1 known.2.2
    · obtain ⟨⟨v, e, c, stored⟩, _⟩ := (w.ok.objects o).aliases m name parameter kind aliased
      have clash := stored.symm.trans (Store.get?_eq_none_of_getOwn? absent)
      cases clash
  | @changeProperty o name d p q present granted known unmixed unaliased =>
    refine step_modifyObject made .same fun _ => (w.ok.objects o).withProperty ?_ fun m parameter kind aliased => ?_
    · exact w.ok.holding.redefine present granted unmixed known.1 known.2.1 known.2.2
    · rw [unaliased.2 m kind] at aliased
      cases aliased
  | changeAliased kind aliased present granted known unmixed record found mutable =>
    exact step_changeAliased kind aliased present granted known unmixed record found mutable
  | @deleteProperty o name =>
    exact step_modifyObject made (Object.narrows_without ..) fun _ => (w.ok.objects o).without name
  | close o => exact step_modifyObject made .same fun _ => (w.ok.objects o).closed
  | addScope new =>
    obtain ⟨u, step, _⟩ := step_encloses new
    exact ⟨u, step⟩
  | @declare e bindings name deletable record absent allowed =>
    refine step_bind made record (fun b found => ?_) (Store.holds_of_isPrimitive rfl) fun h => ?_
    · rw [NameMap.contains, found] at absent
      cases absent
    · rcases allowed h with taken | ⟨_, _, object⟩
      · exact taken
      · have clash := record.symm.trans object
        cases clash
  | @declareImmutable e bindings name record absent =>
    refine step_bind made record (fun b found => ?_) (Store.holds_of_isPrimitive rfl) fun deletable => ?_
    · rw [NameMap.contains, found] at absent
      cases absent
    · cases deletable
  | assign record found mutable known =>
    exact step_of made (grows_assign record found) (wellFormed_assign w.ok record found known)
  | @settle e bindings name b v record found immutable pending known =>
    refine step_bind made record (fun b' found' aliasable => ?_) known
      ((w.ok.scopes e).bindings bindings name b record found).2
    rw [found] at found'
    cases found'
    exact absurd aliasable.mutable (immutable ▸ Bool.false_ne_true)
  | @undeclare e bindings name b record found deletable sloppy =>
    exact absurd (((w.ok.scopes e).bindings bindings name b record found).2 deletable) (sloppy.2 rfl)
  | @addGenerator gen known =>
    refine step_of made (.of_same rfl rfl) (w.ok.of_same rfl rfl (fun _ mem => .inl mem) fun g gen' found => ?_)
    rw [Store.generator?_addGenerator] at found
    split at found
    · cases found
      exact .inr (generatorOk_of_known known)
    · exact .inl found
  | @steer g f _ known =>
    refine step_of made (.of_same rfl rfl) (w.ok.of_same rfl rfl (fun _ mem => .inl mem) fun g' gen found => ?_)
    rw [Store.generator?_modifyGenerator] at found
    split at found
    next same =>
      subst same
      obtain ⟨old, there, rfl⟩ := Option.map_eq_some_iff.1 found
      exact .inr (generatorOk_of_known (known old there))
    · exact .inl found
  | @enter ctx known =>
    refine step_of made (.of_same rfl rfl) (w.ok.of_same rfl rfl (fun ctx' mem => ?_) fun _ _ => .inl)
    rcases List.mem_cons.1 mem with rfl | mem
    · exact .inr (contextOk_of_known known)
    · exact .inl mem
  | leave =>
    exact step_of made (.of_same rfl rfl)
      (w.ok.of_same rfl rfl (fun ctx mem => .inl (List.mem_of_mem_tail mem)) fun _ _ => .inl)
  | @shift e known =>
    have objects := w.store.objects_setLexical e
    have scopes := w.store.scopes_setLexical e
    refine step_of made (.of_same objects scopes) (w.ok.of_same objects scopes (fun ctx mem => ?_) fun g gen found => ?_)
    · rcases Store.mem_contexts_setLexical mem with mem | ⟨head, running, rfl⟩
      · exact .inl mem
      · have old := w.ok.contexts head (List.mem_of_head? running)
        have new := known head running
        exact .inr ⟨new.1, old.vars, old.this, new.2, old.own⟩
    · rw [Store.generator?, Store.generators_setLexical] at found
      exact .inl found

end Ecma.World
