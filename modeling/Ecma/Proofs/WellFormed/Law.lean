import Ecma.Proofs.Silent
import Ecma.Proofs.WellFormed.World

/-!
# The law of well-formed stores

Runs keep stores well formed and raise no internal fault. The one place that asks for care is the definition of an index
that stands for a parameter: the object and the parameter are out of step until all of it is done.
-/

namespace Ecma

namespace World

variable {w u : World} {o : ObjectRef} {e : ScopeRef} {name : String}

theorem inside_of_object {provideThis : Bool} (record : (w.store.scope e).record = .object o provideThis) :
    e.index < w.store.scopes.size := by
  refine Nat.lt_of_not_le fun outside => ?_
  rw [Store.scope, Array.getElem?_eq_none outside] at record
  cases record

theorem declares_mono {deletable : Bool} (h : w.Steps u) (known : terms.declares w e deletable) :
    terms.declares u e deletable := by
  intro asked
  rcases known asked with taken | ⟨o, provideThis, record⟩
  · exact .inl ((h.grows.2 e (w.ok.bounded e taken)).2 taken)
  · have grown := h.grows.1.records e (inside_of_object record)
    rw [record] at grown
    generalize (u.store.scope e).record = new at grown ⊢
    cases grown with
    | object => exact .inr ⟨o, provideThis, rfl⟩

theorem bound_of_hasBinding {strict : Bool} (known : terms.scope w e strict) (has : w.store.hasBinding e name = true) :
    terms.bound w e name := by
  refine ⟨known.1, fun bindings (record : (w.store.scope e).record = _) => ?_⟩
  simpa only [Store.hasBinding, record] using has

theorem context_of_ok {ctx : Context} (ok : w.store.ContextOk w.reserved ctx) : terms.context w ctx :=
  ⟨ok.lexical, ok.vars, ok.this, ok.within, ok.own⟩

theorem generator_of_ok {gen : Generator} (ok : w.store.GeneratorOk w.reserved gen) : terms.generator w gen :=
  ⟨context_of_ok ok.context, ok.hoisted⟩

end World

/-- The law of runs on well-formed stores. -/
def Law.wellFormed : Law where
  toTerms := World.terms
  right := World.store
  le := World.Steps
  running w := w.store.contexts ≠ []
  allows _ _ := True
  refl _ := .refl
  trans first second := first.trans second
  agree _ := rfl
  agree_size _ := rfl
  agree_drives _ := rfl
  agree_head _ _ := rfl
  drives_idle _ := trivial
  change made := by
    obtain ⟨u, step⟩ := World.exists_step made
    exact ⟨u, step.store, step.store, .step .refl step⟩
  enclose made := by
    obtain ⟨u, step, known⟩ := World.step_encloses made
    exact ⟨u, step.store, step.store, .step .refl step, known⟩
  value_mono h known := h.grows.1.holds known
  scope_mono h known := h.grows.1.usable h.grows.2 known
  bound_mono h known := h.grows.1.binds known
  parameter_mono h known := h.grows.1.bindsAliasable known
  unaliased_mono h known :=
    ⟨Nat.lt_of_lt_of_le known.1 h.grows.1.objects, h.grows.1.unaliased _ _ known.1 known.2⟩
  declarative_mono h known := h.grows.1.declarative known
  within_mono h known := h.grows.1.within known
  declares_mono := World.declares_mono
  primitive := Store.holds_of_isPrimitive
  present := Store.holds_object
  intrinsic w i := Store.holds_object (w.ok.intrinsics i)
  own {w _ _ _} found := (w.ok.holding.keepsProperty_getOwn? found).holds
  prototype {w o p} found := Store.holds_object ((w.ok.objects o).prototype p found)
  closure {w o code e strict} kind := (w.ok.objects o).closure code e strict kind
  binding {w e bindings name b} record found := ((w.ok.scopes e).bindings bindings name b record found).1
  record {w e o provideThis} found := Store.holds_object ((w.ok.scopes e).record o provideThis found)
  contexts {w ctx} mem := World.context_of_ok (w.ok.contexts ctx mem)
  generators {w g gen} found := World.generator_of_ok (w.ok.generators g gen found)
  watches_iff _ _ := .rfl
  queues := nofun
  within_refl _ e := .here e
  outer {w e d strict} known found :=
    have outer := (w.ok.scopes e).outer d found
    ⟨outer.1, fun sloppy taken => known.2 sloppy (outer.2 taken)⟩
  global w strict := ⟨w.ok.global.1, fun _ => w.ok.global.2⟩
  strict_scope known := ⟨known.1, nofun⟩
  found := World.bound_of_hasBinding
  ranged := .inr fun known => known.1
  bound_object {w e o provideThis name} known record := by
    refine ⟨known.1, fun bindings other => ?_⟩
    have clash := record.symm.trans other
    cases clash
  declarative_of known record := ⟨known.1, _, record⟩
  declarative_record known := .inr known.2
  missing {w e name bindings} known record absent := by
    have present := known.2 bindings record
    rw [NameMap.contains, absent] at present
    cases present
  aliasable _ record found mutable fixed initialized := ⟨_, _, record, found, mutable, fixed, initialized⟩
  unaliased_of known _ free := ⟨World.inside known, free⟩
  declares_fixed _ _ := nofun
  declares_global w _ _ := .inr w.ok.globalRecord
  permits_kind := id
  running_congr same running empty := running (same.symm.trans empty)
  running_cons top empty := List.cons_ne_nil _ _ (top.symm.trans empty)
  no_context running empty := absurd empty running

namespace ObjectRef

variable {E : Engine} {c : Config} {s : Store} {o : ObjectRef} {name : String} {d : Descriptor} {p : Property}
  {change : Option Property} {throw : Bool}

theorem defineOrdinary_granted (present : s.getOwn? o name = some p) (granted : p.Grants d name change) :
    (o.defineOrdinary name d throw).Does c s true
      ((change.map fun q => s.modifyObject o (·.withProperty name q)).getD s) := by
  refine .read_bind ?_
  rw [present]
  dsimp only
  rw [granted]
  cases change with
  | none => exact .pure
  | some q => exact .modify_bind .pure

/-- Defining an index that stands for a parameter, in one step. -/
theorem defineInArguments_aliased {m : ParameterMap} {parameter : String} {bindings : NameMap Binding} {b : Binding}
    (present : s.getOwn? o name = some p) (granted : p.Grants d name change)
    (aliased : m.parameter? name = some parameter) (record : (s.scope m.scope).record = .declarative bindings)
    (found : bindings.get? parameter = some b) (mutable : b.mutable = true) :
    (o.defineInArguments E m name d throw).Does c s true
      (s.defineAliased o name d change m.scope bindings parameter b) := by
  refine .bind (defineOrdinary_granted present granted) ?_
  unfold Store.defineAliased
  have record' : (((change.map fun q => s.modifyObject o (·.withProperty name q)).getD s).scope m.scope).record =
      .declarative bindings := by
    cases change <;> exact record
  generalize (change.map fun q => s.modifyObject o (·.withProperty name q)).getD s = t at record' ⊢
  rw [if_pos rfl, aliased]
  dsimp only
  by_cases accessor : d.isAccessor = true
  · rw [if_pos accessor, if_pos accessor]
    exact .modify_bind .pure
  · rw [if_neg accessor, if_neg accessor]
    have protect (t : Store) : (do
        if d.writable = some false then .modify (·.modifyObject o (·.detached name))
        pure true : Action Bool).Does c t true
          (if d.writable = some false then t.modifyObject o (·.detached name) else t) := by
      split
      · exact .modify_bind .pure
      · exact .pure
    cases d.value with
    | none => exact protect t
    | some v =>
      have passed : (passOn E m.scope parameter v).Does c t ()
          (t.withBindings m.scope (bindings.insert parameter { b with value := v })) := by
        refine .read_bind ?_
        rw [record']
        dsimp only [ScopeRef.setDeclarative]
        rw [found]
        dsimp only
        rw [if_pos mutable]
        exact .modify
      exact passed.bind (protect _)
end ObjectRef

namespace World

variable {w : World} {E E' : Engine} {c : Config} {o : ObjectRef} {m : ParameterMap} {name parameter : String}
  {d : Descriptor} {p : Property} {change : Option Property} {throw : Bool}

theorem rests_defineAliased (s : Store) (e : ScopeRef) (bindings : NameMap Binding) (b : Binding) :
    (s.defineAliased o name d change e bindings parameter b).contexts = s.contexts ∧
      (s.defineAliased o name d change e bindings parameter b).generators = s.generators := by
  rw [Store.defineAliased_eq]
  dsimp only
  split
  · exact ⟨rfl, rfl⟩
  · cases d.value <;> exact ⟨rfl, rfl⟩

/-- A definition that is granted, at an index that stands for a parameter. -/
theorem defineInArguments_obeys (kind : (w.store.object o).kind = .arguments (some m))
    (aliased : m.parameter? name = some parameter) (present : w.store.getOwn? o name = some p)
    (granted : p.Grants d name change) (known : terms.descriptor w d) (unmixed : d.isMixed = false) :
    Law.wellFormed.Obeys c w (o.defineInArguments E m name d throw) (o.defineInArguments E' m name d throw)
      Law.wellFormed.any := by
  obtain ⟨bindings, b, _, _, _, record, found, aliasable, _⟩ := w.ok.getOwn?_aliased kind aliased
  have does (E : Engine) : (o.defineInArguments E m name d throw).Does c w.store true
      (w.store.defineAliased o name d change m.scope bindings parameter b) :=
    ObjectRef.defineInArguments_aliased present granted aliased record found aliasable.mutable
  obtain ⟨u, step⟩ := step_changeAliased kind aliased present granted known unmixed record found aliasable.mutable
  obtain ⟨contexts, generators⟩ : u.store.contexts = w.store.contexts ∧ u.store.generators = w.store.generators := by
    rw [step.store]
    exact rests_defineAliased ..
  rw [← step.store] at does
  exact .of_does (.of_generators (.step .refl step) generators) contexts (does E) (does E') trivial

theorem aliases : Law.wellFormed.Aliases := by
  intro E E' _ c w o m name d throw object kind known unmixed
  cases aliased : m.parameter? name with
  | none =>
    have unaliased : terms.unaliased w o name := by
      refine ⟨inside object, fun m' kind' => ?_⟩
      have same := kind.symm.trans kind'
      cases same
      exact aliased
    have length : (Law.wellFormed.left w).KeepsLength o name d := .of_kind (by simp [kind])
    refine .bind (Law.defineOrdinary_obeys known unmixed unaliased length) fun defined u _ _ =>
      .ite (fun _ => ?_) fun _ => .reject (Law.wellFormed.permits_kind nofun)
    rw [aliased]
    exact .pure trivial
  | some parameter =>
    obtain ⟨_, b, _, e, configurable, _, _, _, _, present⟩ := w.ok.getOwn?_aliased kind aliased
    cases granted : (Property.data b.value true e configurable).redefine d name with
    | unchanged =>
      have kept : (Property.data b.value true e configurable).Grants d name none := granted
      exact defineInArguments_obeys kind aliased present kept known unmixed
    | changed q =>
      have replaced : (Property.data b.value true e configurable).Grants d name (some q) := granted
      exact defineInArguments_obeys kind aliased present replaced known unmixed
    | refused why =>
      have refused : Law.wellFormed.Obeys c w (o.defineOrdinary name d false) (o.defineOrdinary name d false)
          fun _ defined => defined = false := by
        refine .read_bind (fun _ _ => by simp) ?_
        rw [show (Law.wellFormed.left w).getOwn? o name = _ from present]
        dsimp only
        rw [granted]
        exact .pure rfl
      refine .bind refused fun defined u _ turnedDown => ?_
      rw [turnedDown]
      exact .reject (Law.wellFormed.permits_kind nofun)

theorem exotics : Law.wellFormed.Exotics := .of_aliases aliases (fun _ object kind =>
  ⟨inside object, fun _ kind' => by cases kind.symm.trans kind'⟩) nofun

end World

end Ecma
