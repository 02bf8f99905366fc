import Ecma.Proofs.Chains
import Ecma.Proofs.WriteThrough

/-!
# What an assignment comes to

Before an assignment does anything, `Store.canPut` asks whether it can succeed, and walks the chain of prototypes for
it. The assignment then walks the chain once more to find out what to do. The two walks agree: an assignment that cannot
succeed does nothing, one that finds an accessor calls its setter and does nothing else, and any other leaves the value
in a property that is the object's own.
-/

namespace Ecma

theorem Walk.unique {α : Type} {next : α → Option α} {start : Option α} {places places' : List α}
    (first : Walk next start places) (second : Walk next start places') : places' = places := by
  induction first generalizing places' with
  | done =>
    cases second
    rfl
  | step _ ih =>
    cases second with
    | step rest => rw [ih rest]

theorem Action.sizes_bind {α β : Type} (x : Action α) (f : α → Action β) (c : Config) (s : Store) :
    (x >>= f).sizes c s = x.sizes c s ++ (x c s).pathAfter fun a t => (f a).sizes c t := rfl

/-- Two actions come to the same from a store on, and on the same way. -/
structure Action.ActsAs {α : Type} (x y : Action α) (c : Config) (s : Store) : Prop where
  run : x c s = y c s
  path : x.path c s = y.path c s
  sizes : x.sizes c s = y.sizes c s

namespace Action.ActsAs

variable {α β : Type} {c : Config} {s : Store}

theorem refl (x : Action α) (c : Config) (s : Store) : x.ActsAs x c s := ⟨rfl, rfl, rfl⟩

theorem read_bind {r : Store → β} {next : β → Action α} {y : Action α} (h : (next (r s)).ActsAs y c s) :
    (Action.read r >>= next).ActsAs y c s := ⟨h.run, h.path, h.sizes⟩

/-- Actions that come to the same may be followed by the same. -/
theorem bind {x y : Action β} {next next' : β → Action α} (first : x.ActsAs y c s)
    (onward : ∀ b t, y c s = .value b t → (next b).ActsAs (next' b) c t) : (x >>= next).ActsAs (y >>= next') c s := by
  refine ⟨?_, ?_, ?_⟩
  · rw [bind_apply, bind_apply, first.run]
    cases run : y c s with
    | value b t => exact (onward b t run).run
    | _ => rfl
  · rw [path_bind, path_bind, first.run, first.path]
    cases run : y c s with
    | value b t => exact congrArg _ (onward b t run).path
    | _ => rfl
  · rw [sizes_bind, sizes_bind, first.run, first.sizes]
    cases run : y c s with
    | value b t => exact congrArg _ (onward b t run).sizes
    | _ => rfl

/-- What an action comes to that acts as one that is silent. -/
theorem does {x y : Action α} {a : α} {t : Store} (h : x.ActsAs y c s) (does : y.Does c s a t) : x.Does c s a t :=
  ⟨h.run.trans does.run, h.path.trans does.path⟩

end Action.ActsAs

namespace Store

variable {s t : Store} {o : ObjectRef} {name : String} {p : Property} {v : Value}

theorem getProperty?_of_own (own : s.getOwn? o name = some p) : s.getProperty? o name = some p := by
  rw [getProperty?, prototypeChain, chainFrom, List.findSome?_cons, own]

/-- A property that an object does not have of its own it has from what it inherits from. -/
theorem getProperty?_of_inherited (ends : ∀ o, Walk s.parent? (some o) (s.prototypeChain o))
    (own : s.getOwn? o name = none) :
    s.getProperty? o name = (s.object o).prototype.bind fun parent => s.getProperty? parent name := by
  have walk : Walk s.parent? (s.parent? o) (s.ancestors o) := by
    have whole := ends o
    cases whole with
    | step rest => exact rest
  have onward : s.getProperty? o name = (s.ancestors o).findSome? fun p => s.getOwn? p name := by
    rw [getProperty?, ancestors, prototypeChain, chainFrom, List.findSome?_cons, own]
    rfl
  rw [onward, ← parent?]
  generalize s.ancestors o = places at walk ⊢
  cases inherits : s.parent? o with
  | none =>
    rw [inherits] at walk
    cases walk
    rfl
  | some parent =>
    rw [inherits] at walk
    rw [(ends parent).unique walk]
    rfl

/-- An accessor that does not stand in the way of an assignment has a setter. -/
theorem setter_of_canPut (ends : ∀ o, Walk s.parent? (some o) (s.prototypeChain o)) (can : s.canPut o name = true)
    (found : s.getProperty? o name = some p) (accessor : p.isAccessor = true) : ∃ f, p.setter? = some f := by
  refine Option.isSome_iff_exists.1 ?_
  unfold canPut at can
  cases own : s.getOwn? o name with
  | some q =>
    cases (getProperty?_of_own own).symm.trans found
    rw [own] at can
    dsimp only at can
    rwa [if_pos accessor] at can
  | none =>
    rw [getProperty?_of_inherited ends own] at found
    rw [own] at can
    dsimp only at can
    rw [found] at can
    dsimp only at can
    rwa [if_pos accessor] at can

/-- Where the first property of a name has a setter, the object has no data of that name. -/
theorem not_own_data_of_setter {f : ObjectRef} (found : s.getProperty? o name = some p) (complete : p.Complete)
    (setter : p.setter? = some f) : ¬(s.getOwn? o name).any (·.isData) = true := by
  intro some
  obtain ⟨q, own, kind⟩ := (Option.any_eq_true ..).1 some
  cases (getProperty?_of_own own).symm.trans found
  cases complete with
  | data => cases setter
  | accessor => cases kind

/-- The request that an assignment makes: a value alone where the object has data, and a new property elsewhere. -/
def assignment (s : Store) (o : ObjectRef) (name : String) (v : Value) : Descriptor :=
  if (s.getOwn? o name).isSome then .ofValue v else (Property.plain v).descriptor

theorem isMixed_assignment : (s.assignment o name v).isMixed = false := by
  unfold assignment
  split <;> rfl

theorem value_assignment : (s.assignment o name v).value = some v := by
  unfold assignment
  split <;> rfl

theorem not_detached_assignment :
    ¬((s.assignment o name v).isAccessor = true ∨ (s.assignment o name v).writable = some false) := by
  unfold assignment
  split <;> simp [Descriptor.ofValue, Descriptor.empty, Descriptor.isAccessor, Property.plain, Property.data]

/-- Where an assignment can succeed and finds no accessor, the rule allows the request that it makes. -/
theorem allows_assignment (ends : ∀ o, Walk s.parent? (some o) (s.prototypeChain o)) (backed : s.Backed o)
    (can : s.canPut o name = true) (plain : ∀ p, s.getProperty? o name = some p → p.isAccessor = false) (v : Value) :
    s.Allows o name (s.assignment o name v) := by
  unfold canPut at can
  unfold Allows assignment
  cases own : s.getOwn? o name with
  | none =>
    rw [own] at can
    dsimp only at can ⊢
    rw [← getProperty?_of_inherited ends own] at can
    cases found : s.getProperty? o name with
    | none =>
      rw [found] at can
      exact can
    | some p =>
      simp only [found, plain p found, Bool.false_eq_true, if_false, Bool.and_eq_true] at can
      exact can.1
  | some p =>
    rw [own] at can
    have kind := plain p (getProperty?_of_own own)
    dsimp only [Option.isSome_some]
    rw [if_pos rfl]
    cases backed.complete_getOwn? own with
    | accessor => cases kind
    | data u w e c =>
      have writable : w = true := can
      subst writable
      cases c with
      | true => exact .inl rfl
      | false => exact .inr ⟨rfl, nofun, nofun, .writable rfl⟩

/-- What an assignment leaves that calls no setter. A property that the object had keeps its flags and its place, and a
new one is added at the end. Other names show what they showed, and scopes bind what they bound, but for the parameter
that the name may stand for, and for other names that stand for the same parameter. -/
structure Assigns (s t : Store) (o : ObjectRef) (name : String) (v : Value) : Prop where
  own : t.getOwn? o name =
    some ((s.getOwn? o name).elim (.plain v) fun p => .data v p.writable p.enumerable p.configurable)
  keys : t.ownKeys o = if (s.getOwn? o name).isSome then s.ownKeys o else s.ownKeys o ++ [name]
  shown : ∀ other key, other ≠ o ∨ key ≠ name →
    s.standsFor? other key = none ∨ s.standsFor? other key ≠ s.standsFor? o name →
      t.getOwn? other key = s.getOwn? other key
  bindings : ∀ e n, t.binding? e n =
    if s.standsFor? o name = some (e, n) then (s.binding? e n).map ({ · with value := v }) else s.binding? e n
  scopes : s.standsFor? o name = none → t.scopes = s.scopes
  others : ∀ other, other ≠ o → t.object other = s.object other
  object : ∃ properties, t.object o = { s.object o with properties := properties }
  size : t.objects.size = s.objects.size
  generators : t.generators = s.generators
  contexts : t.contexts = s.contexts

/-- The property that an assignment leaves. -/
theorem Redefines.own_assignment (h : s.Redefines t o name (s.assignment o name v)) (backed : s.Backed o)
    (plain : ∀ p, s.getOwn? o name = some p → p.isAccessor = false) : t.getOwn? o name =
      some ((s.getOwn? o name).elim (.plain v) fun p => .data v p.writable p.enumerable p.configurable) := by
  obtain ⟨⟨q⟩, fields, shown⟩ := h.property
  rw [shown]
  unfold assignment at fields
  cases own : s.getOwn? o name with
  | none =>
    rw [own] at fields
    cases fields
    rfl
  | some p =>
    rw [own] at fields
    have kind := plain p own
    cases backed.complete_getOwn? own with
    | accessor => cases kind
    | data u w e c =>
      cases fields
      rfl

theorem Redefines.assigns {reserved : ScopeRef → Prop} (h : s.Redefines t o name (s.assignment o name v))
    (ok : s.WellFormed reserved) (plain : ∀ p, s.getOwn? o name = some p → p.isAccessor = false) :
    s.Assigns t o name v where
  own := h.own_assignment (ok.backed o) plain
  keys := h.keys
  shown other key apart unshared := h.shown (ok.backed other) apart (unshared.imp_right .inr)
  bindings e n := by
    rw [h.binding?, value_assignment]
    rfl
  scopes free := by rw [h.scopes, passing_of_unaliased (standsFor?_eq_none_iff.1 free)]
  others := h.others
  object := by
    have kind : (t.object o).kind = (s.object o).kind := by
      rw [h.kind]
      unfold Object.redefined
      dsimp only
      rw [if_neg not_detached_assignment]
      rfl
    refine ⟨(t.object o).properties, ?_⟩
    dsimp only
    rw [← h.prototype, ← h.className, ← h.extensible, ← kind]
  size := h.size
  generators := h.generators
  contexts := h.contexts

/-- The store of a new machine with an accessor that all objects inherit. -/
def inheriting : Store :=
  initial.modifyObject Intrinsic.objectPrototype.ref
    (·.withProperty "x" (.accessor .undefined (.object Intrinsic.throwTypeError.ref) true true))

theorem keepsProperty_inheriting :
    initial.KeepsProperty (.accessor .undefined (.object Intrinsic.throwTypeError.ref) true true) :=
  .accessor (holds_of_isPrimitive rfl) (holds_object (by decide +kernel))

theorem closed_inheriting : inheriting.Closed := by
  refine closed_initial.modifyObject .same ((closed_initial.objects _).withProperty keepsProperty_inheriting ?_)
  intro m parameter kind
  cases kind

end Store

namespace ObjectRef

variable {s : Store} {o : ObjectRef} {name : String} {p : Property}

theorem put_of_not_canPut (no : s.canPut o name = false) (E : Engine) (v : Value) (c : Config) :
    (o.put E name v false).Does c s () s ∧ (o.put E name v true).Fails c s (.readOnlyProperty name) := by
  refine ⟨.read_bind ?_, .read_bind ?_⟩
  · rw [no]
    exact .pure
  · rw [no]
    exact .fail

/-- An assignment that finds a setter calls it. -/
theorem put_of_setter {f : ObjectRef} (can : s.canPut o name = true) (found : s.getProperty? o name = some p)
    (setter : p.setter? = some f) (other : ¬(s.getOwn? o name).any (·.isData) = true) (E : Engine) (v : Value)
    (throw : Bool) (c : Config) :
    (o.put E name v throw).ActsAs (do let _ ← E.call (.object f) (.object o) [v]) c s := by
  refine .read_bind ?_
  rw [can, if_pos rfl]
  refine .read_bind ?_
  rw [if_neg other]
  refine .read_bind ?_
  rw [found, Option.bind_some, setter]
  exact .refl ..

/-- An assignment that finds no accessor defines the property. -/
theorem put_of_data (ends : ∀ o, Walk s.parent? (some o) (s.prototypeChain o)) (backed : s.Backed o)
    (inside : o.index < s.objects.size) (other : (s.object o).kind ≠ .array) (can : s.canPut o name = true)
    (plain : ∀ p, s.getProperty? o name = some p → p.isAccessor = false) (v : Value) :
    ∃ t, s.Redefines t o name (s.assignment o name v) ∧ ∀ E c throw, (o.put E name v throw).Does c s () t := by
  have allows := Store.allows_assignment ends backed can plain v
  rcases define_decides backed inside other Store.isMixed_assignment name with
    ⟨_, t, redefines, does⟩ | ⟨against, _⟩
  · refine ⟨t, redefines, fun E c throw => .read_bind ?_⟩
    rw [can, if_pos rfl]
    refine .read_bind ?_
    have defines := does E c throw
    unfold Store.assignment at defines
    cases own : s.getOwn? o name with
    | some q =>
      have data : q.isData = true := by
        rw [(backed.complete_getOwn? own).isData_eq, plain q (Store.getProperty?_of_own own)]
        rfl
      rw [own] at defines
      rw [if_pos (by simp [data])]
      exact defines.bind .pure
    | none =>
      have unset : (s.getProperty? o name).bind (·.setter?) = none := by
        cases found : s.getProperty? o name with
        | none => rfl
        | some q =>
          have unset := (Descriptor.isAccessor_eq_false.1 (plain q found)).2
          rw [Option.bind_some, Property.setter?, unset]
          rfl
      rw [own] at defines
      rw [if_neg (by simp)]
      refine .read_bind ?_
      rw [unset]
      exact defines.bind .pure
  · exact absurd allows against

/-- What can be put is put. For an object that is no array, an assignment that `canPut` turns down changes nothing and
is a type error if the caller asked for one. If the first property of the name along the chain of prototypes is an
accessor, the assignment is one call of its setter, on the object and with the value. Otherwise it is done, runs no
code, and leaves the value in a property of the object itself. -/
theorem can_put_predicts_put {reserved : ScopeRef → Prop} (ok : s.WellFormed reserved) (chains : s.ChainsEnd)
    (inside : o.index < s.objects.size) (other : (s.object o).kind ≠ .array) (name : String) (v : Value) (E : Engine)
    (c : Config) :
    (s.canPut o name = false → (o.put E name v false).Does c s () s ∧
      ∃ f, f.kind = .typeError ∧ (o.put E name v true).Fails c s f) ∧
    (s.canPut o name = true → ∀ p, s.getProperty? o name = some p → p.isAccessor = true →
      ∃ f, p.setter? = some f ∧ ∀ throw,
        (o.put E name v throw).ActsAs (do let _ ← E.call (.object f) (.object o) [v]) c s) ∧
    (s.canPut o name = true → (∀ p, s.getProperty? o name = some p → p.isAccessor = false) →
      ∃ t, s.Assigns t o name v ∧ ∀ throw, (o.put E name v throw).Does c s () t) := by
  refine ⟨fun no => ?_, fun can p found accessor => ?_, fun can plain => ?_⟩
  · obtain ⟨lenient, strict⟩ := put_of_not_canPut no E v c
    exact ⟨lenient, _, rfl, strict⟩
  · obtain ⟨f, setter⟩ := Store.setter_of_canPut chains.inherited can found accessor
    have complete := (ok.holding.keepsProperty_getProperty? found).complete
    have foreign := Store.not_own_data_of_setter found complete setter
    exact ⟨f, setter, fun throw => put_of_setter can found setter foreign E v throw c⟩
  · obtain ⟨t, redefines, does⟩ := put_of_data chains.inherited (ok.backed o) inside other can plain v
    exact ⟨t, redefines.assigns ok fun p own => plain p (Store.getProperty?_of_own own), does E c⟩

/-- The global object has a value that cannot be written, inherits a setter, and may be given any other property. -/
theorem can_put_predicts_put_global :
    (Intrinsic.global.ref.put (.ofBudget 0) "NaN" .null false).Does .standard Store.inheriting () Store.inheriting ∧
    (Intrinsic.global.ref.put (.ofBudget 0) "x" .null false).ActsAs (do
      let _ ← (Engine.ofBudget 0).call (.object Intrinsic.throwTypeError.ref) (.object Intrinsic.global.ref) [.null])
      .standard Store.inheriting ∧
    ∃ t, Store.inheriting.Assigns t Intrinsic.global.ref "y" .null := by
  have ok : Store.inheriting.WellFormed Store.unreserved := by
    refine Store.wellFormed_initial.modifyObject (.modifyObject .same) fun _ => ?_
    refine (Store.wellFormed_initial.objects _).withProperty Store.keepsProperty_inheriting fun m parameter kind _ => ?_
    cases kind
  have inside : Intrinsic.global.ref.index < Store.inheriting.objects.size := by decide +kernel
  have other : (Store.inheriting.object Intrinsic.global.ref).kind ≠ .array := by
    intro kind
    cases kind
  have known (name : String) :=
    can_put_predicts_put ok Store.closed_inheriting.chainsEnd inside other name .null (.ofBudget 0) .standard
  refine ⟨((known "NaN").1 (by decide +kernel)).1, ?_, ?_⟩
  · obtain ⟨f, setter, acts⟩ := (known "x").2.1 (by decide +kernel)
      (.accessor .undefined (.object Intrinsic.throwTypeError.ref) true true) (by decide +kernel) rfl
    cases setter
    exact acts false
  · obtain ⟨t, assigns, _⟩ := (known "y").2.2 (by decide +kernel) (by
      have absent : Store.inheriting.getProperty? Intrinsic.global.ref "y" = none := by decide +kernel
      simp [absent])
    exact ⟨t, assigns⟩

end ObjectRef

end Ecma
