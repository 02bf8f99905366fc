import Ecma.Builtin.Object
import Ecma.Proofs.Array.Reentrancy
import Ecma.Proofs.WriteThrough

/-!
# Sealing and freezing

To seal or freeze an object is to redefine its properties one by one, each as its kind of object does it, and to allow
no new ones after that. No such request is turned down. The elements of an array come before its length or after it,
when it is read-only; they can be redefined all the same, as long as they lie below it. An index that stands for a
parameter is detached when it is frozen, at the value that the parameter has. What is left is described by
`Store.Restricted`, and an object of which that is true is not changed by being sealed or frozen again.
-/

namespace Ecma

namespace Property

variable {p : Property} {freeze : Bool} {name : String}

/-- What is left of a property: it cannot be configured any more, and frozen data cannot be written. -/
def restricted (freeze : Bool) (p : Property) : Property where
  descriptor :=
    { p.descriptor with writable := p.descriptor.writable.map (· && !freeze), configurable := some false }

@[simp] theorem restricted_data {v : Value} {w e c : Bool} :
    (data v w e c).restricted freeze = data v (w && !freeze) e false := rfl

@[simp] theorem restricted_accessor {g t : Value} {e c : Bool} :
    (accessor g t e c).restricted freeze = accessor g t e false := rfl

theorem isRestricted_restricted (p : Property) (freeze : Bool) : (p.restricted freeze).isRestricted freeze = true := by
  cases freeze <;> cases stored : p.descriptor.writable <;>
    simp [restricted, isRestricted, configurable, writable, stored]

theorem restricted_of_isRestricted (complete : p.Complete) (h : p.isRestricted freeze = true) :
    p.restricted freeze = p := by
  cases complete <;> cases freeze <;> simp_all [isRestricted]

theorem restricted_restricted (p : Property) (freeze : Bool) :
    (p.restricted freeze).restricted freeze = p.restricted freeze := by
  cases stored : p.descriptor.writable <;> simp [restricted, stored]

/-- A request to restrict a property is never turned down. -/
theorem Complete.allows_restriction (complete : p.Complete) (freeze : Bool) :
    p.Allows (ObjectRef.restriction p freeze) := by
  cases configurable : p.configurable with
  | true => exact .inl configurable
  | false =>
    refine .inr ⟨configurable, nofun, nofun, ?_⟩
    cases complete with
    | data v w e c =>
      cases freeze with
      | false => exact .generic rfl
      | true =>
        cases w with
        | true => exact .writable rfl
        | false => exact .readOnly rfl nofun nofun
    | accessor => exact .generic (by cases freeze <;> rfl)

end Property

namespace ObjectRef

variable {p : Property} {freeze : Bool} {name : String}

theorem isMixed_restriction (p : Property) (freeze : Bool) : (restriction p freeze).isMixed = false := rfl

theorem value_restriction (p : Property) (freeze : Bool) : (restriction p freeze).value = none := rfl

theorem detaches_restriction (p : Property) (freeze : Bool) :
    ((restriction p freeze).isAccessor = true ∨ (restriction p freeze).writable = some false) ↔
      freeze = true ∧ p.isData = true := by
  cases freeze <;> simp [restriction, Descriptor.empty, Descriptor.isAccessor]

theorem reconciled_restriction (complete : p.Complete) (freeze : Bool) :
    (restriction p freeze).reconciled (some p) = (p.restricted freeze).descriptor := by
  cases complete with
  | data v w e c => cases freeze <;> cases w <;> rfl
  | accessor => cases freeze <;> rfl

/-- A property that is restricted already stays as it is. -/
theorem redefine_restriction (complete : p.Complete) (h : p.isRestricted freeze = true) (name : String) :
    p.redefine (restriction p freeze) name = .unchanged := by
  have holds : (restriction p freeze).holdsOf p = true := by
    rw [← Property.restricted_of_isRestricted complete h]
    cases complete with
    | data v w e c => cases freeze <;> cases w <;> rfl
    | accessor => cases freeze <;> rfl
  rw [Property.redefine, holds, Bool.or_true, if_pos rfl]

end ObjectRef

namespace Store

variable {s t u : Store} {o : ObjectRef} {freeze : Bool} {name : String} {names : List String} {p : Property}

/-- The properties under some names are restricted, and nothing else changes. -/
structure RestrictsAll (s t : Store) (o : ObjectRef) (freeze : Bool) (names : List String) : Prop where
  shown : ∀ key, t.getOwn? o key = (s.getOwn? o key).map fun p => if key ∈ names then p.restricted freeze else p
  keys : t.ownKeys o = s.ownKeys o
  stands : ∀ key, t.standsFor? o key = if freeze = true ∧ key ∈ names then none else s.standsFor? o key
  narrows : (s.object o).kind.Narrows (t.object o).kind
  prototype : (t.object o).prototype = (s.object o).prototype
  className : (t.object o).className = (s.object o).className
  extensible : (t.object o).extensible = (s.object o).extensible
  size : t.objects.size = s.objects.size
  others : ∀ other, other ≠ o → t.object other = s.object other
  scopes : t.scopes = s.scopes
  generators : t.generators = s.generators
  contexts : t.contexts = s.contexts

namespace RestrictsAll

theorem nil (s : Store) (o : ObjectRef) (freeze : Bool) : s.RestrictsAll s o freeze [] :=
  ⟨by simp, rfl, by simp, .same, rfl, rfl, rfl, rfl, fun _ _ => rfl, rfl, rfl, rfl⟩

/-- Names one after the other. -/
theorem cons (first : s.RestrictsAll t o freeze [name]) (rest : t.RestrictsAll u o freeze names) :
    s.RestrictsAll u o freeze (name :: names) where
  shown key := by
    rw [rest.shown, first.shown, Option.map_map]
    congr 1
    funext p
    by_cases here : key = name <;> by_cases later : key ∈ names <;> simp [here, later, p.restricted_restricted]
  keys := rest.keys.trans first.keys
  stands key := by
    rw [rest.stands, first.stands]
    by_cases later : freeze = true ∧ key ∈ names
    · rw [if_pos later, if_pos ⟨later.1, List.mem_cons_of_mem _ later.2⟩]
    · rw [if_neg later]
      by_cases here : freeze = true ∧ key ∈ [name]
      · rw [if_pos here, if_pos ⟨here.1, List.mem_append_left names here.2⟩]
      · rw [if_neg here, if_neg]
        rintro ⟨frozen, mem⟩
        rcases List.mem_cons.1 mem with same | mem
        · exact here ⟨frozen, List.mem_singleton.2 same⟩
        · exact later ⟨frozen, mem⟩
  narrows := first.narrows.trans rest.narrows
  prototype := rest.prototype.trans first.prototype
  className := rest.className.trans first.className
  extensible := rest.extensible.trans first.extensible
  size := rest.size.trans first.size
  others other apart := (rest.others other apart).trans (first.others other apart)
  scopes := rest.scopes.trans first.scopes
  generators := rest.generators.trans first.generators
  contexts := rest.contexts.trans first.contexts

/-- Where there is no property, there is nothing to do. -/
theorem absent (backed : s.Backed o) (absent : s.getOwn? o name = none) : s.RestrictsAll s o freeze [name] where
  shown key := by
    by_cases here : key = name
    · rw [here, absent]
      rfl
    · simp [here]
  keys := rfl
  stands key := by
    split
    next frozen =>
      rw [List.mem_singleton.1 frozen.2, standsFor?_eq_none_iff]
      exact backed.unaliased_of_absent absent
    · rfl
  narrows := .same
  prototype := rfl
  className := rfl
  extensible := rfl
  size := rfl
  others _ _ := rfl
  scopes := rfl
  generators := rfl
  contexts := rfl

/-- A request that is granted does what it says. -/
theorem of_redefines (backed : s.Backed o) (present : s.getOwn? o name = some p)
    (h : s.Redefines t o name (ObjectRef.restriction p freeze)) : s.RestrictsAll t o freeze [name] where
  shown key := by
    by_cases here : key = name
    · obtain ⟨q, fields, shown⟩ := h.property
      rw [present, ObjectRef.reconciled_restriction (backed.complete_getOwn? present)] at fields
      rw [here, shown, present, Property.descriptor_injective fields]
      simp
    · rw [h.shown backed (.inr here) (.inr (.inl rfl))]
      simp [here]
  keys := by rw [h.keys, present, Option.isSome_some, if_pos rfl]
  stands key := by
    simp only [h.standsFor?, ObjectRef.detaches_restriction, List.mem_singleton]
    by_cases here : key = name
    · subst here
      rcases s.unaliased_or o key with free | ⟨m, parameter, kind, aliased⟩
      · rw [standsFor?_eq_none_iff.2 free, ite_self, ite_self]
      · obtain ⟨_, _, _, _, _, _, _, data⟩ := backed.getOwn? kind aliased
        cases data.symm.trans present
        simp
    · simp [here]
  narrows := h.narrows
  prototype := h.prototype
  className := h.className
  extensible := h.extensible
  size := h.size
  others := h.others
  scopes := by rw [h.scopes, ObjectRef.value_restriction, passing_none]
  generators := h.generators
  contexts := h.contexts

/-- A length that is restricted is as long, so that elements are still below it. -/
theorem covers (h : s.RestrictsAll t o freeze names) (covers : (s.object o).kind = .array → s.Covers o)
    (array : (t.object o).kind = .array) : t.Covers o := by
  have length : (o.arrayLength t).1 = (o.arrayLength s).1 := by
    unfold ObjectRef.arrayLength
    rw [h.shown]
    cases s.getOwn? o "length" with
    | none => rfl
    | some p =>
      by_cases there : "length" ∈ names
      · simp only [there, if_true, Option.map_some]
        have value : (p.restricted freeze).value? = p.value? := rfl
        rw [value]
        rcases p.value? with _ | v
        · rfl
        · cases v <;> rfl
      · simp only [there, if_false, Option.map_some]
  rw [Covers, h.keys, length]
  exact covers (h.narrows.array array)

end RestrictsAll

end Store

namespace ObjectRef

variable {s t : Store} {o : ObjectRef} {freeze : Bool} {name : String} {d : Descriptor} {p : Property}

/-- A property of an array that is there and gets no other value is redefined as any object does it. -/
theorem defineInArray_of_ordinary (covers : s.Covers o) (present : s.getOwn? o name = some p)
    (valueless : d.value = none) {E : Engine} {c : Config}
    (does : ∀ throw, (o.defineOrdinary name d throw).Does c s true t) (throw : Bool) :
    (o.defineInArray E name d throw).Does c s true t := by
  unfold defineInArray
  split
  next same =>
    subst same
    unfold defineLength
    rw [valueless]
    exact .read_bind (does throw)
  · split
    next i index =>
      obtain ⟨named, small⟩ := Index.element?_eq_some_iff.1 index
      have below : i < (o.arrayLength s).1 := by
        refine covers i small ?_
        rw [named]
        exact Store.mem_ownKeys_of_getOwn? present
      refine .read_bind ?_
      have beyond : ¬i ≥ (o.arrayLength s).1 := Nat.not_le.2 below
      simp only [beyond, decide_false, Bool.false_and, Bool.false_eq_true, if_false]
      exact .bind (does false) .pure
    · exact does throw

/-- A request to restrict a property that is there is granted by every object. -/
theorem define_restricts (backed : s.Backed o) (inside : o.index < s.objects.size)
    (covers : (s.object o).kind = .array → s.Covers o) (present : s.getOwn? o name = some p) (freeze : Bool) :
    ∃ t, s.Redefines t o name (restriction p freeze) ∧
      ∀ E c throw, (o.define E name (restriction p freeze) throw).Does c s true t := by
  have unmixed := isMixed_restriction p freeze
  have allows : s.Allows o name (restriction p freeze) := by
    rw [Store.Allows, present]
    exact (backed.complete_getOwn? present).allows_restriction freeze
  by_cases kind : (s.object o).kind = .array
  · have free : s.Unaliased o name := fun m mapped => by cases kind.symm.trans mapped
    rcases defineOrdinary_decides backed unmixed name with ⟨_, t, defines, does⟩ | ⟨against, _⟩
    · refine ⟨t, defines.redefines backed free inside unmixed, fun E c throw => ?_⟩
      refine .bind (Descriptor.check_does unmixed c s) (.read_bind ?_)
      rw [kind]
      exact defineInArray_of_ordinary (covers kind) present rfl (does c) throw
    · exact absurd allows against
  · rcases define_decides backed inside kind unmixed name with ⟨_, granted⟩ | ⟨against, _⟩
    · exact granted
    · exact absurd allows against

/-- A property that is restricted already is left as it is by every object. -/
theorem define_restricted (backed : s.Backed o) (covers : (s.object o).kind = .array → s.Covers o)
    (present : s.getOwn? o name = some p) (h : p.isRestricted freeze = true) (E : Engine) (c : Config) (throw : Bool) :
    (o.define E name (restriction p freeze) throw).Does c s true s := by
  have granted : p.Grants (restriction p freeze) name none :=
    redefine_restriction (backed.complete_getOwn? present) h name
  have does (throw : Bool) : (o.defineOrdinary name (restriction p freeze) throw).Does c s true s :=
    defineOrdinary_granted present granted
  refine .bind (Descriptor.check_does (isMixed_restriction p freeze) c s) (.read_bind ?_)
  split
  next kind => exact defineInArray_of_ordinary (covers kind) present rfl does throw
  next m kind =>
    refine .bind (does false) ?_
    rw [if_pos rfl]
    cases aliased : m.parameter? name with
    | none => exact .pure
    | some parameter =>
      -- The parameter can be set, so the index is writable and is not asked to be read-only.
      obtain ⟨b, _, e, configurable, _, _, _, data⟩ := backed.getOwn? kind aliased
      cases data.symm.trans present
      obtain ⟨accessor, readOnly⟩ := Property.plain_of_unchanged granted
      dsimp only
      rw [accessor, if_neg Bool.false_ne_true, value_restriction, if_neg readOnly]
      exact .pure
  · exact does throw

/-- Properties are restricted one by one, and each request finds what the next one needs. -/
theorem restrictAll_run (names : List String) (backed : s.Backed o) (inside : o.index < s.objects.size)
    (covers : (s.object o).kind = .array → s.Covers o) (freeze : Bool) :
    ∃ t, s.RestrictsAll t o freeze names ∧ t.Backed o ∧ ∀ E c, (o.restrictAll E freeze names).Does c s () t := by
  induction names generalizing s with
  | nil => exact ⟨s, .nil s o freeze, backed, fun _ _ => .pure⟩
  | cons name rest ih =>
    cases present : s.getOwn? o name with
    | none =>
      obtain ⟨t, restricts, backed', does⟩ := ih backed inside covers
      refine ⟨t, .cons (.absent backed present) restricts, backed', fun E c => .read_bind ?_⟩
      rw [present]
      exact does E c
    | some p =>
      obtain ⟨u, redefines, granted⟩ := define_restricts backed inside covers present freeze
      have first : s.RestrictsAll u o freeze [name] := .of_redefines backed present redefines
      obtain ⟨t, restricts, backed', does⟩ := ih (redefines.backed backed) (first.size ▸ inside)
        (first.covers covers)
      refine ⟨t, .cons first restricts, backed', fun E c => .read_bind ?_⟩
      rw [present]
      exact .bind (granted E c true) (does E c)

theorem restrictAll_restricted (names : List String) (backed : s.Backed o)
    (covers : (s.object o).kind = .array → s.Covers o)
    (restricted : ∀ name ∈ names, (s.getOwn? o name).all (·.isRestricted freeze) = true) (E : Engine) (c : Config) :
    (o.restrictAll E freeze names).Does c s () s := by
  induction names with
  | nil => exact .pure
  | cons name rest ih =>
    have later := ih fun key mem => restricted key (List.mem_cons_of_mem _ mem)
    refine .read_bind ?_
    cases present : s.getOwn? o name with
    | none => exact later
    | some p =>
      have here := restricted name List.mem_cons_self
      rw [present] at here
      exact .bind (define_restricted backed covers present here E c true) later

/-- An object that is sealed or frozen, however it became so, is left as it is. -/
theorem restrict_restricted (backed : s.Backed o) (covers : (s.object o).kind = .array → s.Covers o)
    (restricted : s.isRestricted o freeze = true) (E : Engine) (c : Config) : (o.restrict E freeze).Does c s () s := by
  obtain ⟨closed, all⟩ := Bool.and_eq_true_iff.1 restricted
  have same : s.modifyObject o Object.closed = s := by
    refine Store.modifyObject_of_fixed ?_
    rw [Bool.not_eq_true'] at closed
    rw [Object.closed, ← closed]
  have closes : o.preventExtensions.Does c s () (s.modifyObject o Object.closed) := .modify
  rw [same] at closes
  exact .read_bind (.bind (restrictAll_restricted _ backed covers (List.all_eq_true.1 all) E c) closes)

end ObjectRef

namespace Store

variable {s t : Store} {o : ObjectRef} {freeze : Bool}

/-- What sealing or freezing an object leaves: every property that it had is restricted and none can be added, and
nothing that is frozen stands for a parameter. Nothing else changes. -/
structure Restricted (s t : Store) (o : ObjectRef) (freeze : Bool) : Prop where
  properties : ∀ name, t.getOwn? o name = (s.getOwn? o name).map (·.restricted freeze)
  keys : t.ownKeys o = s.ownKeys o
  extensible : (t.object o).extensible = false
  stands : ∀ name, t.standsFor? o name = if freeze = true then none else s.standsFor? o name
  narrows : (s.object o).kind.Narrows (t.object o).kind
  prototype : (t.object o).prototype = (s.object o).prototype
  className : (t.object o).className = (s.object o).className
  size : t.objects.size = s.objects.size
  others : ∀ other, other ≠ o → t.object other = s.object other ∧ ∀ name, t.getOwn? other name = s.getOwn? other name
  scopes : t.scopes = s.scopes
  generators : t.generators = s.generators
  contexts : t.contexts = s.contexts

theorem Restricted.isRestricted (h : s.Restricted t o freeze) : t.isRestricted o freeze = true := by
  refine Bool.and_eq_true_iff.2 ⟨by rw [h.extensible]; rfl, List.all_eq_true.2 fun name _ => ?_⟩
  rw [h.properties]
  cases s.getOwn? o name with
  | none => rfl
  | some p => exact p.isRestricted_restricted freeze

/-- An object that takes no new properties shows the ones that it has. -/
theorem Backed.closed (backed : s.Backed o) (inside : o.index < s.objects.size) :
    (s.modifyObject o Object.closed).Backed o ∧
      (∀ name, (s.modifyObject o Object.closed).getOwn? o name = s.getOwn? o name) ∧
      (s.modifyObject o Object.closed).ownKeys o = s.ownKeys o := by
  have new := object_modifyObject s Object.closed inside
  have kind : ((s.modifyObject o Object.closed).object o).kind = (s.object o).kind := by rw [new]; rfl
  have properties : ((s.modifyObject o Object.closed).object o).properties = (s.object o).properties := by rw [new]; rfl
  refine ⟨backed.of_same kind properties rfl, backed.getOwn?_of_same kind properties rfl, ?_⟩
  rw [ownKeys_eq, kind, properties, ownKeys_eq]

/-- With all of its names done, the object is closed. -/
theorem RestrictsAll.restricted {reserved : ScopeRef → Prop} (ok : s.WellFormed reserved)
    (h : s.RestrictsAll t o freeze (s.ownKeys o)) (backed : t.Backed o) (inside : o.index < t.objects.size) :
    s.Restricted (t.modifyObject o Object.closed) o freeze := by
  have new := object_modifyObject t Object.closed inside
  have others (other : ObjectRef) (apart : other ≠ o) :
      (t.modifyObject o Object.closed).object other = s.object other :=
    (object_modifyObject_of_ne t _ apart).trans (h.others other apart)
  have kept (name : String) : (t.modifyObject o Object.closed).standsFor? o name = t.standsFor? o name := by
    rw [standsFor?, new]
    rfl
  obtain ⟨_, shown, keys⟩ := backed.closed inside
  exact {
    properties := fun name => by
      rw [shown, h.shown]
      cases present : s.getOwn? o name with
      | none => rfl
      | some p => rw [Option.map_some, if_pos (mem_ownKeys_of_getOwn? present), Option.map_some]
    keys := keys.trans h.keys
    extensible := by
      rw [new]
      rfl
    stands := fun name => by
      rw [kept, h.stands]
      by_cases mem : name ∈ s.ownKeys o
      · simp only [mem, and_true]
      · have absent : s.getOwn? o name = none := by
          cases present : s.getOwn? o name with
          | none => rfl
          | some p => exact absurd (mem_ownKeys_of_getOwn? present) mem
        rw [standsFor?_eq_none_iff.2 ((ok.backed o).unaliased_of_absent absent), ite_self, ite_self]
    narrows := by
      rw [new]
      exact h.narrows
    prototype := by
      rw [new]
      exact h.prototype
    className := by
      rw [new]
      exact h.className
    size := by
      rw [← h.size]
      simp [modifyObject]
    others := fun other apart => by
      have same := others other apart
      refine ⟨same, (ok.backed other).getOwn?_of_same ?_ ?_ h.scopes⟩
      · exact congrArg Object.kind same
      · exact congrArg Object.properties same
    scopes := h.scopes
    generators := h.generators
    contexts := h.contexts }

end Store

namespace ObjectRef

variable {s : Store} {o : ObjectRef} {reserved : ScopeRef → Prop}

/-- To seal or freeze an object never fails and runs no code. The object then passes for sealed or frozen, has its
properties as it showed them, but for the freedom that is taken, and nothing else has changed. Doing it again does
nothing. -/
theorem restrict_exact (ok : s.WellFormed reserved) (inside : o.index < s.objects.size)
    (covers : (s.object o).kind = .array → s.Covers o) (freeze : Bool) :
    ∃ t, (∀ E c, (o.restrict E freeze).Does c s () t) ∧ s.Restricted t o freeze ∧ t.isRestricted o freeze = true ∧
      ∀ E c, (o.restrict E freeze).Does c t () t := by
  obtain ⟨u, restricts, backed, does⟩ := restrictAll_run (s.ownKeys o) (ok.backed o) inside covers freeze
  have inside' : o.index < u.objects.size := restricts.size ▸ inside
  have restricted := restricts.restricted ok backed inside'
  obtain ⟨backed', shown, keys⟩ := backed.closed inside'
  refine ⟨_, fun E c => .read_bind (.bind (does E c) .modify), restricted, restricted.isRestricted,
    restrict_restricted backed' (fun kind => ?_) restricted.isRestricted⟩
  rw [Store.object_modifyObject u Object.closed inside'] at kind
  rw [Store.Covers, keys, arrayLength, shown]
  exact restricts.covers covers kind

/-- A parameter is set by its name and then the `arguments` object is frozen: the index has the value that was set, not
the one that was passed. -/
theorem restrict_exact_arguments :
    ∃ s ∈ (Machine.new .standard).states [(12, .global ⟨[.expr (.call (.function
        ⟨none, ["a"], [.expr (.assign (.ident "a") (.boolean true))], false, false⟩) [.null])], false⟩)],
      (∃ w e c, (s.object ⟨59⟩).properties.get? "0" = some (.data .null w e c)) ∧
      ∃ t, (∀ E c, (ObjectRef.mk 59).restrict E true |>.Does c s () t) ∧ t.isRestricted ⟨59⟩ true = true ∧
        t.getOwn? ⟨59⟩ "0" = some (.data (.boolean true) false true false) ∧ t.standsFor? ⟨59⟩ "0" = none := by
  have called : ((Machine.new .standard).states [(12, .global ⟨[.expr (.call (.function
      ⟨none, ["a"], [.expr (.assign (.ident "a") (.boolean true))], false, false⟩) [.null])], false⟩)]).any
        (fun s => (s.object ⟨59⟩).kind.mapped?.isSome &&
          decide ((s.object ⟨59⟩).properties.get? "0" = some (.data .null true true true)) &&
          decide (s.getOwn? ⟨59⟩ "0" = some (.data (.boolean true) true true true))) = true := by decide +kernel
  obtain ⟨s, mem, called⟩ := List.any_eq_true.1 called
  obtain ⟨called, shown⟩ := Bool.and_eq_true_iff.1 called
  obtain ⟨mapped, stored⟩ := Bool.and_eq_true_iff.1 called
  obtain ⟨m, mapped⟩ := Option.isSome_iff_exists.1 mapped
  have kind := ObjectKind.eq_of_mapped? mapped
  obtain ⟨reserved, ok⟩ : ∃ reserved, s.WellFormed reserved := by
    obtain ⟨worlds, states, _, _⟩ := (Machine.governed .standard _).worlds
    rw [← states] at mem
    obtain ⟨w, _, rfl⟩ := List.mem_map.1 mem
    exact ⟨_, World.ok w⟩
  obtain ⟨t, does, restricted, passes, _⟩ := restrict_exact ok (Store.inside_of_arguments kind)
    (fun array => by cases kind.symm.trans array) true
  refine ⟨s, mem, ⟨_, _, _, of_decide_eq_true stored⟩, t, does, passes, ?_, restricted.stands "0"⟩
  rw [restricted.properties, of_decide_eq_true shown]
  rfl

end ObjectRef

end Ecma
