import Ecma.Proofs.ObjectInvariants

/-!
# Indices that stand for parameters

An `arguments` object outside of strict code stands for the parameters of its call. All that its indices stand for goes
back to the call that made it: of a repeated parameter only the last place counts, so no two indices share a parameter,
and from then on places are only given up. As long as an index stands for a parameter the two have one value, that of the
binding, which can be set and stays.

Where an object comes from is an invariant of its own, kept by every change: an old object only gives up places, and a
new one that stands for parameters is the `arguments` object of a call.
-/

namespace Ecma

namespace Object

/-- An index stands for a parameter when no later argument belongs to a parameter of the same name. -/
theorem getElem?_parameterNames_iff {params : List String} {i : Nat} {parameter : String} :
    (parameterNames params)[i]? = some (some parameter) ↔
      params[i]? = some parameter ∧ ∀ j, i < j → params[j]? ≠ some parameter := by
  induction params generalizing i with
  | nil => simp [parameterNames]
  | cons name rest ih =>
    cases i with
    | zero =>
      rw [parameterNames, List.getElem?_cons_zero, List.getElem?_cons_zero]
      constructor
      · intro h
        split at h
        · cases h
        next last =>
          cases h
          refine ⟨rfl, fun j later there => last ?_⟩
          obtain ⟨j, rfl⟩ := Nat.exists_eq_add_one_of_ne_zero (Nat.ne_of_gt later)
          exact List.contains_iff_mem.2 (List.mem_of_getElem? there)
      · rintro ⟨⟨⟩, last⟩
        rw [if_neg]
        intro again
        obtain ⟨j, there⟩ := List.mem_iff_getElem?.1 (List.contains_iff_mem.1 again)
        exact last (j + 1) (Nat.succ_pos j) there
    | succ i =>
      rw [parameterNames, List.getElem?_cons_succ, List.getElem?_cons_succ, ih]
      refine and_congr_right fun _ => ⟨fun last j later => ?_, fun last j later => ?_⟩
      · obtain ⟨j, rfl⟩ := Nat.exists_eq_add_one_of_ne_zero (Nat.ne_of_gt (Nat.zero_lt_of_lt later))
        exact last j (Nat.lt_of_succ_lt_succ later)
      · exact last (j + 1) (Nat.succ_lt_succ later)

/-- The places of a new `arguments` object: those below both the number of parameters and that of arguments, the last one
of each name. -/
theorem getElem?_parameterNames_take_iff {params : List String} {n i : Nat} {parameter : String} :
    (parameterNames (params.take n))[i]? = some (some parameter) ↔
      i < min params.length n ∧ params[i]? = some parameter ∧
        ∀ j, i < j → j < min params.length n → params[j]? ≠ some parameter := by
  have taken (j : Nat) : (params.take n)[j]? = some parameter ↔
      j < min params.length n ∧ params[j]? = some parameter := by
    rw [List.getElem?_take]
    constructor
    · intro there
      split at there
      next below => exact ⟨Nat.lt_min.2 ⟨(List.getElem?_eq_some_iff.1 there).1, below⟩, there⟩
      · cases there
    · rintro ⟨inside, there⟩
      rw [if_pos (Nat.lt_min.1 inside).2, there]
  rw [getElem?_parameterNames_iff, taken, and_assoc]
  refine and_congr_right fun _ => and_congr_right fun _ => forall_congr' fun j => forall_congr' fun _ => ?_
  rw [Ne, taken, not_and]

end Object

namespace ObjectKind.Narrows

variable {kind : ObjectKind} {m : ParameterMap}

theorem before (h : kind.Narrows (.arguments (some m))) :
    ∃ old, kind = .arguments (some old) ∧ m.scope = old.scope ∧
      ∀ i, m.names[i]? = old.names[i]? ∨ i < old.names.length ∧ m.names[i]? = some none := by
  cases h with
  | same => exact ⟨m, rfl, rfl, fun _ => .inl rfl⟩
  | detached before scope slots => exact ⟨_, before, scope, slots⟩

/-- A place that was given up stays so. -/
theorem after {kind' : ObjectKind} (h : kind.Narrows kind') (before : kind = .arguments (some m)) :
    ∃ new, kind' = .arguments (some new) ∧ new.scope = m.scope ∧
      ∀ i, new.names[i]? = m.names[i]? ∨ i < m.names.length ∧ new.names[i]? = some none := by
  cases h with
  | same => exact ⟨m, before, rfl, fun _ => .inl rfl⟩
  | detached before' scope slots =>
    cases before'.symm.trans before
    exact ⟨_, rfl, scope, slots⟩

end ObjectKind.Narrows

namespace Store

variable {s t : Store} {o : ObjectRef} {m : ParameterMap} {i : Nat} {parameter : String}

/-- What the places of an `arguments` object stand for comes from a call, whose parameters are bound for good. -/
def Descends (s : Store) (m : ParameterMap) : Prop :=
  ∃ callee params args, (Object.arguments callee params args m.scope false).kind.Narrows (.arguments (some m)) ∧
    ∀ name ∈ params, s.BindsAliasable m.scope name

/-- All places that stand for parameters come from calls. -/
def Descended (s : Store) : Prop := ∀ o m, (s.object o).kind = .arguments (some m) → s.Descends m

/-- Only what is there stands for parameters. -/
theorem inside_of_arguments (kind : (s.object o).kind = .arguments (some m)) : o.index < s.objects.size := by
  refine Nat.lt_of_not_le fun outside => ?_
  rw [object, Array.getElem?_eq_none outside] at kind
  cases kind

namespace Descends

/-- The parameter was at the place in the call, and at no later one. -/
theorem origin (h : s.Descends m) (stands : m.names[i]? = some (some parameter)) :
    ∃ params : List String, ∃ n, (∀ name ∈ params, s.BindsAliasable m.scope name) ∧
      (Object.parameterNames (params.take n))[i]? = some (some parameter) ∧
      ∀ j : Nat, m.names[j]? = some (some parameter) →
        (Object.parameterNames (params.take n))[j]? = some (some parameter) := by
  obtain ⟨callee, params, args, narrows, bound⟩ := h
  obtain ⟨old, before, _, slots⟩ := narrows.before
  cases before
  have back (j : Nat) (there : m.names[j]? = some (some parameter)) :
      (Object.parameterNames (params.take args.length))[j]? = some (some parameter) := by
    rcases slots j with same | ⟨_, emptied⟩
    · exact same.symm.trans there
    · cases emptied.symm.trans there
  exact ⟨params, args.length, bound, back i stands, back⟩

/-- No two places stand for one parameter. -/
theorem unique {j : Nat} (h : s.Descends m) (first : m.names[i]? = some (some parameter))
    (second : m.names[j]? = some (some parameter)) : j = i := by
  obtain ⟨params, n, _, here, back⟩ := h.origin first
  obtain ⟨there, last⟩ := Object.getElem?_parameterNames_iff.1 here
  obtain ⟨there', last'⟩ := Object.getElem?_parameterNames_iff.1 (back j second)
  rcases Nat.lt_trichotomy i j with less | same | more
  · exact absurd there' (last j less)
  · exact same.symm
  · exact absurd there (last' i more)

theorem bindsAliasable (h : s.Descends m) (stands : m.names[i]? = some (some parameter)) :
    s.BindsAliasable m.scope parameter := by
  obtain ⟨params, n, bound, here, _⟩ := h.origin stands
  exact bound parameter (List.mem_of_mem_take (List.mem_of_getElem? (Object.getElem?_parameterNames here)))

/-- Giving up places and growing the store lose nothing. -/
theorem mono {m' : ParameterMap} (h : s.Descends m) (grows : s.Grows t)
    (narrows : (ObjectKind.arguments (some m)).Narrows (.arguments (some m'))) : t.Descends m' := by
  obtain ⟨callee, params, args, made, bound⟩ := h
  obtain ⟨old, before, scope, _⟩ := narrows.before
  cases before
  refine ⟨callee, params, args, ?_, fun name mem => ?_⟩
  · rw [scope]
    exact made.trans narrows
  · rw [scope]
    exact grows.bindsAliasable (bound name mem)

end Descends

end Store

namespace World

variable {w u : World} {F : Store → Store} {o : ObjectRef} {m : ParameterMap}

/-- Of the objects that evaluation makes, only the `arguments` objects of calls stand for parameters. -/
theorem descends_of_makes {obj : Object} (made : Makes terms w obj) (kind : obj.kind = .arguments (some m)) :
    w.store.Descends m := by
  cases made with
  | @arguments callee params args e strict _ _ aliases =>
    cases strict with
    | true => cases kind
    | false =>
      cases kind
      exact ⟨callee, params, args, .same, aliases⟩
  | _ => cases kind

/-- A place that a change fills with an object that stands for parameters holds one that evaluation made. -/
theorem makes_of_change (made : Change terms w F) (new : w.store.objects.size ≤ o.index)
    (kind : ((F w.store).object o).kind = .arguments (some m)) :
    ∃ obj, Makes terms w obj ∧ obj.kind = .arguments (some m) := by
  have outside (t : Store) (same : t.objects = w.store.objects) (kind : (t.object o).kind = .arguments (some m)) :
      ∃ obj, Makes terms w obj ∧ obj.kind = .arguments (some m) :=
    absurd (Store.inside_of_arguments kind) (by rw [same]; exact Nat.not_lt.2 new)
  have modified (o' : ObjectRef) (f : Object → Object)
      (kind : ((w.store.modifyObject o' f).object o).kind = .arguments (some m)) :
      ∃ obj, Makes terms w obj ∧ obj.kind = .arguments (some m) := by
    rcases w.store.object_modifyObject_cases o' f o with same | ⟨rfl, inside, _⟩
    · exact outside w.store rfl (same ▸ kind)
    · exact absurd inside (Nat.not_lt.2 new)
  cases made with
  | @addObject obj made =>
    rw [Store.object_addObject] at kind
    split at kind
    · exact ⟨obj, made, kind⟩
    · exact outside w.store rfl kind
  | @addFunction code e strict =>
    rw [Store.object_addFunction] at kind
    split at kind
    · unfold Object.instancePrototype at kind
      split at kind <;> cases kind
    · split at kind
      · cases kind
      · exact outside w.store rfl kind
  | addProperty => exact modified _ _ kind
  | changeProperty => exact modified _ _ kind
  | @changeAliased o' m' name parameter d p change bindings b =>
    rw [Store.defineAliased_eq] at kind
    dsimp only at kind
    split at kind
    · exact modified _ _ kind
    · cases requested : d.value with
      | none =>
        rw [requested] at kind
        exact modified _ _ kind
      | some v =>
        rw [requested] at kind
        exact modified _ _ kind
  | deleteProperty => exact modified _ _ kind
  | close => exact modified _ _ kind
  | addScope => exact outside _ rfl kind
  | declare => exact outside _ rfl kind
  | declareImmutable => exact outside _ rfl kind
  | assign => exact outside _ rfl kind
  | settle => exact outside _ rfl kind
  | undeclare => exact outside _ rfl kind
  | addGenerator => exact outside _ rfl kind
  | steer => exact outside _ rfl kind
  | enter => exact outside _ rfl kind
  | leave => exact outside _ rfl kind
  | shift => exact outside _ (Store.objects_setLexical ..) kind

theorem Step.descended (step : w.Step F u) (before : w.store.Descended) : u.store.Descended := by
  intro o m kind
  by_cases inside : o.index < w.store.objects.size
  · have narrows := (step.preserves.keeps o inside).kind
    rw [kind] at narrows
    obtain ⟨old, was, _⟩ := narrows.before
    rw [was] at narrows
    exact (before o old was).mono step.grows narrows
  · rw [step.store] at kind
    obtain ⟨obj, made, there⟩ := makes_of_change step.made (Nat.le_of_not_lt inside) kind
    exact (descends_of_makes made there).mono step.grows .same

theorem Steps.descended (steps : w.Steps u) (before : w.store.Descended) : u.store.Descended := by
  induction steps with
  | refl => exact before
  | step _ last ih => exact last.descended ih

/-- No object of a fresh machine stands for parameters. -/
theorem descended_initial : initial.store.Descended := by
  intro o m kind
  have found := Array.getElem?_eq_getElem (Store.inside_of_arguments kind)
  have mem := Array.mem_toList_iff.2 (Array.getElem_mem (Store.inside_of_arguments kind))
  rw [Store.object, found] at kind
  rcases List.mem_append.1 mem with mem | mem
  · obtain ⟨i, _, same⟩ := List.mem_map.1 mem
    rw [Option.getD_some, ← same] at kind
    cases i with
    | errorPrototype e => cases e <;> cases kind
    | _ => cases kind
  · obtain ⟨n, _, same⟩ := List.mem_map.1 mem
    rw [Option.getD_some, ← same] at kind
    cases kind

end World

namespace ObjectRef

/-- Reading an own data property runs no code. -/
theorem get_of_getOwn? {E : Engine} {c : Config} {s : Store} {o : ObjectRef} {name : String} {v : Value} {w e d : Bool}
    (own : s.getOwn? o name = some (.data v w e d)) : (o.get E name).Does c s v s := by
  have found : s.getProperty? o name = some (.data v w e d) := by
    rw [Store.getProperty?, Store.prototypeChain, Store.chainFrom, List.findSome?_cons, own]
  refine .read_bind ?_
  rw [found]
  exact .pure

end ObjectRef

/-- What is true of a place of an `arguments` object that stands for a parameter. A name is an index only below `2 ^ 32`,
so no property name leads to a place beyond that. -/
structure Store.Aliased (s : Store) (o : ObjectRef) (m : ParameterMap) (i : Nat) (parameter : String) : Prop where
  unique : ∀ j, m.names[j]? = some (some parameter) → j = i
  binding : ∃ bindings b, (s.scope m.scope).record = .declarative bindings ∧ bindings.get? parameter = some b ∧
    b.Aliasable ∧ (i < 4294967296 →
      (∃ v e c, (s.object o).properties.get? (Index.name i) = some (.data v true e c)) ∧
        ∀ E c, (o.get E (Index.name i)).Does c s b.value s)

theorem World.aliased {w : World} (descended : w.store.Descended) {o : ObjectRef} {m : ParameterMap} {i : Nat}
    {parameter : String} (kind : (w.store.object o).kind = .arguments (some m))
    (stands : m.names[i]? = some (some parameter)) : w.store.Aliased o m i parameter := by
  have origin := descended o m kind
  refine ⟨fun j there => origin.unique stands there, ?_⟩
  by_cases index : i < 4294967296
  · have aliased : m.parameter? (Index.name i) = some parameter := by
      rw [ParameterMap.parameter?, Index.ofName?_name index, Option.bind_some, stands]
      rfl
    obtain ⟨bindings, b, v, e, c, record, found, aliasable, stored, shown⟩ := w.ok.getOwn?_aliased kind aliased
    exact ⟨bindings, b, record, found, aliasable, fun _ => ⟨⟨v, e, c, stored⟩, fun _ _ => ObjectRef.get_of_getOwn? shown⟩⟩
  · obtain ⟨bindings, b, record, found, aliasable⟩ := origin.bindsAliasable stands
    exact ⟨bindings, b, record, found, aliasable, fun below => absurd below index⟩

/-- In every state of a history, each place of an `arguments` object that stands for a parameter does so alone and shares
its value. From one state to a later one, places are only given up. At the start they are the last place of each name
among the parameters that have arguments. -/
theorem arguments_stand_for_parameters (config : Config) (units : List (Nat × CodeUnit)) :
    (∀ s ∈ (Machine.new config).states units, ∀ o m, (s.object o).kind = .arguments (some m) →
      (∃ callee params args, (Object.arguments callee params args m.scope false).kind.Narrows (.arguments (some m))) ∧
        ∀ i parameter, m.names[i]? = some (some parameter) → s.Aliased o m i parameter) ∧
    ((Machine.new config).states units).Pairwise (fun s t => ∀ o m, (s.object o).kind = .arguments (some m) →
      ∃ m', (t.object o).kind = .arguments (some m') ∧ m'.scope = m.scope ∧
        ∀ i, m'.names[i]? = m.names[i]? ∨ i < m.names.length ∧ m'.names[i]? = some none) ∧
    ∀ callee params args e, ∃ names, (Object.arguments callee params args e false).kind = .arguments (some ⟨e, names⟩) ∧
      ∀ i parameter, names[i]? = some (some parameter) ↔
        i < min params.length args.length ∧ params[i]? = some parameter ∧
          ∀ j, i < j → j < min params.length args.length → params[j]? ≠ some parameter := by
  obtain ⟨worlds, states, ordered, reached⟩ := (Machine.governed config units).worlds
  rw [← states]
  refine ⟨?_, ordered.map _ fun w u steps o m kind => ?_, fun callee params args e => ?_⟩
  · rintro s mem o m kind
    obtain ⟨w, there, rfl⟩ := List.mem_map.1 mem
    have descended := World.Steps.descended (reached w there) World.descended_initial
    obtain ⟨callee, params, args, narrows, _⟩ := descended o m kind
    exact ⟨⟨callee, params, args, narrows⟩, fun i parameter => World.aliased descended kind⟩
  · exact ((World.Steps.preserves steps).keeps o (Store.inside_of_arguments kind)).kind.after kind
  · exact ⟨_, rfl, fun _ _ => Object.getElem?_parameterNames_take_iff⟩

/-- The places of an `arguments` object that stands for parameters. -/
def ObjectKind.mapped? : ObjectKind → Option ParameterMap
  | arguments mapped => mapped
  | _ => none

theorem ObjectKind.eq_of_mapped? {kind : ObjectKind} {m : ParameterMap} (h : kind.mapped? = some m) :
    kind = .arguments (some m) := by
  cases kind with
  | arguments mapped => exact congrArg arguments h
  | _ => cases h

/-- A call with a repeated parameter: the last of its places stands for it. -/
theorem arguments_stand_for_parameters_repeated :
    ∃ s ∈ (Machine.new .standard).states [(9, .global ⟨[.expr (.call (.function ⟨none, ["a", "b", "a"], [], false, false⟩)
        [.null, .boolean true, .null])], false⟩)],
      ∃ m, (s.object ⟨59⟩).kind = .arguments (some m) ∧ m.names = [none, some "b", some "a"] ∧
        s.Aliased ⟨59⟩ m 2 "a" := by
  have called : ((Machine.new .standard).states [(9, .global ⟨[.expr (.call
      (.function ⟨none, ["a", "b", "a"], [], false, false⟩) [.null, .boolean true, .null])], false⟩)]).any
        (fun s => (s.object ⟨59⟩).kind.mapped?.any (·.names = [none, some "b", some "a"])) = true := by decide +kernel
  obtain ⟨s, mem, called⟩ := List.any_eq_true.1 called
  obtain ⟨m, mapped, names⟩ := (Option.any_eq_true ..).1 called
  have kind := ObjectKind.eq_of_mapped? mapped
  have names := of_decide_eq_true names
  refine ⟨s, mem, m, kind, names, ?_⟩
  exact ((arguments_stand_for_parameters .standard _).1 s mem _ m kind).2 2 "a" (by rw [names]; rfl)

end Ecma
