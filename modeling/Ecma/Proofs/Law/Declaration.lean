import Ecma.Proofs.Law.Scope

/-!
# Binding declarations obeys every law

What happens before code runs: parameters, functions, `arguments` and variables are bound. The scope of a call has
nothing but parameters when its `arguments` object is made, so each index of it stands for a binding that can be set and
will stay.
-/

namespace Ecma

/-- A binding that an index of an `arguments` object may stand for. -/
structure Binding.Aliasable (b : Binding) : Prop where
  mutable : b.mutable = true
  fixed : b.deletable = false
  initialized : b.initialized = true

/-- Nothing but parameters is bound. -/
def NameMap.Parameters (bindings : NameMap Binding) : Prop := ∀ name b, bindings.get? name = some b → b.Aliasable

theorem NameMap.Parameters.insert {bindings : NameMap Binding} (h : bindings.Parameters) {b : Binding}
    (aliasable : b.Aliasable) (name : String) : (bindings.insert name b).Parameters := by
  intro other b' found
  rw [NameMap.get?_insert] at found
  split at found
  · cases found
    exact aliasable
  · exact h other b' found

namespace Law

variable {L : Law} {E E' : Engine} {c : Config} {w : L.World} {e : ScopeRef} {strict : Bool}

section Parameters

/-- A scope that binds nothing but parameters, as far as the law looks into scopes. -/
def parametersOnly (L : Law) (w : L.World) (e : ScopeRef) : Prop :=
  L.free ∨ e.index < (L.left w).scopes.size ∧
    ∃ bindings, ((L.left w).scope e).record = .declarative bindings ∧ bindings.Parameters

variable {name : String} {bindings : NameMap Binding} {b : Binding}

theorem parametersOnly_insert {u : L.World} (ranged : e.index < (L.left w).scopes.size) (parameters : bindings.Parameters)
    (aliasable : b.Aliasable) (left : L.left u = (L.left w).withBindings e (bindings.insert name b)) :
    L.parametersOnly u e := by
  refine .inr ⟨?_, _, ?_, parameters.insert aliasable name⟩
  · rw [left, Store.withBindings, Store.modifyScope, Array.size_modify]
    exact ranged
  · rw [left, Store.record_withBindings _ ranged]

/-- Giving a parameter its value. -/
theorem setParameter_obeys {v : Value} (ranged : e.index < (L.left w).scopes.size) (known : L.scope w e strict)
    (record : ((L.left w).scope e).record = .declarative bindings) (parameters : bindings.Parameters)
    (found : bindings.get? name = some b) (value : L.value w v) :
    L.Obeys c w (e.setMutable E name v strict) (e.setMutable E' name v strict) fun u _ =>
      L.parametersOnly u e ∧ L.parameter u e name := by
  refine .read_bind (fun _ _ => by simp) ?_
  simp only [record]
  refine .mono (setDeclarative_obeys record (fun missing => ?_) value) fun u _ reached post => ?_
  · rw [found] at missing
    cases missing
  have aliasable := parameters name b found
  have left := post b found aliasable.mutable
  have now : (bindings.insert name { b with value := v }).get? name = some { b with value := v } := by
    rw [NameMap.get?_insert, if_pos rfl]
  have kept : ({ b with value := v } : Binding).Aliasable :=
    ⟨aliasable.mutable, aliasable.fixed, aliasable.initialized⟩
  refine ⟨parametersOnly_insert ranged parameters kept left, ?_⟩
  refine L.aliasable (reached.scope known) ?_ now aliasable.mutable aliasable.fixed aliasable.initialized
  rw [left, Store.record_withBindings _ ranged]

theorem bindParameters_obeys (H : L.Engines E E') {args : List Value} (known : L.scope w e strict)
    (parameters : L.parametersOnly w e) (values : L.values w args) (params : List String) :
    L.Obeys c w (bindParameters E e strict params args) (bindParameters E' e strict params args) fun u _ =>
      L.parametersOnly u e ∧ ∀ name ∈ params, L.parameter u e name := by
  induction params generalizing w args with
  | nil => exact .pure ⟨parameters, nofun⟩
  | cons name rest ih =>
    have head : L.value w (args.headD .undefined) := by
      cases args with
      | nil => exact L.primitive rfl
      | cons v _ => exact values v (List.mem_cons_self ..)
    have tail : L.values w args.tail := fun v h => values v (List.mem_of_mem_tail h)
    have after {u : L.World} (reached : L.Reached w u) (post : L.parametersOnly u e ∧ L.parameter u e name) :
        L.Obeys c u (bindParameters E e strict rest args.tail) (bindParameters E' e strict rest args.tail) fun t _ =>
          L.parametersOnly t e ∧ ∀ other ∈ name :: rest, L.parameter t e other := by
      refine .mono (ih (reached.scope known) post.1 (reached.values tail)) fun t _ later h => ⟨h.1, ?_⟩
      exact List.forall_mem_cons.2 ⟨L.parameter_mono later.le post.2, h.2⟩
    refine .read_bind (fun _ _ => by simp) ?_
    rcases parameters with free | ⟨ranged, bindings, record, parameters⟩
    · have given (u : L.World) : L.parametersOnly u e ∧ L.parameter u e name := ⟨.inl free, (free.2 u e name).2.1⟩
      split
      · exact .bind (setMutable_obeys H (free.2 w e name).1 head) fun _ u reached _ => after reached (given u)
      · exact .bind (createMutable_obeys H known (fun _ _ _ => free.1 _) (L.declares_fixed w e)) fun _ u reached _ =>
          .bind (setMutable_obeys H (free.2 u e name).1 (reached.value head)) fun _ t later _ =>
            after (reached.trans later) (given t)
    · have has : (L.left w).hasBinding e name = bindings.contains name := by rw [Store.hasBinding, record]
      rw [has]
      cases present : bindings.contains name with
      | true =>
        obtain ⟨b, found⟩ := Option.isSome_iff_exists.1 present
        exact .bind (setParameter_obeys ranged known record parameters found head) fun _ _ reached post =>
          after reached post
      | false =>
        refine .bind (createMutable_declarative record present (L.declares_fixed w e)) fun _ u reached left => ?_
        have ranged' : e.index < (L.left u).scopes.size := by
          rw [left, Store.withBindings, Store.modifyScope, Array.size_modify]
          exact ranged
        have record' : ((L.left u).scope e).record = .declarative (bindings.insert name (.mutableOf false)) := by
          rw [left, Store.record_withBindings _ ranged]
        have found : (bindings.insert name (.mutableOf false)).get? name = some (.mutableOf false) := by
          rw [NameMap.get?_insert, if_pos rfl]
        exact .bind (setParameter_obeys ranged' (reached.scope known) record'
          (parameters.insert ⟨rfl, rfl, rfl⟩ name) found (reached.value head)) fun _ _ later post =>
            after (reached.trans later) post

end Parameters

section Instantiate

/-- What a call must bring for its parameters to be bound. -/
structure Called (L : Law) (w : L.World) (e : ScopeRef) (call : Invocation) : Prop where
  callee : L.object w call.callee
  args : L.values w call.args
  own : L.declarative w e
  parameters : L.parametersOnly w e

/-- What a call brings is still there when its context is entered. -/
theorem Called.push {u : L.World} {call : Invocation} {ctx : Context} (h : L.Called w e call) (le : L.le w u)
    (left : L.left u = (L.left w).pushContext ctx) : L.Called u e call := by
  refine ⟨L.value_mono le h.callee, fun v mem => L.value_mono le (h.args v mem), L.declarative_mono le h.own, ?_⟩
  rw [parametersOnly, left]
  exact h.parameters

variable (H : L.Engines E E')
include H

theorem replaceGlobal_obeys {name : String} : L.Obeys c w (replaceGlobal E name) (replaceGlobal E' name) L.any := by
  have define : L.Obeys c w (Intrinsic.global.ref.define E name (Property.data .undefined true true false).descriptor true)
      (Intrinsic.global.ref.define E' name (Property.data .undefined true true false).descriptor true) L.any :=
    define_obeys H (L.intrinsic w .global) (property_data (L.primitive rfl))
  refine .read_bind (fun _ _ => by simp) ?_
  cases (L.left w).getProperty? Intrinsic.global.ref name with
  | none => exact .bind define fun _ _ _ _ => .pure trivial
  | some p =>
    dsimp only
    split
    · exact .bind define fun _ _ _ _ => .pure trivial
    split
    · exact .fail (L.permits_kind nofun)
    · exact .pure trivial

variable {kind : CodeKind} {ctx : Context}

theorem bindFunction_obeys {code : FunctionCode} {name : String} (known : L.scope w ctx.vars ctx.strict)
    (allowed : L.declares w ctx.vars kind.deletable) :
    L.Obeys c w (bindFunction E kind ctx code name) (bindFunction E' kind ctx code name) L.any := by
  refine .bind (.newFunction known) fun f u reached object => .read_bind (fun _ _ => by simp) ?_
  have known := reached.scope known
  dsimp only
  split
  case isTrue has =>
    have bound := L.found known has
    split
    · exact .bind (replaceGlobal_obeys H) fun _ _ later _ =>
        setMutable_obeys H (L.bound_mono later.le bound) (later.value object)
    · exact setMutable_obeys H bound object
  case isFalse has =>
    exact .bind (createMutable_obeys H known (absent_of_hasBinding (Bool.eq_false_iff.2 has))
      (L.declares_mono reached.le allowed))
      fun _ _ later bound => setMutable_obeys H bound (later.value object)

theorem bindFunctionList_obeys (known : L.scope w ctx.vars ctx.strict) (allowed : L.declares w ctx.vars kind.deletable)
    (codes : List FunctionCode) :
    L.Obeys c w (bindFunctionList E kind ctx codes) (bindFunctionList E' kind ctx codes) L.any := by
  induction codes generalizing w with
  | nil => exact .pure trivial
  | cons code rest ih =>
    rw [bindFunctionList, bindFunctionList]
    cases code.name with
    | none => exact ih known allowed
    | some name =>
      exact .bind (bindFunction_obeys H known allowed) fun _ _ reached _ =>
        ih (reached.scope known) (L.declares_mono reached.le allowed)

theorem bindVariableList_obeys (known : L.scope w ctx.vars ctx.strict) (allowed : L.declares w ctx.vars kind.deletable)
    (names : List String) :
    L.Obeys c w (bindVariableList E kind ctx names) (bindVariableList E' kind ctx names) fun u _ =>
      ∀ name ∈ names, L.bound u ctx.vars name := by
  induction names generalizing w with
  | nil => exact .pure nofun
  | cons name rest ih =>
    have after {u : L.World} (reached : L.Reached w u) (bound : L.bound u ctx.vars name) :
        L.Obeys c u (bindVariableList E kind ctx rest) (bindVariableList E' kind ctx rest) fun t _ =>
          ∀ other ∈ name :: rest, L.bound t ctx.vars other :=
      .mono (ih (reached.scope known) (L.declares_mono reached.le allowed)) fun _ _ later others =>
        List.forall_mem_cons.2 ⟨L.bound_mono later.le bound, others⟩
    refine .read_bind (fun _ _ => by simp) ?_
    cases has : (L.left w).hasBinding ctx.vars name with
    | true => exact after (.refl w) (L.found known has)
    | false =>
      refine .bind (createMutable_obeys H known (absent_of_hasBinding has) allowed) fun _ u reached bound => ?_
      refine .bind (setMutable_obeys H bound (L.primitive rfl)) fun _ t later _ => ?_
      exact after (reached.trans later) (L.bound_mono later.le bound)

/-- Binding `arguments` in a scope that has a record of its own. -/
theorem bindArguments_obeys {call : Invocation} (known : L.scope w ctx.vars ctx.strict)
    (own : L.declarative w ctx.vars) (callee : L.object w call.callee) (args : L.values w call.args)
    (aliases : ∀ name ∈ call.params, L.parameter w ctx.vars name) :
    L.Obeys c w (bindArguments E ctx call) (bindArguments E' ctx call) L.any := by
  refine .read_bind (fun _ _ => by simp) ?_
  split
  · exact .pure trivial
  case isFalse has =>
  refine .bind (.alloc_exact (.arguments callee args aliases)) fun arguments u reached post => ?_
  have known := reached.scope known
  have room : (∀ f, L.permits f) ∨ ∃ bindings, ((L.left u).scope ctx.vars).record = .declarative bindings ∧
      bindings.contains "arguments" = false := by
    rcases L.declarative_record own with free | ⟨bindings, record⟩
    · exact .inl free.1
    · refine .inr ⟨bindings, by rw [post.2]; exact record, ?_⟩
      simpa only [Store.hasBinding, record, Bool.not_eq_true] using has
  split
  · exact .bind (createImmutable_obeys known room) fun _ _ later pending =>
      initializeImmutable_obeys (later.value post.1) pending
  · refine .bind (createMutable_obeys H known ?_ (L.declares_fixed u ctx.vars)) fun _ _ later bound =>
      setMutable_obeys H bound (later.value post.1)
    intro bindings record present
    rcases room with permits | ⟨bindings', record', absent⟩
    · exact permits _
    · rw [record] at record'
      cases record'
      rw [present] at absent
      cases absent

/-- All that the statements of a body declare is bound before they run. -/
theorem instantiate_obeys {body : List Stmt} {call : Option Invocation} {rest : List Context}
    (running : (L.left w).contexts = ctx :: rest) (allowed : L.declares w ctx.vars kind.deletable)
    (called : ∀ i, call = some i → L.Called w ctx.vars i) :
    L.Obeys c w (instantiate E kind body call) (instantiate E' kind body call) fun u _ =>
      ∀ name ∈ Stmt.varNamesOf body, L.bound u ctx.vars name := by
  have known : L.scope w ctx.vars ctx.strict := (L.contexts (by rw [running]; exact List.mem_cons_self ..)).2.1
  have functions {u : L.World} (reached : L.Reached w u) :
      L.Obeys c u (bindFunctions E kind body) (bindFunctions E' kind body) L.any := by
    refine .runningContext_bind (L.running_cons (reached.contexts.trans running)) fun top _ found => ?_
    rw [reached.contexts, running] at found
    cases found
    exact bindFunctionList_obeys H (reached.scope known) (L.declares_mono reached.le allowed) _
  have vars {u : L.World} (reached : L.Reached w u) :
      L.Obeys c u (bindVariables E kind body) (bindVariables E' kind body) fun t _ =>
        ∀ name ∈ Stmt.varNamesOf body, L.bound t ctx.vars name := by
    refine .runningContext_bind (L.running_cons (reached.contexts.trans running)) fun top _ found => ?_
    rw [reached.contexts, running] at found
    cases found
    exact .mono (bindVariableList_obeys H (reached.scope known) (L.declares_mono reached.le allowed) _)
      fun _ _ _ bound name mem => bound name (List.mem_eraseDups.2 mem)
  refine .runningContext_bind (L.running_cons running) fun top _ found => ?_
  rw [running] at found
  cases found
  cases call with
  | none => exact .bind (functions (.refl w)) fun _ _ reached _ => vars reached
  | some call =>
    have brought := called call rfl
    refine .bind (bindParameters_obeys H known brought.parameters brought.args call.params) fun _ u first post => ?_
    refine .bind (functions first) fun _ t second _ => ?_
    have both := first.trans second
    refine .bind (bindArguments_obeys H (both.scope known) (L.declarative_mono both.le brought.own)
      (both.object brought.callee) (both.values brought.args) fun name h => ?_) fun _ _ third _ =>
        vars (both.trans third)
    exact L.parameter_mono second.le (post.2 name h)

end Instantiate

end Law

end Ecma
