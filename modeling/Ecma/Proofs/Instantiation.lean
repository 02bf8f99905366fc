import Ecma.Proofs.Hoisting

/-!
# What a call binds

Before its body runs, a call binds names in a new scope, in four passes: parameters, functions, `arguments` and
variables. A parameter or a function takes a name over from whoever had it, while `arguments` and variables leave a name
alone that is bound. So the passes are described by what one of them does to the names bound so far, and a name has what
the last pass gave it that was free to.

The functions and variables are found in the body wherever statements hold other statements, but not in the body of
another function. `Stmt.inOrder` lists those statements as the text has them.
-/

namespace Ecma

/-! ## What a body declares -/

namespace Stmt

/-- The statements that a statement is made of. The body of a function that it declares is code of its own. -/
def parts : Stmt → List Stmt
  | .ifElse _ consequent alternate => consequent ++ alternate
  | .block body | .whileLoop _ body | .doWhile body _ | .withObject _ body | .forLoop _ _ _ body | .forIn _ _ body =>
    body
  | .label _ body => [body]
  | .tryCatch body none finalizer => body ++ finalizer
  | .tryCatch body (some (.mk _ handler)) finalizer => body ++ handler ++ finalizer
  | _ => []

theorem sizeOf_lt_of_mem_parts {stmt part : Stmt} (mem : part ∈ stmt.parts) : sizeOf part < sizeOf stmt := by
  have smaller {body : List Stmt} (mem : part ∈ body) : sizeOf part < sizeOf body := List.sizeOf_lt_of_mem mem
  cases stmt with
  | ifElse _ consequent alternate =>
    simp only [ifElse.sizeOf_spec]
    rcases List.mem_append.1 mem with mem | mem <;> have := smaller mem <;> omega
  | block body | whileLoop _ body | doWhile body _ | withObject _ body | forLoop _ _ _ body | forIn _ _ body =>
    have : sizeOf part < sizeOf body := smaller mem
    simp
    omega
  | label _ body =>
    cases List.mem_singleton.1 mem
    simp only [label.sizeOf_spec]
    omega
  | tryCatch body clause finalizer =>
    simp only [tryCatch.sizeOf_spec]
    cases clause with
    | none => rcases List.mem_append.1 mem with mem | mem <;> have := smaller mem <;> omega
    | some clause =>
      obtain ⟨_, handler⟩ := clause
      simp only [Option.some.sizeOf_spec, CatchClause.mk.sizeOf_spec]
      rcases List.mem_append.1 mem with mem | mem
      · rcases List.mem_append.1 mem with mem | mem <;> have := smaller mem <;> omega
      · have := smaller mem
        omega
  | _ => cases mem

/-- A statement and all that it is made of, in the order of the text. -/
def preorder (stmt : Stmt) : List Stmt :=
  stmt :: stmt.parts.attach.flatMap fun part => preorder part.1
termination_by sizeOf stmt
decreasing_by exact sizeOf_lt_of_mem_parts part.2

/-- What is gathered from a statement and from its parts is gathered from the text in order. -/
theorem flatMap_preorder {α : Type} {gather own : Stmt → List α}
    (step : ∀ stmt : Stmt, gather stmt = own stmt ++ stmt.parts.flatMap gather) (stmt : Stmt) :
    stmt.preorder.flatMap own = gather stmt := by
  induction stmt using preorder.induct with
  | case1 stmt ih =>
    rw [preorder, step, List.flatMap_cons, List.flatMap_assoc]
    congr 1
    simp only [ih]
    simp [List.flatMap_subtype]

/-- All statements of a body, in the order of the text. -/
def inOrder (body : List Stmt) : List Stmt := body.flatMap preorder

/-- The function that a statement declares itself. -/
def ownFunctions : Stmt → List FunctionCode
  | .function code => [code]
  | _ => []

/-- The names that a statement declares itself. -/
def ownNames : Stmt → List String
  | .declare declarators => declarators.map Declarator.name
  | .forLoop init _ _ _ => init.names
  | .forIn target _ _ => target.names
  | _ => []

theorem functionsOf_eq (body : List Stmt) : functionsOf body = body.flatMap functions := by
  induction body with
  | nil => rfl
  | cons stmt rest ih => rw [functionsOf, ih, List.flatMap_cons]

theorem functions_eq (stmt : Stmt) : stmt.functions = stmt.ownFunctions ++ stmt.parts.flatMap functions := by
  cases stmt with
  | tryCatch body clause finalizer =>
    cases clause with
    | none => simp [functions, parts, ownFunctions, functionsOf_eq]
    | some clause =>
      obtain ⟨_, handler⟩ := clause
      simp [functions, parts, ownFunctions, functionsOf_eq]
  | _ => simp [functions, parts, ownFunctions, functionsOf_eq]

theorem varNamesOf_eq (body : List Stmt) : varNamesOf body = body.flatMap varNames := by
  induction body with
  | nil => rfl
  | cons stmt rest ih => rw [varNamesOf, ih, List.flatMap_cons]

theorem varNames_eq (stmt : Stmt) : stmt.varNames = stmt.ownNames ++ stmt.parts.flatMap varNames := by
  cases stmt with
  | tryCatch body clause finalizer =>
    cases clause with
    | none => simp [varNames, parts, ownNames, varNamesOf_eq]
    | some clause =>
      obtain ⟨_, handler⟩ := clause
      simp [varNames, parts, ownNames, varNamesOf_eq]
  | _ => simp [varNames, parts, ownNames, varNamesOf_eq]

end Stmt

/-- The functions that a body declares are those of its statements, in the order of the text. -/
theorem functionDeclarations_eq (body : List Stmt) :
    functionDeclarations body = (Stmt.inOrder body).flatMap Stmt.ownFunctions := by
  rw [functionDeclarations, Stmt.functionsOf_eq, Stmt.inOrder, List.flatMap_assoc]
  simp only [Stmt.flatMap_preorder Stmt.functions_eq]

/-- The variables that a body declares are those of its statements, each at its first place in the text. -/
theorem varDeclaredNames_eq (body : List Stmt) :
    varDeclaredNames body = ((Stmt.inOrder body).flatMap Stmt.ownNames).eraseDups := by
  rw [varDeclaredNames, Stmt.varNamesOf_eq, Stmt.inOrder, List.flatMap_assoc]
  simp only [Stmt.flatMap_preorder Stmt.varNames_eq]

/-! ## Names in order -/

/-- The last place at which a list has an item. -/
structure LastAt {α : Type} (items : List α) (i : Nat) (a : α) : Prop where
  here : items[i]? = some a
  last : ∀ j, i < j → items[j]? ≠ some a

namespace LastAt

variable {α : Type} {items : List α} {first a : α} {i : Nat}

theorem zero_iff : LastAt (first :: items) 0 a ↔ first = a ∧ a ∉ items := by
  constructor
  · rintro ⟨here, last⟩
    refine ⟨Option.some.inj here, fun mem => ?_⟩
    obtain ⟨j, found⟩ := List.mem_iff_getElem?.1 mem
    exact last (j + 1) (Nat.succ_pos j) found
  · rintro ⟨rfl, absent⟩
    refine ⟨rfl, fun j later found => absent ?_⟩
    obtain ⟨j, rfl⟩ := Nat.exists_eq_succ_of_ne_zero (Nat.ne_of_gt later)
    exact List.mem_of_getElem? found

theorem succ_iff : LastAt (first :: items) (i + 1) a ↔ LastAt items i a := by
  constructor
  · rintro ⟨here, last⟩
    exact ⟨here, fun j later => last (j + 1) (Nat.succ_lt_succ later)⟩
  · rintro ⟨here, last⟩
    refine ⟨here, fun j later => ?_⟩
    obtain ⟨j, rfl⟩ := Nat.exists_eq_succ_of_ne_zero (Nat.ne_zero_of_lt later)
    exact last j (Nat.lt_of_succ_lt_succ later)

theorem mem (h : LastAt items i a) : a ∈ items := List.mem_of_getElem? h.here

end LastAt

theorem eraseDups_concat (names : List String) (name : String) :
    (names ++ [name]).eraseDups = if name ∈ names then names.eraseDups else names.eraseDups ++ [name] := by
  rw [List.eraseDups_append]
  split
  next mem => simp [List.removeAll, mem]
  next absent => simp [List.removeAll, absent, List.eraseDups_cons]

namespace NameMap

variable {α : Type} {m : NameMap α} {names : List String} {name : String}

/-- A name that is set stands where it was set first. -/
theorem keys_insert_of_eraseDups (keys : m.keys = names.eraseDups) (a : α) :
    (m.insert name a).keys = (names ++ [name]).eraseDups := by
  rw [keys_insert, keys, eraseDups_concat]
  simp only [List.mem_eraseDups]

theorem keys_of_contains (keys : m.keys = names.eraseDups) (present : m.contains name = true) :
    m.keys = (names ++ [name]).eraseDups := by
  have mem : name ∈ names := by
    rw [contains_iff_mem_keys, keys] at present
    simpa using present
  rw [keys, eraseDups_concat, if_pos mem]

/-- Of two values for a name, the later one stays. -/
theorem insert_insert (m : NameMap α) (name : String) (a b : α) :
    (m.insert name a).insert name b = m.insert name b := by
  have present : (m.insert name a).contains name = true := by simp [contains, get?_insert]
  rw [insert, if_pos present]
  unfold insert
  split
  · simp only [List.map_map, mk.injEq]
    apply List.map_congr_left
    intro entry _
    by_cases same : entry.1 = name <;> simp [same]
  next absent =>
    have others (entry : String × α) (mem : entry ∈ m.entries) : entry.1 ≠ name := by
      rintro rfl
      exact absent (contains_iff_mem_keys.2 (List.mem_map_of_mem mem))
    simp only [List.map_append, mk.injEq]
    congr 1
    · refine (List.map_congr_left fun entry mem => if_neg (others entry mem)).trans (List.map_id _)
    · simp

end NameMap

/-! ## Binding a name -/

/-- A binding that can be set, but not deleted. -/
def Binding.plain (v : Value) : Binding := ⟨v, true, false, true⟩

theorem Binding.Aliasable.eq_plain {b : Binding} (h : b.Aliasable) (v : Value) : { b with value := v } = .plain v := by
  obtain ⟨value, mutable, deletable, initialized⟩ := b
  obtain ⟨rfl, rfl, rfl⟩ := h
  rfl

/-- A binding that has its value and stays. -/
structure Binding.Settled (b : Binding) : Prop where
  initialized : b.initialized = true
  fixed : b.deletable = false

/-- The bindings of a scope once names were bound that were not bound before. -/
structure NameMap.Adds (bindings bound : NameMap Binding) : Prop where
  kept : ∀ name b, bindings.get? name = some b → bound.get? name = some b
  settled : ∀ name b, bindings.get? name = none → bound.get? name = some b → b.Settled

namespace NameMap.Adds

variable {bindings bindings' bindings'' : NameMap Binding} {name : String} {b : Binding}

theorem refl : bindings.Adds bindings where
  kept _ _ found := found
  settled name b absent found := by cases absent.symm.trans found

theorem insert (absent : bindings.contains name = false) (settled : b.Settled) :
    bindings.Adds (bindings.insert name b) where
  kept other b' found := by
    have apart : other ≠ name := by
      rintro rfl
      rw [contains, found] at absent
      cases absent
    rw [get?_insert, if_neg apart, found]
  settled other b' absent found := by
    rw [get?_insert] at found
    split at found
    · cases found
      exact settled
    · cases absent.symm.trans found

theorem trans (first : bindings.Adds bindings') (second : bindings'.Adds bindings'') : bindings.Adds bindings'' where
  kept name b found := second.kept name b (first.kept name b found)
  settled name b absent found := by
    cases between : bindings'.get? name with
    | none => exact second.settled name b between found
    | some b' =>
      cases (second.kept name b' between).symm.trans found
      exact first.settled name b absent between

end NameMap.Adds

namespace Store

variable {s t u : Store} {e : ScopeRef} {bindings bindings' : NameMap Binding}

/-- A store after names were bound in a scope: the scope has these bindings, and nothing that was there before is
different elsewhere. -/
structure Fills (s t : Store) (e : ScopeRef) (bindings : NameMap Binding) : Prop where
  scope : t.scope e = ⟨.declarative bindings, (s.scope e).outer⟩
  others : ∀ d, d ≠ e → t.scope d = s.scope d
  scopes : t.scopes.size = s.scopes.size
  objects : ∀ o : ObjectRef, o.index < s.objects.size → t.object o = s.object o
  size : s.objects.size ≤ t.objects.size
  generators : t.generators = s.generators
  contexts : t.contexts = s.contexts

namespace Fills

theorem record (h : s.Fills t e bindings) : (t.scope e).record = .declarative bindings := by rw [h.scope]

theorem refl (record : (s.scope e).record = .declarative bindings) : s.Fills s e bindings where
  scope := by rw [← record]
  others _ _ := rfl
  scopes := rfl
  objects _ _ := rfl
  size := Nat.le_refl _
  generators := rfl
  contexts := rfl

theorem trans (first : s.Fills t e bindings) (second : t.Fills u e bindings') : s.Fills u e bindings' where
  scope := by rw [second.scope, first.scope]
  others d other := (second.others d other).trans (first.others d other)
  scopes := second.scopes.trans first.scopes
  objects o inside := (second.objects o (Nat.lt_of_lt_of_le inside first.size)).trans (first.objects o inside)
  size := Nat.le_trans first.size second.size
  generators := second.generators.trans first.generators
  contexts := second.contexts.trans first.contexts

theorem withBindings (inside : e.index < s.scopes.size) : s.Fills (s.withBindings e bindings) e bindings where
  scope := by
    rw [Store.scope, Store.withBindings, modifyScope, Array.getElem?_modify, if_pos rfl, Store.scope]
    simp [inside]
  others d other := by
    rcases scope_withBindings_cases s e bindings d with same | ⟨same, _⟩
    · exact same
    · exact absurd same other
  scopes := by simp [Store.withBindings, modifyScope]
  objects _ _ := rfl
  size := Nat.le_refl _
  generators := rfl
  contexts := rfl

theorem addObject (record : (s.scope e).record = .declarative bindings) (obj : Object) :
    s.Fills (s.addObject obj) e bindings where
  scope := (refl record).scope
  others _ _ := rfl
  scopes := rfl
  objects _ inside := object_addObject_old s obj inside
  size := by simp [Store.addObject]
  generators := rfl
  contexts := rfl

theorem addFunction (record : (s.scope e).record = .declarative bindings) (code : FunctionCode) (strict : Bool) :
    s.Fills (s.addFunction code e strict) e bindings :=
  have first := addObject record (.function code e strict ⟨s.nextObject.index + 1⟩)
  first.trans (addObject first.record _)

end Fills

/-- A function that closes over a scope, with the object that its instances inherit from. -/
structure IsClosure (s : Store) (f : ObjectRef) (code : FunctionCode) (e : ScopeRef) (strict : Bool) : Prop where
  inside : f.index + 1 < s.objects.size
  function : s.object f = .function code e (strict || code.strict) ⟨f.index + 1⟩
  prototype : s.object ⟨f.index + 1⟩ = .instancePrototype code f

theorem isClosure_addFunction (s : Store) (code : FunctionCode) (e : ScopeRef) (strict : Bool) :
    (s.addFunction code e (strict || code.strict)).IsClosure s.nextObject code e strict where
  inside := by simp [addFunction, Store.addObject, nextObject]
  function := by
    rw [object_addFunction]
    simp [nextObject]
  prototype := by
    rw [object_addFunction]
    simp [nextObject]

theorem IsClosure.mono {f : ObjectRef} {code : FunctionCode} {e' : ScopeRef} {strict : Bool}
    (h : s.IsClosure f code e' strict) (fills : s.Fills t e bindings) : t.IsClosure f code e' strict where
  inside := Nat.lt_of_lt_of_le h.inside fills.size
  function := (fills.objects f (Nat.lt_of_succ_lt h.inside)).trans h.function
  prototype := (fills.objects _ h.inside).trans h.prototype

end Store

section Binding

variable {s : Store} {e : ScopeRef} {name : String} {bindings : NameMap Binding}
  (inside : e.index < s.scopes.size) (record : (s.scope e).record = .declarative bindings)
include inside record

theorem createMutable_run (E : Engine) (c : Config) (absent : bindings.contains name = false) :
    ∃ t, e.createMutable E name false c s = .value () t ∧ s.Fills t e (bindings.insert name (.plain .undefined)) := by
  refine ⟨_, ?_, .withBindings inside⟩
  rw [ScopeRef.createMutable, Action.read_bind_run, record]
  dsimp only
  rw [absent]
  rfl

theorem setMutable_run (E : Engine) (c : Config) (v : Value) (strict : Bool) {b : Binding}
    (found : bindings.get? name = some b) (aliasable : b.Aliasable) :
    ∃ t, e.setMutable E name v strict c s = .value () t ∧ s.Fills t e (bindings.insert name (.plain v)) := by
  refine ⟨_, ?_, .withBindings inside⟩
  rw [ScopeRef.setMutable, Action.read_bind_run, record]
  dsimp only
  rw [ScopeRef.setDeclarative, found]
  dsimp only
  rw [if_pos aliasable.mutable, aliasable.eq_plain]
  rfl

/-- A name that is not bound yet is bound and then set. -/
theorem createMutable_setMutable_run (E : Engine) (c : Config) (v : Value) (strict : Bool)
    (absent : bindings.contains name = false) :
    ∃ u t, e.createMutable E name false c s = .value () u ∧ e.setMutable E name v strict c u = .value () t ∧
      s.Fills t e (bindings.insert name (.plain v)) := by
  obtain ⟨u, created, first⟩ := createMutable_run inside record E c absent
  have found : (bindings.insert name (.plain .undefined)).get? name = some (.plain .undefined) := by
    rw [NameMap.get?_insert, if_pos rfl]
  obtain ⟨t, set, second⟩ := setMutable_run (first.scopes ▸ inside) first.record E c v strict found ⟨rfl, rfl, rfl⟩
  rw [NameMap.insert_insert] at second
  exact ⟨u, t, created, set, first.trans second⟩

theorem createImmutable_initializeImmutable_run (c : Config) (v : Value) (absent : bindings.contains name = false) :
    ∃ u t, e.createImmutable name c s = .value () u ∧ e.initializeImmutable name v c u = .value () t ∧
      s.Fills t e (bindings.insert name (.constant v)) := by
  have first : s.Fills (s.withBindings e (bindings.insert name .uninitialized)) e
      (bindings.insert name .uninitialized) := .withBindings inside
  have found : (bindings.insert name .uninitialized).get? name = some .uninitialized := by
    rw [NameMap.get?_insert, if_pos rfl]
  have initialized : e.initializeImmutable name v c (s.withBindings e (bindings.insert name .uninitialized)) = _ :=
    (ScopeRef.initializeImmutable_does first.record found).run
  rw [NameMap.insert_insert] at initialized
  exact ⟨_, _, (ScopeRef.createImmutable_does record absent).run, initialized,
    first.trans (.withBindings (first.scopes ▸ inside))⟩

/-- A name that is not bound yet is bound for good in strict code, and as any other elsewhere. -/
theorem bindOnce_run (E : Engine) (c : Config) (v : Value) (strict : Bool) (absent : bindings.contains name = false) :
    ∃ t, (if strict = true then do
        e.createImmutable name
        e.initializeImmutable name v
      else do
        e.createMutable E name false
        e.setMutable E name v false : Action Unit) c s = .value () t ∧
      s.Fills t e (bindings.insert name ⟨v, !strict, false, true⟩) := by
  cases strict with
  | true =>
    obtain ⟨u, t, created, set, fills⟩ := createImmutable_initializeImmutable_run inside record c v absent
    exact ⟨t, (Action.bind_run created _).trans set, fills⟩
  | false =>
    obtain ⟨u, t, created, set, fills⟩ := createMutable_setMutable_run inside record E c v false absent
    exact ⟨t, (Action.bind_run created _).trans set, fills⟩

/-- A name gets a value, whether it is bound yet or not. -/
theorem bindName_run (E : Engine) (c : Config) (name : String) (v : Value) (strict : Bool)
    (parameters : bindings.Parameters) :
    ∃ t, s.Fills t e (bindings.insert name (.plain v)) ∧ ∀ rest : Action Unit,
      (if bindings.contains name = true then do
          e.setMutable E name v strict
          rest
        else do
          e.createMutable E name false
          e.setMutable E name v strict
          rest : Action Unit) c s = rest c t := by
  by_cases present : bindings.contains name = true
  · obtain ⟨b, found⟩ := Option.isSome_iff_exists.1 present
    obtain ⟨t, set, fills⟩ := setMutable_run inside record E c v strict found (parameters name b found)
    refine ⟨t, fills, fun rest => ?_⟩
    rw [if_pos present, Action.bind_run set]
  · obtain ⟨u, t, created, set, fills⟩ := createMutable_setMutable_run inside record E c v strict
      (Bool.eq_false_iff.2 present)
    refine ⟨t, fills, fun rest => ?_⟩
    rw [if_neg present, Action.bind_run created, Action.bind_run set]

end Binding

/-! ## Parameters -/

section Passes

variable {s : Store} {e : ScopeRef} {bindings : NameMap Binding} {names : List String}

theorem hasBinding_of_record (record : (s.scope e).record = .declarative bindings) (name : String) :
    s.hasBinding e name = bindings.contains name := by rw [Store.hasBinding, record]

/-- Parameters are bound in order, each to the argument at its last place. -/
theorem bindParameters_run (E : Engine) (c : Config) (strict : Bool) (params : List String) (args : List Value)
    (inside : e.index < s.scopes.size) (record : (s.scope e).record = .declarative bindings)
    (parameters : bindings.Parameters) (keys : bindings.keys = names.eraseDups) :
    ∃ t bound, bindParameters E e strict params args c s = .value () t ∧ s.Fills t e bound ∧ bound.Parameters ∧
      bound.keys = (names ++ params).eraseDups ∧ (∀ name, name ∉ params → bound.get? name = bindings.get? name) ∧
      ∀ i name, LastAt params i name → bound.get? name = some (.plain (args[i]?.getD .undefined)) := by
  induction params generalizing s bindings names args with
  | nil =>
    refine ⟨s, bindings, rfl, .refl record, parameters, by simpa using keys, by simp, fun i name last => ?_⟩
    cases last.mem
  | cons name params ih =>
    obtain ⟨t, fills, run⟩ := bindName_run inside record E c name (args.headD .undefined) strict parameters
    have plain : (Binding.plain (args.headD .undefined)).Aliasable := ⟨rfl, rfl, rfl⟩
    obtain ⟨u, bound, rest, later, bounds, keys', others, lasts⟩ := ih args.tail (fills.scopes ▸ inside) fills.record
      (parameters.insert plain name) (NameMap.keys_insert_of_eraseDups keys _)
    refine ⟨u, bound, ?_, fills.trans later, bounds, by simpa using keys', fun other absent => ?_,
      fun i other last => ?_⟩
    · rw [bindParameters, Action.read_bind_run, hasBinding_of_record record]
      exact (run _).trans rest
    · obtain ⟨apart, absent⟩ := not_or.1 (mt List.mem_cons.2 absent)
      rw [others other absent, NameMap.get?_insert, if_neg apart]
    · cases i with
      | zero =>
        obtain ⟨rfl, absent⟩ := LastAt.zero_iff.1 last
        rw [others _ absent, NameMap.get?_insert, if_pos rfl]
        cases args <;> rfl
      | succ i =>
        rw [lasts i other (LastAt.succ_iff.1 last)]
        cases args <;> rfl

/-! ## Functions -/

/-- One function is made and bound. -/
theorem bindFunction_run (E : Engine) (c : Config) (ctx : Context) (code : FunctionCode) (name : String)
    (inside : ctx.vars.index < s.scopes.size) (record : (s.scope ctx.vars).record = .declarative bindings)
    (parameters : bindings.Parameters) :
    ∃ t, bindFunction E .function ctx code name c s = .value () t ∧
      s.Fills t ctx.vars (bindings.insert name (.plain (.object s.nextObject))) ∧
      t.IsClosure s.nextObject code ctx.vars ctx.strict := by
  have made : Action.newFunction code ctx.vars ctx.strict c s =
    .value s.nextObject (s.addFunction code ctx.vars (ctx.strict || code.strict)) := rfl
  have grown : s.Fills (s.addFunction code ctx.vars (ctx.strict || code.strict)) ctx.vars bindings :=
    .addFunction record code (ctx.strict || code.strict)
  obtain ⟨t, fills, run⟩ := bindName_run (grown.scopes ▸ inside) grown.record E c name (.object s.nextObject) ctx.strict
    parameters
  refine ⟨t, ?_, grown.trans fills, (s.isClosure_addFunction code ctx.vars ctx.strict).mono fills⟩
  have run := run (pure ())
  simp only [bind_pure_unit] at run
  rw [bindFunction, Action.bind_run made, Action.read_bind_run, hasBinding_of_record grown.record]
  simp only [reduceCtorEq, false_and, ↓reduceIte, CodeKind.deletable]
  exact run

/-- Functions are bound in order, so that the last one of a name stays. -/
theorem bindFunctionList_run (E : Engine) (c : Config) (ctx : Context) (codes : List FunctionCode)
    (inside : ctx.vars.index < s.scopes.size) (record : (s.scope ctx.vars).record = .declarative bindings)
    (parameters : bindings.Parameters) (keys : bindings.keys = names.eraseDups) :
    ∃ t bound, bindFunctionList E .function ctx codes c s = .value () t ∧ s.Fills t ctx.vars bound ∧ bound.Parameters ∧
      bound.keys = (names ++ codes.filterMap (·.name)).eraseDups ∧
      (∀ name, name ∉ codes.filterMap (·.name) → bound.get? name = bindings.get? name) ∧
      ∀ i code name, codes[i]? = some code → LastAt (codes.map (·.name)) i (some name) →
        ∃ f : ObjectRef, s.objects.size ≤ f.index ∧ t.IsClosure f code ctx.vars ctx.strict ∧
          bound.get? name = some (.plain (.object f)) := by
  induction codes generalizing s bindings names with
  | nil =>
    refine ⟨s, bindings, rfl, .refl record, parameters, by simpa using keys, by simp, fun i code name found => ?_⟩
    simp at found
  | cons code codes ih =>
    cases named : code.name with
    | none =>
      obtain ⟨t, bound, run, fills, bounds, keys', others, lasts⟩ := ih inside record parameters keys
      refine ⟨t, bound, ?_, fills, bounds, by simpa [named] using keys', by simpa [named] using others,
        fun i later name found last => ?_⟩
      · rw [bindFunctionList, named]
        exact run
      · cases i with
        | zero =>
          obtain ⟨same, _⟩ := LastAt.zero_iff.1 last
          cases named.symm.trans same
        | succ i => exact lasts i later name found (LastAt.succ_iff.1 last)
    | some name =>
      obtain ⟨t, run, fills, closure⟩ := bindFunction_run E c ctx code name inside record parameters
      have plain : (Binding.plain (.object s.nextObject)).Aliasable := ⟨rfl, rfl, rfl⟩
      obtain ⟨u, bound, rest, later, bounds, keys', others, lasts⟩ := ih (fills.scopes ▸ inside) fills.record
        (parameters.insert plain name) (NameMap.keys_insert_of_eraseDups keys _)
      refine ⟨u, bound, ?_, fills.trans later, bounds, by simpa [named] using keys', fun other absent => ?_,
        fun i declared other found last => ?_⟩
      · rw [bindFunctionList, named]
        exact (Action.bind_run run _).trans rest
      · rw [List.filterMap_cons_some named] at absent
        obtain ⟨apart, absent⟩ := not_or.1 (mt List.mem_cons.2 absent)
        rw [others other absent, NameMap.get?_insert, if_neg apart]
      · cases i with
        | zero =>
          cases found
          obtain ⟨same, absent⟩ := LastAt.zero_iff.1 last
          cases named.symm.trans same
          refine ⟨s.nextObject, Nat.le_refl _, closure.mono later, ?_⟩
          rw [others, NameMap.get?_insert, if_pos rfl]
          intro mem
          obtain ⟨other, there, called⟩ := List.mem_filterMap.1 mem
          exact absent (List.mem_map.2 ⟨other, there, called⟩)
        | succ i =>
          obtain ⟨f, new, closure, bound⟩ := lasts i declared other found (LastAt.succ_iff.1 last)
          exact ⟨f, Nat.le_trans fills.size new, closure, bound⟩

/-! ## `arguments` and variables -/

/-- `arguments` is bound unless the name is. -/
theorem bindArguments_run (E : Engine) (c : Config) (ctx : Context) (call : Invocation)
    (inside : ctx.vars.index < s.scopes.size) (record : (s.scope ctx.vars).record = .declarative bindings)
    (keys : bindings.keys = names.eraseDups) :
    ∃ t bound, bindArguments E ctx call c s = .value () t ∧ s.Fills t ctx.vars bound ∧ bindings.Adds bound ∧
      bound.keys = (names ++ ["arguments"]).eraseDups ∧
      (∀ name, name ≠ "arguments" → bound.get? name = bindings.get? name) ∧
      (bindings.get? "arguments" = none → ∃ a : ObjectRef, s.objects.size ≤ a.index ∧ a.index < t.objects.size ∧
        t.object a = .arguments call.callee call.params call.args ctx.vars ctx.strict ∧
        bound.get? "arguments" = some ⟨.object a, !ctx.strict, false, true⟩) := by
  rw [bindArguments, Action.read_bind_run, hasBinding_of_record record]
  by_cases present : bindings.contains "arguments" = true
  · rw [if_pos present]
    refine ⟨s, bindings, rfl, .refl record, .refl, NameMap.keys_of_contains keys present, fun _ _ => rfl,
      fun absent => ?_⟩
    rw [NameMap.contains, absent] at present
    cases present
  · have absent := Bool.eq_false_iff.2 present
    rw [if_neg present]
    have made : Action.alloc (.arguments call.callee call.params call.args ctx.vars ctx.strict) c s =
      .value s.nextObject (s.addObject (.arguments call.callee call.params call.args ctx.vars ctx.strict)) := rfl
    rw [Action.bind_run made]
    have grown := Store.Fills.addObject record (.arguments call.callee call.params call.args ctx.vars ctx.strict)
    have new : s.nextObject.index <
        (s.addObject (.arguments call.callee call.params call.args ctx.vars ctx.strict)).objects.size := by
      simp [Store.addObject, Store.nextObject]
    obtain ⟨t, run, fills⟩ :=
      bindOnce_run (grown.scopes ▸ inside) grown.record E c (.object s.nextObject) ctx.strict absent
    refine ⟨t, _, run, grown.trans fills, .insert absent ⟨rfl, rfl⟩, NameMap.keys_insert_of_eraseDups keys _, ?_, ?_⟩
    · intro name other
      rw [NameMap.get?_insert, if_neg other]
    · intro _
      refine ⟨s.nextObject, Nat.le_refl _, Nat.lt_of_lt_of_le new fills.size, ?_, ?_⟩
      · rw [fills.objects _ new, Store.object_addObject]
        exact if_pos rfl
      · rw [NameMap.get?_insert, if_pos rfl]

/-- Variables are bound in order that are not bound yet. -/
theorem bindVariableList_run (E : Engine) (c : Config) (ctx : Context) (vars : List String)
    (inside : ctx.vars.index < s.scopes.size) (record : (s.scope ctx.vars).record = .declarative bindings)
    (keys : bindings.keys = names.eraseDups) :
    ∃ t bound, bindVariableList E .function ctx vars c s = .value () t ∧ s.Fills t ctx.vars bound ∧
      bindings.Adds bound ∧ bound.keys = (names ++ vars).eraseDups ∧
      ∀ name ∈ vars, bindings.get? name = none → bound.get? name = some (.plain .undefined) := by
  induction vars generalizing s bindings names with
  | nil => exact ⟨s, bindings, rfl, .refl record, .refl, by simpa using keys, by simp⟩
  | cons var vars ih =>
    by_cases present : bindings.contains var = true
    · obtain ⟨t, bound, run, fills, adds, keys', news⟩ := ih inside record (NameMap.keys_of_contains keys present)
      refine ⟨t, bound, ?_, fills, adds, by simpa using keys', fun name mem absent => ?_⟩
      · rw [bindVariableList, Action.read_bind_run, hasBinding_of_record record, if_pos present]
        exact run
      · rcases List.mem_cons.1 mem with rfl | mem
        · rw [NameMap.contains, absent] at present
          cases present
        · exact news name mem absent
    · have absent := Bool.eq_false_iff.2 present
      obtain ⟨u, t, created, set, fills⟩ := createMutable_setMutable_run inside record E c .undefined ctx.strict absent
      obtain ⟨x, bound, run, later, adds, keys', news⟩ := ih (fills.scopes ▸ inside) fills.record
        (NameMap.keys_insert_of_eraseDups keys _)
      refine ⟨x, bound, ?_, fills.trans later, (NameMap.Adds.insert absent ⟨rfl, rfl⟩).trans adds, by simpa using keys',
        fun name mem free => ?_⟩
      · rw [bindVariableList, Action.read_bind_run, hasBinding_of_record record, if_neg present]
        exact (Action.bind_run created _).trans ((Action.bind_run set _).trans run)
      · by_cases same : name = var
        · subst same
          apply adds.kept
          rw [NameMap.get?_insert, if_pos rfl]
        · apply news name ((List.mem_cons.1 mem).resolve_left same)
          rw [NameMap.get?_insert, if_neg same, free]

end Passes

theorem runningContext_run {s t : Store} {ctx : Context} (c : Config) (running : s.context? = some ctx)
    (same : t.contexts = s.contexts) : Action.runningContext c t = .value ctx t := by
  have now : t.context? = some ctx := by rw [Store.context?, same, ← Store.context?, running]
  simp only [Action.runningContext, Action.once, now]

/-- The context of a call, once it is entered, has its variables in a scope without bindings. -/
theorem callContext_ready {s t : Store} {c : Config} {code : FunctionCode} {scope : ScopeRef} {strict : Bool}
    {this : Value} {ctx : Context} (made : callContext code scope strict this c s = .value ctx t) :
    (t.pushContext ctx).context? = some ctx ∧ ctx.vars.index < (t.pushContext ctx).scopes.size ∧
      ((t.pushContext ctx).scope ctx.vars).record = .declarative .empty := by
  obtain ⟨-, -, own⟩ := callContext_fresh made
  refine ⟨rfl, Nat.lt_of_not_le fun outside => ?_, congrArg Scope.record own⟩
  have missing : t.scopes[ctx.vars.index]? = none := Array.getElem?_eq_none outside
  rw [Store.scope, missing] at own
  cases own

/-- The bindings of a call, made from one store to the next, where a body declares some functions and variables. -/
structure Invocation.Binds (call : Invocation) (functions : List FunctionCode) (vars : List String) (ctx : Context)
    (s t : Store) (bindings : NameMap Binding) : Prop where
  /-- A name stands once, where it comes up first. -/
  names : bindings.keys = (call.params ++ functions.filterMap (·.name) ++ ["arguments"] ++ vars).eraseDups
  settled : ∀ name b, bindings.get? name = some b → b.Settled
  /-- The last function of a name is made in the scope of the call. -/
  function : ∀ i code name, functions[i]? = some code → LastAt (functions.map (·.name)) i (some name) →
    ∃ f : ObjectRef, s.objects.size ≤ f.index ∧ t.IsClosure f code ctx.vars ctx.strict ∧
      bindings.get? name = some (.plain (.object f))
  parameter : ∀ i name, LastAt call.params i name → name ∉ functions.filterMap (·.name) →
    bindings.get? name = some (.plain (call.args[i]?.getD .undefined))
  /-- Strict code cannot set it. -/
  arguments : "arguments" ∉ call.params → "arguments" ∉ functions.filterMap (·.name) →
    ∃ a : ObjectRef, s.objects.size ≤ a.index ∧
      t.object a = .arguments call.callee call.params call.args ctx.vars ctx.strict ∧
      bindings.get? "arguments" = some ⟨.object a, !ctx.strict, false, true⟩
  var : ∀ name ∈ vars, name ∉ call.params → name ∉ functions.filterMap (·.name) → name ≠ "arguments" →
    bindings.get? name = some (.plain .undefined)

/-- Where the running context has its variables in a scope without bindings, what a call binds there is given by its
arguments and by the text of the body. It always succeeds, and touches no other scope and no object that was there. -/
theorem call_binds_exactly {s : Store} {ctx : Context} (running : s.context? = some ctx)
    (inside : ctx.vars.index < s.scopes.size) (fresh : (s.scope ctx.vars).record = .declarative .empty) (E : Engine)
    (c : Config) (body : List Stmt) (call : Invocation) :
    ∃ t bindings, instantiate E .function body (some call) c s = .value () t ∧ s.Fills t ctx.vars bindings ∧
      call.Binds ((Stmt.inOrder body).flatMap Stmt.ownFunctions)
        ((Stmt.inOrder body).flatMap Stmt.ownNames).eraseDups ctx s t bindings := by
  rw [← functionDeclarations_eq, ← varDeclaredNames_eq]
  have empty : (NameMap.empty : NameMap Binding).Parameters := by
    intro name b found
    cases found
  have nameless : (NameMap.empty : NameMap Binding).keys = ([] : List String).eraseDups := rfl
  obtain ⟨t₁, b₁, run₁, fills₁, bound₁, keys₁, others₁, lasts₁⟩ :=
    bindParameters_run E c ctx.strict call.params call.args inside fresh empty nameless
  obtain ⟨t₂, b₂, run₂, fills₂, bound₂, keys₂, others₂, lasts₂⟩ := bindFunctionList_run E c ctx
    (functionDeclarations body) (fills₁.scopes ▸ inside) fills₁.record bound₁ keys₁
  have before := fills₁.trans fills₂
  obtain ⟨t₃, b₃, run₃, fills₃, adds₃, keys₃, others₃, made₃⟩ := bindArguments_run E c ctx call
    (before.scopes ▸ inside) fills₂.record keys₂
  have before := before.trans fills₃
  obtain ⟨t₄, b₄, run₄, fills₄, adds₄, keys₄, news₄⟩ := bindVariableList_run E c ctx (varDeclaredNames body)
    (before.scopes ▸ inside) fills₃.record keys₃
  have adds := adds₃.trans adds₄
  refine ⟨t₄, b₄, ?_, before.trans fills₄, ?_⟩
  · have functions : bindFunctions E .function body c t₁ = .value () t₂ :=
      (Action.bind_run (runningContext_run c running fills₁.contexts) _).trans run₂
    have vars : bindVariables E .function body c t₃ = .value () t₄ :=
      (Action.bind_run (runningContext_run c running before.contexts) _).trans run₄
    rw [instantiate, Action.bind_run (runningContext_run c running rfl)]
    apply (Action.bind_run run₁ _).trans
    apply (Action.bind_run functions _).trans
    exact (Action.bind_run run₃ _).trans vars
  constructor
  case names => simpa using keys₄
  case settled =>
    intro name b found
    cases between : b₂.get? name with
    | none => exact adds.settled name b between found
    | some b' =>
      obtain rfl : b' = b := Option.some.inj ((adds.kept name b' between).symm.trans found)
      exact ⟨(bound₂ name b' between).initialized, (bound₂ name b' between).fixed⟩
  case function =>
    intro i code name found last
    obtain ⟨f, new, closure, bound⟩ := lasts₂ i code name found last
    exact ⟨f, Nat.le_trans fills₁.size new, (closure.mono fills₃).mono fills₄, adds.kept _ _ bound⟩
  case parameter =>
    intro i name last other
    apply adds.kept
    rw [others₂ name other, lasts₁ i name last]
  case arguments =>
    intro param function
    have free : b₂.get? "arguments" = none := by rw [others₂ _ function, others₁ _ param, NameMap.get?_empty]
    obtain ⟨a, new, old, made, bound⟩ := made₃ free
    exact ⟨a, Nat.le_trans (fills₁.trans fills₂).size new, (fills₄.objects a old).trans made, adds₄.kept _ _ bound⟩
  case var =>
    intro name declared param function other
    apply news₄ name declared
    rw [others₃ name other, others₂ name function, others₁ name param, NameMap.get?_empty]

/-- A function whose parameters, functions and variables share their names. -/
def FunctionCode.colliding : FunctionCode :=
  ⟨some "f", ["x", "y", "x"],
    [.block [.function ⟨some "y", [], [], false, false⟩], .declare [⟨"x", none⟩, ⟨"arguments", none⟩],
      .forIn (.declare "z") .null [.function ⟨some "y", ["a"], [], false, false⟩]], false, false⟩

/-- The repeated parameter goes by its last place, where an argument is missing, and the second function takes the name
of a parameter. -/
theorem call_binds_exactly_colliding :
    ∃ ctx s t, ∃ bindings : NameMap Binding,
      callContext .colliding .global false .undefined .standard .initial = .value ctx s ∧
      instantiate (Engine.ofBudget 0) .function FunctionCode.colliding.body
        (some ⟨⟨0⟩, FunctionCode.colliding.params, [.null, .boolean true]⟩) .standard (s.pushContext ctx) =
          .value () t ∧
      (t.scope ctx.vars).record = .declarative bindings ∧ bindings.keys = ["x", "y", "arguments", "z"] ∧
      bindings.get? "x" = some (.plain .undefined) ∧
      (∃ f : ObjectRef, t.IsClosure f ⟨some "y", ["a"], [], false, false⟩ ctx.vars false ∧
        bindings.get? "y" = some (.plain (.object f))) ∧ bindings.get? "z" = some (.plain .undefined) := by
  have made : ∃ ctx s, callContext .colliding .global false .undefined .standard .initial = .value ctx s := ⟨_, _, rfl⟩
  obtain ⟨ctx, s, made⟩ := made
  obtain ⟨running, inside, fresh⟩ := callContext_ready made
  obtain ⟨t, bindings, run, fills, binds⟩ := call_binds_exactly running inside fresh (Engine.ofBudget 0) .standard
    FunctionCode.colliding.body ⟨⟨0⟩, FunctionCode.colliding.params, [.null, .boolean true]⟩
  rw [← functionDeclarations_eq, ← varDeclaredNames_eq] at binds
  refine ⟨ctx, s, t, bindings, made, run, fills.record, ?_, ?_, ?_, ?_⟩
  · rw [binds.names]
    decide
  · exact binds.parameter 2 "x" (LastAt.succ_iff.2 (LastAt.succ_iff.2 (LastAt.zero_iff.2 ⟨rfl, by decide⟩)))
      (by decide)
  · obtain ⟨f, -, closure, bound⟩ := binds.function 1 _ "y" rfl (LastAt.succ_iff.2 (LastAt.zero_iff.2 ⟨rfl, by decide⟩))
    cases made
    exact ⟨f, closure, bound⟩
  · exact binds.var "z" (by decide) (by decide) (by decide) (by decide)

end Ecma
