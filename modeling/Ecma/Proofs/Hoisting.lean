import Ecma.Proofs.WellFormed.Initial

/-!
# Hoisting covers evaluation

The names that a body declares are bound before its statements run, and bindings stay. So whenever code comes to the
declaration of a variable, its name is bound in the scope that has the variables of the running call, and that scope is
among those that names are looked up in: a name is found there, or further in, in a scope that a `with` statement or a
`catch` clause has put around the statement.
-/

namespace Ecma

namespace Store

variable {s : Store} {e outer : ScopeRef} {name : String}

/-- The scopes around a scope include the one that it lies in. As scopes around it are older, the bound on their number
is no matter. -/
theorem scopesFrom_of_within (within : s.Within e outer) {bound : Nat} (enough : e.index < bound) :
    ∃ inner rest, s.scopesFrom bound e = inner ++ outer :: rest := by
  induction within generalizing bound with
  | here e =>
    obtain ⟨bound, rfl⟩ : ∃ k, bound = k + 1 := ⟨bound - 1, by omega⟩
    exact ⟨[], _, rfl⟩
  | @inside e d outer next older _ ih =>
    obtain ⟨bound, rfl⟩ : ∃ k, bound = k + 1 := ⟨bound - 1, by omega⟩
    have near : d.index < bound := by omega
    obtain ⟨inner, rest, chain⟩ := ih near
    refine ⟨e :: inner, rest, ?_⟩
    rw [scopesFrom, next, Option.map_some, Option.getD_some, chain]
    rfl

/-- A name is looked up from the scope of the running code, and found no further out than where that has its
variables. -/
def FindsWithin (s : Store) (ctx : Context) (name : String) : Prop :=
  ∃ inner rest e, s.scopeChain ctx.lexical = inner ++ ctx.vars :: rest ∧ e ∈ inner ++ [ctx.vars] ∧
    ∀ c, resolveName name c s = .value ⟨.scope e, name, ctx.strict⟩ s

/-- A name that a scope on the way binds is found there or before. -/
theorem find?_of_hasBinding (inner rest : List ScopeRef) (has : s.hasBinding outer name = true) :
    ∃ e ∈ inner ++ [outer], (inner ++ outer :: rest).find? (s.hasBinding · name) = some e := by
  induction inner with
  | nil => exact ⟨outer, List.mem_cons_self .., List.find?_cons_of_pos has⟩
  | cons e inner ih =>
    by_cases here : s.hasBinding e name = true
    · exact ⟨e, List.mem_cons_self .., List.find?_cons_of_pos here⟩
    · obtain ⟨d, mem, found⟩ := ih
      refine ⟨d, List.mem_cons_of_mem _ mem, ?_⟩
      rw [List.cons_append, List.find?_cons_of_neg (p := (s.hasBinding · name)) here, found]

theorem Declarative.hasBinding (own : s.Declarative e) (binds : s.Binds e name) : s.hasBinding e name = true := by
  obtain ⟨_, bindings, record⟩ := own
  rw [Store.hasBinding, record]
  exact binds.2 bindings record

theorem ContextOk.findsWithin {reserved : ScopeRef → Prop} {ctx : Context} (ok : s.ContextOk reserved ctx)
    (running : s.context? = some ctx) (own : ctx.vars ≠ .global) (binds : s.Binds ctx.vars name) :
    s.FindsWithin ctx name := by
  have has := (ok.own.resolve_left own).hasBinding binds
  obtain ⟨inner, rest, chain⟩ := scopesFrom_of_within ok.within (Nat.lt_succ_of_lt ok.lexical.1)
  obtain ⟨e, mem, found⟩ := find?_of_hasBinding inner rest has
  refine ⟨inner, rest, e, chain, mem, fun c => ?_⟩
  have resolved : s.resolve? ctx.lexical name = some e := by
    rw [resolve?, scopeChain, chain, found]
  show Outcome.value (Reference.identifier s (some s.lexicalScope) name ((s.context?.map (·.strict)).getD _)) s = _
  rw [lexicalScope, running, Option.map_some, Option.map_some, Option.getD_some, Option.getD_some, Reference.identifier,
    Option.bind_some, resolved]

end Store

section Calls

variable {c : Config} {s t : Store} {code : FunctionCode} {scope : ScopeRef} {strict : Bool} {this v : Value}
  {ctx : Context}

/-- Finding out what `this` is makes no scope. -/
theorem scopes_receiver (run : receiver this strict c s = .value v t) : t.scopes = s.scopes := by
  unfold receiver at run
  split at run
  · cases run
    rfl
  split at run
  · cases run
    rfl
  · cases this <;> cases run <;> rfl

/-- The context of a call has its variables in a scope that was not there before. -/
theorem callContext_fresh (run : callContext code scope strict this c s = .value ctx t) :
    ctx.lexical = ctx.vars ∧ ctx.vars = ⟨s.scopes.size⟩ ∧ t.scope ctx.vars = ⟨.declarative .empty, some scope⟩ := by
  rw [callContext, Action.bind_apply] at run
  cases received : receiver this strict c s with
  | value v u =>
    rw [received] at run
    cases run
    have same := scopes_receiver received
    refine ⟨rfl, congrArg (ScopeRef.mk ∘ Array.size) same, ?_⟩
    show (u.addScope _).scope ⟨u.scopes.size⟩ = _
    rw [Store.scope_addScope, if_pos rfl]
  | abrupt => rw [received] at run; cases run
  | exhausted => rw [received] at run; cases run

end Calls

/-- Whatever is run on a fresh machine, a call has its variables in a scope of its own, other than the global one. Whenever
code of that call comes to the declaration of a variable, in a declarator or in the head of a `for`-`in` loop, the name is
looked up from the scope that the code is in, and found in the scope of the call or further in. -/
theorem hoisting_covers_evaluation (config : Config) (units : List (Nat × CodeUnit)) :
    (∀ s ∈ (Machine.new config).states units, ∀ c code scope strict this ctx t,
        callContext code scope strict this c s = .value ctx t →
          ctx.vars ≠ .global ∧ ctx.lexical = ctx.vars ∧ t.scope ctx.vars = ⟨.declarative .empty, some scope⟩) ∧
      ∀ name s ctx, .noted (.declares name) s ∈ (Machine.new config).moments units → s.context? = some ctx →
        ctx.vars ≠ .global → s.FindsWithin ctx name := by
  have history := Machine.governed config units
  refine ⟨fun s mem c code scope strict this ctx t run => ?_, fun name s ctx mem running own => ?_⟩
  · obtain ⟨worlds, stores, _⟩ := history.worlds
    obtain ⟨w, _, rfl⟩ := List.mem_map.1 (stores ▸ mem)
    obtain ⟨lexical, vars, made⟩ := callContext_fresh run
    refine ⟨fun same => ?_, lexical, made⟩
    have inside : ScopeRef.global.index < w.store.scopes.size := w.ok.global.1
    rw [← same, vars] at inside
    exact Nat.lt_irrefl _ inside
  · rcases history.events _ s mem with ⟨w, rfl, _, lawful⟩ | ⟨_, turns⟩
    · exact (w.ok.contexts ctx (List.mem_of_head? running)).findsWithin running own (lawful ctx running)
    · cases turns

/-- A function that declares a variable in a `catch` clause, and a program that calls it. -/
def Program.declaresInCatch : Program :=
  ⟨[.expr (.call (.function ⟨none, [], [.tryCatch [.throws .null] (some ⟨"e", [.declare [⟨"x", some .null⟩]]⟩) []],
    false, false⟩) [])], false⟩

/-- The variable is found in the scope of the call, which is not the innermost one. -/
theorem hoisting_covers_evaluation_catch :
    ∃ s ctx, .noted (.declares "x") s ∈ (Machine.new .standard).moments [(9, .global .declaresInCatch)] ∧
      s.context? = some ctx ∧ ctx.vars ≠ .global ∧ ctx.lexical ≠ ctx.vars ∧ s.FindsWithin ctx "x" := by
  have declared : .noted (.declares "x") _ ∈ (Machine.new .standard).moments [(9, .global .declaresInCatch)] :=
    List.mem_of_getElem? (i := 17) rfl
  have own : (⟨1⟩ : ScopeRef) ≠ .global := by decide
  have inside : (⟨2⟩ : ScopeRef) ≠ ⟨1⟩ := by decide
  exact ⟨_, _, declared, rfl, own, inside, (hoisting_covers_evaluation .standard _).2 _ _ _ declared rfl own⟩

end Ecma
