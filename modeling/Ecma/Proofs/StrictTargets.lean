import Ecma.Proofs.ContextStack
import Ecma.Proofs.Silent

/-!
# What strict code assigns to

Strict code may not give the names `eval` and `arguments` values. Each construct that assigns looks after that itself: the
operators and the declarators refuse such a name before they do anything else, whatever it would resolve to. The head of
a `for`-`in` loop does not. So wherever strict code runs, from whatever store, it is in the head of such a loop that one
of these names is assigned to, or nowhere.
-/

namespace Ecma

/-- Code is running, and it is strict. -/
def Store.RunsStrict (s : Store) : Prop := ∃ ctx, s.context? = some ctx ∧ ctx.strict = true

/-- The expressions that assign to a name. -/
inductive Expr.Assigns (name : String) : Expr → Prop where
  | assign (value : Expr) : Assigns name (.assign (.ident name) value)
  | compound (op : BinaryOp) (value : Expr) : Assigns name (.compound op (.ident name) value)
  | update (op : UpdateOp) (before : Bool) : Assigns name (.update op before (.ident name))

/-- The heads of `for`-`in` loops that assign to a name. -/
inductive ForInTarget.Assigns (name : String) : ForInTarget → Prop where
  | declare : Assigns name (.declare name)
  | expr : Assigns name (.expr (.ident name))

namespace Action

/-- An action fails on the store it was given, and has assigned to no name by then. -/
structure Refuses {α : Type} (x : Action α) (c : Config) (s : Store) (f : Fault) : Prop where
  run : x c s = .abrupt (.fault f) s
  path : ∀ name head t, .noted (.assigns name head) t ∉ x.path c s

end Action

namespace Reference

variable {E : Engine} {c : Config} {s : Store} {e : Option ScopeRef} {name : String} {strict head : Bool} {v : Value}

theorem name_identifier : (identifier s e name strict).name = name := by
  unfold identifier
  split <;> rfl

theorem strict_identifier : (identifier s e name strict).strict = strict := by
  unfold identifier
  split <;> rfl

theorem isProperty_identifier : (identifier s e name strict).isProperty = false := by
  unfold identifier
  split <;> rfl

/-- What the restricted names resolve to in strict code, no one may assign to. -/
theorem checkTarget_identifier (restricted : Restricted name) :
    (identifier s e name true).checkTarget = .fail (.strictTarget name) := by
  rw [checkTarget, name_identifier, strict_identifier, isProperty_identifier]
  rcases restricted with rfl | rfl
  · rfl
  · rfl

/-- An assignment to a name is seen, whether or not the name resolves to something. -/
theorem mem_path_assign (s : Store) :
    .noted (.assigns name head) s ∈ ((identifier s e name strict).assign E head v).path c s := by
  have named : (identifier s e name strict).name = name := name_identifier
  have isName : (identifier s e name strict).isProperty = false := isProperty_identifier
  generalize identifier s e name strict = r at named isName
  obtain ⟨base, _, _⟩ := r
  cases named
  cases base with
  | unresolvable => exact List.mem_cons_self ..
  | scope e => exact List.mem_cons_self ..
  | value v => cases isName

end Reference

section Constructs

variable {α : Type} {E : Engine} {c : Config} {s : Store} {name : String}

theorem resolveName_strict (strict : s.RunsStrict) :
    resolveName name c s = .value (.identifier s (some s.lexicalScope) name true) s := by
  obtain ⟨ctx, running, strict⟩ := strict
  show Outcome.value (Reference.identifier s _ name ((s.context?.map (·.strict)).getD c.strictGlobal)) s = _
  rw [running, Option.map_some, strict]
  rfl

/-- A construct that looks a restricted name up and checks it first refuses it. -/
theorem refuses_restricted {rest : Reference → Unit → Action α} (strict : s.RunsStrict) (restricted : Restricted name) :
    (resolveName name >>= fun r => r.checkTarget >>= rest r).Refuses c s (.strictTarget name) := by
  refine ⟨?_, fun other head t mem => ?_⟩
  · rw [Action.bind_apply, resolveName_strict strict, Outcome.bind, Reference.checkTarget_identifier restricted]
    rfl
  · rw [Action.path_bind, resolveName_strict strict, Outcome.pathAfter,
      Reference.checkTarget_identifier restricted] at mem
    cases List.mem_singleton.1 mem

theorem evaluate_refuses {e : Expr} (strict : s.RunsStrict) (restricted : Restricted name) (assigns : e.Assigns name) :
    (e.evaluate E).Refuses c s (.strictTarget name) := by
  cases assigns with
  | assign value => exact refuses_restricted strict restricted
  | compound op value => exact refuses_restricted strict restricted
  | update op before => exact refuses_restricted strict restricted

/-- A construct that declares a name first refuses what it refuses after that. -/
theorem Action.Refuses.declare {x : Action α} {other : String} {f : Fault} (refuses : x.Refuses c s f) :
    (Action.note (.declares other) >>= fun _ => x).Refuses c s f := by
  refine ⟨refuses.run, fun assigned head t mem => ?_⟩
  rcases List.mem_cons.1 mem with same | mem
  · cases same
  · exact refuses.path assigned head t mem

theorem declarator_refuses {init : Option Expr} {rest : List Declarator} (strict : s.RunsStrict)
    (restricted : Restricted name) :
    (Declarator.evaluateList E (.mk name init :: rest)).Refuses c s (.strictTarget name) :=
  .declare (refuses_restricted strict restricted)

/-- The head of a loop assigns to the name, whatever that is, if there is something to assign. -/
theorem mem_path_visitKeys {labels : List String} {target : ForInTarget} {o : ObjectRef} {body : List Stmt}
    {key : String} {rest : List String} {last : Option Value} (assigns : target.Assigns name)
    (visited : (s.getProperty? o key).any (·.enumerable) = true) :
    .noted (.assigns name true) s ∈ (Stmt.visitKeys E labels target o body (key :: rest) last).path c s := by
  refine Action.mem_path_bind_right (a := s.getProperty? o key) rfl ?_
  rw [if_pos visited]
  cases assigns with
  | declare =>
    exact Action.mem_path_bind_right rfl (Action.mem_path_bind_left (Reference.mem_path_assign s))
  | expr =>
    exact Action.mem_path_bind_right rfl (Action.mem_path_bind_left (Reference.mem_path_assign s))

end Constructs

/-- From whatever store an operation sets out, its strict code assigns to `eval` and `arguments` in the heads of `for`-`in`
loops alone. Assignments, compound assignments, updates and declarators refuse these names with a syntax error, on the
store that they were given and before anything is assigned to; the head of a loop assigns to them as to any other. -/
theorem strict_assigns_in_heads (c : Config) (s : Store) (name : String) (restricted : Restricted name) :
    (∀ n {α : Type} (op : Operation α) head t, .noted (.assigns name head) t ∈ (op.action (.ofBudget n)).path c s →
        t.RunsStrict → head = true) ∧
      ∀ E, s.RunsStrict → (Fault.strictTarget name).kind = .syntaxError ∧
        (∀ e : Expr, e.Assigns name → (e.evaluate E).Refuses c s (.strictTarget name)) ∧
        (∀ init rest, (Declarator.evaluateList E (.mk name init :: rest)).Refuses c s (.strictTarget name)) ∧
        ∀ labels target o body key rest last, target.Assigns name → (s.getProperty? o key).any (·.enumerable) = true →
          .noted (.assigns name true) s ∈ (Stmt.visitKeys E labels target o body (key :: rest) last).path c s := by
  refine ⟨fun n α op head t mem strict => ?_, fun E strict => ⟨rfl, ?_, ?_, ?_⟩⟩
  · obtain ⟨_, trail, _⟩ := operation_obeys n op c (Agreement.diagonal s) fun _ _ _ => trivial
    obtain ⟨ctx, running, strict⟩ := strict
    rcases trail.event mem with ⟨v, rfl, _, lawful⟩ | ⟨_, turns⟩
    · exact lawful ctx running strict restricted
    · cases turns
  · exact fun e assigns => evaluate_refuses strict restricted assigns
  · exact fun init rest => declarator_refuses strict restricted
  · exact fun labels target o body key rest last assigns visited => mem_path_visitKeys assigns visited

/-- The store on which strict global code begins. -/
def Store.strictStart : Store := Store.initial.pushContext (.global true)

/-- A loop over an object with one property, which assigns its name to `eval`. -/
def Stmt.loopOverEval : Stmt := .forIn (.declare "eval") (.object [.value "a" .null]) []

/-- The loop assigns to `eval` in its head, and an assignment to `eval` is refused. -/
theorem strict_assigns_in_heads_eval :
    (∃ head t, .noted (.assigns "eval" head) t ∈ (Stmt.loopOverEval.evaluate (.ofBudget 3) []).path .standard .strictStart ∧
        t.RunsStrict ∧ head = true) ∧
      (Expr.assign (.ident "eval") .null).evaluate (.ofBudget 3) .standard .strictStart =
        .abrupt (.fault (.strictTarget "eval")) .strictStart := by
  have assigned : .noted (.assigns "eval" _) _ ∈
      (Stmt.loopOverEval.evaluate (.ofBudget 3) []).path .standard .strictStart := List.mem_of_getElem? (i := 5) rfl
  obtain ⟨heads, refuses⟩ := strict_assigns_in_heads .standard .strictStart "eval" (.inl rfl)
  refine ⟨⟨_, _, assigned, ⟨_, rfl, rfl⟩, ?_⟩, ((refuses _ ⟨.global true, rfl, rfl⟩).2.1 _ (.assign .null)).run⟩
  exact heads 3 (.statement [] .loopOverEval) _ _ assigned ⟨_, rfl, rfl⟩

/-- A strict program that gives `eval` a value. -/
theorem strict_eval_assigned :
    (Machine.new .standard).answers [(4, .global ⟨[.loopOverEval, .expr (.ident "eval")], true⟩)] = [some (.ok "a")] := by
  rfl

end Ecma
