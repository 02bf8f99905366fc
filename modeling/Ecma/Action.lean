import Ecma.Store

/-!
# Actions

What the runtime does to a store. An action ends with a value, with something that was thrown, or because its budget ran
out; the store it leaves behind is part of each of the three, so what happened before a failure stays done. An action
also has a path: the stores on which code began or ended under way, the faults that were raised, whether or not
something caught them, and what the code did that its stores alone do not tell. And it tells which values were to become
the lengths of arrays: converting such a value may run code that works on the same array. Running an action computes
neither.
-/

namespace Ecma

/-- How an action ends, and the store it leaves. -/
inductive Outcome (α : Type) where
  | value (a : α) (s : Store)
  | abrupt (e : Abrupt) (s : Store)
  | exhausted (s : Store)

/-- Something that code does. -/
inductive Event where
  /-- It comes to the declaration of a variable, in a declarator or in the head of a `for`-`in` loop. -/
  | declares (name : String)
  /-- It gives the variable of a name a value, in the head of a `for`-`in` loop or elsewhere. -/
  | assigns (name : String) (head : Bool)
  /-- It sets a suspended generator going. -/
  | resumes (g : GeneratorRef)
  /-- It has come to where a generator stops, for now or for good. -/
  | rests (g : GeneratorRef)
  /-- It ends a generator that is not running. -/
  | abandons (g : GeneratorRef)
  /-- It has come to a jump out of the body of a function or program. -/
  | escapes (body : List Stmt)
  /-- It has come to a jump that leads nowhere in the queue of a generator. -/
  | strays (g : GeneratorRef)
  /-- It has made a function from an expression that names it, and bound the name to it in a scope around it. -/
  | binds (name : String) (e : ScopeRef) (f : ObjectRef)

/-- Something that happens while an action is under way. -/
inductive Moment where
  /-- Code begins or ends, or is about to run in another context, on this store. -/
  | reached (s : Store)
  | raised (f : Fault)
  /-- Code does something, which leaves this store. -/
  | noted (e : Event) (s : Store)

namespace Outcome

variable {α β : Type}

/-- The store an action leaves, however it ends. -/
def store : Outcome α → Store
  | value _ s | abrupt _ s | exhausted s => s

/-- The fault that an action ends with, as a moment of its path. -/
def raised : Outcome α → List Moment
  | abrupt (.fault f) _ => [.raised f]
  | _ => []

/-- Goes on after a value. -/
@[inline] protected def bind (o : Outcome α) (f : α → Store → Outcome β) : Outcome β :=
  match o with
  | value a s => f a s
  | abrupt e s => abrupt e s
  | exhausted s => exhausted s

/-- What is seen of what goes on after a value. -/
def pathAfter (o : Outcome α) (f : α → Store → List β) : List β :=
  match o with
  | value a s => f a s
  | _ => []

/-- What was thrown becomes a value. -/
@[inline] def attempted : Outcome α → Outcome (Except Abrupt α)
  | value a s => value (.ok a) s
  | abrupt e s => value (.error e) s
  | exhausted s => exhausted s

/-- Changes the store, unless the budget ran out. -/
@[inline] def cleaned (cleanup : Store → Store) : Outcome α → Outcome α
  | value a s => value a (cleanup s)
  | abrupt e s => abrupt e (cleanup s)
  | exhausted s => exhausted s

end Outcome

/-- A computation on the store, under the settings of the host. -/
@[ext] structure Action (α : Type) where
  /-- How it ends. -/
  run : Config → Store → Outcome α
  /-- What happens on the way. -/
  path : Config → Store → List Moment
  /-- The arrays that are to get another length on the way, each with the value that it is to get. -/
  sizes : Config → Store → List (ObjectRef × Value)

instance (α : Type) : CoeFun (Action α) fun _ => Config → Store → Outcome α := ⟨Action.run⟩

namespace Action

variable {α β : Type}

/-- An action done at one stroke. -/
@[inline] def once (f : Config → Store → Outcome α) : Action α := ⟨f, fun c s => (f c s).raised, fun _ _ => []⟩

@[inline] protected def pure (a : α) : Action α := ⟨fun _ s => .value a s, fun _ _ => [], fun _ _ => []⟩

@[inline] protected def bind (x : Action α) (f : α → Action β) : Action β where
  run c s := (x c s).bind fun a s => f a c s
  path c s := x.path c s ++ (x c s).pathAfter fun a s => (f a).path c s
  sizes c s := x.sizes c s ++ (x c s).pathAfter fun a s => (f a).sizes c s

@[inline] instance : Monad Action where
  pure := Action.pure
  bind := Action.bind

/-- An action that ends early skips what follows it, however that is grouped. -/
instance : LawfulMonad Action := LawfulMonad.mk' Action
  (fun x => by
    refine Action.ext (funext fun c => funext fun s => ?_) (funext fun c => funext fun s => ?_)
      (funext fun c => funext fun s => ?_)
    · show (x c s).bind _ = x c s
      cases x c s <;> rfl
    · show x.path c s ++ (x c s).pathAfter _ = x.path c s
      cases x c s <;> exact List.append_nil _
    · show x.sizes c s ++ (x c s).pathAfter _ = x.sizes c s
      cases x c s <;> exact List.append_nil _)
  (fun _ _ => rfl)
  (fun x f g => by
    refine Action.ext (funext fun c => funext fun s => ?_) (funext fun c => funext fun s => ?_)
      (funext fun c => funext fun s => ?_)
    · show ((x c s).bind _).bind _ = (x c s).bind _
      cases x c s <;> rfl
    · show (x.path c s ++ (x c s).pathAfter _) ++ ((x c s).bind _).pathAfter _ = x.path c s ++ (x c s).pathAfter _
      rw [List.append_assoc]
      cases x c s <;> rfl
    · show (x.sizes c s ++ (x c s).pathAfter _) ++ ((x c s).bind _).pathAfter _ = x.sizes c s ++ (x c s).pathAfter _
      rw [List.append_assoc]
      cases x c s <;> rfl)

/-- Reads off the store. -/
@[inline] def read (f : Store → α) : Action α := once fun _ s => .value (f s) s

/-- Reads the settings. -/
@[inline] def config : Action Config := once fun c s => .value c s

/-- Changes the store. -/
@[inline] def modify (f : Store → Store) : Action Unit := once fun _ s => .value () (f s)

/-- Does nothing but to say what the code does. -/
@[inline] def note (e : Event) : Action Unit := ⟨fun _ s => .value () s, fun _ s => [.noted e s], fun _ _ => []⟩

/-- Ends with a fault. -/
@[inline] def fail (f : Fault) : Action α := once fun _ s => .abrupt (.fault f) s

/-- Ends with a thrown value. -/
@[inline] def throwValue (v : Value) : Action α := once fun _ s => .abrupt (.thrown v) s

/-- Ends again as an earlier action did. -/
@[inline] def rethrow (e : Abrupt) : Action α := once fun _ s => .abrupt e s

/-- Ends because nothing is left of the budget. -/
@[inline] def exhaust : Action α := once fun _ s => .exhausted s

/-- Runs an action and turns what it throws into a value. -/
@[inline] def attempt (x : Action α) : Action (Except Abrupt α) where
  run c s := (x c s).attempted
  path := x.path
  sizes := x.sizes

/-- Runs an action, and then changes the store whether it succeeded or threw. Where the budget ran out, the store stays
as it was at that moment. -/
@[inline] def ensuring (x : Action α) (cleanup : Store → Store) : Action α where
  run c s := (x c s).cleaned cleanup
  path c s := x.path c s ++ [.reached ((x c s).cleaned cleanup).store]
  sizes := x.sizes

/-- Runs an action as code that others can tell apart: its path shows the stores it begins and ends on. -/
@[inline] def watched (x : Action α) : Action α where
  run := x.run
  path c s := .reached s :: x.path c s ++ [.reached (x c s).store]
  sizes := x.sizes

/-- Shows that a value is to become the length of an array, and does nothing else. -/
@[inline] def sizing (o : ObjectRef) (v : Value) : Action Unit where
  run _ s := .value () s
  path _ _ := []
  sizes _ _ := [(o, v)]

/-- Ends as a result says. -/
@[inline] def ofExcept : Except Abrupt α → Action α
  | .ok a => pure a
  | .error e => rethrow e

/-- Adds an object to the store. -/
def alloc (obj : Object) : Action ObjectRef := once fun _ s => .value s.nextObject (s.addObject obj)

/-- Adds a scope to the store. -/
def allocScope (scope : Scope) : Action ScopeRef := once fun _ s => .value ⟨s.scopes.size⟩ (s.addScope scope)

/-- Adds a generator to the store. -/
def allocGenerator (g : Generator) : Action GeneratorRef :=
  once fun _ s => .value ⟨s.generators.size⟩ (s.addGenerator g)

/-- The answer to a request that was turned down: a fault where the caller asked for one, and otherwise `false`. -/
def reject (throw : Bool) (f : Fault) : Action Bool := if throw then fail f else pure false

/-- A new scope with a record of its own (`new_declarative_environment`). -/
def declarativeScope (outer : Option ScopeRef) : Action ScopeRef := allocScope ⟨.declarative .empty, outer⟩

/-- A new scope that keeps its bindings in an object (`new_object_environment`). -/
def objectScope (o : ObjectRef) (provideThis : Bool) (outer : Option ScopeRef) : Action ScopeRef :=
  allocScope ⟨.object o provideThis, outer⟩

/-- Code outside of any context is as strict as the host wants global code to be. -/
def isStrict : Action Bool := once fun c s => .value ((s.context?.map (·.strict)).getD c.strictGlobal) s

/-- The context that code runs in (`running_context`). -/
def runningContext : Action Context := once fun _ s =>
  match s.context? with
  | some ctx => .value ctx s
  | none => .abrupt (.fault .noContext) s

/-- Enters a context, unless too many are entered already (`enter_context`). -/
def enterContext (ctx : Context) : Action Unit := watched <| once fun c s =>
  if s.depth ≥ c.maxCallDepth then .abrupt (.fault .stackOverflow) s else .value () (s.pushContext ctx)

/-- Looks names up in another scope from now on, and says where they were looked up before (`enter_lexical_scope`). -/
def enterScope (e : ScopeRef) : Action ScopeRef := watched <| once fun _ s =>
  match s.context? with
  | some ctx => .value ctx.lexical (s.setLexical e)
  | none => .abrupt (.fault .noContext) s

/-- Runs an action in a context (`ContextGuard`). -/
def inContext (ctx : Context) (x : Action α) : Action α := do
  enterContext ctx
  x.ensuring Store.popContext

/-- Runs an action with another scope to look names up in (`LexicalScopeGuard`). -/
def inScope (e : ScopeRef) (x : Action α) : Action α := do
  let previous ← enterScope e
  x.ensuring (·.setLexical previous)

end Action

end Ecma
