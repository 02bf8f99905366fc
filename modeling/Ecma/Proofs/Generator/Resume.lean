import Ecma.Proofs.ContextStack
import Ecma.Proofs.Generator.Simulation
import Ecma.Proofs.Generator.YieldFree

/-!
# Resuming a generator whose body yields nothing

Such a generator is resumed once, and then it has done what a call of the function with the same body does.
-/

namespace Ecma

/-- What a function does with its body, once its names are bound. -/
def Stmt.callBody (E : Engine) (ctx : Context) (body : List Stmt) : Action Value := Action.inContext ctx do
  (← Stmt.evaluateList E body).returned

/-- One context can be entered twice in place of once, if what is done in it leaves the contexts alone. -/
theorem Action.inContext_bind {α β : Type} {x : Action α} {f : α → Action β} {ctx : Context} {c : Config} {s : Store}
    (restores : ∀ a t, x c (s.pushContext ctx) = .value a t → t.contexts = ctx :: s.contexts) :
    (x >>= f).inContext ctx c s = (x.inContext ctx >>= fun a => (f a).inContext ctx) c s := by
  by_cases room : s.depth < c.maxCallDepth
  · show (Outcome.bind (Action.enterContext ctx c s) _) = Outcome.bind (Outcome.bind (Action.enterContext ctx c s) _) _
    rw [enterContext_of_room room]
    show Outcome.cleaned _ (Outcome.bind (x c (s.pushContext ctx)) _) =
      Outcome.bind (Outcome.cleaned _ (x c (s.pushContext ctx))) _
    cases run : x c (s.pushContext ctx) with
    | value a t =>
      have contexts : t.contexts = ctx :: s.contexts := restores a t run
      have again : t.popContext.pushContext ctx = t := by
        show { t with contexts := ctx :: t.contexts.tail } = t
        rw [contexts, List.tail_cons, ← contexts]
      have left : t.popContext.depth < c.maxCallDepth := by
        rw [Store.depth, Store.popContext, contexts]
        exact room
      show Outcome.cleaned _ (f a c t) = Outcome.bind (Action.enterContext ctx c t.popContext) _
      rw [enterContext_of_room left, again]
      rfl
    | abrupt => rfl
    | exhausted => rfl
  · have refused : Action.enterContext ctx c s = .abrupt (.fault .stackOverflow) s := if_pos (Nat.not_lt.1 room)
    show (Outcome.bind (Action.enterContext ctx c s) _) = Outcome.bind (Outcome.bind (Action.enterContext ctx c s) _) _
    rw [refused]
    rfl

/-- A call of a function binds names in a context, as the call of a generator does, and then does the body there. -/
theorem callScript_eq (n : Nat) (callee : ObjectRef) {code : FunctionCode} (scope : ScopeRef) (strict : Bool)
    (this : Value) (args : List Value) (c : Config) (s : Store) (plain : code.generator = false) :
    callScript (.ofBudget n) callee code scope strict this args c s = (do
      let ctx ← callContext code scope strict this
      (instantiate (.ofBudget n) .function code.body (some ⟨callee, code.params, args⟩)).inContext ctx
      Stmt.callBody (.ofBudget n) ctx code.body : Action Value) c s := by
  show (callContext code scope strict this c s).bind _ = (callContext code scope strict this c s).bind _
  cases callContext code scope strict this c s with
  | value ctx t =>
    dsimp only [Outcome.bind]
    rw [plain]
    have body : (do
        instantiate (.ofBudget n) .function code.body (some ⟨callee, code.params, args⟩)
        (← Stmt.evaluateBody (.ofBudget n) code.body).returned : Action Value).inContext ctx c t = (do
        instantiate (.ofBudget n) .function code.body (some ⟨callee, code.params, args⟩)
        (← Stmt.evaluateList (.ofBudget n) code.body).returned : Action Value).inContext ctx c t := by
      simp only [Action.inContext, Action.ensuring, Action.bind_apply, Stmt.evaluateBody_run]
    refine body.trans (Action.inContext_bind fun a u run => ?_)
    have finishes : Outcome.Finishes (instantiate (.ofBudget n) .function code.body
        (some ⟨callee, code.params, args⟩) c (t.pushContext ctx)) u := by
      rw [run]
      exact .value a u
    obtain ⟨_, _, ends⟩ := Law.instantiate_obeys (c := c) (w := Agreement.diagonal (t.pushContext ctx))
      (Agreement.engines (Nat.le_refl n)) rfl trivial (fun _ _ =>
        ⟨trivial, fun _ _ => trivial, trivial, .inl ⟨fun _ => trivial, fun _ _ _ => ⟨trivial, trivial, trivial⟩⟩⟩)
      fun _ _ _ => trivial
    obtain ⟨rfl, reached⟩ := ends.finishes finishes
    exact reached.contexts
  | abrupt => rfl
  | exhausted => rfl

/-- Two ends of which the first may be that the budget ran out. Where both are errors, they may be different syntax
errors: a function has its own words for a jump that leads nowhere. -/
inductive Outcome.Resembles {α : Type} : Outcome α → Outcome α → Prop where
  | value (a : α) (s : Store) : Resembles (.value a s) (.value a s)
  | abrupt {e e' : Abrupt} (alike : e = e' ∨ e.isEarly ∧ e'.isEarly) (s : Store) :
    Resembles (.abrupt e s) (.abrupt e' s)
  | exhausted (s : Store) (o : Outcome α) : Resembles (.exhausted s) o

namespace Outcome.Resembles

variable {α : Type}

theorem trans {x y z : Outcome α} (first : x.Resembles y) (second : y.Resembles z) : x.Resembles z := by
  cases first with
  | value => exact second
  | exhausted => exact .exhausted ..
  | abrupt alike =>
    cases second with
    | abrupt alike' =>
      refine .abrupt ?_ _
      rcases alike with rfl | early
      · exact alike'
      · rcases alike' with rfl | early'
        · exact .inr early
        · exact .inr ⟨early.1, early'.2⟩

theorem of_value {a : α} {s : Store} {y : Outcome α} (h : (Outcome.value a s).Resembles y) : y = .value a s := by
  cases h
  rfl

theorem cleaned {x y : Outcome α} (h : x.Resembles y) (cleanup : Store → Store) :
    (x.cleaned cleanup).Resembles (y.cleaned cleanup) := by
  cases h with
  | value => exact .value ..
  | abrupt alike => exact .abrupt alike _
  | exhausted => exact .exhausted ..

end Outcome.Resembles

/-- What a generator does with its body, were it that of a function. -/
def Stmt.concludeBody (E : Engine) (ctx : Context) (body : List Stmt) : Action Value := Action.inContext ctx do
  (← Stmt.evaluateList E body).concluded

theorem Completion.returned_resembles (r : Completion) (c : Config) (s : Store) :
    (r.returned c s).Resembles (r.concluded c s) ∧ (r.concluded c s).Resembles (r.returned c s) := by
  cases r with
  | normal v => exact ⟨.value .., .value ..⟩
  | returns v => exact ⟨.value .., .value ..⟩
  | breaks l => cases l <;> exact ⟨.abrupt (.inr ⟨rfl, rfl⟩) s, .abrupt (.inr ⟨rfl, rfl⟩) s⟩
  | continues l => cases l <;> exact ⟨.abrupt (.inr ⟨rfl, rfl⟩) s, .abrupt (.inr ⟨rfl, rfl⟩) s⟩

/-- A function and a generator differ in what they say of a jump that leads nowhere. -/
theorem callBody_resembles (E : Engine) (ctx : Context) (body : List Stmt) (c : Config) (s : Store) :
    (Stmt.callBody E ctx body c s).Resembles (Stmt.concludeBody E ctx body c s) ∧
      (Stmt.concludeBody E ctx body c s).Resembles (Stmt.callBody E ctx body c s) := by
  show ((Action.enterContext ctx c s).bind _).Resembles ((Action.enterContext ctx c s).bind _) ∧
    ((Action.enterContext ctx c s).bind _).Resembles ((Action.enterContext ctx c s).bind _)
  cases Action.enterContext ctx c s with
  | value _ t =>
    show ((Outcome.bind (Stmt.evaluateList E body c t) _).cleaned _).Resembles
        ((Outcome.bind (Stmt.evaluateList E body c t) _).cleaned _) ∧
      ((Outcome.bind (Stmt.evaluateList E body c t) _).cleaned _).Resembles
        ((Outcome.bind (Stmt.evaluateList E body c t) _).cleaned _)
    cases Stmt.evaluateList E body c t with
    | value r u =>
      have alike := r.returned_resembles c u
      exact ⟨alike.1.cleaned _, alike.2.cleaned _⟩
    | abrupt => exact ⟨.abrupt (.inl rfl) _, .abrupt (.inl rfl) _⟩
    | exhausted => exact ⟨.exhausted .., .exhausted ..⟩
  | abrupt => exact ⟨.abrupt (.inl rfl) _, .abrupt (.inl rfl) _⟩
  | exhausted => exact ⟨.exhausted .., .exhausted ..⟩

theorem concludeBody_emitAll {body : List Stmt} (free : Stmt.yieldFreeAll body) (ctx : Context) (c : Config)
    (s : Store) :
    Emission.SameLimit Eq (fun n => ⟨[], Stmt.concludeBody (.ofBudget n) ctx body c s⟩)
      fun n => Stmt.emitAll (.ofBudget n) ctx body c s := by
  have plain (n : Nat) : Emitter.lift (Stmt.concludeBody (.ofBudget n) ctx body) = .inContext ctx
      (.lift (Stmt.evaluateFrom (.ofBudget n) body none) >>= fun r => .lift r.concluded) := by
    rw [Stmt.concludeBody, Emitter.lift_inContext, Emitter.lift_bind]
    rfl
  refine ⟨fun n => ⟨n, ?_⟩, fun n => ?_⟩
  · have below :
        (Emitter.lift (Stmt.concludeBody (.ofBudget n) ctx body)).Below (Stmt.emitAll (.ofBudget n) ctx body) := by
      rw [plain]
      exact .inContext (.bind (evaluateFrom_below_emitFrom body free (Nat.le_refl n) none) fun _ => .refl _) ctx
    exact below c s
  · obtain ⟨m, within⟩ := emitFrom_below_evaluateFrom body free n
    have below : (Stmt.emitAll (.ofBudget n) ctx body).Below (.lift (Stmt.concludeBody (.ofBudget m) ctx body)) := by
      rw [plain]
      exact .inContext (.bind (within m (Nat.le_refl m) none) fun _ => .refl _) ctx
    exact ⟨m, below c s⟩

/-- A body that ends is the end of its generator. -/
def Outcome.returning (o : Outcome Value) : Outcome Pause := o.bind fun v s => .value (.returns v) s

theorem Outcome.returning_or_yields (o : Outcome Pause) :
    (∃ r : Outcome Value, o = r.returning) ∨ ∃ v s, o = .value (.yields v) s := by
  cases o with
  | value pause s =>
    cases pause with
    | yields v => exact .inr ⟨v, s, rfl⟩
    | returns v => exact .inl ⟨.value v s, rfl⟩
  | abrupt e s => exact .inl ⟨.abrupt e s, rfl⟩
  | exhausted s => exact .inl ⟨.exhausted s, rfl⟩

namespace GeneratorRef

variable {E : Engine} {g : GeneratorRef} {ctx : Context} {c : Config} {s : Store}

/-- The body of a generator has ended. -/
def closed (g : GeneratorRef) : Outcome Value → Outcome Value
  | .value v s =>
    .value (.object s.nextObject) ((s.modifyGenerator g Generator.finished).addObject (.iteratorResult v true))
  | .abrupt e s => .abrupt e (s.modifyGenerator g Generator.finished)
  | .exhausted s => .exhausted s

/-- Resumes a generator as if its body were that of a function. -/
def resumeBody (E : Engine) (g : GeneratorRef) (ctx : Context) (body : List Stmt) : Action Value := do
  g.setStatus .running
  match ← (Stmt.callBody E ctx body).attempt with
  | .ok v =>
    g.finish
    .iteratorResult v true
  | .error e =>
    g.finish
    .rethrow e

/-- The store on which a generator is under way. -/
def started (g : GeneratorRef) (s : Store) : Store :=
  s.modifyGenerator g fun gen => { gen with status := .running }

theorem resumeBody_eq (body : List Stmt) :
    g.resumeBody E ctx body c s = g.closed (Stmt.callBody E ctx body c (g.started s)) := by
  show Outcome.bind (Outcome.attempted (Stmt.callBody E ctx body c (g.started s))) _ = _
  cases Stmt.callBody E ctx body c (g.started s) <;> rfl

/-- A generator that was resumed and came to its end. -/
theorem resume_eq {steps : List GeneratorStep} {o : Outcome Value}
    (found : s.generator? g = some ⟨.suspendedStart, ctx, steps⟩)
    (driven : (g.drive E E.budget).inContext ctx c (g.started s) = o.returning) : g.resume E c s = g.closed o := by
  have read : Action.read (·.generator? g) c s = .value (some ⟨.suspendedStart, ctx, steps⟩) s :=
    congrArg (Outcome.value · s) found
  rw [resume, Action.bind_apply, read]
  show Outcome.bind (Outcome.attempted ((g.drive E E.budget).inContext ctx c (g.started s))) _ = _
  rw [driven]
  cases o <;> rfl

theorem drain_returning {o : Outcome Value} (driven : (g.drive E E.budget).inContext ctx c s = o.returning)
    (rounds : Nat) : g.drain E ctx (rounds + 1) c s = ⟨[], o⟩ := by
  show Emission.bind ⟨[], (g.drive E E.budget).inContext ctx c s⟩ _ = _
  rw [driven]
  cases o <;> rfl

theorem drain_yields {v : Value} {t : Store}
    (driven : (g.drive E E.budget).inContext ctx c s = .value (.yields v) t) (rounds : Nat) :
    g.drain E ctx (rounds + 1) c s = (g.drain E ctx rounds c t).after [v] := by
  show Emission.bind ⟨[], (g.drive E E.budget).inContext ctx c s⟩ _ = _
  rw [driven]
  rfl

/-- A run that emits nothing and is below a generator that is driven on and on ends as that does in its first round. -/
theorem returning_of_below_drain {R : Store → Store → Prop} {o : Outcome Value} {rounds : Nat}
    (h : (Emission.mk [] o).Below R (g.drain E ctx rounds c s)) :
    (∃ t, o = .exhausted t) ∨ ∃ r : Outcome Value, (g.drive E E.budget).inContext ctx c s = r.returning ∧
      (Emission.mk [] o).Below R ⟨[], r⟩ := by
  cases rounds with
  | zero =>
    cases h with
    | exhausted => exact .inl ⟨_, rfl⟩
  | succ rounds =>
    rcases Outcome.returning_or_yields ((g.drive E E.budget).inContext ctx c s) with ⟨r, driven⟩ | ⟨v, t, driven⟩
    · rw [drain_returning driven] at h
      exact .inr ⟨r, driven, h⟩
    · rw [drain_yields driven] at h
      rcases h.emitted.2 with same | gone
      · exact nomatch same
      · exact .inl gone

theorem returning_of_drain_below {R : Store → Store → Prop} {o : Outcome Value} {rounds : Nat}
    (h : (g.drain E ctx (rounds + 1) c s).Below R ⟨[], o⟩) :
    ∃ r : Outcome Value, (g.drive E E.budget).inContext ctx c s = r.returning ∧
      (Emission.mk [] r).Below R ⟨[], o⟩ := by
  rcases Outcome.returning_or_yields ((g.drive E E.budget).inContext ctx c s) with ⟨r, driven⟩ | ⟨v, t, driven⟩
  · rw [drain_returning driven] at h
    exact ⟨r, driven, h⟩
  · rw [drain_yields driven] at h
    exact nomatch List.prefix_nil.1 h.emitted.1

/-- Nothing is left of what two stores differed in when the generator is finished. -/
theorem modifyGenerator_finished {t : Store} (h : s.AgreeBut (some g) t) :
    s.modifyGenerator g Generator.finished = t.modifyGenerator g Generator.finished := by
  have generators : (s.modifyGenerator g Generator.finished).generators =
      (t.modifyGenerator g Generator.finished).generators := by
    refine Array.ext_getElem? fun i => ?_
    rw [Store.modifyGenerator, Store.modifyGenerator, Array.getElem?_modify, Array.getElem?_modify]
    split
    case isTrue here =>
      subst here
      obtain ⟨gen, gen', found, found', _, _, context⟩ := h.running g rfl
      rw [Store.generator?] at found found'
      rw [found, found', Option.map_some, Option.map_some, Generator.finished, Generator.finished, context]
    case isFalse away => exact (h.apart ⟨i⟩ fun set => away (by cases set; rfl)).symm
  have same := h.same
  show { s with generators := (s.modifyGenerator g Generator.finished).generators } = _
  rw [generators, same]
  rfl

theorem closed_below {o r : Outcome Value} (h : (Emission.mk [] o).Below (Store.AgreeBut (some g)) ⟨[], r⟩) :
    (g.closed o).Resembles (g.closed r) := by
  cases h with
  | exhausted => exact .exhausted ..
  | @value _ v s t related =>
    have place : s.nextObject = t.nextObject := by
      rw [related.same]
      rfl
    show Outcome.Resembles _ (.value (Value.object t.nextObject) ((t.modifyGenerator g _).addObject _))
    rw [← place, ← modifyGenerator_finished related]
    exact .value ..
  | @abrupt _ e s t related =>
    show Outcome.Resembles _ (.abrupt e (t.modifyGenerator g _))
    rw [← modifyGenerator_finished related]
    exact .abrupt (.inl rfl) _

theorem closed_resembles {o r : Outcome Value} (h : o.Resembles r) : (g.closed o).Resembles (g.closed r) := by
  cases h with
  | value => exact .value ..
  | abrupt alike => exact .abrupt alike _
  | exhausted => exact .exhausted ..

end GeneratorRef

section Correctness

variable {c : Config} {g : GeneratorRef} {ctx : Context} {body : List Stmt} {s : Store}

theorem resume_yieldFree (room : s.depth < c.maxCallDepth)
    (found : s.generator? g = some ⟨.suspendedStart, ctx, GeneratorStep.ofBody body⟩) (free : Stmt.yieldFreeAll body) :
    (∀ n, ∃ m, (g.resumeBody (.ofBudget n) ctx body c s).Resembles (g.resume (.ofBudget m) c s)) ∧
      ∀ n, ∃ m, (g.resume (.ofBudget n) c s).Resembles (g.resumeBody (.ofBudget m) ctx body c s) := by
  have running : (g.started s).generator? g = some ⟨.running, ctx, GeneratorStep.ofBody body⟩ := by
    rw [Store.generator?] at found
    rw [GeneratorRef.started, Store.generator?, Store.modifyGenerator, Array.getElem?_modify, if_pos rfl, found]
    rfl
  have limit := (concludeBody_emitAll free ctx c (g.started s)).trans (emitAll_drain room running)
  have alike (n : Nat) := callBody_resembles (.ofBudget n) ctx body c (g.started s)
  refine ⟨fun n => ?_, fun n => ?_⟩
  · obtain ⟨m, below⟩ := limit.forth n
    refine ⟨m, ?_⟩
    rw [GeneratorRef.resumeBody_eq]
    refine .trans (GeneratorRef.closed_resembles (alike n).1) ?_
    rcases GeneratorRef.returning_of_below_drain below with ⟨t, gone⟩ | ⟨o, driven, below⟩
    · rw [gone]
      exact .exhausted ..
    · rw [GeneratorRef.resume_eq found driven]
      exact GeneratorRef.closed_below below
  · cases n with
    | zero =>
      have entered : Action.enterContext ctx c (g.started s) = .value () ((g.started s).pushContext ctx) :=
        Action.enterContext_of_room room
      have driven : (g.drive (.ofBudget 0) 0).inContext ctx c (g.started s) =
          Outcome.returning (.exhausted ((g.started s).pushContext ctx)) := by
        show (Action.enterContext ctx c (g.started s)).bind _ = _
        rw [entered]
        rfl
      refine ⟨0, ?_⟩
      rw [GeneratorRef.resume_eq found driven]
      exact .exhausted ..
    | succ n =>
      obtain ⟨m, below⟩ := limit.back (n + 1)
      obtain ⟨o, driven, below⟩ := GeneratorRef.returning_of_drain_below below
      refine ⟨m, ?_⟩
      rw [GeneratorRef.resume_eq found driven, GeneratorRef.resumeBody_eq]
      exact .trans (GeneratorRef.closed_below below) (GeneratorRef.closed_resembles (alike m).2)

end Correctness

/-- A generator does what its body says. Driven again whenever it stops, it yields the values that the body emits, one
by one, and ends with the same value or the same error and, but for its own queue, on the same store. And a generator
whose body has no `yield` is resumed once, to the effect of doing the body as a function does, which is what the call of a
function with that body comes to once it has bound its names. -/
theorem generator_simulates_body (c : Config) (g : GeneratorRef) (ctx : Context) (body : List Stmt) (s : Store)
    (room : s.depth < c.maxCallDepth) :
    (s.generator? g = some ⟨.running, ctx, GeneratorStep.ofBody body⟩ →
      Emission.SameLimit (Store.AgreeBut (some g)) (fun n => Stmt.emitAll (.ofBudget n) ctx body c s)
        fun n => g.drain (.ofBudget n) ctx n c s) ∧
      (s.generator? g = some ⟨.suspendedStart, ctx, GeneratorStep.ofBody body⟩ → Stmt.yieldFreeAll body →
        (∀ n, ∃ m, (g.resumeBody (.ofBudget n) ctx body c s).Resembles (g.resume (.ofBudget m) c s)) ∧
          ∀ n, ∃ m, (g.resume (.ofBudget n) c s).Resembles (g.resumeBody (.ofBudget m) ctx body c s)) ∧
      ∀ n callee (code : FunctionCode) scope strict this args, code.generator = false → code.body = body →
        callScript (.ofBudget n) callee code scope strict this args c s = (do
          let ctx ← callContext code scope strict this
          (instantiate (.ofBudget n) .function body (some ⟨callee, code.params, args⟩)).inContext ctx
          Stmt.callBody (.ofBudget n) ctx body : Action Value) c s := by
  refine ⟨emitAll_drain room, resume_yieldFree room, fun n callee code scope strict this args plain same => ?_⟩
  subst same
  exact callScript_eq n callee scope strict this args c s plain

/-- The context of global code that is not strict. -/
def Context.plain : Context := ⟨.global, .global, .undefined, false, none⟩

/-- A store with a generator and nothing else. -/
def Store.single (status : GeneratorStatus) (body : List Stmt) : Store :=
  ⟨#[], #[], #[⟨status, .plain, GeneratorStep.ofBody body⟩], []⟩

/-- A loop that is left after its first `yield`, and a value that is returned after it. -/
def Stmt.yieldOnce : List Stmt :=
  [.whileLoop (.boolean true) [.yields (some (.boolean true)), .breaks none], .returns (some .null)]

/-- The code of a function that leaves a loop at once. -/
def FunctionCode.leavesLoop : FunctionCode := ⟨none, [], [.whileLoop (.boolean true) [.breaks none]], false, false⟩

/-- A generator whose loop is left from within the queue, and one that comes to its end without a `yield`, as a call of
the function with the same body does. -/
theorem generator_simulates_body_loop :
    (∃ m t, GeneratorRef.drain (.ofBudget m) ⟨0⟩ .plain m .standard (.single .running Stmt.yieldOnce) =
        ⟨[.boolean true], .value .null t⟩) ∧
      (∃ m, GeneratorRef.resume (.ofBudget m) ⟨0⟩ .standard (.single .suspendedStart FunctionCode.leavesLoop.body) =
        .value (.object ⟨0⟩) ⟨#[.iteratorResult .undefined true], #[], #[⟨.completed, .plain, []⟩], []⟩) ∧
      callScript (.ofBudget 4) ⟨0⟩ .leavesLoop .global true .undefined [] .standard (.single .suspendedStart []) = (do
        let ctx ← callContext .leavesLoop .global true .undefined
        (instantiate (.ofBudget 4) .function FunctionCode.leavesLoop.body (some ⟨⟨0⟩, [], []⟩)).inContext ctx
        Stmt.callBody (.ofBudget 4) ctx FunctionCode.leavesLoop.body : Action Value) .standard
          (.single .suspendedStart []) := by
  refine ⟨?_, ?_, ?_⟩
  · have simulated := generator_simulates_body .standard ⟨0⟩ .plain Stmt.yieldOnce (.single .running Stmt.yieldOnce)
      (by decide)
    obtain ⟨m, below⟩ := (simulated.1 rfl).forth 4
    obtain ⟨t, ended, _⟩ := below.of_value
    exact ⟨m, t, ended⟩
  · have simulated := generator_simulates_body .standard ⟨0⟩ .plain FunctionCode.leavesLoop.body
      (.single .suspendedStart FunctionCode.leavesLoop.body) (by decide)
    obtain ⟨m, alike⟩ := (simulated.2.1 rfl rfl).1 4
    exact ⟨m, alike.of_value⟩
  · have simulated := generator_simulates_body .standard ⟨0⟩ .plain FunctionCode.leavesLoop.body
      (.single .suspendedStart []) (by decide)
    exact simulated.2.2 4 ⟨0⟩ .leavesLoop .global true .undefined [] rfl rfl

end Ecma
