import Ecma.Proofs.Generator.Emission

/-!
# What the body of a generator does

Said by recursion over its statements: a `yield` emits and goes on. Beside it stands the queue, as it would be worked
through if `yield` never suspended it.
-/

namespace Ecma

mutual

/-- Runs a statement of a generator's body. A `yield` that is reached through nothing but blocks, branches and `while`
loops emits its value; any other statement is run as it is anywhere. -/
def Stmt.emit (E : Engine) : Stmt → Emitter Completion
  | .yields value => do
    Emitter.yielding E value
    pure (.normal none)
  | .block body => Stmt.emitFrom E body none
  | .ifElse test consequent alternate => do
    if (← .lift (E.expr test)).toBoolean then Stmt.emitFrom E consequent none else Stmt.emitFrom E alternate none
  | .whileLoop test body =>
    Emitter.goRound (Emitter.whileTurn E test (Stmt.emitFrom E body none)) E.budget none
  | stmt => .lift (E.stmt [] stmt)

/-- Runs statements of a generator's body one after the other. -/
def Stmt.emitFrom (E : Engine) : List Stmt → Option Value → Emitter Completion
  | [], last => pure (.normal last)
  | stmt :: rest, last => do
    match ← Stmt.emit E stmt with
    | .normal v => Stmt.emitFrom E rest (later v last)
    | c => pure c

end

/-- What a generator gives when its body has ended. -/
def Completion.concluded : Completion → Action Value
  | normal _ => pure .undefined
  | returns v => pure v
  | breaks none => .fail .strayBreak
  | continues none => .fail .strayContinue
  | breaks (some l) | continues (some l) => .fail (.undefinedLabel l)

/-- Runs the whole body of a generator, emitting what it yields. -/
def Stmt.emitAll (E : Engine) (ctx : Context) (body : List Stmt) : Emitter Value := Emitter.inContext ctx do
  .lift (← Stmt.emitFrom E body none).concluded

/-- What a step of a generator comes to, before its queue is looked at. -/
inductive Effect where
  /-- Steps are put before those that are left. -/
  | push (front : List GeneratorStep)
  | yields (v : Value)
  | ends (c : Completion)

/-- What a generator does next. -/
inductive Next where
  | go (steps : List GeneratorStep)
  | yields (v : Value) (steps : List GeneratorStep)
  | returns (v : Value)
  | fails (f : Fault)

namespace GeneratorStep

/-- What is next where `rest` is left of the queue and a statement has ended. -/
def next (rest : List GeneratorStep) : Completion → Next
  | .normal _ => .go rest
  | .returns v => .returns v
  | .breaks none => ((jump? false rest).map Next.go).getD (.fails .strayBreak)
  | .continues none => ((jump? true rest).map Next.go).getD (.fails .strayContinue)
  | .breaks (some l) | .continues (some l) => .fails (.undefinedLabel l)

/-- Does what a step asks for, leaving the queue alone. -/
def effect (E : Engine) : Stmt → Action Effect
  | .yields none => pure (.yields .undefined)
  | .yields (some e) => return .yields (← E.expr e)
  | .block body => pure (.push (ofBody body))
  | .ifElse test consequent alternate =>
    return .push (ofBody (if (← E.expr test).toBoolean then consequent else alternate))
  | .whileLoop test body =>
    return .push (if (← E.expr test).toBoolean then ofBody body ++ [.boundary (.whileLoop test body)] else [])
  | stmt => return .ends (← E.stmt [] stmt)

end GeneratorStep

/-- Carries on after a statement that has ended: with the next one where all went well. -/
def Completion.proceed {α : Type} (onward : Option Value → Emitter α) (otherwise : Completion → Emitter α) :
    Completion → Emitter α
  | normal v => onward v
  | c => otherwise c

theorem Stmt.emitFrom_cons {α : Type} (E : Engine) (stmt : Stmt) (rest : List Stmt) (last : Option Value)
    (k : Completion → Emitter α) :
    Stmt.emitFrom E (stmt :: rest) last >>= k = stmt.emit E >>=
      Completion.proceed (fun v => Stmt.emitFrom E rest (later v last) >>= k) k := by
  rw [Stmt.emitFrom, bind_assoc]
  refine bind_congr fun c => ?_
  cases c <;> rfl

/-- What is next where `rest` is left of the queue. -/
def Effect.next (rest : List GeneratorStep) : Effect → Next
  | push front => .go (front ++ rest)
  | yields v => .yields v rest
  | ends c => GeneratorStep.next rest c

/-- Goes on in a way that is given. -/
def Next.run (onward : List GeneratorStep → Emitter Value) : Next → Emitter Value
  | go steps => onward steps
  | yields v steps => do
    Emitter.emit v
    onward steps
  | returns v => pure v
  | fails f => .lift (.fail f)

/-- Works through a queue, step after step, without ever being suspended. -/
def flow (E : Engine) : (budget : Nat) → List GeneratorStep → Emitter Value
  | 0, _ => .lift .exhaust
  | _ + 1, [] => pure .undefined
  | budget + 1, step :: rest => do
    ((← .lift (GeneratorStep.effect E step.stmt)).next rest).run (flow E budget)

namespace GeneratorStep

variable {rest : List GeneratorStep}

theorem jump?_ofBody (keepLoop : Bool) (body : List Stmt) :
    jump? keepLoop (ofBody body ++ rest) = jump? keepLoop rest := by
  induction body with
  | nil => rfl
  | cons stmt body ih => exact ih

/-- Statements that come before are passed over, unless all went well. -/
theorem next_ofBody {c : Completion} (body : List Stmt) (abnormal : ∀ v, c ≠ .normal v) :
    next (ofBody body ++ rest) c = next rest c := by
  cases c with
  | normal v => exact absurd rfl (abnormal v)
  | returns v => rfl
  | breaks l =>
    cases l with
    | none => simp only [next, jump?_ofBody]
    | some l => rfl
  | continues l =>
    cases l with
    | none => simp only [next, jump?_ofBody]
    | some l => rfl

/-- Where nothing is left, the generator comes to its end. -/
theorem run_next_nil (E : Engine) (budget : Nat) (c : Completion) :
    (next [] c).run (flow E (budget + 1)) = .lift c.concluded := by
  cases c with
  | normal v => rfl
  | returns v => rfl
  | breaks l => cases l <;> rfl
  | continues l => cases l <;> rfl

end GeneratorStep

section Equations

variable {E : Engine} {rest : List GeneratorStep} {k : Completion → Emitter Value}

theorem flow_while {test : Expr} {body : List Stmt} {step : GeneratorStep} (same : step.stmt = .whileLoop test body)
    (budget : Nat) : flow E (budget + 1) (step :: rest) = Emitter.lift (E.expr test) >>= fun v =>
      if v.toBoolean then flow E budget (GeneratorStep.ofBody body ++ .boundary (.whileLoop test body) :: rest)
      else flow E budget rest := by
  rw [flow, same, GeneratorStep.effect, Emitter.lift_bind, bind_assoc]
  refine bind_congr fun v => ?_
  rw [Emitter.lift_pure, pure_bind]
  cases v.toBoolean with
  | true => exact congrArg (flow E budget) (List.append_cons ..).symm
  | false => rfl

theorem flow_yields {value : Option Expr} {step : GeneratorStep} (same : step.stmt = .yields value) (budget : Nat) :
    flow E (budget + 1) (step :: rest) = Emitter.yielding E value >>= fun _ => flow E budget rest := by
  rw [flow, same]
  cases value with
  | none => rfl
  | some e =>
    rw [GeneratorStep.effect, Emitter.lift_bind, bind_assoc, Emitter.yielding, bind_assoc]
    rfl

theorem flow_ifElse {test : Expr} {consequent alternate : List Stmt} {step : GeneratorStep}
    (same : step.stmt = .ifElse test consequent alternate) (budget : Nat) :
    flow E (budget + 1) (step :: rest) = Emitter.lift (E.expr test) >>= fun v =>
      if v.toBoolean then flow E budget (GeneratorStep.ofBody consequent ++ rest)
      else flow E budget (GeneratorStep.ofBody alternate ++ rest) := by
  rw [flow, same, GeneratorStep.effect, Emitter.lift_bind, bind_assoc]
  refine bind_congr fun v => ?_
  cases v.toBoolean <;> rfl

theorem emit_yields (value : Option Expr) :
    Stmt.emit E (.yields value) >>= k = Emitter.yielding E value >>= fun _ => k (.normal none) := by
  rw [Stmt.emit, bind_assoc]
  rfl

theorem emit_ifElse (test : Expr) (consequent alternate : List Stmt) :
    Stmt.emit E (.ifElse test consequent alternate) >>= k = Emitter.lift (E.expr test) >>= fun v =>
      if v.toBoolean then Stmt.emitFrom E consequent none >>= k else Stmt.emitFrom E alternate none >>= k := by
  rw [Stmt.emit, bind_assoc]
  refine bind_congr fun v => ?_
  split <;> rfl

/-- A statement that is run in one piece. -/
theorem flow_whole {stmt : Stmt} {step : GeneratorStep} (same : step.stmt = stmt)
    (whole : GeneratorStep.effect E stmt = .ends <$> E.stmt [] stmt) (budget : Nat) :
    flow E (budget + 1) (step :: rest) = Emitter.lift (E.stmt [] stmt) >>= fun c =>
      (GeneratorStep.next rest c).run (flow E budget) := by
  rw [flow, same, whole, Emitter.lift_map, bind_assoc]
  refine bind_congr fun c => ?_
  rw [pure_bind]
  rfl

end Equations

end Ecma
