import Ecma.Evaluate.Statement
import Ecma.Instantiate

/-!
# Generators

A suspended generator is a queue of statements and the context to run them in. Blocks, branches and `while` loops are
laid out in the queue, so that a `yield` inside them comes to its front; all other statements run in one piece. The end
of a laid-out loop body stays in the queue as a boundary, which is where `break` and `continue` lead.
-/

namespace Ecma

/-- Where a generator stops. -/
inductive Pause where
  | yields (v : Value)
  | returns (v : Value)
deriving DecidableEq

namespace GeneratorStep

/-- The statement of a step. -/
def stmt : GeneratorStep → Stmt
  | run s | boundary s => s

/-- A body laid out as steps. -/
def ofBody (body : List Stmt) : List GeneratorStep := body.map run

/-- The steps left after a jump out of the innermost laid-out loop (`unwind_to_loop`); `continue` keeps the boundary
that tests the loop again. There is nowhere to go without a loop. -/
def jump? (keepLoop : Bool) : List GeneratorStep → Option (List GeneratorStep)
  | [] => none
  | boundary s :: rest => some (if keepLoop then boundary s :: rest else rest)
  | run _ :: rest => jump? keepLoop rest

end GeneratorStep

namespace Generator

/-- The generator that has nothing left to do. -/
def finished (g : Generator) : Generator := { g with status := .completed, steps := [] }

end Generator

namespace GeneratorRef

/-- Changes the status of a generator. -/
def setStatus (g : GeneratorRef) (status : GeneratorStatus) : Action Unit :=
  .modify (·.modifyGenerator g fun gen => { gen with status })

/-- Ends a generator for good. -/
def finish (g : GeneratorRef) : Action Unit := .modify (·.modifyGenerator g Generator.finished)

/-- The steps that a generator has yet to do. -/
def steps (g : GeneratorRef) : Action (List GeneratorStep) :=
  .read fun s => ((s.generator? g).map (·.steps)).getD []

/-- Replaces the steps of a generator. -/
def setSteps (g : GeneratorRef) (steps : List GeneratorStep) : Action Unit :=
  .modify (·.modifyGenerator g fun gen => { gen with steps })

/-- Puts steps before those that are left (`push_front`). -/
def pushSteps (g : GeneratorRef) (new : List GeneratorStep) : Action Unit := do
  g.setSteps (new ++ (← g.steps))

/-- Fails because a jump leads nowhere. -/
def stray {α : Type} (g : GeneratorRef) (f : Fault) : Action α := do
  .note (.strays g)
  .fail f

/-- Jumps out of the innermost laid-out loop or to its test. -/
def jump (g : GeneratorRef) (keepLoop : Bool) (otherwise : Fault) : Action Unit := do
  match GeneratorStep.jump? keepLoop (← g.steps) with
  | some rest => g.setSteps rest
  | none => g.stray otherwise

/-- Carries on after a statement that ran in one piece. -/
def follow (g : GeneratorRef) : Completion → Action (Option Pause)
  | .normal _ => pure none
  | .returns v => pure (some (.returns v))
  | .breaks none => do
    g.jump false .strayBreak
    pure none
  | .continues none => do
    g.jump true .strayContinue
    pure none
  | .breaks (some l) | .continues (some l) => g.stray (.undefinedLabel l)

/-- Does one step, and says where the generator stops if it does (`run_step`). -/
def runStep (E : Engine) (g : GeneratorRef) : Stmt → Action (Option Pause)
  | .yields none => pure (some (.yields .undefined))
  | .yields (some e) => return some (.yields (← E.expr e))
  | .block body => do
    g.pushSteps (GeneratorStep.ofBody body)
    pure none
  | .ifElse test consequent alternate => do
    let branch := if (← E.expr test).toBoolean then consequent else alternate
    g.pushSteps (GeneratorStep.ofBody branch)
    pure none
  | .whileLoop test body => do
    if (← E.expr test).toBoolean then g.pushSteps (GeneratorStep.ofBody body ++ [.boundary (.whileLoop test body)])
    pure none
  | stmt => do g.follow (← E.stmt [] stmt)

/-- Does step after step until the generator stops. One that runs out of steps returns. -/
def drive (E : Engine) (g : GeneratorRef) : (budget : Nat) → Action Pause
  | 0 => .exhaust
  | budget + 1 => do
    match ← g.steps with
    | [] => pure (.returns .undefined)
    | step :: rest =>
      g.setSteps rest
      match ← g.runStep E step.stmt with
      | some pause => pure pause
      | none => g.drive E budget

/-- Resumes a suspended generator until it stops (`generator_resume`). -/
def resumeIn (E : Engine) (g : GeneratorRef) (ctx : Context) : Action Value := do
  g.setStatus .running
  .note (.resumes g)
  match ← ((g.drive E E.budget).inContext ctx).attempt with
  | .ok (.yields v) =>
    g.setStatus .suspendedYield
    .note (.rests g)
    .iteratorResult v false
  | .ok (.returns v) =>
    g.finish
    .note (.rests g)
    .iteratorResult v true
  | .error e =>
    g.finish
    .note (.rests g)
    .rethrow e

/-- The method `next` (`generator_next`). -/
def resume (E : Engine) (g : GeneratorRef) : Action Value := do
  match ← .read (·.generator? g) with
  | none => .fail .generatorExpected
  | some gen =>
    match gen.status with
    | .running => .fail .generatorRunning
    | .completed => .iteratorResult .undefined true
    | .suspendedStart | .suspendedYield => g.resumeIn E gen.context

/-- Ends a generator from outside, unless it is running. -/
def abandon (g : GeneratorRef) : Action Unit := do
  if (← .read (·.generator? g)).any (·.status = .running) then .fail .generatorRunning
  else
    g.finish
    .note (.abandons g)

end GeneratorRef

/-- The generator of an object (`generator_state`). -/
def Value.generator (v : Value) : Action GeneratorRef := do
  match v with
  | .object o =>
    match (← .read (·.object o)).kind with
    | .generator g => pure g
    | _ => .fail .generatorExpected
  | _ => .fail .generatorExpected

/-- Calls a generator function (`create_generator`): binds what its body declares and leaves the body for later. -/
def createGenerator (E : Engine) (code : FunctionCode) (ctx : Context) (call : Invocation) : Action Value := do
  (instantiate E .function code.body (some call)).inContext ctx
  let parent := (← call.callee.get E "prototype").object?.getD Intrinsic.generatorPrototype.ref
  let g ← .allocGenerator ⟨.suspendedStart, ctx, GeneratorStep.ofBody code.body⟩
  Value.object <$> .alloc (.generator parent g)

end Ecma
