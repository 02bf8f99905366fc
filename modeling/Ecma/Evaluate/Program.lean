import Ecma.Evaluate.Statement
import Ecma.Instantiate

/-!
# Running programs

Global code runs in the global scope. Eval code runs where it is called from, or as global code does; strict eval code
has a scope of its own for what it declares.
-/

namespace Ecma

/-- The value of a program when its statements have ended (`completion_value`). -/
def Completion.result : Completion → Action Value
  | normal v => pure (v.getD .undefined)
  | returns _ => .fail .strayReturn
  | breaks _ | continues _ => .fail .strayJump

/-- The context of global code. -/
def Context.global (strict : Bool) : Context :=
  { lexical := .global, vars := .global, thisValue := .object Intrinsic.global.ref, strict, functionName := none }

namespace Program

/-- Binds what a program declares and runs it in a context. -/
def evaluateIn (E : Engine) (kind : CodeKind) (p : Program) (ctx : Context) : Action Value :=
  Action.inContext ctx do
    instantiate E kind p.body none
    (← Stmt.evaluateBody E p.body).result

/-- Runs global code (`evaluate_program`). -/
def evaluate (E : Engine) (p : Program) : Action Value := do
  p.evaluateIn E .global (.global (p.strict || (← .config).strictGlobal))

/-- The context that eval code starts from: the running one for a direct call, or else that of global code. -/
def evalCaller (s : Store) (direct : Bool) : Context :=
  ((if direct then s.context? else none).map fun ctx => { ctx with functionName := none }).getD (.global false)

/-- Runs eval code (`evaluate_eval_code`). -/
def evaluateEval (E : Engine) (p : Program) (direct : Bool) : Action Value := do
  let caller ← .read (evalCaller · direct)
  if p.strict || caller.strict then
    let own ← .declarativeScope (some caller.lexical)
    p.evaluateIn E .eval { caller with lexical := own, vars := own, strict := true }
  else p.evaluateIn E .eval caller

end Program

end Ecma
