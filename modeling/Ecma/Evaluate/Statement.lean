import Ecma.Evaluate.Expression

/-!
# Running statements

One level of a statement; its parts are run by the engine. A list keeps the value of the last statement that had one.
Loops ask the engine's budget how often they may go round.
-/

namespace Ecma

/-- What a loop does after its body. -/
inductive Turn where
  /-- Goes round again, with the last value so far. -/
  | again (last : Option Value)
  | leave (c : Completion)

/-- The value of a later statement, or else that of an earlier one. -/
def later (new last : Option Value) : Option Value := new.orElse fun _ => last

/-- Decides after its body whether a loop goes on (`loop_continues`). Its own labels and jumps without a label concern
it; any other end of the body is the end of the loop. -/
def Completion.turn (labels : List String) (last : Option Value) : Completion → Turn
  | normal v => .again (later v last)
  | continues none => .again last
  | breaks none => .leave (normal last)
  | continues (some l) => if labels.contains l then .again last else .leave (continues (some l))
  | breaks (some l) => if labels.contains l then .leave (normal last) else .leave (breaks (some l))
  | returns v => .leave (returns v)

/-- Goes round a loop at most as often as a budget allows. -/
def goRound (turn : Option Value → Action Turn) : (budget : Nat) → Option Value → Action Completion
  | 0, _ => .exhaust
  | budget + 1, last => do
    match ← turn last with
    | .again last => goRound turn budget last
    | .leave c => pure c

/-- The names that a `for`-`in` loop visits, given where each might be found. A name hides all later ones, also where it
is not enumerated itself. -/
def visible (s : Store) : List (ObjectRef × String) → (seen : List String) → List String
  | [], _ => []
  | (o, name) :: rest, seen =>
    if seen.contains name then visible s rest seen
    else if s.isEnumerable o name then name :: visible s rest (name :: seen)
    else visible s rest (name :: seen)

/-- The names that a `for`-`in` loop visits (`enumerable_keys`): own ones first, then inherited. -/
def Store.enumerableKeys (s : Store) (o : ObjectRef) : List String :=
  visible s ((s.prototypeChain o).flatMap fun p => (s.ownKeys p).map fun name => (p, name)) []

namespace Declarator

/-- Gives declared names their initial values (`evaluate_var_declarations`). Also a name without one must be one that
can be assigned to. -/
def evaluateList (E : Engine) : List Declarator → Action Unit
  | [] => pure ()
  | mk name init :: rest => do
    .note (.declares name)
    let r ← resolveName name
    r.checkTarget
    if let some e := init then r.putValue E (← E.expr e)
    evaluateList E rest

end Declarator

namespace ForInit

def evaluate (E : Engine) : ForInit → Action Unit
  | nothing => pure ()
  | declare declarators => Declarator.evaluateList E declarators
  | expr e => do
    let _ ← E.expr e

end ForInit

namespace ForInTarget

/-- The place that the next name goes to; it is looked up anew for each. -/
def reference (E : Engine) : ForInTarget → Action Reference
  | declare name => do
    .note (.declares name)
    resolveName name
  | expr e => e.reference E

end ForInTarget

namespace Stmt

/-- Runs statements one after the other. -/
def evaluateFrom (E : Engine) : List Stmt → Option Value → Action Completion
  | [], last => pure (.normal last)
  | stmt :: rest, last => do
    match ← E.stmt [] stmt with
    | .normal v => evaluateFrom E rest (later v last)
    | c => pure c

/-- Runs the statements of a body (`evaluate_statements`). -/
def evaluateList (E : Engine) (body : List Stmt) : Action Completion := evaluateFrom E body none

/-- Runs the whole body of a function or program, which no jump should leave. -/
def evaluateBody (E : Engine) (body : List Stmt) : Action Completion := do
  let c ← evaluateList E body
  if c.isJump then .note (.escapes body)
  pure c

/-- A test that is not there holds. -/
def holds (E : Engine) : Option Expr → Action Bool
  | none => pure true
  | some test => return (← E.expr test).toBoolean

/-- One turn of a `while` loop. -/
def whileTurn (E : Engine) (labels : List String) (test : Expr) (body : List Stmt) (last : Option Value) :
    Action Turn := do
  if (← E.expr test).toBoolean then return (← evaluateList E body).turn labels last
  else pure (.leave (.normal last))

/-- One turn of a `do` loop, with the test at its end. -/
def doTurn (E : Engine) (labels : List String) (body : List Stmt) (test : Expr) (last : Option Value) :
    Action Turn := do
  match (← evaluateList E body).turn labels last with
  | .again last => if (← E.expr test).toBoolean then pure (.again last) else pure (.leave (.normal last))
  | t => pure t

/-- One turn of a `for` loop: the update comes after the body. -/
def forTurn (E : Engine) (labels : List String) (test update : Option Expr) (body : List Stmt) (last : Option Value) :
    Action Turn := do
  if ← holds E test then
    match (← evaluateList E body).turn labels last with
    | .again last =>
      if let some e := update then
        let _ ← E.expr e
      pure (.again last)
    | t => pure t
  else pure (.leave (.normal last))

/-- Visits names in turn (`evaluate_for_in`). Those that are gone by then, or no longer enumerated, are passed over. -/
def visitKeys (E : Engine) (labels : List String) (target : ForInTarget) (o : ObjectRef) (body : List Stmt) :
    List String → Option Value → Action Completion
  | [], last => pure (.normal last)
  | name :: rest, last => do
    if (← .read (·.getProperty? o name)).any (·.enumerable) then
      let r ← target.reference E
      r.assign E true (.ofString name)
      match (← evaluateList E body).turn labels last with
      | .again last => visitKeys E labels target o body rest last
      | .leave c => pure c
    else visitKeys E labels target o body rest last

/-- Runs a `catch` clause on what was thrown. -/
def evaluateCatch (E : Engine) (clause : CatchClause) (e : Abrupt) : Action (Except Abrupt Completion) := do
  if (← .isStrict) && (clause.param == "eval" || clause.param == "arguments") then .fail (.strictTarget clause.param)
  else
    let v ← e.thrownValue
    let scope ← .declarativeScope (some (← .read (·.lexicalScope)))
    scope.createMutable E clause.param false
    scope.setMutable E clause.param v false
    (evaluateList E clause.body).attempt.inScope scope

/-- Runs a `finally` block. Where it ends at its end, the statement ends as it did before. -/
def evaluateFinally (E : Engine) (finalizer : List Stmt) (before : Except Abrupt Completion) : Action Completion := do
  match ← evaluateList E finalizer with
  | .normal _ => .ofExcept before
  | c => pure c

/-- Runs a `try` statement. An early error passes all of it by. -/
def evaluateTry (E : Engine) (body : List Stmt) (handler : Option CatchClause) (finalizer : List Stmt) :
    Action Completion := do
  match ← (evaluateList E body).attempt, handler with
  | .error e, clause =>
    if e.isEarly then .rethrow e
    else
      match clause with
      | some clause => evaluateFinally E finalizer (← evaluateCatch E clause e)
      | none => evaluateFinally E finalizer (.error e)
  | .ok c, _ => evaluateFinally E finalizer (.ok c)

/-- Runs a statement that carries labels (`evaluate_labelled_statement`). -/
def evaluate (E : Engine) (labels : List String) : Stmt → Action Completion
  | empty | function _ => pure (.normal none)
  | expr e => return .normal (some (← E.expr e))
  | declare declarators => do
    Declarator.evaluateList E declarators
    pure (.normal none)
  | returns none => pure (.returns .undefined)
  | returns (some e) => return .returns (← E.expr e)
  | ifElse test consequent alternate => do
    if (← E.expr test).toBoolean then evaluateList E consequent else evaluateList E alternate
  | block body => evaluateList E body
  | whileLoop test body => goRound (whileTurn E labels test body) E.budget none
  | doWhile body test => goRound (doTurn E labels body test) E.budget none
  | forLoop init test update body => do
    init.evaluate E
    goRound (forTurn E labels test update body) E.budget none
  | forIn target object body => do
    let v ← E.expr object
    if v.isNullish then pure (.normal none)
    else
      let o ← v.toObject
      visitKeys E labels target o body (← .read (·.enumerableKeys o)) none
  | breaks l => pure (.breaks l)
  | continues l => pure (.continues l)
  | label name body => do
    match ← E.stmt (labels ++ [name]) body with
    | .breaks (some l) => pure (if l = name then .normal none else .breaks (some l))
    | c => pure c
  | throws e => do
    .throwValue (← E.expr e)
  | tryCatch body handler finalizer => evaluateTry E body handler finalizer
  | withObject object body => do
    if ← .isStrict then .fail .strictWith
    else
      let v ← E.expr object
      let o ← v.toObject
      let scope ← .objectScope o true (some (← .read (·.lexicalScope)))
      (evaluateList E body).inScope scope
  | yields _ => .fail .strayYield

end Stmt

end Ecma
