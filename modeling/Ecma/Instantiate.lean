import Ecma.Code.Hoisting
import Ecma.Function.Create
import Ecma.Scope.Binding

/-!
# Binding declarations

Before code runs, the names it declares are bound in the variable scope of its context: the parameters of a call, then
declared functions, then `arguments`, then variables. Only variables leave a binding that exists as it is.
-/

namespace Ecma

/-- Which code declares the names. -/
inductive CodeKind where
  | global | eval | function
deriving DecidableEq, Repr

/-- The bindings of eval code may be deleted again (`configurable_bindings`). -/
def CodeKind.deletable : CodeKind → Bool
  | .eval => true
  | _ => false

/-- What a call brings to the code of a function. -/
structure Invocation where
  callee : ObjectRef
  params : List String
  args : List Value

/-- Binds parameters to arguments. A repeated parameter takes the last of its arguments, and a missing argument is
undefined. -/
def bindParameters (E : Engine) (e : ScopeRef) (strict : Bool) : List String → List Value → Action Unit
  | [], _ => pure ()
  | name :: rest, args => do
    unless ← .read (·.hasBinding e name) do e.createMutable E name false
    e.setMutable E name (args.headD .undefined) strict
    bindParameters E e strict rest args.tail

/-- Makes room for a function that global code declares where the global object has the name already. A property that
can be configured becomes plain data, and one that cannot must be plain already. -/
def replaceGlobal (E : Engine) (name : String) : Action Unit := do
  match ← .read (·.getProperty? Intrinsic.global.ref name) with
  | some p =>
    if p.configurable then
      let _ ← Intrinsic.global.ref.define E name (Property.data .undefined true true false).descriptor true
    else if p.isAccessor || !(p.writable && p.enumerable) then .fail (.redeclaredGlobal name)
  | none =>
    let _ ← Intrinsic.global.ref.define E name (Property.data .undefined true true false).descriptor true

/-- Binds a declared function. -/
def bindFunction (E : Engine) (kind : CodeKind) (ctx : Context) (code : FunctionCode) (name : String) :
    Action Unit := do
  let f ← .newFunction code ctx.vars ctx.strict
  if ← .read (·.hasBinding ctx.vars name) then
    if kind = .global ∧ ctx.vars = .global then replaceGlobal E name
  else ctx.vars.createMutable E name kind.deletable
  ctx.vars.setMutable E name (.object f) ctx.strict

/-- Binds functions in order, so that of two with one name the later stays. Those without a name are passed over. -/
def bindFunctionList (E : Engine) (kind : CodeKind) (ctx : Context) : List FunctionCode → Action Unit
  | [] => pure ()
  | code :: rest => do
    if let some name := code.name then bindFunction E kind ctx code name
    bindFunctionList E kind ctx rest

/-- Binds the functions that a body declares (`bind_function_declarations`). -/
def bindFunctions (E : Engine) (kind : CodeKind) (body : List Stmt) : Action Unit := do
  bindFunctionList E kind (← .runningContext) (functionDeclarations body)

/-- Binds variables that are not bound yet. -/
def bindVariableList (E : Engine) (kind : CodeKind) (ctx : Context) : List String → Action Unit
  | [] => pure ()
  | name :: rest => do
    unless ← .read (·.hasBinding ctx.vars name) do
      ctx.vars.createMutable E name kind.deletable
      ctx.vars.setMutable E name .undefined ctx.strict
    bindVariableList E kind ctx rest

/-- Binds the variables that a body declares (`bind_variable_declarations`). -/
def bindVariables (E : Engine) (kind : CodeKind) (body : List Stmt) : Action Unit := do
  bindVariableList E kind (← .runningContext) (varDeclaredNames body)

/-- Binds `arguments`, unless a parameter or a function has that name. Strict code cannot assign to it. -/
def bindArguments (E : Engine) (ctx : Context) (call : Invocation) : Action Unit := do
  let e := ctx.vars
  unless ← .read (·.hasBinding e "arguments") do
    let arguments ← .alloc (.arguments call.callee call.params call.args e ctx.strict)
    if ctx.strict then
      e.createImmutable "arguments"
      e.initializeImmutable "arguments" (.object arguments)
    else
      e.createMutable E "arguments" false
      e.setMutable E "arguments" (.object arguments) false

/-- Binds all that a body declares, in a call or on its own (`declaration_binding_instantiation`). -/
def instantiate (E : Engine) (kind : CodeKind) (body : List Stmt) (call : Option Invocation) : Action Unit := do
  let ctx ← .runningContext
  if let some call := call then bindParameters E ctx.vars ctx.strict call.params call.args
  bindFunctions E kind body
  if let some call := call then bindArguments E ctx call
  bindVariables E kind body

end Ecma
