import Ecma.Function.Construct
import Ecma.Function.Create
import Ecma.Operator
import Ecma.Reference

/-!
# Evaluating expressions

One level of an expression; its parts are evaluated by the engine. Operands go left to right, and a call evaluates its
arguments before it looks whether there is something to call.
-/

namespace Ecma

namespace Expr

/-- The expressions that stand for a place as well as for a value (`is_reference_expr`). -/
def isReference : Expr → Bool
  | ident _ | member .. | index .. => true
  | _ => false

/-- How messages name the function of a call (`describe_callee`). -/
def describe : Expr → String
  | ident name => name
  | member base name => base.describe ++ "." ++ name
  | thisValue => "this"
  | _ => "expression"

end Expr

/-- A name as the running code sees it (`identifier_reference`). -/
def resolveName (name : String) : Action Reference := do
  let strict ← .isStrict
  .read fun s => .identifier s (some s.lexicalScope) name strict

namespace Expr

/-- The place that an expression stands for (`evaluate_reference`). -/
def reference (E : Engine) : Expr → Action Reference
  | ident name => resolveName name
  | member base name => do
    let v ← E.expr base
    v.checkCoercible
    return .property v name (← .isStrict)
  | index base key => do
    let v ← E.expr base
    let k ← E.expr key
    v.checkCoercible
    let name ← k.toName E
    return .property v name (← .isStrict)
  | _ => .fail .invalidTarget

/-- The values of arguments, left to right (`evaluate_arguments`). -/
def evaluateList (E : Engine) : List Expr → Action (List Value)
  | [] => pure []
  | e :: rest => do
    let v ← E.expr e
    return v :: (← evaluateList E rest)

/-- The function of a call, and what `this` will be in it. -/
def callee (E : Engine) (e : Expr) : Action (Value × Value) := do
  if e.isReference then
    let r ← e.reference E
    let f ← r.getValue E
    return (f, ← .read (r.thisValue ·))
  else return (← E.expr e, .undefined)

/-- Adds the entries of an object literal (`evaluate_object_literal`). -/
def defineAll (E : Engine) (o : ObjectRef) (scope : ScopeRef) (strict : Bool) : List PropertyDef → Action Unit
  | [] => pure ()
  | .value key e :: rest => do
    let v ← E.expr e
    let _ ← o.define E key (Property.plain v).descriptor false
    defineAll E o scope strict rest
  | .getter key code :: rest => do
    let f ← .newFunction code scope strict
    let _ ← o.define E key
      { Descriptor.empty with get := some (.object f), enumerable := some true, configurable := some true } false
    defineAll E o scope strict rest
  | .setter key code :: rest => do
    let f ← .newFunction code scope strict
    let _ ← o.define E key
      { Descriptor.empty with set := some (.object f), enumerable := some true, configurable := some true } false
    defineAll E o scope strict rest

/-- Adds the elements of an array literal from an index on; holes are left out. -/
def defineElements (E : Engine) (o : ObjectRef) : Nat → List Element → Action Unit
  | _, [] => pure ()
  | i, .hole :: rest => defineElements E o (i + 1) rest
  | i, .item e :: rest => do
    let v ← E.expr e
    let _ ← o.define E (Index.name i) (Property.plain v).descriptor false
    defineElements E o (i + 1) rest

/-- A function and a scope around it where its own name is bound, and can only be read. -/
def namedFunction (code : FunctionCode) (name : String) (scope : ScopeRef) (strict : Bool) :
    Action (ScopeRef × ObjectRef) := do
  let own ← .declarativeScope (some scope)
  own.createImmutable name
  let f ← .newFunction code own strict
  own.initializeImmutable name (.object f)
  pure (own, f)

/-- A function expression. -/
def closure (code : FunctionCode) : Action Value := do
  let scope ← .read (·.lexicalScope)
  let strict ← .isStrict
  match code.name with
  | some name =>
    let (own, f) ← namedFunction code name scope strict
    .note (.binds name own f)
    pure (.object f)
  | none => Value.object <$> .newFunction code scope strict

/-- The operators with one operand (`evaluate_unary`). -/
def evaluateUnary (E : Engine) (op : UnaryOp) (operand : Expr) : Action Value := do
  match op with
  | .delete =>
    if operand.isReference then
      let r ← operand.reference E
      return .boolean (← r.delete)
    else
      let _ ← E.expr operand
      pure (.boolean true)
  | .typeOf =>
    if operand.isReference then
      let r ← operand.reference E
      if r.isUnresolvable then pure (.ofString "undefined")
      else
        let v ← r.getValue E
        .read fun s => .ofString (s.typeOf v)
    else
      let v ← E.expr operand
      .read fun s => .ofString (s.typeOf v)
  | .void =>
    let _ ← E.expr operand
    pure .undefined
  | .neg => return .number (-(← (← E.expr operand).toNumber E))
  | .plus => return .number (← (← E.expr operand).toNumber E)
  | .not => return .boolean !(← E.expr operand).toBoolean
  | .bitNot => return .number (Float.ofInt (~~~(← (← E.expr operand).toWord E)).toInt)

/-- The value of an expression (`evaluate_expr`). -/
def evaluate (E : Engine) : Expr → Action Value
  | number x => pure (.number x)
  | text t => pure (.string t)
  | boolean b => pure (.boolean b)
  | null => pure .null
  | thisValue => .read (·.thisBinding)
  | ident name => do (← resolveName name).getValue E
  | member base name => do (← (member base name).reference E).getValue E
  | index base key => do (← (index base key).reference E).getValue E
  | call callee args => do
    let (f, this) ← callee.callee E
    let args ← evaluateList E args
    if ← .read (·.isCallable f) then E.call f this args else .fail (.notCallable callee.describe)
  | construct callee args => do
    let f ← E.expr callee
    let args ← evaluateList E args
    if ← .read (·.isConstructor f) then Ecma.construct E f args else .fail (.notConstructor callee.describe)
  | function code => closure code
  | object properties => do
    let o ← .newObject
    let scope ← .read (·.lexicalScope)
    defineAll E o scope (← .isStrict) properties
    pure (.object o)
  | array elements => do
    let o ← .newArray []
    defineElements E o 0 elements
    o.put E "length" (.ofNat elements.length) false
    pure (.object o)
  | unary op operand => evaluateUnary E op operand
  | update op before target => do
    let r ← target.reference E
    r.checkTarget
    let old ← (← r.getValue E).toNumber E
    let new := match op with
      | .increment => old + 1.0
      | .decrement => old - 1.0
    r.putValue E (.number new)
    pure (.number (if before then new else old))
  | binary op left right => do
    let v ← E.expr left
    let w ← E.expr right
    op.apply E v w
  | logical op left right => do
    let v ← E.expr left
    match op, v.toBoolean with
    | .and, false | .or, true => pure v
    | _, _ => E.expr right
  | conditional test consequent alternate => do
    if (← E.expr test).toBoolean then E.expr consequent else E.expr alternate
  | assign target value => do
    let r ← target.reference E
    r.checkTarget
    let v ← E.expr value
    r.putValue E v
    pure v
  | compound op target value => do
    let r ← target.reference E
    r.checkTarget
    let v ← r.getValue E
    let w ← E.expr value
    let result ← op.apply E v w
    r.putValue E result
    pure result
  | comma left right => do
    let _ ← E.expr left
    E.expr right

end Expr

end Ecma
