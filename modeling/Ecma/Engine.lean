import Ecma.Action

/-!
# Engines

Reading a property may call a getter and converting an object may call its methods, so most operations may run code.
They do so through an engine: the four ways of running something, within a budget. Each operation is defined for any
engine, and `Engine.ofBudget` builds the one that runs programs, level by level.
-/

namespace Ecma

/-- How a statement ends. -/
inductive Completion where
  /-- At its end, with the value of the last expression statement if there was one. -/
  | normal (value : Option Value)
  | returns (value : Value)
  | breaks (label : Option String)
  | continues (label : Option String)
deriving DecidableEq

/-- A jump to a statement further out. -/
def Completion.isJump : Completion → Bool
  | normal _ | returns _ => false
  | breaks _ | continues _ => true

/-- Runs code on behalf of an operation. -/
structure Engine where
  /-- How often a loop may go round. -/
  budget : Nat
  /-- Calls a function, with `this` and arguments. -/
  call : Value → Value → List Value → Action Value
  /-- Assigns to a property; the last argument asks for a fault where that is not possible. -/
  put : ObjectRef → String → Value → Bool → Action Unit
  /-- Evaluates an expression. -/
  expr : Expr → Action Value
  /-- Runs a statement that carries labels. -/
  stmt : List String → Stmt → Action Completion

/-- The engine that has nothing left. -/
def Engine.spent : Engine where
  budget := 0
  call := fun _ _ _ => .exhaust
  put := fun _ _ _ _ => .exhaust
  expr := fun _ => .exhaust
  stmt := fun _ _ => .exhaust

end Ecma
