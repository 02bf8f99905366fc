import Ecma.Text

/-!
# Code

Programs as trees: expressions, statements and function bodies. Nothing is checked here. A misplaced `break`, an
assignment to a number or a `yield` outside a generator is a tree like any other, and evaluation says what it does.
-/

namespace Ecma

/-- The operators that take two evaluated operands. -/
inductive BinaryOp where
  | add | sub | mul | div | mod
  | leftShift | rightShift | unsignedRightShift
  | bitAnd | bitOr | bitXor
  | equal | notEqual | strictEqual | strictNotEqual
  | less | greater | lessEqual | greaterEqual
  | instanceOf | isIn
deriving DecidableEq, Repr

/-- The operators that stand before one operand. -/
inductive UnaryOp where
  | neg | plus | not | bitNot | typeOf | void | delete
deriving DecidableEq, Repr

/-- The operators that may leave their right operand unevaluated. -/
inductive LogicalOp where
  | and | or
deriving DecidableEq, Repr

/-- The operators that step a variable or property by one. -/
inductive UpdateOp where
  | increment | decrement
deriving DecidableEq, Repr

mutual

inductive Expr where
  | number (x : Float)
  | text (t : Text)
  | boolean (b : Bool)
  | null
  | ident (name : String)
  | thisValue
  | member (object : Expr) (name : String)
  | index (object key : Expr)
  | call (callee : Expr) (args : List Expr)
  | construct (callee : Expr) (args : List Expr)
  | function (code : FunctionCode)
  | object (properties : List PropertyDef)
  | array (elements : List Element)
  | unary (op : UnaryOp) (operand : Expr)
  /-- The value is the new one when the operator stands `before` its target, and the old one when it stands after. -/
  | update (op : UpdateOp) (before : Bool) (target : Expr)
  | binary (op : BinaryOp) (left right : Expr)
  | logical (op : LogicalOp) (left right : Expr)
  | conditional (test consequent alternate : Expr)
  | assign (target value : Expr)
  | compound (op : BinaryOp) (target value : Expr)
  | comma (left right : Expr)

/-- An entry of an object literal. -/
inductive PropertyDef where
  | value (key : String) (e : Expr)
  | getter (key : String) (code : FunctionCode)
  | setter (key : String) (code : FunctionCode)

/-- An entry of an array literal. -/
inductive Element where
  | hole
  | item (e : Expr)

/-- A name that `var` declares, and its initial value. -/
inductive Declarator where
  | mk (name : String) (init : Option Expr)

/-- What a `for` loop runs before its first test. -/
inductive ForInit where
  | nothing
  | declare (declarators : List Declarator)
  | expr (e : Expr)

/-- What a `for`-`in` loop assigns each name to. -/
inductive ForInTarget where
  | declare (name : String)
  | expr (e : Expr)

inductive CatchClause where
  | mk (param : String) (body : List Stmt)

/-- A statement. An absent `else` or `finally` is an empty list. -/
inductive Stmt where
  | empty
  | expr (e : Expr)
  | declare (declarators : List Declarator)
  | function (code : FunctionCode)
  | returns (value : Option Expr)
  | ifElse (test : Expr) (consequent alternate : List Stmt)
  | block (body : List Stmt)
  | whileLoop (test : Expr) (body : List Stmt)
  | doWhile (body : List Stmt) (test : Expr)
  | forLoop (init : ForInit) (test update : Option Expr) (body : List Stmt)
  | forIn (target : ForInTarget) (object : Expr) (body : List Stmt)
  | breaks (label : Option String)
  | continues (label : Option String)
  | label (name : String) (body : Stmt)
  | throws (e : Expr)
  | tryCatch (body : List Stmt) (handler : Option CatchClause) (finalizer : List Stmt)
  | withObject (object : Expr) (body : List Stmt)
  /-- Suspends the running generator. -/
  | yields (value : Option Expr)

/-- The code of a function: its own name, its formal parameters and its body. -/
structure FunctionCode where
  name : Option String
  params : List String
  body : List Stmt
  strict : Bool
  generator : Bool

end

/-- Global or eval code. -/
structure Program where
  body : List Stmt
  strict : Bool

instance : Inhabited Expr := ⟨.null⟩

instance : Inhabited Stmt := ⟨.empty⟩

namespace Declarator

def name : Declarator → String
  | mk name _ => name

def init : Declarator → Option Expr
  | mk _ init => init

end Declarator

namespace CatchClause

def param : CatchClause → String
  | mk param _ => param

def body : CatchClause → List Stmt
  | mk _ body => body

end CatchClause

end Ecma
