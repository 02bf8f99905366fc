import Ecma.Code

/-!
# Hoisting

The names and functions that a body declares for the whole of the code it stands in: those of its own statements at any
depth, in source order, but not those of functions nested in it.
-/

namespace Ecma

namespace ForInit

/-- The names a loop head declares. -/
def names : ForInit → List String
  | declare declarators => declarators.map Declarator.name
  | _ => []

end ForInit

namespace ForInTarget

def names : ForInTarget → List String
  | declare name => [name]
  | _ => []

end ForInTarget

mutual

/-- The names a statement declares with `var`, each as often as it is declared (`collect_var_names`). -/
def Stmt.varNames : Stmt → List String
  | .declare declarators => declarators.map Declarator.name
  | .ifElse _ consequent alternate => Stmt.varNamesOf consequent ++ Stmt.varNamesOf alternate
  | .block body | .whileLoop _ body | .doWhile body _ | .withObject _ body => Stmt.varNamesOf body
  | .forLoop init _ _ body => init.names ++ Stmt.varNamesOf body
  | .forIn target _ body => target.names ++ Stmt.varNamesOf body
  | .label _ body => body.varNames
  | .tryCatch body none finalizer => Stmt.varNamesOf body ++ Stmt.varNamesOf finalizer
  | .tryCatch body (some (.mk _ handler)) finalizer =>
    Stmt.varNamesOf body ++ Stmt.varNamesOf handler ++ Stmt.varNamesOf finalizer
  | _ => []

def Stmt.varNamesOf : List Stmt → List String
  | [] => []
  | s :: rest => s.varNames ++ Stmt.varNamesOf rest

end

/-- The names a body declares with `var`, each once, where it is first declared (`var_declared_names`). -/
def varDeclaredNames (body : List Stmt) : List String := (Stmt.varNamesOf body).eraseDups

mutual

/-- The functions a statement declares (`collect_function_declarations`). -/
def Stmt.functions : Stmt → List FunctionCode
  | .function code => [code]
  | .ifElse _ consequent alternate => Stmt.functionsOf consequent ++ Stmt.functionsOf alternate
  | .block body | .whileLoop _ body | .doWhile body _ | .withObject _ body => Stmt.functionsOf body
  | .forLoop _ _ _ body | .forIn _ _ body => Stmt.functionsOf body
  | .label _ body => body.functions
  | .tryCatch body none finalizer => Stmt.functionsOf body ++ Stmt.functionsOf finalizer
  | .tryCatch body (some (.mk _ handler)) finalizer =>
    Stmt.functionsOf body ++ Stmt.functionsOf handler ++ Stmt.functionsOf finalizer
  | _ => []

def Stmt.functionsOf : List Stmt → List FunctionCode
  | [] => []
  | s :: rest => s.functions ++ Stmt.functionsOf rest

end

/-- The functions a body declares, in source order (`function_declarations`). -/
def functionDeclarations (body : List Stmt) : List FunctionCode := Stmt.functionsOf body

end Ecma
