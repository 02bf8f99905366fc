import Ecma.Object.Create

/-!
# Making functions and argument lists

A function object and the object that its instances inherit from refer to each other, so both are added at once. An
`arguments` object outside of strict code stands for the parameters of the call.
-/

namespace Ecma

/-- The accessors that keep strict code from reading its callers. -/
def Property.poisoned : Property :=
  .accessor (.object Intrinsic.throwTypeError.ref) (.object Intrinsic.throwTypeError.ref) false false

namespace Object

/-- The object of a function, with `prototype` for its instances. -/
def function (code : FunctionCode) (scope : ScopeRef) (strict : Bool) (prototype : ObjectRef) : Object :=
  let poison := if strict then [("caller", Property.poisoned), ("arguments", Property.poisoned)] else []
  fresh (some Intrinsic.functionPrototype.ref) .function (.function (.script code scope strict))
    ([("length", .frozen (.ofNat code.params.length)), ("prototype", .data (.object prototype) true false false)] ++
      poison)

/-- What the instances of a function inherit from. -/
def instancePrototype (code : FunctionCode) (f : ObjectRef) : Object :=
  if code.generator then ordinary (some Intrinsic.generatorPrototype.ref) []
  else ordinary (some Intrinsic.objectPrototype.ref) [("constructor", .builtin (.object f))]

/-- The parameters that arguments stand for (`create_arguments_object`): of a repeated name, the last place. -/
def parameterNames : List String → List (Option String)
  | [] => []
  | name :: rest => (if rest.contains name then none else some name) :: parameterNames rest

/-- The `arguments` object of a call (`create_arguments_object`). -/
def arguments (callee : ObjectRef) (params : List String) (args : List Value) (scope : ScopeRef) (strict : Bool) :
    Object :=
  let own := ("length", .builtin (.ofNat args.length)) :: elements args
  if strict then
    fresh (some Intrinsic.objectPrototype.ref) .arguments (.arguments none)
      (own ++ [("caller", .poisoned), ("callee", .poisoned)])
  else
    fresh (some Intrinsic.objectPrototype.ref) .arguments
      (.arguments (some ⟨scope, parameterNames (params.take args.length)⟩))
      (own ++ [("callee", .builtin (.object callee))])

end Object

/-- Adds a function and the object that its instances inherit from (`create_function_object`). -/
def Store.addFunction (s : Store) (code : FunctionCode) (scope : ScopeRef) (strict : Bool) : Store :=
  (s.addObject (.function code scope strict ⟨s.nextObject.index + 1⟩)).addObject (.instancePrototype code s.nextObject)

namespace Action

/-- A new function that closes over a scope. Code in strict code is strict. -/
def newFunction (code : FunctionCode) (scope : ScopeRef) (strict : Bool) : Action ObjectRef :=
  once fun _ s => .value s.nextObject (s.addFunction code scope (strict || code.strict))

end Action

end Ecma
