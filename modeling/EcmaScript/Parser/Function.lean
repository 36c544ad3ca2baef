import EcmaScript.Parser.Binding

/-!
# Functions

Functions with the word `function`, methods, and the bodies of arrow functions. A getter
has no parameters, a setter has one.
-/

namespace EcmaScript.Parser

/-- Checks that an accessor has the parameters that it should have. -/
def checkAccessorParameters (accessor : PropertyKind) (params : Node .parameters) :
    Parser Unit := do
  let .parameters _ _ rest := params
  match accessor with
  | .getter => if params.parameterCount != 0 then fail params.offset .getterParameters
  | .setter =>
    if rest.isSome then fail params.offset .setterRest
    if params.parameterCount != 1 then fail params.offset .setterParameters
  | .init => return

/-- The parameters and the body of a function whose context is `ctx`. -/
def parametersAndBody (g : Nested) (ctx : Context) (accessor : PropertyKind) :
    Parser (Node .parameters × Node .block) :=
  ownSuspensions do
    let params ← formalParameters g ctx
    checkAccessorParameters accessor params
    let body ← g.block ctx
    return (params, body)

/-- A function from the word `function` on; `start` is where it starts if words come before.
A declared function is named in the context around it, the name of an expression belongs to
the function itself. -/
def functionDefinition (g : Nested) (ctx : Context) (start : Nat) (isAsync isDeclaration : Bool) :
    Parser (Node .function) := do
  expect (.word .functionKw)
  let isGenerator ← eat (.mark .times)
  let name ←
    if isDeclaration then pure (some (← identifier ctx))
    else if ← isAt (.mark .openParen) then pure none
    else pure (some (← identifier { ctx with canYield := isGenerator, canAwait := isAsync }))
  let (params, body) ← parametersAndBody g (ctx.function isAsync isGenerator) .init
  return .function (← spanFrom start) name params body isGenerator isAsync 0

/-- A method from its parameters on. -/
def methodFunction (g : Nested) (ctx : Context) (isAsync isGenerator : Bool)
    (accessor : PropertyKind) (superCall : Bool) : Parser (Node .function) := do
  let start ← offset
  let (params, body) ←
    parametersAndBody g (ctx.method isAsync isGenerator superCall) accessor
  return .function (← spanFrom start) none params body isGenerator isAsync 0

/-- An arrow function from its arrow on; `start` is where its parameters start. -/
def arrowFunction (g : Nested) (ctx : Context) (start : Nat) (params : Node .parameters)
    (isAsync : Bool) : Parser Expression := do
  expect (.mark .arrow)
  let inner := ctx.arrow isAsync
  if ← isAt (.mark .openBrace) then
    let body ← ownSuspensions (g.block inner.allowIn)
    return .arrow (← spanFrom start) params body isAsync 0
  else
    let body ← ownSuspensions (g.value inner)
    return .conciseArrow (← spanFrom start) params body isAsync 0

/-- A name as the only parameter. -/
def singleParameter (id : Identifier) : Node .parameters :=
  .parameters id.span [.element id.span (.binding id) none] none

end EcmaScript.Parser
