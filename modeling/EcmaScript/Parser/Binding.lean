import EcmaScript.Parser.Grammar

/-!
# Declared patterns and parameters

The patterns of declarations and of the parameters of functions, and the keys of
properties, which object patterns share with object literals and classes. Arrow functions
get their parameters from expressions instead.
-/

namespace EcmaScript.Parser

/-- The key of a property; a private name only where `allowPrivate` says so. -/
def propertyKey (g : Nested) (ctx : Context) (allowPrivate : Bool) :
    Parser (Node .propertyKey) := do
  match ← kind with
  | .string => return .stringKey (← takeString)
  | .number => return .numberKey (← takeNumber)
  | .bigInt => return .bigIntKey (← takeBigInt)
  | .mark .openBracket =>
    advance
    let expression ← g.value ctx.allowIn
    expect (.mark .closeBracket)
    return .computedKey expression
  | .privateName => if allowPrivate then return .privateKey (← takePrivateName) else unexpected
  | k => if k.isIdentifierName then return .identifierKey (← takeIdentifier) else unexpected

/-- The name that a key, spelled by a token at `place`, is when nothing follows it. -/
def shorthandName (ctx : Context) (k : TokenKind) (place : Nat) (key : Node .propertyKey) :
    Parser Identifier := do
  match key with
  | .identifierKey id =>
    if k.isIdentifierLike then
      checkName ctx k place
      return id
    else if k == .escapedReservedWord then fail place .escapedKeyword
    else unexpected
  | _ => unexpected

/-- A value behind an equals sign, if there is one. -/
def optionalInitializer (g : Nested) (ctx : Context) : Parser (Option Expression) := do
  if ← eat (.mark .assign) then return some (← g.value ctx) else return none

/-- A pattern with its default. -/
def bindingElement (g : Nested) (ctx : Context) : Parser (Node .element) := do
  let start ← offset
  let target ← g.bindingTarget ctx
  let initializer ← optionalInitializer g ctx.allowIn
  return .element (← spanFrom start) target initializer

/-- The last part of a pattern, which nothing may follow. -/
def bindingRest (argument : Parser Pattern) (close : TokenKind) : Parser (Node .rest) := do
  let start ← offset
  advance
  let argument ← argument
  let rest := .rest (← spanFrom start) argument
  unless ← isAt close do failHere .restElementLast
  return rest

/-- The last part of a pattern, if three dots announce it. -/
def optionalRest (rest : Parser (Node .rest)) : Parser (Option (Node .rest)) := do
  if ← isAt (.mark .ellipsis) then return some (← rest) else return none

/-- Items with commas between them up to three dots or a closing token, which stay. -/
def itemsBeforeRest {α : Type} (close : TokenKind) (item : Parser α) : Parser (List α) :=
  many do
    if (← isAt close) || (← isAt (.mark .ellipsis)) then return none
    let a ← item
    unless ← isAt close do expect (.mark .comma)
    return some a

/-- The elements of an array pattern before its rest. -/
def bindingElements (g : Nested) (ctx : Context) : Parser (List (Option (Node .element))) :=
  many do
    match ← kind with
    | .mark .closeBracket | .mark .ellipsis => return none
    | .mark .comma =>
      advance
      return some none
    | _ =>
      let element ← bindingElement g ctx
      unless ← isAt (.mark .closeBracket) do expect (.mark .comma)
      return some (some element)

/-- An array pattern. -/
def arrayBinding (g : Nested) (ctx : Context) : Parser Pattern := do
  let start ← offset
  expect (.mark .openBracket)
  let elements ← bindingElements g ctx
  let rest ← optionalRest (bindingRest (g.bindingTarget ctx) (.mark .closeBracket))
  expect (.mark .closeBracket)
  return .arrayPattern (← spanFrom start) elements rest

/-- A property of an object pattern. -/
def bindingProperty (g : Nested) (ctx : Context) : Parser (Node .patternProperty) := do
  let first ← token
  let start := first.start.offset
  let key ← propertyKey g ctx false
  if ← eat (.mark .colon) then
    let value ← bindingElement g ctx
    return .patternProperty (← spanFrom start) key value false
  else
    let name ← shorthandName ctx first.kind start key
    let initializer ← optionalInitializer g ctx.allowIn
    let span ← spanFrom start
    return .patternProperty span key (.element span (.binding name) initializer) true

/-- An object pattern. Its rest is a plain name. -/
def objectBinding (g : Nested) (ctx : Context) : Parser Pattern := do
  let start ← offset
  expect (.mark .openBrace)
  let properties ← itemsBeforeRest (.mark .closeBrace) (bindingProperty g ctx)
  let rest ← optionalRest
    (bindingRest (return .binding (← identifier ctx)) (.mark .closeBrace))
  expect (.mark .closeBrace)
  return .objectPattern (← spanFrom start) properties rest

/-- A name or a pattern of names. -/
def bindingTarget (g : Nested) (ctx : Context) : Parser Pattern := do
  match ← kind with
  | .mark .openBracket => arrayBinding g ctx
  | .mark .openBrace => objectBinding g ctx
  | _ => return .binding (← identifier ctx)

/-- The rest parameter, which nothing may follow. -/
def restParameter (g : Nested) (ctx : Context) : Parser (Node .rest) := do
  let start ← offset
  advance
  let argument ← g.bindingTarget ctx
  match ← kind with
  | .mark .closeParen => return .rest (← spanFrom start) argument
  | .mark .assign => failHere .restParameterDefault
  | .mark .comma => failHere .restParameterLast
  | _ => unexpected

/-- The parameters of a function in their parentheses. -/
def formalParameters (g : Nested) (ctx : Context) : Parser (Node .parameters) := do
  let start ← offset
  expect (.mark .openParen)
  let inner := { ctx.allowIn with inParameters := true }
  let params ← itemsBeforeRest (.mark .closeParen) (bindingElement g inner)
  let rest ← optionalRest (restParameter g inner)
  expect (.mark .closeParen)
  return .parameters (← spanFrom start) params rest

end EcmaScript.Parser
