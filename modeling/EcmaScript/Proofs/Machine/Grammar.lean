import EcmaScript.Proofs.Machine.Basic
import EcmaScript.Proofs.Parser.Loop

/-!
# The grammar on a machine

Every construct of the grammar as a machine parses it. Where a construct has parts of its own
function, class or loop, it changes the registers by hand and changes them back behind the parts.
What takes no part in this is left to the parsers. The longer constructs are divided into parts as
those of the parsers are.
-/

namespace EcmaScript.Machine

open EcmaScript.Parser

/-- The key of a property; a private name only where `allowPrivate` says so. -/
def propertyKey (g : Nested) (allowPrivate : Bool) : Machine (Node .propertyKey) := do
  match ← kind with
  | .string => return .stringKey (← takeString)
  | .number => return .numberKey (← takeNumber)
  | .bigInt => return .bigIntKey (← takeBigInt)
  | .mark .openBracket =>
    advance
    let expression ← allowIn g.value
    expect (.mark .closeBracket)
    return .computedKey expression
  | .privateName => if allowPrivate then return .privateKey (← takePrivateName) else unexpected
  | k => if k.isIdentifierName then return .identifierKey (← takeIdentifier) else unexpected

/-- A value behind an equals sign, if there is one. -/
def optionalInitializer (value : Machine Expression) : Machine (Option Expression) := do
  if ← eat (.mark .assign) then return some (← value) else return none

/-- A pattern with its default. -/
def bindingElement (g : Nested) : Machine (Node .element) := do
  let start ← offset
  let target ← g.bindingTarget
  let initializer ← optionalInitializer (allowIn g.value)
  return .element (← spanFrom start) target initializer

/-- The last part of a pattern, which nothing may follow. -/
def bindingRest (argument : Machine Pattern) (close : TokenKind) : Machine (Node .rest) := do
  let start ← offset
  advance
  let argument ← argument
  let rest := .rest (← spanFrom start) argument
  unless ← isAt close do (failHere .restElementLast : Parser Unit)
  return rest

/-- The last part of a pattern, if three dots announce it. -/
def optionalRest (rest : Machine (Node .rest)) : Machine (Option (Node .rest)) := do
  if ← isAt (.mark .ellipsis) then return some (← rest) else return none

/-- Items with commas between them up to three dots or a closing token, which stay. -/
def itemsBeforeRest {α : Type} (close : TokenKind) (item : Machine α) : Machine (List α) :=
  many do
    if (← isAt close) || (← isAt (.mark .ellipsis)) then return none
    let a ← item
    unless ← isAt close do expect (.mark .comma)
    return some a

/-- The elements of an array pattern before its rest. -/
def bindingElements (g : Nested) : Machine (List (Option (Node .element))) :=
  many do
    match ← kind with
    | .mark .closeBracket | .mark .ellipsis => return none
    | .mark .comma =>
      advance
      return some none
    | _ =>
      let element ← bindingElement g
      unless ← isAt (.mark .closeBracket) do expect (.mark .comma)
      return some (some element)

/-- An array pattern. -/
def arrayBinding (g : Nested) : Machine Pattern := do
  let start ← offset
  expect (.mark .openBracket)
  let elements ← bindingElements g
  let rest ← optionalRest (bindingRest g.bindingTarget (.mark .closeBracket))
  expect (.mark .closeBracket)
  return .arrayPattern (← spanFrom start) elements rest

/-- A property of an object pattern. -/
def bindingProperty (g : Nested) : Machine (Node .patternProperty) := do
  let first ← token
  let start := first.start.offset
  let key ← propertyKey g false
  if ← eat (.mark .colon) then
    let value ← bindingElement g
    return .patternProperty (← spanFrom start) key value false
  else
    let name ← reading fun ctx => shorthandName ctx first.kind start key
    let initializer ← optionalInitializer (allowIn g.value)
    let span ← spanFrom start
    return .patternProperty span key (.element span (.binding name) initializer) true

/-- An object pattern. Its rest is a plain name. -/
def objectBinding (g : Nested) : Machine Pattern := do
  let start ← offset
  expect (.mark .openBrace)
  let properties ← itemsBeforeRest (.mark .closeBrace) (bindingProperty g)
  let rest ← optionalRest
    (bindingRest (return .binding (← reading identifier)) (.mark .closeBrace))
  expect (.mark .closeBrace)
  return .objectPattern (← spanFrom start) properties rest

/-- A name or a pattern of names. -/
def bindingTarget (g : Nested) : Machine Pattern := do
  match ← kind with
  | .mark .openBracket => arrayBinding g
  | .mark .openBrace => objectBinding g
  | _ => return .binding (← reading identifier)

/-- The rest parameter, which nothing may follow. -/
def restParameter (g : Nested) : Machine (Node .rest) := do
  let start ← offset
  advance
  let argument ← g.bindingTarget
  match ← kind with
  | .mark .closeParen => return .rest (← spanFrom start) argument
  | .mark .assign => failHere .restParameterDefault
  | .mark .comma => failHere .restParameterLast
  | _ => unexpected

/-- The parameters of a function in their parentheses. -/
def formalParameters (g : Nested) : Machine (Node .parameters) := do
  let start ← offset
  expect (.mark .openParen)
  let saved := (← registers).flags
  setFlags { saved with noIn := false, inParameters := true }
  let params ← itemsBeforeRest (.mark .closeParen) (bindingElement g)
  let rest ← optionalRest (restParameter g)
  expect (.mark .closeParen)
  setFlags saved
  return .parameters (← spanFrom start) params rest

/-- A declared pattern with its value. -/
def declarator (g : Nested) (variableKind : VariableKind) : Machine (Node .declarator) := do
  let start ← offset
  let target ← g.bindingTarget
  checkBoundNames variableKind target
  let init ← optionalInitializer g.value
  return .declarator (← spanFrom start) target init

/-- Declarations from the word that declares on; `check` looks at each of them. -/
def declarators (g : Nested) (variableKind : VariableKind)
    (check : Node .declarator → Parser Unit) : Machine (List (Node .declarator)) := do
  let checked : Machine (Node .declarator) := do
    let d ← declarator g variableKind
    check d
    return d
  advance
  let first ← checked
  let more ← many do
    if ← eat (.mark .comma) then return some (← checked) else return none
  return first :: more

/-- Declarations as a statement. -/
def variableStatement (g : Nested) (variableKind : VariableKind) : Machine Statement := do
  let start ← offset
  let ds ← allowIn (declarators g variableKind (checkInitializer variableKind))
  semicolon
  return .variableStatement (.declaration (← spanFrom start) variableKind ds)

/-- Declarations in the head of a loop. -/
def headDeclaration (g : Nested) (variableKind : VariableKind) :
    Machine (Node .declaration) := do
  let start ← offset
  let ds ← disallowIn (declarators g variableKind fun _ => pure ())
  return .declaration (← spanFrom start) variableKind ds

/-- The parameters and the body of a function with given flags. -/
def parametersAndBody (g : Nested) (flags : Flags) (accessor : PropertyKind) :
    Machine (Node .parameters × Node .block) :=
  inFunction flags { canReturn := true } do
    let params ← formalParameters g
    checkAccessorParameters accessor params
    let body ← g.block
    return (params, body)

/-- The name of a function; that of an expression belongs to the function. -/
def functionName (isAsync isGenerator isDeclaration : Bool) : Machine (Option Identifier) := do
  let unnamed ← isAt (.mark .openParen)
  if isDeclaration then return some (← reading identifier)
  else if unnamed then return none
  else return some (← withFlags ({ · with canYield := isGenerator, canAwait := isAsync })
    (reading identifier))

/-- A function from the word `function` on. -/
def functionDefinition (g : Nested) (start : Nat) (isAsync isDeclaration : Bool) :
    Machine (Node .function) := do
  expect (.word .functionKw)
  let isGenerator ← eat (.mark .times)
  let name ← functionName isAsync isGenerator isDeclaration
  let r ← parametersAndBody g ((← registers).flags.function isAsync isGenerator) .init
  return .function (← spanFrom start) name r.1 r.2 isGenerator isAsync 0

/-- A method from its parameters on. -/
def methodFunction (g : Nested) (isAsync isGenerator : Bool) (accessor : PropertyKind)
    (superCall : Bool) : Machine (Node .function) := do
  let start ← offset
  let flags := (← registers).flags.function isAsync isGenerator
  let (params, body) ←
    parametersAndBody g { flags with superProperty := true, superCall } accessor
  return .function (← spanFrom start) none params body isGenerator isAsync 0

/-- An arrow function from its arrow on. -/
def arrowFunction (g : Nested) (start : Nat) (params : Node .parameters) (isAsync : Bool) :
    Machine Expression := do
  expect (.mark .arrow)
  let flags := (← registers).flags
  let flags := { flags with canYield := false, canAwait := isAsync, inParameters := false }
  if ← isAt (.mark .openBrace) then
    let body ← inFunction { flags with noIn := false } { canReturn := true } g.block
    return .arrow (← spanFrom start) params body isAsync 0
  else
    let body ← inFunction flags { canReturn := true } g.value
    return .conciseArrow (← spanFrom start) params body isAsync 0

/-- The flags for the initializer of a field or the statements of a static block. -/
def classFlags (flags : Flags) : Flags := { flags.function false false with superProperty := true }

/-- The value of a field. -/
def fieldInitializer (g : Nested) : Machine Expression := do
  inFunction (classFlags (← registers).flags) {} g.value

/-- A static block from the word `static` on. -/
def staticBlock (g : Nested) : Machine (Node .classElement) := do
  let start ← offset
  advance
  expect (.mark .openBrace)
  let flags := classFlags (← registers).flags
  let body ← inFunction { flags with inStaticBlock := true } {} do
    let body ← g.statementsUntil (.mark .closeBrace)
    expect (.mark .closeBrace)
    return body
  return .staticBlock (← spanFrom start) body 0

/-- A method from its parameters on, and whether it is a constructor. -/
def methodMember (g : Nested) (start : Nat) (derived isStatic : Bool) (m : Modifiers)
    (key : Node .propertyKey) (isConstructor : Bool) : Machine (Node .classElement × Bool) := do
  let value ← methodFunction g m.isAsync m.isGenerator m.accessor (isConstructor && derived)
  let kind := methodKindOf m isConstructor
  return (.method (← spanFrom start) key kind isStatic value, isConstructor)

/-- A field from behind its key on. -/
def fieldMember (g : Nested) (start : Nat) (isStatic : Bool) (key : Node .propertyKey) :
    Machine (Node .classElement × Bool) := do
  let value ← if ← eat (.mark .assign) then pure (some (← fieldInitializer g)) else pure none
  semicolon
  return (.field (← spanFrom start) key isStatic value, false)

/-- A method or a field from its modifiers on, and whether it is a constructor. -/
def methodOrField (g : Nested) (start : Nat) (derived isStatic hasConstructor : Bool) :
    Machine (Node .classElement × Bool) := do
  let m ← modifiers endsClassName
  let place ← offset
  let key ← propertyKey g true
  checkMemberKey isStatic place key
  if ← isAt (.mark .openParen) then
    let isConstructor := !isStatic && key.staticName? == some "constructor"
    checkConstructor isConstructor hasConstructor m place
    methodMember g start derived isStatic m key isConstructor
  else
    checkField m place key
    fieldMember g start isStatic key

/-- A member of a class, and whether it is a constructor. -/
def classElement (g : Nested) (derived hasConstructor : Bool) :
    Machine (Node .classElement × Bool) := do
  let start ← offset
  if (← isAt (.word .staticKw)) && (← peek).kind == .mark .openBrace then
    return (← staticBlock g, false)
  else
    let isStatic ← eatModifier endsClassName .staticKw
    methodOrField g start derived isStatic hasConstructor

/-- The members of a class up to its closing brace, which stays. -/
def classElements (g : Nested) (derived : Bool) : Machine (List (Node .classElement)) :=
  iterate (fun (found, hasConstructor) => do
    if ← isAt (.mark .closeBrace) then return .done found.reverse
    else if ← eat (.mark .semicolon) then return .next (found, hasConstructor)
    else
      let (element, isConstructor) ← classElement g derived hasConstructor
      return .next (element :: found, hasConstructor || isConstructor)) ([], false)

/-- The class that a class extends, if it extends one. -/
def superClass (g : Grammar) : Machine (Option Expression) := do
  if ← eat (.word .extendsKw) then return some (← g.heritage) else return none

/-- A class. -/
def classDefinition (g : Grammar) (isDeclaration : Bool) : Machine (Node .classDefinition) := do
  let start ← offset
  expect (.word .classKw)
  let name ← reading fun ctx => className ctx isDeclaration
  let superClass ← superClass g
  let bodyStart ← offset
  expect (.mark .openBrace)
  let saved := (← registers).flags
  setFlags { saved with inClass := true }
  let elements ← classElements g.toNested superClass.isSome
  expect (.mark .closeBrace)
  setFlags saved
  let bodySpan ← spanFrom bodyStart
  return .classDefinition (← spanFrom start) name superClass bodySpan elements 0

/-- A template with its substitutions. -/
def templateLiteral (g : Nested) (tagged : Bool) : Machine (Node .template) := do
  let start ← offset
  let (quasis, expressions) ← iterate (fun (quasis, expressions) => do
    let element ← templateElement tagged
    advance
    if element.tail then return .done ((element :: quasis).reverse, expressions.reverse)
    else
      let expression ← allowIn g.expression
      unless ← isAt (.mark .closeBrace) do (unexpected : Parser Unit)
      (modify fun s => { s with lexer := s.lexer.rescanTemplate } : Parser Unit)
      return .next (element :: quasis, expression :: expressions)) ([], [])
  return .templateLiteral (← spanFrom start) quasis expressions

/-- An expression that may have three dots before it. -/
def spreadable (m : Machine Expression) : Machine Expression := do
  let start ← offset
  if ← eat (.mark .ellipsis) then
    let argument ← m
    return .spread (← spanFrom start) argument
  else m

/-- The elements of an array that starts at `array`, up to its closing bracket. -/
def arrayElements (g : Nested) (array : Nat) : Machine (List (Option Expression)) :=
  many do
    match ← kind with
    | .mark .closeBracket => return none
    | .mark .comma =>
      advance
      return some none
    | k =>
      let element ← spreadable g.assignment
      if k == .mark .ellipsis && (← isAt (.mark .comma)) &&
          (← peek).kind == .mark .closeBracket then
        let comma ← offset
        (modify fun s => { s with notes := s.notes.addSpreadComma array comma } : Parser Unit)
      unless ← isAt (.mark .closeBracket) do expect (.mark .comma)
      return some (some element)

/-- An array. -/
def arrayLiteral (g : Nested) : Machine Expression := do
  let start ← offset
  expect (.mark .openBracket)
  let elements ← allowIn (arrayElements g start)
  expect (.mark .closeBracket)
  return .array (← spanFrom start) elements

/-- A name that is key and value at once. -/
def shorthandMember (g : Nested) (start : Nat) (name : Identifier) :
    Machine (Node .objectMember) := do
  if ← isAt (.mark .assign) then
    let place ← offset
    (modify fun s => { s with coverInit := s.coverInit.or (some place) } : Parser Unit)
    advance
    let initializer ← g.value
    return .shorthand (← spanFrom start) name (some initializer)
  else return .shorthand (← spanFrom start) name none

/-- A member of an object other than a spread. -/
def objectProperty (g : Nested) : Machine (Node .objectMember) := do
  let start ← offset
  let m ← modifiers endsObjectName
  let first ← token
  let key ← propertyKey g false
  if ← isAt (.mark .openParen) then
    let definition ← methodFunction g m.isAsync m.isGenerator m.accessor false
    return .property (← spanFrom start) key (.functionExpression definition) m.accessor
      (m.accessor == .init)
  else if m.requireMethod then unexpected
  else if ← eat (.mark .colon) then
    let value ← g.assignment
    return .property (← spanFrom start) key value .init false
  else
    let name ← reading fun ctx => shorthandName ctx first.kind first.start.offset key
    shorthandMember g start name

/-- A member of an object. -/
def objectMember (g : Nested) : Machine (Node .objectMember) := do
  let start ← offset
  if ← eat (.mark .ellipsis) then
    let argument ← g.assignment
    return .spreadMember (← spanFrom start) argument
  else objectProperty g

/-- An object. -/
def objectLiteral (g : Nested) : Machine Expression := do
  let start ← offset
  expect (.mark .openBrace)
  let members ← allowIn (commaList (.mark .closeBrace) (objectMember g))
  expect (.mark .closeBrace)
  return .object (← spanFrom start) members

/-- Expressions in parentheses that may become parameters. -/
def coverParenthesized (g : Nested) : Machine Cover.Parenthesized := do
  let start ← offset
  expect (.mark .openParen)
  let (items, trailingComma) ← allowIn (iterate (fun (items, trailingComma) => do
    if ← isAt (.mark .closeParen) then return .done (items.reverse, trailingComma)
    else
      let item ← spreadable g.assignment
      if ← isAt (.mark .closeParen) then return .done ((item :: items).reverse, trailingComma)
      else
        expect (.mark .comma)
        let trailing ← if ← isAt (.mark .closeParen) then pure (some (← offset)) else pure none
        return .next (item :: items, trailing)) ([], none))
  expect (.mark .closeParen)
  return { span := ← spanFrom start, items, trailingComma }

/-- Expressions in parentheses that may become parameters, without an operator that suspends the
function around if an arrow follows. -/
def arrowCover (g : Nested) : Machine Cover.Parenthesized := do
  let outer := (← (get : Parser State)).suspension
  (modify fun s => { s with suspension := none } : Parser Unit)
  let cover ← coverParenthesized g
  let inner := (← (get : Parser State)).suspension
  (modify fun s => { s with suspension := outer.or inner } : Parser Unit)
  if let some fault := inner then
    if ← atArrow then (fail fault.offset fault.problem : Parser Unit)
  return cover

/-- An arrow function whose parameters were read as expressions. -/
def coverArrow (g : Nested) (start : Nat) (cover : Cover.Parenthesized) (isAsync : Bool) :
    Machine Expression := do
  let params ← orFail (cover.toParameters (← (get : Parser State)).notes)
  arrowFunction g start params isAsync

/-- An expression in parentheses, or an arrow function. -/
def parenthesizedOrArrow (g : Nested) : Machine Expression := do
  let start ← offset
  let outer ← takeCoverInit
  let cover ← arrowCover g
  if ← atArrow then
    setCoverInit outer
    coverArrow g start cover false
  else
    let expression ← coverExpression cover
    checkCoverInit
    setCoverInit outer
    return expression

/-- A call of a function named `async`, or an asynchronous arrow function. -/
def asyncCallOrArrow (g : Nested) : Machine Expression := do
  let start ← offset
  let callee ← takeIdentifier
  let outer ← takeCoverInit
  let cover ← arrowCover g
  if ← atArrow then
    setCoverInit outer
    coverArrow g start cover true
  else
    checkCoverInit
    setCoverInit outer
    return .call (← spanFrom start) (.reference callee) cover.items false

/-- A name, or an arrow function whose parameter it is. -/
def nameOrArrow (g : Nested) : Machine Expression := do
  let start ← offset
  let id ← reading identifier
  if ← atArrow then arrowFunction g start (singleParameter id) false
  else return .reference id

/-- What starts with the word `async`. -/
def asyncPrimary (g : Nested) : Machine Expression := do
  let start ← offset
  let next ← peek
  if next.afterLineBreak then nameOrArrow g
  else if next.kind == .word .functionKw then
    advance
    return .functionExpression (← functionDefinition g start true false)
  else if next.kind.isIdentifierLike then
    advance
    let id ← withFlags ({ · with canAwait := true }) (reading identifier)
    unless ← atArrow do (unexpected : Parser Unit)
    arrowFunction g start (singleParameter id) true
  else if next.kind == .mark .openParen then asyncCallOrArrow g
  else nameOrArrow g

/-- An expression that no operator divides. -/
def primary (g : Grammar) : Machine Expression := do
  let start ← offset
  match ← kind with
  | .word .thisKw =>
    advance
    return .thisValue (← spanFrom start)
  | .word .nullKw =>
    advance
    return .null (← spanFrom start)
  | .word .trueKw =>
    advance
    return .boolean (← spanFrom start) true
  | .word .falseKw =>
    advance
    return .boolean (← spanFrom start) false
  | .number => return .number (← takeNumber)
  | .bigInt => return .bigInt (← takeBigInt)
  | .string => return .string (← takeString)
  | .mark .slash | .mark .slashAssign =>
    (modify fun s => { s with lexer := s.lexer.rescanSlash } : Parser Unit)
    return .regex (← takeRegex)
  | .regex => return .regex (← takeRegex)
  | .template | .templateHead => return .template (← templateLiteral g.toNested false)
  | .mark .openParen => parenthesizedOrArrow g.toNested
  | .mark .openBracket => arrayLiteral g.toNested
  | .mark .openBrace => objectLiteral g.toNested
  | .word .functionKw =>
    return .functionExpression (← functionDefinition g.toNested start false false)
  | .word .classKw => return .classExpression (← classDefinition g false)
  | .word .asyncKw => asyncPrimary g.toNested
  | .privateName => reading privateNameIn
  | k =>
    if k.isIdentifierLike || k == .escapedReservedWord then nameOrArrow g.toNested
    else unexpected

/-- The name of a property in brackets. -/
def computedMember (g : Nested) : Machine Expression := do
  expect (.mark .openBracket)
  let property ← allowIn g.expression
  expect (.mark .closeBracket)
  return property

/-- The arguments of a call. -/
def arguments (g : Nested) : Machine (List Expression) := do
  expect (.mark .openParen)
  let items ← allowIn (commaList (.mark .closeParen) (spreadable g.value))
  expect (.mark .closeParen)
  return items

/-- What stands behind the mark of an optional link. -/
def optionalLink (g : Nested) (start : Nat) (object : Expression) : Machine Expression := do
  match ← kind with
  | .mark .openParen =>
    let items ← arguments g
    return .call (← spanFrom start) object items true
  | .mark .openBracket =>
    let property ← computedMember g
    return .index (← spanFrom start) object property true
  | .template | .templateHead => failHere .templateOnOptionalChain
  | _ =>
    let property ← reading memberName
    return .member (← spanFrom start) object property true

/-- Attaches what a token of kind `k` announces. -/
def attach (g : Nested) (start : Nat) (behindNew : Bool) (operand : Expression) (chained : Bool)
    (k : TokenKind) : Machine (Round (Expression × Bool) (Expression × Bool)) := do
  match k with
  | .mark .dot =>
    advance
    let property ← reading memberName
    return .next (.member (← spanFrom start) operand property false, chained)
  | .mark .questionDot =>
    if behindNew then (failHere .optionalChainFromNew : Parser Unit)
    advance
    return .next (← optionalLink g start operand, true)
  | .mark .openBracket =>
    let property ← computedMember g
    return .next (.index (← spanFrom start) operand property false, chained)
  | .mark .openParen =>
    if behindNew then return .done (operand, chained)
    let items ← arguments g
    return .next (.call (← spanFrom start) operand items false, chained)
  | .template | .templateHead =>
    if chained then (failHere .templateOnOptionalChain : Parser Unit)
    let quasi ← templateLiteral g true
    return .next (.taggedTemplate (← spanFrom start) operand quasi, chained)
  | _ => return .done (operand, chained)

/-- Attaches one property, call or template to an operand. -/
def subscript (g : Nested) (start : Nat) (behindNew : Bool) :
    Expression × Bool → Machine (Round (Expression × Bool) (Expression × Bool)) :=
  fun (operand, chained) => do
    let k ← kind
    if isSubscript k then checkCoverInit
    attach g start behindNew operand chained k

/-- An operand with all that is attached to it. -/
def subscripts (g : Nested) (start : Nat) (behindNew : Bool) (operand : Expression) :
    Machine Expression := do
  let (expression, chained) ← iterate (subscript g start behindNew) (operand, false)
  if chained then return .optionalChain (← spanFrom start) expression
  else return expression

/-- What starts with the word `new`. -/
def construct (g : Grammar) : Machine Expression := do
  let start ← offset
  advance
  if ← isAt (.mark .dot) then reading fun ctx => newTarget ctx start
  else
    let calleeStart ← offset
    let callee ← g.newCallee
    let callee ← subscripts g.toNested calleeStart true callee
    let items ← if ← isAt (.mark .openParen) then arguments g.toNested else pure []
    return .construct (← spanFrom start) callee items

/-- An operand before anything is attached to it. -/
def operandBase (g : Grammar) : Machine Expression := do
  match ← kind with
  | .word .newKw => construct g
  | .word .superKw => reading superBase
  | _ => primary g

/-- An operand. -/
def operand (g : Grammar) : Machine Expression := do
  let start ← offset
  let outer ← takeCoverInit
  let base ← operandBase g
  let expression ←
    if ← isCompleteArrow base then pure base
    else subscripts g.toNested start false base
  mergeCoverInit outer
  return expression

/-- The class that a class extends. -/
def Nested.heritage (g : Nested) : Machine Expression :=
  recursive fun heritage => operand { g with heritage }

/-- The constructs of a level, given those of the levels further in. -/
def Nested.grammar (g : Nested) : Grammar := { g with heritage := g.heritage }

/-- An operand that may have an update operator behind it, on the same line. -/
def postfixExpression (g : Grammar) : Machine Expression := do
  let start ← offset
  let expression ← operand g
  match UpdateOperator.ofKind? (← kind) with
  | none => return expression
  | some operator =>
    if (← afterLineBreak) || (← isCompleteArrow expression) then return expression
    unless expression.isSimpleTarget do (fail start .postfixTarget : Parser Unit)
    advance
    return .update (← spanFrom start) operator false expression

/-- An update operator in front of its operand. -/
def prefixUpdate (g : Grammar) (operator : UpdateOperator) : Machine Expression := do
  let start ← offset
  advance
  let place ← offset
  let argument ← g.unary
  unless argument.isSimpleTarget do (fail place .prefixTarget : Parser Unit)
  return .update (← spanFrom start) operator true argument

/-- A unary operator with its operand. -/
def unaryOperation (g : Grammar) (operator : UnaryOperator) : Machine Expression := do
  let start ← offset
  advance
  let argument ← g.unary
  rejectPower
  return .unary (← spanFrom start) operator argument

/-- An operand that is waited for. -/
def awaitOperation (g : Grammar) : Machine Expression := do
  if (← registers).flags.inParameters then (failHere .awaitInParameters : Parser Unit)
  let start ← offset
  noteSuspension .awaitInParameters
  advance
  let argument ← g.unary
  rejectPower
  return .awaitValue (← spanFrom start) argument

/-- An expression without binary operators. -/
def unaryExpression (g : Grammar) : Machine Expression := do
  let k ← kind
  match UnaryOperator.ofKind? k, UpdateOperator.ofKind? k with
  | some operator, _ => unaryOperation g operator
  | none, some operator => prefixUpdate g operator
  | none, none =>
    if k == .word .awaitKw && (← registers).flags.canAwait then awaitOperation g
    else postfixExpression g

/-- A binary operator with its right operand, given the left one. -/
def binaryOperation (g : Grammar) (min : Precedence) (start : Nat) (left : Expression)
    (operator : BinaryOperator) : Machine Expression := do
  if isPrivateName left && operator != .isIn then (unexpected : Parser Unit)
  if mixesCoalesce operator min start left then (unexpected : Parser Unit)
  advance
  let first ← token
  let right ← g.binary operator.rightPrecedence
  if isPrivateName right then
    (fail first.start.offset (.unexpectedToken first.text) : Parser Unit)
  return .binary (← spanFrom start) operator left right

/-- An expression with those binary operators that bind more tightly than `min`. -/
def binaryExpression (g : Grammar) (min : Precedence) : Machine Expression := do
  let start ← offset
  let left ← unaryExpression g
  if ← isCompleteArrow left then return left
  iterate (fun left => do
    match ← reading fun ctx => binaryOperator? ctx min with
    | none => return .done left
    | some operator => return .next (← binaryOperation g min start left operator)) left

/-- An expression without assignment. -/
def conditionalExpression (g : Grammar) : Machine Expression := do
  let start ← offset
  let test ← binaryExpression g 0
  if !(← isAt (.mark .question)) || (← isCompleteArrow test) then return test
  advance
  let consequent ← allowIn g.value
  expect (.mark .colon)
  let alternate ← g.value
  return .conditional (← spanFrom start) test consequent alternate

/-- An operator that hands a value out of the function. -/
def yieldExpression (g : Grammar) : Machine Expression := do
  if (← registers).flags.inParameters then (failHere .yieldInParameters : Parser Unit)
  let start ← offset
  noteSuspension .yieldInParameters
  advance
  if ← afterLineBreak then return .yieldValue (← spanFrom start) none false
  let delegate ← eat (.mark .times)
  let argument ←
    if delegate || startsExpression (← kind) then pure (some (← g.value)) else pure none
  return .yieldValue (← spanFrom start) argument delegate

/-- An expression without a comma. -/
def assignmentExpression (g : Grammar) : Machine Expression := do
  if (← isAt (.word .yieldKw)) && (← registers).flags.canYield then yieldExpression g
  else
    let start ← offset
    let outer ← takeCoverInit
    let left ← conditionalExpression g
    let complete ← isCompleteArrow left
    match (AssignmentOperator.ofKind? (← kind)).filter fun _ => !complete with
    | none =>
      mergeCoverInit outer
      return left
    | some operator =>
      let target ← assignmentTarget operator outer left
      advance
      let value ← g.value
      return .assignment (← spanFrom start) operator target value

/-- An expression in parentheses, as in the head of a statement. -/
def condition (g : Nested) : Machine Expression := do
  expect (.mark .openParen)
  let test ← allowIn g.expression
  expect (.mark .closeParen)
  return test

/-- A statement that is part of another. -/
def substatement (g : Nested) : Machine Statement := do
  match ← kind with
  | .word .constKw | .word .classKw => unexpected
  | .word .letKw =>
    let next ← peek
    let declares := next.kind == .mark .openBracket ||
      (!next.afterLineBreak && (next.kind.isIdentifierLike || next.kind == .mark .openBrace))
    if declares then (unexpected : Parser Unit)
    if next.kind == .mark .colon then g.statement else g.expressionStatement
  | _ => g.statement

/-- The body of a loop. -/
def loopBody (g : Nested) : Machine Statement := do
  let facts := (← registers).facts
  setFacts { facts with
    iterationDepth := facts.iterationDepth + 1, breakableDepth := facts.breakableDepth + 1 }
  let body ← substatement g
  let facts := (← registers).facts
  setFacts { facts with
    iterationDepth := facts.iterationDepth - 1, breakableDepth := facts.breakableDepth - 1 }
  return body

/-- A statement that is an expression. -/
def expressionStatement (g : Nested) : Machine Statement := do
  let start ← offset
  let expression ← allowIn g.expression
  semicolon
  return .expressionStatement (← spanFrom start) expression

/-- A statement with a condition, and perhaps an alternative. -/
def ifStatement (g : Nested) : Machine Statement := do
  let start ← offset
  advance
  let test ← condition g
  let consequent ← substatement g
  if ← eat (.word .elseKw) then
    let alternate ← substatement g
    return .ifElse (← spanFrom start) test consequent alternate
  else return .ifThen (← spanFrom start) test consequent

/-- A loop with its condition first. -/
def whileStatement (g : Nested) : Machine Statement := do
  let start ← offset
  advance
  let test ← condition g
  let body ← loopBody g
  return .whileLoop (← spanFrom start) test body

/-- A loop with its condition last. -/
def doStatement (g : Nested) : Machine Statement := do
  let start ← offset
  advance
  let body ← loopBody g
  expect (.word .whileKw)
  let test ← condition g
  optionalSemicolon
  return .doWhile (← spanFrom start) body test

/-- A return from a function. -/
def returnStatement (g : Nested) : Machine Statement := do
  let start ← offset
  unless (← registers).facts.canReturn do (failHere .illegalReturn : Parser Unit)
  advance
  let argument ←
    if (← isAt (.mark .semicolon)) || (← atImpliedEnd) then pure none
    else pure (some (← allowIn g.expression))
  semicolon
  return .returnValue (← spanFrom start) argument

/-- A statement that throws a value, which stands on the same line. -/
def throwStatement (g : Nested) : Machine Statement := do
  let start ← offset
  advance
  if ← afterLineBreak then (fail start .newlineAfterThrow : Parser Unit)
  let argument ← allowIn g.expression
  semicolon
  return .throwValue (← spanFrom start) argument

/-- What a handler binds, if it binds something. -/
def catchParameter (g : Nested) : Machine (Option Pattern) := do
  if ← eat (.mark .openParen) then
    let target ← g.bindingTarget
    expect (.mark .closeParen)
    return some target
  else return none

/-- The clause that handles what was thrown, from the word `catch` on. -/
def catchClause (g : Nested) : Machine (Node .catchClause) := do
  let start ← offset
  advance
  let param ← catchParameter g
  let body ← g.block
  return .catchClause (← spanFrom start) param body 0

/-- The handler of a block, if it has one. -/
def tryHandler (g : Nested) : Machine (Option (Node .catchClause)) := do
  if ← isAt (.word .catchKw) then return some (← catchClause g) else return none

/-- The block that is always executed, if there is one. -/
def tryFinalizer (g : Nested) : Machine (Option (Node .block)) := do
  if ← eat (.word .finallyKw) then return some (← g.block) else return none

/-- A block with a handler, a block that is always executed, or both. -/
def tryStatement (g : Nested) : Machine Statement := do
  let start ← offset
  advance
  let body ← g.block
  let handler ← tryHandler g
  let finalizer ← tryFinalizer g
  match handler, finalizer with
  | some handler, _ => return .tryCatch (← spanFrom start) body handler finalizer
  | none, some finalizer => return .tryFinally (← spanFrom start) body finalizer
  | none, none => failHere .tryAlone

/-- The statements of a case, up to the next case or the end of the switch. -/
def caseBody (g : Nested) : Machine (List Statement) :=
  many do
    match ← kind with
    | .word .caseKw | .word .defaultKw | .mark .closeBrace => return none
    | .endOfFile => unexpected
    | _ => return some (← g.statement)

/-- The test of a case; the default case has none, and there may be only one. -/
def caseTest (g : Nested) (seenDefault : Bool) : Machine (Option Expression) := do
  match ← kind with
  | .word .caseKw =>
    advance
    return some (← allowIn g.expression)
  | .word .defaultKw =>
    if seenDefault then (failHere .secondDefault : Parser Unit)
    advance
    return none
  | _ => unexpected

/-- The cases of a switch up to its closing brace, which stays. -/
def switchCases (g : Nested) : Machine (List (Node .switchCase)) :=
  iterate (fun (found, seenDefault) => do
    if ← isAt (.mark .closeBrace) then return .done found.reverse
    let start ← offset
    let test ← caseTest g seenDefault
    expect (.mark .colon)
    let body ← caseBody g
    let case := .switchCase (← spanFrom start) test body
    return .next (case :: found, seenDefault || test.isNone)) ([], false)

/-- A choice between cases. -/
def switchStatement (g : Nested) : Machine Statement := do
  let start ← offset
  advance
  let discriminant ← condition g
  expect (.mark .openBrace)
  let facts := (← registers).facts
  setFacts { facts with breakableDepth := facts.breakableDepth + 1 }
  let cases ← switchCases g
  expect (.mark .closeBrace)
  let facts := (← registers).facts
  setFacts { facts with breakableDepth := facts.breakableDepth - 1 }
  return .switch (← spanFrom start) discriminant cases 0

/-- A statement in which the properties of an object are names. -/
def withStatement (g : Nested) : Machine Statement := do
  let start ← offset
  advance
  let object ← condition g
  let body ← substatement g
  return .withObject (← spanFrom start) object body

/-- The labels when one more is met, at the offset `start`: those whose statement starts there
become labels of loops or not, as it does. -/
def markLabels (start : Nat) (isLoop : Bool) (labels : List Label) : List Label :=
  (labels.takeWhile (·.bodyStart == start)).map ({ · with isLoop }) ++
    labels.dropWhile (·.bodyStart == start)

/-- A statement with a label, which no statement around it may have too. -/
def labeledStatement (g : Nested) : Machine Statement := do
  let start ← offset
  let id ← reading identifier
  expect (.mark .colon)
  let facts := (← registers).facts
  if (facts.labels.find? (·.name == id.name)).isSome then
    (fail start (.duplicateLabel id.name) : Parser Unit)
  let first ← token
  let label : Label :=
    { name := id.name, isLoop := startsLoop first.kind, bodyStart := first.start.offset }
  setFacts { facts with labels := label :: markLabels start label.isLoop facts.labels }
  let body ← substatement g
  let facts := (← registers).facts
  setFacts { facts with labels := facts.labels.tail }
  return .labeled (← spanFrom start) id body

/-- A declared function. -/
def functionDeclaration (g : Nested) (isAsync : Bool) : Machine Statement := do
  let start ← offset
  if isAsync then advance
  return .functionDeclaration (← functionDefinition g start isAsync true)

/-- The value that a loop takes its values from. -/
def loopSource (g : Nested) : LoopKind → Machine Expression
  | .forOf => allowIn g.value
  | .forIn => allowIn g.expression

/-- A loop over many values, from the word behind its head on. -/
def loopOverValues (g : Nested) (start : Nat) (isAwait : Bool) (loop : LoopKind)
    (head : Node .forHead) : Machine Statement := do
  if isAwait && loop != .forOf then (unexpected : Parser Unit)
  advance
  let right ← loopSource g loop
  expect (.mark .closeParen)
  let body ← loopBody g
  return loopNode loop isAwait head right body (← spanFrom start)

/-- An optional expression before a closing token. -/
def optionalExpression (g : Nested) (close : TokenKind) : Machine (Option Expression) := do
  if ← isAt close then return none else return some (← allowIn g.expression)

/-- A loop with a condition, from behind its initializer on. -/
def loopOnCondition (g : Nested) (start : Nat) (isAwait : Bool) (init : Node .forInit) :
    Machine Statement := do
  if isAwait then (unexpected : Parser Unit)
  expect (.mark .semicolon)
  let test ← optionalExpression g (.mark .semicolon)
  expect (.mark .semicolon)
  let update ← optionalExpression g (.mark .closeParen)
  expect (.mark .closeParen)
  let body ← loopBody g
  return .forLoop (← spanFrom start) init test update body 0

/-- A loop whose head starts with a declaration. -/
def declarationLoop (g : Nested) (start : Nat) (isAwait : Bool) (variableKind : VariableKind) :
    Machine Statement := do
  let declaration ← headDeclaration g variableKind
  match ← loopKind? with
  | some loop =>
    checkHeadDeclaration loop declaration
    loopOverValues g start isAwait loop (.declarationHead declaration)
  | none =>
    let .declaration _ _ ds := declaration
    (ds.forM (checkInitializer variableKind) : Parser Unit)
    loopOnCondition g start isAwait (.declarationInit declaration)

/-- A loop whose head starts with an expression. -/
def expressionLoop (g : Nested) (start : Nat) (isAwait : Bool) : Machine Statement := do
  let outer ← takeCoverInit
  let expression ← disallowIn g.expressionOrCover
  match ← loopKind? with
  | some loop =>
    setCoverInit outer
    let target ←
      orFail (Cover.toTarget (← (get : Parser State)).notes (.loopTarget loop) expression)
    loopOverValues g start isAwait loop (.patternHead target)
  | none =>
    checkCoverInit
    setCoverInit outer
    loopOnCondition g start isAwait (.expressionInit expression)

/-- The head of a loop with `for` from its parenthesis on. -/
def forHead (g : Nested) (start : Nat) (isAwait : Bool) : Machine Statement := do
  expect (.mark .openParen)
  match ← declarationKind? with
  | some variableKind => declarationLoop g start isAwait variableKind
  | none =>
    if ← isAt (.mark .semicolon) then loopOnCondition g start isAwait .noInit
    else expressionLoop g start isAwait

/-- A loop with `for`. -/
def forStatement (g : Nested) : Machine Statement := do
  let start ← offset
  advance
  let isAwait := (← isAt (.word .awaitKw)) && (← registers).flags.canAwait
  if isAwait then advance
  forHead g start isAwait

/-- A statement that starts with a name or a word without a meaning of its own. -/
def plainStatement (g : Nested) : Machine Statement := do
  if (← kind).isIdentifierLike && (← peek).kind == .mark .colon then labeledStatement g
  else expressionStatement g

/-- A statement. -/
def statement (g : Grammar) : Machine Statement := do
  let start ← offset
  match ← kind with
  | .mark .openBrace => return .blockStatement (← g.block)
  | .mark .semicolon =>
    advance
    return .emptyStatement (← spanFrom start)
  | .word .varKw => variableStatement g.toNested .varKind
  | .word .constKw => variableStatement g.toNested .constKind
  | .word .letKw =>
    if ← atLetDeclaration then variableStatement g.toNested .letKind
    else plainStatement g.toNested
  | .word .functionKw => functionDeclaration g.toNested false
  | .word .asyncKw =>
    if ← atAsyncFunction then functionDeclaration g.toNested true
    else plainStatement g.toNested
  | .word .classKw => return .classDeclaration (← classDefinition g true)
  | .word .ifKw => ifStatement g.toNested
  | .word .forKw => forStatement g.toNested
  | .word .whileKw => whileStatement g.toNested
  | .word .doKw => doStatement g.toNested
  | .word .returnKw => returnStatement g.toNested
  | .word .breakKw => reading breakStatement
  | .word .continueKw => reading continueStatement
  | .word .throwKw => throwStatement g.toNested
  | .word .tryKw => tryStatement g.toNested
  | .word .switchKw => switchStatement g.toNested
  | .word .withKw => withStatement g.toNested
  | .word .debuggerKw =>
    advance
    semicolon
    return .debugger (← spanFrom start)
  | _ => plainStatement g.toNested

/-- The constructs of a level, given those one level further in. -/
def Nested.around (g : Nested) : Nested :=
  let grammar := g.grammar
  { statement := deeper (Machine.statement grammar)
    expressionStatement := deeper (Machine.expressionStatement g)
    bindingTarget := deeper (Machine.bindingTarget g)
    assignment := deeper (assignmentExpression grammar)
    binary := fun min => deeper (binaryExpression grammar min)
    unary := deeper (unaryExpression grammar)
    newCallee := deeper (operandBase grammar) }

/-- The constructs with fuel for so many levels. -/
def Nested.ofFuel : Nat → Nested
  | 0 => exhausted
  | n + 1 => (ofFuel n).around

/-- The statements of a script. The fuel is one level more than may be entered. -/
def script : Machine (List Statement) :=
  (Nested.ofFuel (maxDepth + 1)).statementsUntil .endOfFile

end EcmaScript.Machine
