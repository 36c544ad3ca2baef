import EcmaScript.Parser.Class

/-!
# Primary expressions

Literals, names, and everything that brings its own brackets. An arrow function is found
here too: its parameters are read as an expression in parentheses, and the arrow decides.
-/

namespace EcmaScript.Parser

/-- Whether an arrow comes next, on the same line. -/
def atArrow : Parser Bool := return (← isAt (.mark .arrow)) && !(← afterLineBreak)

/-- The current token as a piece of a template. Only a tagged template may hold escapes that
mean nothing. -/
def templateElement (tagged : Bool) : Parser TemplateElement := do
  let t ← token
  if t.flags.invalidEscape && !tagged then failHere .templateEscape
  let tail := t.kind == .template || t.kind == .templateTail
  let closing := if !tail then 2 else if t.flags.unterminated then 0 else 1
  let start := t.start.offset + 1
  return {
    span := .ofOffsets start (max (t.stop.offset - closing) start)
    raw := t.raw
    cooked := if t.flags.invalidEscape then none else some t.value
    tail }

/-- A template with its substitutions. -/
def templateLiteral (g : Nested) (ctx : Context) (tagged : Bool) :
    Parser (Node .template) := do
  let start ← offset
  let (quasis, expressions) ← iterate (fun (quasis, expressions) => do
    let element ← templateElement tagged
    advance
    if element.tail then return .done ((element :: quasis).reverse, expressions.reverse)
    else
      let expression ← g.expression ctx.allowIn
      unless ← isAt (.mark .closeBrace) do unexpected
      modify fun s => { s with lexer := s.lexer.rescanTemplate }
      return .next (element :: quasis, expression :: expressions)) ([], [])
  return .templateLiteral (← spanFrom start) quasis expressions

/-- An expression that may have three dots before it. -/
def spreadable (p : Parser Expression) : Parser Expression := do
  let start ← offset
  if ← eat (.mark .ellipsis) then
    let argument ← p
    return .spread (← spanFrom start) argument
  else p

/-- The elements of an array that starts at `array`, up to its closing bracket. A comma
behind a spread at the end is noted. -/
def arrayElements (g : Nested) (ctx : Context) (array : Nat) :
    Parser (List (Option Expression)) :=
  many do
    match ← kind with
    | .mark .closeBracket => return none
    | .mark .comma =>
      advance
      return some none
    | k =>
      let element ← spreadable (g.assignment ctx)
      if k == .mark .ellipsis && (← isAt (.mark .comma)) &&
          (← peek).kind == .mark .closeBracket then
        let comma ← offset
        modify fun s => { s with notes := s.notes.addSpreadComma array comma }
      unless ← isAt (.mark .closeBracket) do expect (.mark .comma)
      return some (some element)

/-- An array. -/
def arrayLiteral (g : Nested) (ctx : Context) : Parser Expression := do
  let start ← offset
  expect (.mark .openBracket)
  let elements ← arrayElements g ctx.allowIn start
  expect (.mark .closeBracket)
  return .array (← spanFrom start) elements

/-- What shows that the word before it is a member of an object. -/
def endsObjectName : TokenKind → Bool
  | .mark .openParen | .mark .comma | .mark .colon | .mark .closeBrace | .mark .assign
  | .endOfFile => true
  | _ => false

/-- A name that is key and value at once. A default behind it is left for a pattern to
claim. -/
def shorthandMember (g : Nested) (ctx : Context) (start : Nat) (name : Identifier) :
    Parser (Node .objectMember) := do
  if ← isAt (.mark .assign) then
    let place ← offset
    modify fun s => { s with coverInit := s.coverInit.or (some place) }
    advance
    let initializer ← g.value ctx
    return .shorthand (← spanFrom start) name (some initializer)
  else return .shorthand (← spanFrom start) name none

/-- A member of an object other than a spread. -/
def objectProperty (g : Nested) (ctx : Context) : Parser (Node .objectMember) := do
  let start ← offset
  let m ← modifiers endsObjectName
  let first ← token
  let key ← propertyKey g ctx false
  if ← isAt (.mark .openParen) then
    let definition ← methodFunction g ctx m.isAsync m.isGenerator m.accessor false
    return .property (← spanFrom start) key (.functionExpression definition) m.accessor
      (m.accessor == .init)
  else if m.requireMethod then unexpected
  else if ← eat (.mark .colon) then
    let value ← g.assignment ctx
    return .property (← spanFrom start) key value .init false
  else
    let name ← shorthandName ctx first.kind first.start.offset key
    shorthandMember g ctx start name

/-- A member of an object. -/
def objectMember (g : Nested) (ctx : Context) : Parser (Node .objectMember) := do
  let start ← offset
  if ← eat (.mark .ellipsis) then
    let argument ← g.assignment ctx
    return .spreadMember (← spanFrom start) argument
  else objectProperty g ctx

/-- An object. -/
def objectLiteral (g : Nested) (ctx : Context) : Parser Expression := do
  let start ← offset
  expect (.mark .openBrace)
  let members ← commaList (.mark .closeBrace) (objectMember g ctx.allowIn)
  expect (.mark .closeBrace)
  return .object (← spanFrom start) members

/-- Expressions in parentheses that may become parameters. -/
def coverParenthesized (g : Nested) (ctx : Context) : Parser Cover.Parenthesized := do
  let start ← offset
  expect (.mark .openParen)
  let (items, trailingComma) ← iterate (fun (items, trailingComma) => do
    if ← isAt (.mark .closeParen) then return .done (items.reverse, trailingComma)
    else
      let item ← spreadable (g.assignment ctx.allowIn)
      if ← isAt (.mark .closeParen) then return .done ((item :: items).reverse, trailingComma)
      else
        expect (.mark .comma)
        let trailing ← if ← isAt (.mark .closeParen) then pure (some (← offset)) else pure none
        return .next (item :: items, trailing)) ([], none)
  expect (.mark .closeParen)
  return { span := ← spanFrom start, items, trailingComma }

/-- Expressions in parentheses that may become parameters. If an arrow follows, there may be
no operator among them that suspends the function around. -/
def arrowCover (g : Nested) (ctx : Context) : Parser Cover.Parenthesized := do
  let outer := (← get).suspension
  modify fun s => { s with suspension := none }
  let cover ← coverParenthesized g ctx
  let inner := (← get).suspension
  modify fun s => { s with suspension := outer.or inner }
  if let some fault := inner then
    if ← atArrow then fail fault.offset fault.problem
  return cover

/-- An arrow function whose parameters were read as expressions. -/
def coverArrow (g : Nested) (ctx : Context) (start : Nat) (cover : Cover.Parenthesized)
    (isAsync : Bool) : Parser Expression := do
  let params ← orFail (cover.toParameters (← get).notes)
  arrowFunction g ctx start params isAsync

/-- The expression that parenthesized expressions are; a single one is noted. -/
def coverExpression (cover : Cover.Parenthesized) : Parser Expression := do
  let expression ← orFail cover.toExpression
  if cover.items.length == 1 then
    modify fun s => { s with notes := s.notes.addParenthesized expression.span }
  return expression

/-- An expression in parentheses, or an arrow function. -/
def parenthesizedOrArrow (g : Nested) (ctx : Context) : Parser Expression := do
  let start ← offset
  let outer ← takeCoverInit
  let cover ← arrowCover g ctx
  if ← atArrow then
    setCoverInit outer
    coverArrow g ctx start cover false
  else
    let expression ← coverExpression cover
    checkCoverInit
    setCoverInit outer
    return expression

/-- A call of a function named `async`, or an asynchronous arrow function. -/
def asyncCallOrArrow (g : Nested) (ctx : Context) : Parser Expression := do
  let start ← offset
  let callee ← takeIdentifier
  let outer ← takeCoverInit
  let cover ← arrowCover g ctx
  if ← atArrow then
    setCoverInit outer
    coverArrow g ctx start cover true
  else
    checkCoverInit
    setCoverInit outer
    return .call (← spanFrom start) (.reference callee) cover.items false

/-- A name, or an arrow function whose parameter it is. -/
def nameOrArrow (g : Nested) (ctx : Context) : Parser Expression := do
  let start ← offset
  let id ← identifier ctx
  if ← atArrow then arrowFunction g ctx start (singleParameter id) false
  else return .reference id

/-- What starts with the word `async`. The parameter behind it follows the rules of the
arrow function that it belongs to. -/
def asyncPrimary (g : Nested) (ctx : Context) : Parser Expression := do
  let start ← offset
  let next ← peek
  if next.afterLineBreak then nameOrArrow g ctx
  else if next.kind == .word .functionKw then
    advance
    return .functionExpression (← functionDefinition g ctx start true false)
  else if next.kind.isIdentifierLike then
    advance
    let id ← identifier { ctx with canAwait := true }
    unless ← atArrow do unexpected
    arrowFunction g ctx start (singleParameter id) true
  else if next.kind == .mark .openParen then asyncCallOrArrow g ctx
  else nameOrArrow g ctx

/-- A private name, which must have `in` behind it. -/
def privateNameIn (ctx : Context) : Parser Expression := do
  unless ctx.inClass do failHere (.privateOutsideClass (← token).value)
  if ctx.noIn || (← peek).kind != .word .inKw then unexpected
  return .privateReference (← takePrivateName)

/-- An expression that no operator divides. -/
def primary (g : Grammar) (ctx : Context) : Parser Expression := do
  let start ← offset
  match ← kind with
  | .word .thisKw =>
    advance
    return .thisValue (← spanFrom start)
  | .word .nullKw =>
    advance
    return .null (← spanFrom start)
  | .word .trueKw =>
    advance
    return .boolean (← spanFrom start) true
  | .word .falseKw =>
    advance
    return .boolean (← spanFrom start) false
  | .number => return .number (← takeNumber)
  | .bigInt => return .bigInt (← takeBigInt)
  | .string => return .string (← takeString)
  | .mark .slash | .mark .slashAssign =>
    modify fun s => { s with lexer := s.lexer.rescanSlash }
    return .regex (← takeRegex)
  | .regex => return .regex (← takeRegex)
  | .template | .templateHead => return .template (← templateLiteral g.toNested ctx false)
  | .mark .openParen => parenthesizedOrArrow g.toNested ctx
  | .mark .openBracket => arrayLiteral g.toNested ctx
  | .mark .openBrace => objectLiteral g.toNested ctx
  | .word .functionKw =>
    return .functionExpression (← functionDefinition g.toNested ctx start false false)
  | .word .classKw => return .classExpression (← classDefinition g ctx false)
  | .word .asyncKw => asyncPrimary g.toNested ctx
  | .privateName => privateNameIn ctx
  | k =>
    if k.isIdentifierLike || k == .escapedReservedWord then nameOrArrow g.toNested ctx
    else unexpected

end EcmaScript.Parser
