import EcmaScript.Parser.Primary

/-!
# Operands

An operand is a primary expression with the properties, calls and templates behind it. An
arrow function that is not in parentheses is complete: nothing can be attached to it, and
no operator can follow.
-/

namespace EcmaScript.Parser

/-- Whether an expression is an arrow function that ends where the last token ended, so that
no parenthesis closes behind it. -/
def isCompleteArrow (expression : Expression) : Parser Bool := do
  match expression with
  | .arrow span .. | .conciseArrow span .. =>
    return Position.offset span.stop == (← get).consumed
  | _ => return false

/-- The name of a property behind a dot. -/
def memberName (ctx : Context) : Parser MemberName := do
  let t ← token
  if t.kind == .privateName then
    unless ctx.inClass do failHere (.privateOutsideClass t.value)
    return .hidden (← takePrivateName)
  else if t.kind.isIdentifierName then return .identifier (← takeIdentifier)
  else unexpected

/-- The name of a property in brackets. -/
def computedMember (g : Nested) (ctx : Context) : Parser Expression := do
  expect (.mark .openBracket)
  let property ← g.expression ctx.allowIn
  expect (.mark .closeBracket)
  return property

/-- The arguments of a call. -/
def arguments (g : Nested) (ctx : Context) : Parser (List Expression) := do
  expect (.mark .openParen)
  let items ← commaList (.mark .closeParen) (spreadable (g.value ctx.allowIn))
  expect (.mark .closeParen)
  return items

/-- What stands behind the mark of an optional link. -/
def optionalLink (g : Nested) (ctx : Context) (start : Nat) (object : Expression) :
    Parser Expression := do
  match ← kind with
  | .mark .openParen =>
    let items ← arguments g ctx
    return .call (← spanFrom start) object items true
  | .mark .openBracket =>
    let property ← computedMember g ctx
    return .index (← spanFrom start) object property true
  | .template | .templateHead => failHere .templateOnOptionalChain
  | _ =>
    let property ← memberName ctx
    return .member (← spanFrom start) object property true

/-- Whether a token attaches something to the operand before it. -/
def isSubscript : TokenKind → Bool
  | .template | .templateHead | .mark .dot | .mark .questionDot | .mark .openBracket
  | .mark .openParen => true
  | _ => false

/-- Attaches one property, call or template to an operand. The second part of the state
tells whether an optional link has been met. Behind `new`, the first parenthesis belongs to
`new` and there are no optional links. -/
def subscript (g : Nested) (ctx : Context) (start : Nat) (behindNew : Bool) :
    Expression × Bool → Parser (Round (Expression × Bool) (Expression × Bool)) :=
  fun (operand, chained) => do
    let k ← kind
    if isSubscript k then checkCoverInit
    match k with
    | .mark .dot =>
      advance
      let property ← memberName ctx
      return .next (.member (← spanFrom start) operand property false, chained)
    | .mark .questionDot =>
      if behindNew then failHere .optionalChainFromNew
      advance
      return .next (← optionalLink g ctx start operand, true)
    | .mark .openBracket =>
      let property ← computedMember g ctx
      return .next (.index (← spanFrom start) operand property false, chained)
    | .mark .openParen =>
      if behindNew then return .done (operand, chained)
      let items ← arguments g ctx
      return .next (.call (← spanFrom start) operand items false, chained)
    | .template | .templateHead =>
      if chained then failHere .templateOnOptionalChain
      let quasi ← templateLiteral g ctx true
      return .next (.taggedTemplate (← spanFrom start) operand quasi, chained)
    | _ => return .done (operand, chained)

/-- An operand with all that is attached to it. -/
def subscripts (g : Nested) (ctx : Context) (start : Nat) (behindNew : Bool)
    (operand : Expression) : Parser Expression := do
  let (expression, chained) ← iterate (subscript g ctx start behindNew) (operand, false)
  if chained then return .optionalChain (← spanFrom start) expression
  else return expression

/-- The word `super`, where it has a meaning. -/
def superBase (ctx : Context) : Parser Expression := do
  let start ← offset
  advance
  let allowed := match ← kind with
    | .mark .openParen => ctx.superCall
    | .mark .dot | .mark .openBracket => ctx.superProperty
    | _ => false
  unless allowed do fail start .superKeyword
  return .superBase (← spanFrom start)

/-- The meta property `new.target` from its dot on. -/
def newTarget (ctx : Context) (start : Nat) : Parser Expression := do
  let holder : Identifier := { span := ← spanFrom start, name := "new" }
  advance
  unless ← isAt (.word .targetKw) do unexpected
  unless ctx.inFunction do fail start .newTarget
  let property ← takeIdentifier
  return .metaProperty (← spanFrom start) holder property

/-- What starts with the word `new`. -/
def construct (g : Grammar) (ctx : Context) : Parser Expression := do
  let start ← offset
  advance
  if ← isAt (.mark .dot) then newTarget ctx start
  else
    let calleeStart ← offset
    let callee ← g.newCallee ctx
    let callee ← subscripts g.toNested ctx calleeStart true callee
    let items ← if ← isAt (.mark .openParen) then arguments g.toNested ctx else pure []
    return .construct (← spanFrom start) callee items

/-- An operand before anything is attached to it. -/
def operandBase (g : Grammar) (ctx : Context) : Parser Expression := do
  match ← kind with
  | .word .newKw => construct g ctx
  | .word .superKw => superBase ctx
  | _ => primary g ctx

/-- An operand. -/
def operand (g : Grammar) (ctx : Context) : Parser Expression := do
  let start ← offset
  let outer ← takeCoverInit
  let base ← operandBase g ctx
  let expression ←
    if ← isCompleteArrow base then pure base
    else subscripts g.toNested ctx start false base
  mergeCoverInit outer
  return expression

/-- The class that a class extends is an operand, which may be a class in turn. -/
def Nested.heritage (g : Nested) : Context → Parser Expression :=
  recursive fun heritage ctx => operand { g with heritage } ctx

/-- The parsers of a level, given those of the levels further in. -/
def Nested.grammar (g : Nested) : Grammar := { g with heritage := g.heritage }

end EcmaScript.Parser
