import EcmaScript.Parser.Operand

/-!
# Expressions with operators

Unary operators, binary operators by their precedence, conditionals and assignments. The
left side of an assignment is read as an expression and turned into a pattern.
-/

namespace EcmaScript.Parser

/-- Ends parsing if the power operator comes next: the operand of a unary operator cannot be
its left operand without parentheses. -/
def rejectPower : Parser Unit := do
  if ← isAt (.mark .power) then failHere .unaryBeforePower

/-- An operand that may have an update operator behind it, on the same line. -/
def postfixExpression (g : Grammar) (ctx : Context) : Parser Expression := do
  let start ← offset
  let expression ← operand g ctx
  match UpdateOperator.ofKind? (← kind) with
  | none => return expression
  | some operator =>
    if (← afterLineBreak) || (← isCompleteArrow expression) then return expression
    unless expression.isSimpleTarget do fail start .postfixTarget
    advance
    return .update (← spanFrom start) operator false expression

/-- An update operator in front of its operand. -/
def prefixUpdate (g : Grammar) (ctx : Context) (operator : UpdateOperator) :
    Parser Expression := do
  let start ← offset
  advance
  let place ← offset
  let argument ← g.unary ctx
  unless argument.isSimpleTarget do fail place .prefixTarget
  return .update (← spanFrom start) operator true argument

/-- A unary operator with its operand. -/
def unaryOperation (g : Grammar) (ctx : Context) (operator : UnaryOperator) :
    Parser Expression := do
  let start ← offset
  advance
  let argument ← g.unary ctx
  rejectPower
  return .unary (← spanFrom start) operator argument

/-- An operand that is waited for. -/
def awaitOperation (g : Grammar) (ctx : Context) : Parser Expression := do
  if ctx.inParameters then failHere .awaitInParameters
  let start ← offset
  noteSuspension .awaitInParameters
  advance
  let argument ← g.unary ctx
  rejectPower
  return .awaitValue (← spanFrom start) argument

/-- An expression without binary operators. -/
def unaryExpression (g : Grammar) (ctx : Context) : Parser Expression := do
  let k ← kind
  match UnaryOperator.ofKind? k, UpdateOperator.ofKind? k with
  | some operator, _ => unaryOperation g ctx operator
  | none, some operator => prefixUpdate g ctx operator
  | none, none =>
    if k == .word .awaitKw && ctx.canAwait then awaitOperation g ctx
    else postfixExpression g ctx

/-- Whether an expression is a private name. -/
def isPrivateName : Expression → Bool
  | .privateReference _ => true
  | _ => false

/-- Whether an expression is made by `||` or `&&` and has no parenthesis before it, given
where the operand starts. -/
def isOpenLogical (start : Nat) : Expression → Bool
  | .binary span operator .. =>
    (operator == .or || operator == .and) && Position.offset span.start == start
  | _ => false

/-- Whether `??` and one of `||` and `&&` meet without parentheses. -/
def mixesCoalesce (operator : BinaryOperator) (min : Precedence) (start : Nat)
    (left : Expression) : Bool :=
  match operator with
  | .or | .and => min == BinaryOperator.coalesce.precedence
  | .coalesce => isOpenLogical start left
  | _ => false

/-- The binary operator that comes next, if it binds more tightly than `min`. -/
def binaryOperator? (ctx : Context) (min : Precedence) : Parser (Option BinaryOperator) := do
  let operator? := BinaryOperator.ofKind? (← kind)
  return operator?.filter fun operator =>
    !(operator == .isIn && ctx.noIn) && min < operator.precedence

/-- A binary operator with its right operand, given the left one. A private name can only be
the left operand of `in`. -/
def binaryOperation (g : Grammar) (ctx : Context) (min : Precedence) (start : Nat)
    (left : Expression) (operator : BinaryOperator) : Parser Expression := do
  if isPrivateName left && operator != .isIn then unexpected
  if mixesCoalesce operator min start left then unexpected
  advance
  let first ← token
  let right ← g.binary ctx operator.rightPrecedence
  if isPrivateName right then fail first.start.offset (.unexpectedToken first.text)
  return .binary (← spanFrom start) operator left right

/-- An expression with those binary operators that bind more tightly than `min`. -/
def binaryExpression (g : Grammar) (ctx : Context) (min : Precedence) : Parser Expression := do
  let start ← offset
  let left ← unaryExpression g ctx
  if ← isCompleteArrow left then return left
  iterate (fun left => do
    match ← binaryOperator? ctx min with
    | none => return .done left
    | some operator => return .next (← binaryOperation g ctx min start left operator)) left

/-- An expression without assignment. -/
def conditionalExpression (g : Grammar) (ctx : Context) : Parser Expression := do
  let start ← offset
  let test ← binaryExpression g ctx 0
  if !(← isAt (.mark .question)) || (← isCompleteArrow test) then return test
  advance
  let consequent ← g.value ctx.allowIn
  expect (.mark .colon)
  let alternate ← g.value ctx
  return .conditional (← spanFrom start) test consequent alternate

/-- Whether an expression can start with a token. -/
def startsExpression : TokenKind → Bool
  | .number | .bigInt | .string | .regex | .template | .templateHead | .privateName => true
  | .mark p => match p with
    | .openParen | .openBracket | .openBrace | .plus | .minus | .tilde | .bang | .plusPlus
    | .minusMinus | .slash | .slashAssign => true
    | _ => false
  | .word w => w.isContextual || match w with
    | .functionKw | .classKw | .newKw | .deleteKw | .typeofKw | .voidKw | .thisKw | .superKw
    | .trueKw | .falseKw | .nullKw => true
    | _ => false
  | .identifier => true
  | _ => false

/-- An operator that hands a value, or the values of another generator, out of the
function. -/
def yieldExpression (g : Grammar) (ctx : Context) : Parser Expression := do
  if ctx.inParameters then failHere .yieldInParameters
  let start ← offset
  noteSuspension .yieldInParameters
  advance
  if ← afterLineBreak then return .yieldValue (← spanFrom start) none false
  let delegate ← eat (.mark .times)
  let argument ←
    if delegate || startsExpression (← kind) then pure (some (← g.value ctx)) else pure none
  return .yieldValue (← spanFrom start) argument delegate

/-- The target of an assignment, read as an expression; `outer` is the unclaimed default from
before it. A plain assignment claims the defaults in its target. -/
def assignmentTarget (operator : AssignmentOperator) (outer : Option Nat)
    (left : Expression) : Parser Pattern := do
  if operator = .assign then
    setCoverInit outer
    orFail (Cover.toTarget (← get).notes .assignmentTarget left)
  else
    mergeCoverInit outer
    orFail (Cover.toSimpleTarget left)

/-- An expression without a comma. -/
def assignmentExpression (g : Grammar) (ctx : Context) : Parser Expression := do
  if (← isAt (.word .yieldKw)) && ctx.canYield then yieldExpression g ctx
  else
    let start ← offset
    let outer ← takeCoverInit
    let left ← conditionalExpression g ctx
    let complete ← isCompleteArrow left
    match (AssignmentOperator.ofKind? (← kind)).filter fun _ => !complete with
    | none =>
      mergeCoverInit outer
      return left
    | some operator =>
      let target ← assignmentTarget operator outer left
      advance
      let value ← g.value ctx
      return .assignment (← spanFrom start) operator target value

end EcmaScript.Parser
