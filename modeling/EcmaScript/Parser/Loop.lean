import EcmaScript.Parser.Statement

/-!
# Loops with `for`

The head of such a loop starts with a declaration or an expression, and only the word
behind it tells whether it initializes the loop or is given the values of the loop. So an
expression in that place may still become a pattern.
-/

namespace EcmaScript.Parser

/-- The loop over many values that the next word makes of a head. -/
def loopKind? : Parser (Option LoopKind) := do
  match ← kind with
  | .word .inKw => return some .forIn
  | .word .ofKw => return some .forOf
  | _ => return none

/-- Checks that a declaration can be given the values of a loop: it declares one pattern
without a value. An old exception is a plain variable in a loop over property names. -/
def checkHeadDeclaration (loop : LoopKind) (d : Node .declaration) : Parser Unit := do
  let .declaration span variableKind ds := d
  let place := Position.offset span.start
  match ds with
  | [.declarator _ target init] =>
    let exempt := match loop, variableKind, target with
      | .forIn, .varKind, .binding _ => true
      | _, _, _ => false
    if init.isSome && !exempt then fail place (.loopInitializer loop)
  | _ => fail place (.loopSingleBinding loop)

/-- A loop over many values, from the word behind its head on. -/
def loopOverValues (g : Nested) (ctx : Context) (start : Nat) (isAwait : Bool)
    (loop : LoopKind) (head : Node .forHead) : Parser Statement := do
  if isAwait && loop != .forOf then unexpected
  advance
  let right ← match loop with
    | .forOf => g.value ctx.allowIn
    | .forIn => g.expression ctx.allowIn
  expect (.mark .closeParen)
  let body ← loopBody g ctx
  match loop with
  | .forOf => return .forOf (← spanFrom start) isAwait head right body 0
  | .forIn => return .forIn (← spanFrom start) head right body 0

/-- An optional expression before a closing token. -/
def optionalExpression (g : Nested) (ctx : Context) (close : TokenKind) :
    Parser (Option Expression) := do
  if ← isAt close then return none else return some (← g.expression ctx.allowIn)

/-- A loop with a condition, from behind its initializer on. -/
def loopOnCondition (g : Nested) (ctx : Context) (start : Nat) (isAwait : Bool)
    (init : Node .forInit) : Parser Statement := do
  if isAwait then unexpected
  expect (.mark .semicolon)
  let test ← optionalExpression g ctx (.mark .semicolon)
  expect (.mark .semicolon)
  let update ← optionalExpression g ctx (.mark .closeParen)
  expect (.mark .closeParen)
  let body ← loopBody g ctx
  return .forLoop (← spanFrom start) init test update body 0

/-- A loop whose head starts with a declaration. -/
def declarationLoop (g : Nested) (ctx : Context) (start : Nat) (isAwait : Bool)
    (variableKind : VariableKind) : Parser Statement := do
  let declaration ← headDeclaration g ctx variableKind
  match ← loopKind? with
  | some loop =>
    checkHeadDeclaration loop declaration
    loopOverValues g ctx start isAwait loop (.declarationHead declaration)
  | none =>
    let .declaration _ _ ds := declaration
    ds.forM (checkInitializer variableKind)
    loopOnCondition g ctx start isAwait (.declarationInit declaration)

/-- A loop whose head starts with an expression. -/
def expressionLoop (g : Nested) (ctx : Context) (start : Nat) (isAwait : Bool) :
    Parser Statement := do
  let outer ← takeCoverInit
  let expression ← g.expressionOrCover ctx.disallowIn
  match ← loopKind? with
  | some loop =>
    setCoverInit outer
    let target ← orFail (Cover.toTarget (← get).notes (.loopTarget loop) expression)
    loopOverValues g ctx start isAwait loop (.patternHead target)
  | none =>
    checkCoverInit
    setCoverInit outer
    loopOnCondition g ctx start isAwait (.expressionInit expression)

/-- A loop with `for`. -/
def forStatement (g : Nested) (ctx : Context) : Parser Statement := do
  let start ← offset
  advance
  let isAwait := (← isAt (.word .awaitKw)) && ctx.canAwait
  if isAwait then advance
  expect (.mark .openParen)
  match ← declarationKind? with
  | some variableKind => declarationLoop g ctx start isAwait variableKind
  | none =>
    if ← isAt (.mark .semicolon) then loopOnCondition g ctx start isAwait .noInit
    else expressionLoop g ctx start isAwait

end EcmaScript.Parser
