import EcmaScript.Parser.Declaration
import EcmaScript.Parser.Expression

/-!
# Statements

Every kind of statement but the loops with `for`. A jump must have a target, either a label
or a statement around it that it can jump out of or continue.
-/

namespace EcmaScript.Parser

/-- An expression in parentheses, as in the head of a statement. -/
def condition (g : Nested) (ctx : Context) : Parser Expression := do
  expect (.mark .openParen)
  let test ← g.expression ctx.allowIn
  expect (.mark .closeParen)
  return test

/-- A statement that is part of another. Declarations that belong to a block cannot be. -/
def substatement (g : Nested) (ctx : Context) : Parser Statement := do
  match ← kind with
  | .word .constKw | .word .classKw => unexpected
  | .word .letKw =>
    let next ← peek
    let declares := next.kind == .mark .openBracket ||
      (!next.afterLineBreak && (next.kind.isIdentifierLike || next.kind == .mark .openBrace))
    if declares then unexpected
    if next.kind == .mark .colon then g.statement ctx else g.expressionStatement ctx
  | _ => g.statement ctx

/-- The body of a loop. -/
def loopBody (g : Nested) (ctx : Context) : Parser Statement := substatement g ctx.loop

/-- A statement that is an expression. -/
def expressionStatement (g : Nested) (ctx : Context) : Parser Statement := do
  let start ← offset
  let expression ← g.expression ctx.allowIn
  semicolon
  return .expressionStatement (← spanFrom start) expression

/-- A statement with a condition, and perhaps an alternative. -/
def ifStatement (g : Nested) (ctx : Context) : Parser Statement := do
  let start ← offset
  advance
  let test ← condition g ctx
  let consequent ← substatement g ctx
  if ← eat (.word .elseKw) then
    let alternate ← substatement g ctx
    return .ifElse (← spanFrom start) test consequent alternate
  else return .ifThen (← spanFrom start) test consequent

/-- A loop with its condition first. -/
def whileStatement (g : Nested) (ctx : Context) : Parser Statement := do
  let start ← offset
  advance
  let test ← condition g ctx
  let body ← loopBody g ctx
  return .whileLoop (← spanFrom start) test body

/-- A loop with its condition last. The semicolon behind it is always implied. -/
def doStatement (g : Nested) (ctx : Context) : Parser Statement := do
  let start ← offset
  advance
  let body ← loopBody g ctx
  expect (.word .whileKw)
  let test ← condition g ctx
  optionalSemicolon
  return .doWhile (← spanFrom start) body test

/-- A return from a function. -/
def returnStatement (g : Nested) (ctx : Context) : Parser Statement := do
  let start ← offset
  unless ctx.canReturn do failHere .illegalReturn
  advance
  let argument ←
    if (← isAt (.mark .semicolon)) || (← atImpliedEnd) then pure none
    else pure (some (← g.expression ctx.allowIn))
  semicolon
  return .returnValue (← spanFrom start) argument

/-- The label of a jump, which stands on the same line. -/
def jumpLabel (ctx : Context) : Parser (Option Identifier) := do
  if (← afterLineBreak) || !(← kind).isIdentifierLike then return none
  else return some (← identifier ctx)

/-- A jump behind a labeled statement, a loop or a switch. -/
def breakStatement (ctx : Context) : Parser Statement := do
  let start ← offset
  advance
  let label ← jumpLabel ctx
  match label with
  | some id =>
    if (ctx.label? id.name).isNone then
      fail (Position.offset id.span.start) (.undefinedLabel id.name)
  | none => unless ctx.inBreakable do fail start .illegalBreak
  semicolon
  return .breakFrom (← spanFrom start) label

/-- A jump to the next round of a loop. -/
def continueStatement (ctx : Context) : Parser Statement := do
  let start ← offset
  advance
  let label ← jumpLabel ctx
  match label with
  | some id =>
    match ctx.label? id.name with
    | none => fail (Position.offset id.span.start) (.undefinedLabel id.name)
    | some target => unless target.isLoop do fail start .illegalContinue
  | none => unless ctx.inLoop do fail start .illegalContinue
  semicolon
  return .continueWith (← spanFrom start) label

/-- A statement that throws a value, which stands on the same line. -/
def throwStatement (g : Nested) (ctx : Context) : Parser Statement := do
  let start ← offset
  advance
  if ← afterLineBreak then fail start .newlineAfterThrow
  let argument ← g.expression ctx.allowIn
  semicolon
  return .throwValue (← spanFrom start) argument

/-- The clause that handles what was thrown, from the word `catch` on. -/
def catchClause (g : Nested) (ctx : Context) : Parser (Node .catchClause) := do
  let start ← offset
  advance
  let param ←
    if ← eat (.mark .openParen) then
      let target ← g.bindingTarget ctx
      expect (.mark .closeParen)
      pure (some target)
    else pure none
  let body ← g.block ctx
  return .catchClause (← spanFrom start) param body 0

/-- A block with a handler, a block that is always executed, or both. -/
def tryStatement (g : Nested) (ctx : Context) : Parser Statement := do
  let start ← offset
  advance
  let body ← g.block ctx
  let handler ←
    if ← isAt (.word .catchKw) then pure (some (← catchClause g ctx)) else pure none
  let finalizer ←
    if ← eat (.word .finallyKw) then pure (some (← g.block ctx)) else pure none
  match handler, finalizer with
  | some handler, _ => return .tryCatch (← spanFrom start) body handler finalizer
  | none, some finalizer => return .tryFinally (← spanFrom start) body finalizer
  | none, none => failHere .tryAlone

/-- The statements of a case, up to the next case or the end of the switch. -/
def caseBody (g : Nested) (ctx : Context) : Parser (List Statement) :=
  many do
    match ← kind with
    | .word .caseKw | .word .defaultKw | .mark .closeBrace => return none
    | .endOfFile => unexpected
    | _ => return some (← g.statement ctx)

/-- The test of a case; the default case has none, and there may be only one. -/
def caseTest (g : Nested) (ctx : Context) (seenDefault : Bool) :
    Parser (Option Expression) := do
  match ← kind with
  | .word .caseKw =>
    advance
    return some (← g.expression ctx.allowIn)
  | .word .defaultKw =>
    if seenDefault then failHere .secondDefault
    advance
    return none
  | _ => unexpected

/-- The cases of a switch up to its closing brace, which stays. -/
def switchCases (g : Nested) (ctx : Context) : Parser (List (Node .switchCase)) :=
  iterate (fun (found, seenDefault) => do
    if ← isAt (.mark .closeBrace) then return .done found.reverse
    let start ← offset
    let test ← caseTest g ctx seenDefault
    expect (.mark .colon)
    let body ← caseBody g ctx
    let case := .switchCase (← spanFrom start) test body
    return .next (case :: found, seenDefault || test.isNone)) ([], false)

/-- A choice between cases. -/
def switchStatement (g : Nested) (ctx : Context) : Parser Statement := do
  let start ← offset
  advance
  let discriminant ← condition g ctx
  expect (.mark .openBrace)
  let cases ← switchCases g { ctx with inBreakable := true }
  expect (.mark .closeBrace)
  return .switch (← spanFrom start) discriminant cases 0

/-- A statement in which the properties of an object are names. -/
def withStatement (g : Nested) (ctx : Context) : Parser Statement := do
  let start ← offset
  advance
  let object ← condition g ctx
  let body ← substatement g ctx
  return .withObject (← spanFrom start) object body

/-- Whether a loop starts with a token. -/
def startsLoop : TokenKind → Bool
  | .word .forKw | .word .whileKw | .word .doKw => true
  | _ => false

/-- A statement with a label, which no statement around it may have too. -/
def labeledStatement (g : Nested) (ctx : Context) : Parser Statement := do
  let start ← offset
  let id ← identifier ctx
  expect (.mark .colon)
  if (ctx.label? id.name).isSome then fail start (.duplicateLabel id.name)
  let first ← token
  let label : Label :=
    { name := id.name, isLoop := startsLoop first.kind, bodyStart := first.start.offset }
  let body ← substatement g (ctx.labeled start label)
  return .labeled (← spanFrom start) id body

/-- A declared function. -/
def functionDeclaration (g : Nested) (ctx : Context) (isAsync : Bool) : Parser Statement := do
  let start ← offset
  if isAsync then advance
  return .functionDeclaration (← functionDefinition g ctx start isAsync true)

/-- Whether the word `async`, which comes next, belongs to a function. -/
def atAsyncFunction : Parser Bool := do
  let next ← peek
  return next.kind == .word .functionKw && !next.afterLineBreak

end EcmaScript.Parser
