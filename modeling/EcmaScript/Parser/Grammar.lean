import EcmaScript.Parser.Context
import EcmaScript.Parser.State

/-!
# Nesting of constructs

The grammar refers to itself. Wherever it does, a construct stands inside another, and the
depth of this nesting is limited. So the parser of a construct is not defined by calling
itself: it is given the parsers of the constructs one level further in.

One recursion is not counted as nesting, that of class expressions in the heritage of
classes. It is bounded by the text, since two words are taken each time.
-/

namespace EcmaScript.Parser

/-- The parsers of constructs one level further in. -/
structure Nested where
  /-- A statement. -/
  statement : Context → Parser Statement
  /-- A statement that is an expression, whatever word it starts with. -/
  expressionStatement : Context → Parser Statement
  /-- A name, or a pattern of names, in a declaration. -/
  bindingTarget : Context → Parser Pattern
  /-- An expression without a comma, in which a default of an object literal may be left for
  a pattern to claim. -/
  assignment : Context → Parser Expression
  /-- An operand of a binary operator, with the operators that bind more tightly than a
  given precedence. -/
  binary : Context → Precedence → Parser Expression
  /-- An operand of a unary operator. -/
  unary : Context → Parser Expression
  /-- What stands behind `new`, up to its properties. -/
  newCallee : Context → Parser Expression

/-- The parsers that a construct is made of. -/
structure Grammar extends Nested where
  /-- The class that a class extends. -/
  heritage : Context → Parser Expression

/-- Beyond the last level nothing can be parsed. -/
def Nested.tooDeep : Nested where
  statement _ := failHere .nestingTooDeep
  expressionStatement _ := failHere .nestingTooDeep
  bindingTarget _ := failHere .nestingTooDeep
  assignment _ := failHere .nestingTooDeep
  binary _ _ := failHere .nestingTooDeep
  unary _ := failHere .nestingTooDeep
  newCallee _ := failHere .nestingTooDeep

/-- Ends parsing if a default of an object literal is still unclaimed. -/
def checkCoverInit : Parser Unit := do
  match (← get).coverInit with
  | some place => fail place .shorthandInitializer
  | none => return

/-- Takes away the unclaimed default and gives it. -/
def takeCoverInit : Parser (Option Nat) :=
  modifyGet fun s => (s.coverInit, { s with coverInit := none })

/-- Puts back an unclaimed default, and forgets those met since. -/
def setCoverInit (outer : Option Nat) : Parser Unit :=
  modify fun s => { s with coverInit := outer }

/-- Puts back an unclaimed default; if there was none, the one met since stays. -/
def mergeCoverInit (outer : Option Nat) : Parser Unit :=
  modify fun s => { s with coverInit := outer.or s.coverInit }

/-- An expression that no pattern can claim, so that no default may be left in it. -/
def closed {α : Type} (p : Parser α) : Parser α := do
  let outer ← takeCoverInit
  let a ← p
  checkCoverInit
  setCoverInit outer
  return a

/-- The body of a function, whose suspensions are its own. -/
def ownSuspensions {α : Type} (p : Parser α) : Parser α := do
  let outer := (← get).suspension
  modify fun s => { s with suspension := none }
  let a ← p
  modify fun s => { s with suspension := outer }
  return a

/-- Notes an operator that suspends the function, as the fault that it is in parameters. -/
def noteSuspension (problem : Problem) : Parser Unit :=
  modify fun s =>
    { s with suspension := s.suspension.or (some ⟨problem, s.lexer.token.start.offset⟩) }

namespace Nested

/-- An expression without a comma. -/
def value (g : Nested) (ctx : Context) : Parser Expression := closed (g.assignment ctx)

/-- An expression in which a default of an object literal may be left for a pattern. -/
def expressionOrCover (g : Nested) (ctx : Context) : Parser Expression := do
  let start ← offset
  let first ← g.assignment ctx
  if ← isAt (.mark .comma) then
    let more ← many do
      if ← eat (.mark .comma) then return some (← g.assignment ctx) else return none
    return .sequence (← spanFrom start) (first :: more)
  else return first

/-- An expression. -/
def expression (g : Nested) (ctx : Context) : Parser Expression :=
  closed (g.expressionOrCover ctx)

/-- Statements up to a closing token, which stays. -/
def statementsUntil (g : Nested) (ctx : Context) (close : TokenKind) :
    Parser (List Statement) :=
  many do
    if ← isAt close then return none
    if ← isAt .endOfFile then unexpected
    return some (← g.statement ctx)

/-- Statements in braces. -/
def block (g : Nested) (ctx : Context) : Parser (Node .block) := do
  let start ← offset
  expect (.mark .openBrace)
  let body ← g.statementsUntil ctx (.mark .closeBrace)
  expect (.mark .closeBrace)
  return .block (← spanFrom start) body 0

end Nested

/-- Checks that a word can be a name here: the words for operators that suspend a function
cannot where they are operators. -/
def checkName (ctx : Context) (k : TokenKind) (place : Nat) : Parser Unit := do
  let reserved := match k with
    | .word .yieldKw => ctx.canYield
    | .word .awaitKw => ctx.canAwait
    | _ => false
  if reserved then fail place .unexpectedReservedWord

/-- A name. -/
def identifier (ctx : Context) : Parser Identifier := do
  let t ← token
  if t.kind == .escapedReservedWord then failHere .escapedKeyword
  unless t.kind.isIdentifierLike do unexpected
  checkName ctx t.kind t.start.offset
  takeIdentifier

end EcmaScript.Parser
