import EcmaScript.Diagnostic.Basic
import EcmaScript.Parser.Loop

/-!
# Parsing

The grammar from its statements down, the levels of its nesting, and the parser of whole
scripts. A script is accepted only if there is no fault at all in it, so a fault of the
lexer that parsing could go on after still refuses it.
-/

namespace EcmaScript

namespace Parser

/-- A statement that starts with a name or a word without a meaning of its own. -/
def plainStatement (g : Nested) (ctx : Context) : Parser Statement := do
  if (← kind).isIdentifierLike && (← peek).kind == .mark .colon then labeledStatement g ctx
  else expressionStatement g ctx

/-- A statement. -/
def statement (g : Grammar) (ctx : Context) : Parser Statement := do
  let start ← offset
  match ← kind with
  | .mark .openBrace => return .blockStatement (← g.block ctx)
  | .mark .semicolon =>
    advance
    return .emptyStatement (← spanFrom start)
  | .word .varKw => variableStatement g.toNested ctx .varKind
  | .word .constKw => variableStatement g.toNested ctx .constKind
  | .word .letKw =>
    if ← atLetDeclaration then variableStatement g.toNested ctx .letKind
    else plainStatement g.toNested ctx
  | .word .functionKw => functionDeclaration g.toNested ctx false
  | .word .asyncKw =>
    if ← atAsyncFunction then functionDeclaration g.toNested ctx true
    else plainStatement g.toNested ctx
  | .word .classKw => return .classDeclaration (← classDefinition g ctx true)
  | .word .ifKw => ifStatement g.toNested ctx
  | .word .forKw => forStatement g.toNested ctx
  | .word .whileKw => whileStatement g.toNested ctx
  | .word .doKw => doStatement g.toNested ctx
  | .word .returnKw => returnStatement g.toNested ctx
  | .word .breakKw => breakStatement ctx
  | .word .continueKw => continueStatement ctx
  | .word .throwKw => throwStatement g.toNested ctx
  | .word .tryKw => tryStatement g.toNested ctx
  | .word .switchKw => switchStatement g.toNested ctx
  | .word .withKw => withStatement g.toNested ctx
  | .word .debuggerKw =>
    advance
    semicolon
    return .debugger (← spanFrom start)
  | _ => plainStatement g.toNested ctx

/-- The parsers of a level, given those one level further in. -/
def Nested.around (g : Nested) : Nested :=
  let grammar := g.grammar
  { statement := Parser.statement grammar
    expressionStatement := Parser.expressionStatement g
    bindingTarget := Parser.bindingTarget g
    assignment := assignmentExpression grammar
    binary := binaryExpression grammar
    unary := unaryExpression grammar
    newCallee := operandBase grammar }

/-- The parsers of constructs that may be nested so many levels deep. -/
def Nested.ofDepth : Nat → Nested
  | 0 => tooDeep
  | n + 1 => (ofDepth n).around

/-- How many levels deep constructs may be nested. -/
def maxDepth : Nat := 100

/-- The statements of a script. -/
def script : Parser (List Statement) :=
  (Nested.ofDepth maxDepth).statementsUntil {} .endOfFile

end Parser

/-- A script from its statements; its span is that of all of them. -/
def Program.ofStatements (body : List Statement) : Program :=
  match body.head?, body.getLast? with
  | some first, some last => { span := first.span.through last.span, body }
  | _, _ => { span := .unset, body }

/-- The program that a text is, or all that is wrong with it. -/
def parseFaults (text : String) : Except (List Fault) Program :=
  match Parser.script (Parser.State.ofString text) with
  | .ok (body, last) =>
    if last.lexer.faults.isEmpty then .ok (.ofStatements body)
    else .error last.lexer.faults.toList
  | .error abort => .error abort.faults.toList

/-- The program that a text is, or what a user is told about it. -/
def parse (text : String) : Except Diagnostics Program :=
  (parseFaults text).mapError (·.map (Fault.diagnose text))

end EcmaScript
