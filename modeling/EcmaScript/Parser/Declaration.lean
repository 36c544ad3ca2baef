import EcmaScript.Parser.Grammar
import EcmaScript.Parser.Binding
import EcmaScript.Syntax.BoundNames

/-!
# Variable declarations

The declarations made by `var`, `let` and `const`, in statements and in the heads of loops.
The word `let` declares only if what follows can be declared; otherwise it is a name.
-/

namespace EcmaScript.Parser

/-- Whether the word `let`, which comes next, starts a declaration. -/
def atLetDeclaration : Parser Bool := do
  let next := (← peek).kind
  return next.isIdentifierLike || next == .mark .openBracket || next == .mark .openBrace

/-- The kind of the declaration that comes next, if one comes. -/
def declarationKind? : Parser (Option VariableKind) := do
  match ← kind with
  | .word .varKw => return some .varKind
  | .word .constKw => return some .constKind
  | .word .letKw => if ← atLetDeclaration then return some .letKind else return none
  | _ => return none

/-- Checks that a declared pattern, or a constant, has a value. -/
def checkInitializer (variableKind : VariableKind) (d : Node .declarator) : Parser Unit := do
  let .declarator span target init := d
  if init.isNone then
    match target with
    | .binding _ =>
      if variableKind == .constKind then
        fail (Position.offset span.start) .constWithoutInitializer
    | _ => fail (Position.offset span.start) .destructuringWithoutInitializer

/-- A declared pattern with its value. -/
def declarator (g : Nested) (ctx : Context) (variableKind : VariableKind) :
    Parser (Node .declarator) := do
  let start ← offset
  let target ← g.bindingTarget ctx
  if variableKind.isLexical then
    if let some id := target.boundNames.find? (·.name == "let") then
      fail (Position.offset id.span.start) .letAsBoundName
  let init ← optionalInitializer g ctx
  return .declarator (← spanFrom start) target init

/-- Declarations from the word that declares on; `check` looks at each of them. -/
def declarators (g : Nested) (ctx : Context) (variableKind : VariableKind)
    (check : Node .declarator → Parser Unit) : Parser (List (Node .declarator)) := do
  let checked : Parser (Node .declarator) := do
    let d ← declarator g ctx variableKind
    check d
    return d
  advance
  let first ← checked
  let more ← many do
    if ← eat (.mark .comma) then return some (← checked) else return none
  return first :: more

/-- Declarations as a statement. -/
def variableStatement (g : Nested) (ctx : Context) (variableKind : VariableKind) :
    Parser Statement := do
  let start ← offset
  let ds ← declarators g ctx.allowIn variableKind (checkInitializer variableKind)
  semicolon
  return .variableStatement (.declaration (← spanFrom start) variableKind ds)

/-- Declarations in the head of a loop. Whether their values may be missing is known only
later. -/
def headDeclaration (g : Nested) (ctx : Context) (variableKind : VariableKind) :
    Parser (Node .declaration) := do
  let start ← offset
  let ds ← declarators g ctx.disallowIn variableKind fun _ => pure ()
  return .declaration (← spanFrom start) variableKind ds

end EcmaScript.Parser
