import EcmaScript.Scope.Basic
import EcmaScript.Syntax.BoundNames

/-!
# Declarations of a statement list

Which names statements declare, without resolving anything. Names declared by `var` and
names of functions belong to the function around, however deep in blocks they stand; names
declared by `let`, `const` and `class` belong to the list of statements that they stand in.
-/

namespace EcmaScript

/-- A declared name with the way it is declared. -/
abbrev Declaration := Identifier × BindingKind

/-- How a word declares variables. -/
def VariableKind.bindingKind : VariableKind → BindingKind
  | varKind => .varBinding
  | letKind => .letBinding
  | constKind => .constBinding

namespace Node

/-- The names of declarators. -/
def declaratorNames : List (Node .declarator) → List Identifier
  | [] => []
  | .declarator _ target _ :: more => target.boundNames ++ declaratorNames more

mutual

/-- The names that a statement, or a part of one, declares for the function around. -/
def hoisted {form : Form} : Node form → List Declaration
  | .declaration _ kind ds =>
    if kind.isLexical then [] else (declaratorNames ds).map (·, .varBinding)
  | .variableStatement d => d.hoisted
  | .functionDeclaration (.function _ (some name) ..) => [(name, .function)]
  | .block _ body _ => hoistedAll body
  | .blockStatement b => b.hoisted
  | .ifThen _ _ consequent => consequent.hoisted
  | .ifElse _ _ consequent alternate => consequent.hoisted ++ alternate.hoisted
  | .declarationInit d => d.hoisted
  | .declarationHead d => d.hoisted
  | .forLoop _ init _ _ body _ => init.hoisted ++ body.hoisted
  | .forIn _ left _ body _ => left.hoisted ++ body.hoisted
  | .forOf _ _ left _ body _ => left.hoisted ++ body.hoisted
  | .whileLoop _ _ body => body.hoisted
  | .doWhile _ body _ => body.hoisted
  | .switch _ _ cases _ => hoistedCases cases
  | .switchCase _ _ consequent => hoistedAll consequent
  | .tryCatch _ body handler none => body.hoisted ++ handler.hoisted
  | .tryCatch _ body handler (some finalizer) =>
    body.hoisted ++ handler.hoisted ++ finalizer.hoisted
  | .tryFinally _ body finalizer => body.hoisted ++ finalizer.hoisted
  | .catchClause _ _ body _ => body.hoisted
  | .labeled _ _ body => body.hoisted
  | .withObject _ _ body => body.hoisted
  | _ => []

/-- The names that statements declare for the function around. -/
def hoistedAll : List (Node .statement) → List Declaration
  | [] => []
  | s :: more => s.hoisted ++ hoistedAll more

/-- The names that the cases of a switch declare for the function around. -/
def hoistedCases : List (Node .switchCase) → List Declaration
  | [] => []
  | c :: more => c.hoisted ++ hoistedCases more

end

/-- The names that a statement declares for the list that it stands in. -/
def lexical : Statement → List Declaration
  | .variableStatement (.declaration _ kind ds) =>
    if kind.isLexical then (declaratorNames ds).map (·, kind.bindingKind) else []
  | .classDeclaration (.classDefinition _ (some name) ..) => [(name, .classBinding)]
  | _ => []

/-- The names that the cases of a switch declare for all of them. -/
def lexicalInCases (cases : List (Node .switchCase)) : List Declaration :=
  cases.flatMap fun | .switchCase _ _ consequent => consequent.flatMap lexical

/-- The statements of a block. -/
def statementsOf : Node .block → List Statement
  | .block _ body _ => body

/-- Whether a loop declares variables of its own. -/
def declaresLexically {form : Form} : Node form → Bool
  | .declarationInit (.declaration _ kind _) => kind.isLexical
  | .declarationHead (.declaration _ kind _) => kind.isLexical
  | _ => false

end Node

end EcmaScript
