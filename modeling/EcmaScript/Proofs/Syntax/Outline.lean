import EcmaScript.Proofs.Lexer.Trace
import EcmaScript.Syntax.Cover

/-!
# Outlines of syntax trees

The outline of a tree keeps of every node its span and its parts, and forgets all else. A
node that only wraps another one has no outline of its own. Only a piece of a template may be
empty.
-/

namespace EcmaScript

/-- The spans of a node and of all that it consists of. -/
inductive Outline where
  /-- A node with its parts; `solid` when its span may not be empty. -/
  | mk (span : Span) (solid : Bool) (parts : List Outline)

namespace Outline

/-- The span of the node itself. -/
def span : Outline → Span
  | mk span _ _ => span

/-- A node without parts. -/
def leaf (span : Span) : List Outline := [mk span true []]

/-- A node with parts. -/
def node (span : Span) (parts : List Outline) : List Outline := [mk span true parts]

end Outline

open Outline

/-- The outline of a piece of a template, the only node that may be empty. -/
def TemplateElement.outline (element : TemplateElement) : List Outline :=
  [.mk element.span false []]

/-- The outline of a name. -/
def Identifier.outline (id : Identifier) : List Outline := leaf id.span

namespace Node

mutual

/-- The outline of a node; what is absent has none. -/
def outline {form : Form} : Node form → List Outline
  | .reference id | .binding id | .identifierKey id => leaf id.span
  | .privateReference name | .privateKey name => leaf name.span
  | .boolean span _ | .null span | .thisValue span | .superBase span | .emptyStatement span
  | .debugger span => leaf span
  | .number literal | .numberKey literal => leaf literal.span
  | .bigInt literal | .bigIntKey literal => leaf literal.span
  | .string literal | .stringKey literal => leaf literal.span
  | .regex literal => leaf literal.span
  | .template literal => literal.outline
  | .taggedTemplate span tag quasi => node span (tag.outline ++ quasi.outline)
  | .array span elements => node span (outlineOptionals elements)
  | .object span members => node span (outlineMembers members)
  | .functionExpression definition | .functionDeclaration definition => definition.outline
  | .arrow span params body _ _ => node span (params.outline ++ body.outline)
  | .conciseArrow span params body _ _ => node span (params.outline ++ body.outline)
  | .classExpression definition | .classDeclaration definition => definition.outline
  | .unary span _ argument => node span argument.outline
  | .update span _ _ argument => node span argument.outline
  | .binary span _ left right => node span (left.outline ++ right.outline)
  | .assignment span _ target value => node span (target.outline ++ value.outline)
  | .conditional span test consequent alternate =>
    node span (test.outline ++ (consequent.outline ++ alternate.outline))
  | .call span callee arguments _ => node span (callee.outline ++ outlineExpressions arguments)
  | .construct span callee arguments => node span (callee.outline ++ outlineExpressions arguments)
  | .member span base name _ => node span (base.outline ++ leaf name.span)
  | .index span base key _ => node span (base.outline ++ key.outline)
  | .optionalChain span expression => node span expression.outline
  | .sequence span expressions => node span (outlineExpressions expressions)
  | .spread span argument | .spreadMember span argument => node span argument.outline
  | .yieldValue span argument _ => node span (outlineExpression? argument)
  | .awaitValue span argument => node span argument.outline
  | .metaProperty span holder name => node span (holder.outline ++ name.outline)
  | .templateLiteral span quasis expressions =>
    node span (quasis.flatMap TemplateElement.outline ++ outlineExpressions expressions)
  | .property span key value _ _ => node span (key.outline ++ value.outline)
  | .shorthand span name initializer => node span (name.outline ++ outlineExpression? initializer)
  | .computedKey expression | .memberTarget expression | .expressionInit expression =>
    expression.outline
  | .arrayPattern span elements remainder =>
    node span (outlineOptionalElements elements ++ outlineRest? remainder)
  | .objectPattern span properties remainder =>
    node span (outlineProperties properties ++ outlineRest? remainder)
  | .patternProperty span key value _ => node span (key.outline ++ value.outline)
  | .element span target initializer => node span (target.outline ++ outlineExpression? initializer)
  | .rest span argument => node span argument.outline
  | .parameters span params remainder =>
    node span (outlineElements params ++ outlineRest? remainder)
  | .function span name params body _ _ _ =>
    node span (name.toList.flatMap Identifier.outline ++ (params.outline ++ body.outline))
  | .block span body _ => node span (outlineStatements body)
  | .classDefinition span name superClass bodySpan elements _ =>
    node span (name.toList.flatMap Identifier.outline ++
      (outlineExpression? superClass ++ node bodySpan (outlineClassElements elements)))
  | .method span key _ _ value => node span (key.outline ++ value.outline)
  | .field span key _ value => node span (key.outline ++ outlineExpression? value)
  | .staticBlock span body _ => node span (outlineStatements body)
  | .declarator span target init => node span (target.outline ++ outlineExpression? init)
  | .declaration span _ ds => node span (outlineDeclarators ds)
  | .noInit => []
  | .declarationInit d | .declarationHead d | .variableStatement d => d.outline
  | .patternHead p => p.outline
  | .switchCase span test consequent =>
    node span (outlineExpression? test ++ outlineStatements consequent)
  | .catchClause span param body _ => node span (outlinePattern? param ++ body.outline)
  | .blockStatement b => b.outline
  | .expressionStatement span expression => node span expression.outline
  | .ifThen span test consequent => node span (test.outline ++ consequent.outline)
  | .ifElse span test consequent alternate =>
    node span (test.outline ++ (consequent.outline ++ alternate.outline))
  | .forLoop span init test step body _ =>
    node span (init.outline ++
      (outlineExpression? test ++ (outlineExpression? step ++ body.outline)))
  | .forIn span left right body _ => node span (left.outline ++ (right.outline ++ body.outline))
  | .forOf span _ left right body _ => node span (left.outline ++ (right.outline ++ body.outline))
  | .whileLoop span test body => node span (test.outline ++ body.outline)
  | .doWhile span body test => node span (body.outline ++ test.outline)
  | .switch span discriminant cases _ => node span (discriminant.outline ++ outlineCases cases)
  | .tryCatch span body handler finalizer =>
    node span (body.outline ++ (handler.outline ++ outlineBlock? finalizer))
  | .tryFinally span body finalizer => node span (body.outline ++ finalizer.outline)
  | .throwValue span argument => node span argument.outline
  | .returnValue span argument => node span (outlineExpression? argument)
  | .breakFrom span label | .continueWith span label =>
    node span (label.toList.flatMap Identifier.outline)
  | .labeled span label body => node span (label.outline ++ body.outline)
  | .withObject span base body => node span (base.outline ++ body.outline)

/-- An expression that may be missing. -/
def outlineExpression? : Option (Node .expression) → List Outline
  | none => []
  | some e => e.outline

/-- A pattern that may be missing. -/
def outlinePattern? : Option (Node .pattern) → List Outline
  | none => []
  | some p => p.outline

/-- A block that may be missing. -/
def outlineBlock? : Option (Node .block) → List Outline
  | none => []
  | some b => b.outline

/-- The rest of a pattern, if it has one. -/
def outlineRest? : Option (Node .rest) → List Outline
  | none => []
  | some r => r.outline

/-- Expressions. -/
def outlineExpressions : List (Node .expression) → List Outline
  | [] => []
  | e :: more => e.outline ++ outlineExpressions more

/-- The elements of an array. -/
def outlineOptionals : List (Option (Node .expression)) → List Outline
  | [] => []
  | e :: more => outlineExpression? e ++ outlineOptionals more

/-- The members of an object. -/
def outlineMembers : List (Node .objectMember) → List Outline
  | [] => []
  | m :: more => m.outline ++ outlineMembers more

/-- The elements of an array pattern. -/
def outlineOptionalElements : List (Option (Node .element)) → List Outline
  | [] => []
  | none :: more => outlineOptionalElements more
  | some e :: more => e.outline ++ outlineOptionalElements more

/-- The properties of an object pattern. -/
def outlineProperties : List (Node .patternProperty) → List Outline
  | [] => []
  | p :: more => p.outline ++ outlineProperties more

/-- Parameters. -/
def outlineElements : List (Node .element) → List Outline
  | [] => []
  | e :: more => e.outline ++ outlineElements more

/-- Statements. -/
def outlineStatements : List (Node .statement) → List Outline
  | [] => []
  | s :: more => s.outline ++ outlineStatements more

/-- The elements of a class. -/
def outlineClassElements : List (Node .classElement) → List Outline
  | [] => []
  | e :: more => e.outline ++ outlineClassElements more

/-- Declared patterns with their values. -/
def outlineDeclarators : List (Node .declarator) → List Outline
  | [] => []
  | d :: more => d.outline ++ outlineDeclarators more

/-- The cases of a switch. -/
def outlineCases : List (Node .switchCase) → List Outline
  | [] => []
  | c :: more => c.outline ++ outlineCases more

end

end Node

/-- The outline of a script; an empty one has no place. -/
def Program.outline (program : Program) : Outline :=
  .mk program.span (!program.body.isEmpty) (Node.outlineStatements program.body)

end EcmaScript
