import EcmaScript.Scope.Declarations
import EcmaScript.Scope.Table
import EcmaScript.Syntax.Node

/-!
# Name resolution

Every name of a program that stands for a variable is given the number of the scope that
declares it, and every node that opens a scope the number of that scope. When a scope is
opened for statements, the names that they declare are declared at once, so that a name is
found also before its declaration. The shape of the tree does not change.

Labels and names of properties are in no scope, and private names are not resolved.
-/

namespace EcmaScript

/-- A computation that opens and closes scopes. -/
abbrev Resolution := StateM ScopeTable

namespace Resolution

/-- Declares names in the innermost scope. -/
def declareAll (declarations : List Declaration) : Resolution Unit :=
  modify fun table => declarations.foldl (fun table (id, kind) => table.declare id kind) table

/-- Declares names in one way. -/
def declareAs (kind : BindingKind) (ids : List Identifier) : Resolution Unit :=
  declareAll (ids.map (·, kind))

/-- A new scope around a computation, which is told its number. -/
def inScope {α : Type} (kind : ScopeKind) (inner : ScopeId → Resolution α) : Resolution α := do
  let id := (← get).nextId
  modify (·.push kind)
  let a ← inner id
  modify ScopeTable.pop
  return a

/-- A new scope around a loop, if the loop declares variables of its own. -/
def inLoopScope {α : Type} (declares : Bool) (scope : ScopeId)
    (inner : ScopeId → Resolution α) : Resolution α :=
  if declares then inScope .block inner else inner scope

/-- A name with the number of the scope that declares it. -/
def identifier (id : Identifier) : Resolution Identifier :=
  return { id with scope := (← get).lookup id.name }

/-- A name that may be missing. -/
def identifier? : Option Identifier → Resolution (Option Identifier)
  | none => return none
  | some id => return some (← identifier id)

end Resolution

namespace Node

open Resolution

mutual

/-- A node with its names resolved. A function or a class has its own name in its scope;
where it is declared, its name also belongs to the scope around. -/
def resolve {form : Form} : Node form → Resolution (Node form)
  | .reference id => return .reference (← identifier id)
  | .template t => return .template (← t.resolve)
  | .taggedTemplate span tag quasi =>
    return .taggedTemplate span (← tag.resolve) (← quasi.resolve)
  | .array span elements => return .array span (← resolveOptionals elements)
  | .object span members => return .object span (← resolveMembers members)
  | .functionExpression definition => return .functionExpression (← definition.resolve)
  | .arrow span params body isAsync _ => inScope .function fun scope => do
    let params ← params.resolve
    declareAll body.hoisted
    return .arrow span params (← body.resolve) isAsync scope
  | .conciseArrow span params body isAsync _ => inScope .function fun scope => do
    return .conciseArrow span (← params.resolve) (← body.resolve) isAsync scope
  | .classExpression definition => return .classExpression (← definition.resolve)
  | .unary span operator argument => return .unary span operator (← argument.resolve)
  | .update span operator leading argument =>
    return .update span operator leading (← argument.resolve)
  | .binary span operator left right =>
    return .binary span operator (← left.resolve) (← right.resolve)
  | .assignment span operator target value =>
    return .assignment span operator (← target.resolve) (← value.resolve)
  | .conditional span test consequent alternate =>
    return .conditional span (← test.resolve) (← consequent.resolve) (← alternate.resolve)
  | .call span callee arguments optional =>
    return .call span (← callee.resolve) (← resolveExpressions arguments) optional
  | .construct span callee arguments =>
    return .construct span (← callee.resolve) (← resolveExpressions arguments)
  | .member span base name optional => return .member span (← base.resolve) name optional
  | .index span base key optional =>
    return .index span (← base.resolve) (← key.resolve) optional
  | .optionalChain span expression => return .optionalChain span (← expression.resolve)
  | .sequence span expressions => return .sequence span (← resolveExpressions expressions)
  | .spread span argument => return .spread span (← argument.resolve)
  | .yieldValue span argument delegate =>
    return .yieldValue span (← resolveExpression? argument) delegate
  | .awaitValue span argument => return .awaitValue span (← argument.resolve)
  | .templateLiteral span quasis expressions =>
    return .templateLiteral span quasis (← resolveExpressions expressions)
  | .property span key value kind isMethod =>
    return .property span (← key.resolve) (← value.resolve) kind isMethod
  | .shorthand span name initializer =>
    return .shorthand span (← identifier name) (← resolveExpression? initializer)
  | .spreadMember span argument => return .spreadMember span (← argument.resolve)
  | .computedKey expression => return .computedKey (← expression.resolve)
  | .binding id => return .binding (← identifier id)
  | .arrayPattern span elements remainder =>
    return .arrayPattern span (← resolveOptionalElements elements) (← resolveRest? remainder)
  | .objectPattern span properties remainder =>
    return .objectPattern span (← resolveProperties properties) (← resolveRest? remainder)
  | .memberTarget expression => return .memberTarget (← expression.resolve)
  | .patternProperty span key value isShorthand =>
    return .patternProperty span (← key.resolve) (← value.resolve) isShorthand
  | .element span target initializer =>
    return .element span (← target.resolve) (← resolveExpression? initializer)
  | .rest span argument => return .rest span (← argument.resolve)
  | .parameters span params remainder => do
    declareAs .parameter (parameterNames params ++ restNames remainder)
    return .parameters span (← resolveElements params) (← resolveRest? remainder)
  | .function span name params body isGenerator isAsync _ => inScope .function fun scope => do
    declareAs .function name.toList
    let name ← identifier? name
    let params ← params.resolve
    declareAll body.hoisted
    return .function span name params (← body.resolve) isGenerator isAsync scope
  | .block span body _ => inScope .block fun scope => do
    declareAll (body.flatMap lexical)
    return .block span (← resolveStatements body) scope
  | .classDefinition span name superClass bodySpan elements _ =>
    inScope .classBody fun scope => do
      declareAs .classBinding name.toList
      let name ← identifier? name
      let superClass ← resolveExpression? superClass
      return .classDefinition span name superClass bodySpan (← resolveClassElements elements)
        scope
  | .method span key kind isStatic value =>
    return .method span (← key.resolve) kind isStatic (← value.resolve)
  | .field span key isStatic value =>
    return .field span (← key.resolve) isStatic (← resolveExpression? value)
  | .staticBlock span body _ => inScope .function fun scope => do
    declareAll (hoistedAll body)
    declareAll (body.flatMap lexical)
    return .staticBlock span (← resolveStatements body) scope
  | .declarator span target init =>
    return .declarator span (← target.resolve) (← resolveExpression? init)
  | .declaration span kind ds => return .declaration span kind (← resolveDeclarators kind ds)
  | .declarationInit d => return .declarationInit (← d.resolve)
  | .expressionInit expression => return .expressionInit (← expression.resolve)
  | .declarationHead d => return .declarationHead (← d.resolve)
  | .patternHead p => return .patternHead (← p.resolve)
  | .switchCase span test consequent =>
    return .switchCase span (← resolveExpression? test) (← resolveStatements consequent)
  | .catchClause span param body _ => inScope .catchClause fun scope => do
    declareAs .catchParameter ((param.map boundNames).getD [])
    return .catchClause span (← resolvePattern? param) (← body.resolve) scope
  | .blockStatement b => return .blockStatement (← b.resolve)
  | .expressionStatement span expression =>
    return .expressionStatement span (← expression.resolve)
  | .ifThen span test consequent => return .ifThen span (← test.resolve) (← consequent.resolve)
  | .ifElse span test consequent alternate =>
    return .ifElse span (← test.resolve) (← consequent.resolve) (← alternate.resolve)
  | .forLoop span init test step body scope =>
    inLoopScope init.declaresLexically scope fun scope => do
      let init ← init.resolve
      let test ← resolveExpression? test
      let step ← resolveExpression? step
      return .forLoop span init test step (← body.resolve) scope
  | .forIn span left right body scope =>
    inLoopScope left.declaresLexically scope fun scope => do
      return .forIn span (← left.resolve) (← right.resolve) (← body.resolve) scope
  | .forOf span isAwait left right body scope =>
    inLoopScope left.declaresLexically scope fun scope => do
      return .forOf span isAwait (← left.resolve) (← right.resolve) (← body.resolve) scope
  | .whileLoop span test body => return .whileLoop span (← test.resolve) (← body.resolve)
  | .doWhile span body test => return .doWhile span (← body.resolve) (← test.resolve)
  | .switch span discriminant cases _ => do
    let discriminant ← discriminant.resolve
    inScope .block fun scope => do
      declareAll (lexicalInCases cases)
      return .switch span discriminant (← resolveCases cases) scope
  | .tryCatch span body handler finalizer =>
    return .tryCatch span (← body.resolve) (← handler.resolve) (← resolveBlock? finalizer)
  | .tryFinally span body finalizer =>
    return .tryFinally span (← body.resolve) (← finalizer.resolve)
  | .throwValue span argument => return .throwValue span (← argument.resolve)
  | .returnValue span argument => return .returnValue span (← resolveExpression? argument)
  | .labeled span label body => return .labeled span label (← body.resolve)
  | .withObject span base body => return .withObject span (← base.resolve) (← body.resolve)
  | .variableStatement d => return .variableStatement (← d.resolve)
  | .functionDeclaration (.function span name params body isGenerator isAsync _) => do
    let name ← identifier? name
    inScope .function fun scope => do
      let params ← params.resolve
      declareAll body.hoisted
      return .functionDeclaration
        (.function span name params (← body.resolve) isGenerator isAsync scope)
  | .classDeclaration (.classDefinition span name superClass bodySpan elements _) => do
    declareAs .classBinding name.toList
    let resolved ← identifier? name
    inScope .classBody fun scope => do
      declareAs .classBinding name.toList
      let superClass ← resolveExpression? superClass
      return .classDeclaration (.classDefinition span resolved superClass bodySpan
        (← resolveClassElements elements) scope)
  | other => return other

/-- An expression that may be missing. -/
def resolveExpression? :
    Option (Node .expression) → Resolution (Option (Node .expression))
  | none => return none
  | some e => return some (← e.resolve)

/-- A pattern that may be missing. -/
def resolvePattern? : Option (Node .pattern) → Resolution (Option (Node .pattern))
  | none => return none
  | some p => return some (← p.resolve)

/-- A block that may be missing. -/
def resolveBlock? : Option (Node .block) → Resolution (Option (Node .block))
  | none => return none
  | some b => return some (← b.resolve)

/-- The rest of a pattern, if it has one. -/
def resolveRest? : Option (Node .rest) → Resolution (Option (Node .rest))
  | none => return none
  | some r => return some (← r.resolve)

/-- Expressions. -/
def resolveExpressions : List (Node .expression) → Resolution (List (Node .expression))
  | [] => return []
  | e :: more => return (← e.resolve) :: (← resolveExpressions more)

/-- The elements of an array. -/
def resolveOptionals :
    List (Option (Node .expression)) → Resolution (List (Option (Node .expression)))
  | [] => return []
  | e :: more => return (← resolveExpression? e) :: (← resolveOptionals more)

/-- The members of an object. -/
def resolveMembers : List (Node .objectMember) → Resolution (List (Node .objectMember))
  | [] => return []
  | m :: more => return (← m.resolve) :: (← resolveMembers more)

/-- The elements of an array pattern. -/
def resolveOptionalElements :
    List (Option (Node .element)) → Resolution (List (Option (Node .element)))
  | [] => return []
  | none :: more => return none :: (← resolveOptionalElements more)
  | some e :: more => return some (← e.resolve) :: (← resolveOptionalElements more)

/-- The properties of an object pattern. -/
def resolveProperties :
    List (Node .patternProperty) → Resolution (List (Node .patternProperty))
  | [] => return []
  | p :: more => return (← p.resolve) :: (← resolveProperties more)

/-- Parameters. -/
def resolveElements : List (Node .element) → Resolution (List (Node .element))
  | [] => return []
  | e :: more => return (← e.resolve) :: (← resolveElements more)

/-- Statements. -/
def resolveStatements : List (Node .statement) → Resolution (List (Node .statement))
  | [] => return []
  | s :: more => return (← s.resolve) :: (← resolveStatements more)

/-- The elements of a class. -/
def resolveClassElements :
    List (Node .classElement) → Resolution (List (Node .classElement))
  | [] => return []
  | e :: more => return (← e.resolve) :: (← resolveClassElements more)

/-- Declared patterns with their values; those that belong to the innermost scope are declared
one by one. -/
def resolveDeclarators (kind : VariableKind) :
    List (Node .declarator) → Resolution (List (Node .declarator))
  | [] => return []
  | d :: more => do
    if kind.isLexical then declareAs kind.bindingKind (declaratorNames [d])
    return (← d.resolve) :: (← resolveDeclarators kind more)

/-- The cases of a switch. -/
def resolveCases : List (Node .switchCase) → Resolution (List (Node .switchCase))
  | [] => return []
  | c :: more => return (← c.resolve) :: (← resolveCases more)

end

end Node

/-- A program with its names resolved. -/
def Program.resolve (program : Program) : Resolution Program :=
  Resolution.inScope .global fun _ => do
    Resolution.declareAll (Node.hoistedAll program.body)
    Resolution.declareAll (program.body.flatMap Node.lexical)
    return { program with body := ← Node.resolveStatements program.body }

/-- A program with its names resolved by themselves. -/
def Program.resolved (program : Program) : Program := (program.resolve.run {}).1

end EcmaScript
