import EcmaScript.Syntax.Literal
import EcmaScript.Syntax.Operator

/-!
# Syntax trees

A program as a tree. The nodes are sorted by their syntactic form: statements, expressions,
and patterns, which are what can be declared or assigned to, with the forms that these are
made of. Every node has its span. Nodes that open a scope have room for its number, which
stays zero until the scopes are resolved.
-/

namespace EcmaScript

/-- The syntactic forms. -/
inductive Form where
  | expression | template | objectMember | propertyKey
  | pattern | patternProperty | element | rest
  | parameters | function | block | classDefinition | classElement
  | declarator | declaration | forInit | forHead | switchCase | catchClause | statement
deriving Repr, DecidableEq, Inhabited

/-- A node of a given form. -/
inductive Node : Form → Type where
  -- Expressions
  | reference (id : Identifier) : Node .expression
  /-- A private name on the left of `in`. -/
  | privateReference (name : PrivateName) : Node .expression
  | boolean (span : Span) (value : Bool) : Node .expression
  | null (span : Span) : Node .expression
  | number (literal : NumberLiteral) : Node .expression
  | bigInt (literal : BigIntLiteral) : Node .expression
  | string (literal : StringLiteral) : Node .expression
  | regex (literal : RegexLiteral) : Node .expression
  | template (literal : Node .template) : Node .expression
  | taggedTemplate (span : Span) (tag : Node .expression) (quasi : Node .template) :
      Node .expression
  /-- An array; its holes are absent elements. -/
  | array (span : Span) (elements : List (Option (Node .expression))) : Node .expression
  | object (span : Span) (members : List (Node .objectMember)) : Node .expression
  | functionExpression (definition : Node .function) : Node .expression
  /-- An arrow function with a block. -/
  | arrow (span : Span) (params : Node .parameters) (body : Node .block) (isAsync : Bool)
      (scope : ScopeId) : Node .expression
  /-- An arrow function with a single expression. -/
  | conciseArrow (span : Span) (params : Node .parameters) (body : Node .expression)
      (isAsync : Bool) (scope : ScopeId) : Node .expression
  | classExpression (definition : Node .classDefinition) : Node .expression
  | unary (span : Span) (operator : UnaryOperator) (argument : Node .expression) :
      Node .expression
  /-- An increment or decrement; `leading` when the operator comes first. -/
  | update (span : Span) (operator : UpdateOperator) (leading : Bool)
      (argument : Node .expression) : Node .expression
  | binary (span : Span) (operator : BinaryOperator) (left right : Node .expression) :
      Node .expression
  | assignment (span : Span) (operator : AssignmentOperator) (target : Node .pattern)
      (value : Node .expression) : Node .expression
  | conditional (span : Span) (test consequent alternate : Node .expression) :
      Node .expression
  | call (span : Span) (callee : Node .expression) (arguments : List (Node .expression))
      (optional : Bool) : Node .expression
  /-- A call with `new`. -/
  | construct (span : Span) (callee : Node .expression)
      (arguments : List (Node .expression)) : Node .expression
  | member (span : Span) (object : Node .expression) (property : MemberName)
      (optional : Bool) : Node .expression
  /-- A property whose name is computed. -/
  | index (span : Span) (object property : Node .expression) (optional : Bool) :
      Node .expression
  /-- The whole of a chain that has an optional link. -/
  | optionalChain (span : Span) (expression : Node .expression) : Node .expression
  | sequence (span : Span) (expressions : List (Node .expression)) : Node .expression
  | spread (span : Span) (argument : Node .expression) : Node .expression
  | yieldValue (span : Span) (argument : Option (Node .expression)) (delegate : Bool) :
      Node .expression
  | awaitValue (span : Span) (argument : Node .expression) : Node .expression
  | thisValue (span : Span) : Node .expression
  | superBase (span : Span) : Node .expression
  | metaProperty (span : Span) (holder property : Identifier) : Node .expression
  /-- A template with its substitutions. -/
  | templateLiteral (span : Span) (quasis : List TemplateElement)
      (expressions : List (Node .expression)) : Node .template
  -- Parts of object literals
  | property (span : Span) (key : Node .propertyKey) (value : Node .expression)
      (kind : PropertyKind) (method : Bool) : Node .objectMember
  /-- A name that is key and value at once. An initializer is only for an object literal that
  turns out to be a pattern. -/
  | shorthand (span : Span) (name : Identifier) (initializer : Option (Node .expression)) :
      Node .objectMember
  | spreadMember (span : Span) (argument : Node .expression) : Node .objectMember
  -- Keys of properties
  | identifierKey (id : Identifier) : Node .propertyKey
  | stringKey (literal : StringLiteral) : Node .propertyKey
  | numberKey (literal : NumberLiteral) : Node .propertyKey
  | bigIntKey (literal : BigIntLiteral) : Node .propertyKey
  | privateKey (name : PrivateName) : Node .propertyKey
  | computedKey (expression : Node .expression) : Node .propertyKey
  -- Patterns
  | binding (id : Identifier) : Node .pattern
  | arrayPattern (span : Span) (elements : List (Option (Node .element)))
      (rest : Option (Node .rest)) : Node .pattern
  | objectPattern (span : Span) (properties : List (Node .patternProperty))
      (rest : Option (Node .rest)) : Node .pattern
  /-- A property as target of an assignment. -/
  | memberTarget (expression : Node .expression) : Node .pattern
  | patternProperty (span : Span) (key : Node .propertyKey) (value : Node .element)
      (shorthand : Bool) : Node .patternProperty
  /-- A pattern with the value that it takes when there is none. -/
  | element (span : Span) (target : Node .pattern) (initializer : Option (Node .expression)) :
      Node .element
  /-- The pattern that takes all that is left. -/
  | rest (span : Span) (argument : Node .pattern) : Node .rest
  -- Functions
  | parameters (span : Span) (params : List (Node .element)) (rest : Option (Node .rest)) :
      Node .parameters
  /-- A function other than an arrow function. -/
  | function (span : Span) (name : Option Identifier) (params : Node .parameters)
      (body : Node .block) (isGenerator isAsync : Bool) (scope : ScopeId) : Node .function
  | block (span : Span) (body : List (Node .statement)) (scope : ScopeId) : Node .block
  -- Classes
  | classDefinition (span : Span) (name : Option Identifier)
      (superClass : Option (Node .expression)) (bodySpan : Span)
      (elements : List (Node .classElement)) (scope : ScopeId) : Node .classDefinition
  | method (span : Span) (key : Node .propertyKey) (kind : MethodKind) (isStatic : Bool)
      (value : Node .function) : Node .classElement
  | field (span : Span) (key : Node .propertyKey) (isStatic : Bool)
      (value : Option (Node .expression)) : Node .classElement
  | staticBlock (span : Span) (body : List (Node .statement)) (scope : ScopeId) :
      Node .classElement
  -- Declarations
  | declarator (span : Span) (target : Node .pattern) (init : Option (Node .expression)) :
      Node .declarator
  | declaration (span : Span) (kind : VariableKind) (declarators : List (Node .declarator)) :
      Node .declaration
  -- Heads of loops
  | noInit : Node .forInit
  | declarationInit (declaration : Node .declaration) : Node .forInit
  | expressionInit (expression : Node .expression) : Node .forInit
  | declarationHead (declaration : Node .declaration) : Node .forHead
  | patternHead (pattern : Node .pattern) : Node .forHead
  -- Statements and their clauses
  /-- A case of a switch; the default has no test. -/
  | switchCase (span : Span) (test : Option (Node .expression))
      (consequent : List (Node .statement)) : Node .switchCase
  | catchClause (span : Span) (param : Option (Node .pattern)) (body : Node .block)
      (scope : ScopeId) : Node .catchClause
  | blockStatement (block : Node .block) : Node .statement
  | emptyStatement (span : Span) : Node .statement
  | expressionStatement (span : Span) (expression : Node .expression) : Node .statement
  | ifThen (span : Span) (test : Node .expression) (consequent : Node .statement) :
      Node .statement
  | ifElse (span : Span) (test : Node .expression) (consequent alternate : Node .statement) :
      Node .statement
  | forLoop (span : Span) (init : Node .forInit) (test update : Option (Node .expression))
      (body : Node .statement) (scope : ScopeId) : Node .statement
  | forIn (span : Span) (left : Node .forHead) (right : Node .expression)
      (body : Node .statement) (scope : ScopeId) : Node .statement
  | forOf (span : Span) (isAwait : Bool) (left : Node .forHead) (right : Node .expression)
      (body : Node .statement) (scope : ScopeId) : Node .statement
  | whileLoop (span : Span) (test : Node .expression) (body : Node .statement) :
      Node .statement
  | doWhile (span : Span) (body : Node .statement) (test : Node .expression) :
      Node .statement
  | switch (span : Span) (discriminant : Node .expression) (cases : List (Node .switchCase))
      (scope : ScopeId) : Node .statement
  | tryCatch (span : Span) (block : Node .block) (handler : Node .catchClause)
      (finalizer : Option (Node .block)) : Node .statement
  | tryFinally (span : Span) (block finalizer : Node .block) : Node .statement
  | throwValue (span : Span) (argument : Node .expression) : Node .statement
  | returnValue (span : Span) (argument : Option (Node .expression)) : Node .statement
  | breakFrom (span : Span) (label : Option Identifier) : Node .statement
  | continueWith (span : Span) (label : Option Identifier) : Node .statement
  | labeled (span : Span) (label : Identifier) (body : Node .statement) : Node .statement
  | withObject (span : Span) (object : Node .expression) (body : Node .statement) :
      Node .statement
  | debugger (span : Span) : Node .statement
  | variableStatement (declaration : Node .declaration) : Node .statement
  | functionDeclaration (definition : Node .function) : Node .statement
  | classDeclaration (definition : Node .classDefinition) : Node .statement

/-- What has a value. -/
abbrev Expression := Node .expression

/-- What can be declared or assigned to. -/
abbrev Pattern := Node .pattern

/-- What is executed. -/
abbrev Statement := Node .statement

instance : Inhabited Expression := ⟨.null .unset⟩
instance : Inhabited Pattern := ⟨.memberTarget default⟩
instance : Inhabited Statement := ⟨.emptyStatement .unset⟩

/-- A whole script. -/
structure Program where
  /-- From the first statement to the last; unset when there is none. -/
  span : Span
  /-- The statements of the script. -/
  body : List Statement
deriving Inhabited

namespace Node

/-- Where a node stands. Parentheses around an expression and brackets around a computed key
do not count; what is absent has no place. -/
def span {form : Form} : Node form → Span
  | reference id | identifierKey id | binding id => id.span
  | privateReference name | privateKey name => name.span
  | number literal | numberKey literal => literal.span
  | bigInt literal | bigIntKey literal => literal.span
  | string literal | stringKey literal => literal.span
  | regex literal => literal.span
  | template literal => literal.span
  | functionExpression definition => definition.span
  | classExpression definition => definition.span
  | computedKey expression => expression.span
  | memberTarget expression => expression.span
  | noInit => .unset
  | declarationInit d => d.span
  | expressionInit expression => expression.span
  | declarationHead d => d.span
  | patternHead p => p.span
  | blockStatement b => b.span
  | variableStatement d => d.span
  | functionDeclaration definition => definition.span
  | classDeclaration definition => definition.span
  | boolean span _ | null span | taggedTemplate span .. | array span _ | object span _
  | arrow span .. | conciseArrow span .. | unary span .. | update span .. | binary span ..
  | assignment span .. | conditional span .. | call span .. | construct span ..
  | member span .. | index span .. | optionalChain span _ | sequence span _ | spread span _
  | yieldValue span .. | awaitValue span _ | thisValue span | superBase span
  | metaProperty span .. | templateLiteral span .. | property span .. | shorthand span ..
  | spreadMember span _ | arrayPattern span .. | objectPattern span ..
  | patternProperty span .. | element span .. | rest span _ | parameters span ..
  | function span .. | block span .. | classDefinition span .. | method span ..
  | field span .. | staticBlock span .. | declarator span .. | declaration span ..
  | switchCase span .. | catchClause span .. | emptyStatement span
  | expressionStatement span _ | ifThen span .. | ifElse span .. | forLoop span ..
  | forIn span .. | forOf span .. | whileLoop span .. | doWhile span .. | switch span ..
  | tryCatch span .. | tryFinally span .. | throwValue span _ | returnValue span _
  | breakFrom span _ | continueWith span _ | labeled span .. | withObject span ..
  | debugger span => span

/-- Whether an operator that assigns can have the expression as its operand. -/
def isSimpleTarget : Expression → Bool
  | reference _ | member .. | index .. => true
  | _ => false

/-- Whether the expression is a chain with an optional link. -/
def isOptionalChain : Expression → Bool
  | optionalChain .. => true
  | _ => false

/-- Whether the key is the value of an expression. -/
def isComputed : Node .propertyKey → Bool
  | computedKey _ => true
  | _ => false

/-- The name that the key is known to have. -/
def staticName? : Node .propertyKey → Option String
  | identifierKey id => some id.name
  | stringKey literal => some literal.value
  | _ => none

/-- The number of parameters, the rest parameter among them. -/
def parameterCount : Node .parameters → Nat
  | parameters _ params remainder => params.length + remainder.isSome.toNat

end Node

end EcmaScript
