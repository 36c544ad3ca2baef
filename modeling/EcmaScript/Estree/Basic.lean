import EcmaScript.Json.Basic
import EcmaScript.Syntax.Node

/-!
# Trees as JSON

The syntax tree in the common interchange format for it, ESTree. Each node is an object
that starts with its type and ends with its place in byte offsets. A scope number comes
before the place, if the scopes have been resolved.
-/

namespace EcmaScript

namespace Estree

/-- Both ends of a span in byte offsets. -/
def place (span : Span) : List (String × Json) :=
  [("start", .ofNat span.offsets.1), ("end", .ofNat span.offsets.2)]

/-- The number of a scope, unless it is zero. -/
def scopeField (scope : ScopeId) : List (String × Json) :=
  if scope = 0 then [] else [("scopeContext", .ofNat scope)]

/-- A node of a given type. -/
def record (type : String) (span : Span) (fields : List (String × Json)) : Json :=
  .object (("type", .string type) :: fields ++ place span)

/-- A node that opens a scope. -/
def scopedRecord (type : String) (span : Span) (scope : ScopeId)
    (fields : List (String × Json)) : Json :=
  record type span (fields ++ scopeField scope)

/-- A name. -/
def identifier (id : Identifier) : Json :=
  scopedRecord "Identifier" id.span id.scope [("name", .string id.name)]

/-- A name that may be missing. -/
def identifier? : Option Identifier → Json := Json.ofOption identifier

/-- A private name. -/
def privateName (name : PrivateName) : Json :=
  record "PrivateIdentifier" name.span [("name", .string name.name)]

/-- The value of a number: an integer if it is one of at most fifteen zeros, nothing if it is
not finite. -/
def numberValue (x : Double) : Json :=
  match x, x.toInt? with
  | _, some n => if n.natAbs ≤ 1000000000000000 then .integer n else .double x
  | .finite .., none => .double x
  | _, none => .null

/-- A literal with a given value and spelling. -/
def literal (span : Span) (value : Json) (raw : String)
    (fields : List (String × Json) := []) : Json :=
  record "Literal" span ([("value", value), ("raw", .string raw)] ++ fields)

/-- A number. -/
def number (n : NumberLiteral) : Json := literal n.span (numberValue n.value) n.raw

/-- A big integer. -/
def bigInt (n : BigIntLiteral) : Json :=
  literal n.span .null n.raw [("bigint", .string n.digits)]

/-- A string. -/
def string (s : StringLiteral) : Json := literal s.span (.string s.value) s.raw

/-- A regular expression. -/
def regex (r : RegexLiteral) : Json :=
  literal r.span .null s!"/{r.pattern}/{r.flags}"
    [("regex", .object [("pattern", .string r.pattern), ("flags", .string r.flags)])]

/-- A piece of a template. -/
def templateElement (e : TemplateElement) : Json :=
  record "TemplateElement" e.span
    [("value", .object [("raw", .string e.raw), ("cooked", Json.ofOption .string e.cooked)]),
      ("tail", .bool e.tail)]

/-- The name of a property behind a dot. -/
def memberName : MemberName → Json
  | .identifier id => identifier id
  | .hidden name => privateName name

/-- A function, from its parameters and its body. -/
def function (type : String) (span : Span) (name : Option Identifier) (params body : Json)
    (isGenerator isAsync : Bool) (scope : ScopeId) : Json :=
  scopedRecord type span scope [("id", identifier? name), ("params", params), ("body", body),
    ("generator", .bool isGenerator), ("async", .bool isAsync)]

/-- An arrow function, from its parameters and its body. -/
def arrow (span : Span) (params body : Json) (concise isAsync : Bool) (scope : ScopeId) : Json :=
  scopedRecord "ArrowFunctionExpression" span scope
    [("id", .null), ("params", params), ("body", body), ("expression", .bool concise),
      ("generator", .bool false), ("async", .bool isAsync)]

/-- A class, from its heritage and its elements. -/
def classRecord (type : String) (span : Span) (name : Option Identifier) (superClass : Json)
    (bodySpan : Span) (elements : List Json) (scope : ScopeId) : Json :=
  scopedRecord type span scope [("id", identifier? name), ("superClass", superClass),
    ("body", record "ClassBody" bodySpan [("body", .array elements)])]

/-- A property of an object literal or an object pattern. -/
def property (span : Span) (key value : Json) (kind : PropertyKind)
    (computed method shorthand : Bool) : Json :=
  record "Property" span [("key", key), ("value", value), ("kind", .string kind.text),
    ("computed", .bool computed), ("method", .bool method), ("shorthand", .bool shorthand)]

/-- A pattern with its default, if it has one. -/
def withDefault (span : Span) (target : Json) : Option Json → Json
  | none => target
  | some value => record "AssignmentPattern" span [("left", target), ("right", value)]

/-- A property of an object as an operand. -/
def member (span : Span) (object property : Json) (computed optional : Bool) : Json :=
  record "MemberExpression" span [("object", object), ("property", property),
    ("computed", .bool computed), ("optional", .bool optional)]

/-- The last value of a list, if there is one. -/
def snoc? (items : List Json) : Option Json → List Json
  | none => items
  | some last => items ++ [last]

end Estree

namespace Node

open Estree

mutual

/-- A node as JSON. Parts without a type of their own, as keys and parameters, are the JSON
that their place calls for. -/
def toJson {form : Form} : Node form → Json
  | .reference id => identifier id
  | .privateReference name => privateName name
  | .boolean span value => literal span (.bool value) (if value then "true" else "false")
  | .null span => literal span .null "null"
  | .number n => Estree.number n
  | .bigInt n => Estree.bigInt n
  | .string s => Estree.string s
  | .regex r => Estree.regex r
  | .template t => t.toJson
  | .taggedTemplate span tag quasi =>
    record "TaggedTemplateExpression" span [("tag", tag.toJson), ("quasi", quasi.toJson)]
  | .array span elements =>
    record "ArrayExpression" span [("elements", .array (optionalExpressions elements))]
  | .object span members =>
    record "ObjectExpression" span [("properties", .array (objectMembers members))]
  | .functionExpression definition => definition.toJson
  | .arrow span params body isAsync scope =>
    Estree.arrow span params.toJson body.toJson false isAsync scope
  | .conciseArrow span params body isAsync scope =>
    Estree.arrow span params.toJson body.toJson true isAsync scope
  | .classExpression definition => definition.toJson
  | .unary span operator argument =>
    record "UnaryExpression" span [("operator", .string operator.text), ("prefix", .bool true),
      ("argument", argument.toJson)]
  | .update span operator leading argument =>
    record "UpdateExpression" span [("operator", .string operator.text),
      ("prefix", .bool leading), ("argument", argument.toJson)]
  | .binary span operator left right =>
    record (if operator.isLogical then "LogicalExpression" else "BinaryExpression") span
      [("operator", .string operator.text), ("left", left.toJson), ("right", right.toJson)]
  | .assignment span operator target value =>
    record "AssignmentExpression" span
      [("operator", .string operator.text), ("left", target.toJson), ("right", value.toJson)]
  | .conditional span test consequent alternate =>
    record "ConditionalExpression" span [("test", test.toJson),
      ("consequent", consequent.toJson), ("alternate", alternate.toJson)]
  | .call span callee arguments optional =>
    record "CallExpression" span [("callee", callee.toJson),
      ("arguments", .array (expressions arguments)), ("optional", .bool optional)]
  | .construct span callee arguments =>
    record "NewExpression" span [("callee", callee.toJson),
      ("arguments", .array (expressions arguments))]
  | .member span base name optional =>
    Estree.member span base.toJson (memberName name) false optional
  | .index span base key optional =>
    Estree.member span base.toJson key.toJson true optional
  | .optionalChain span expression =>
    record "ChainExpression" span [("expression", expression.toJson)]
  | .sequence span items =>
    record "SequenceExpression" span [("expressions", .array (expressions items))]
  | .spread span argument => record "SpreadElement" span [("argument", argument.toJson)]
  | .yieldValue span argument delegate =>
    record "YieldExpression" span
      [("argument", expression? argument), ("delegate", .bool delegate)]
  | .awaitValue span argument => record "AwaitExpression" span [("argument", argument.toJson)]
  | .thisValue span => record "ThisExpression" span []
  | .superBase span => record "Super" span []
  | .metaProperty span holder name =>
    record "MetaProperty" span [("meta", identifier holder), ("property", identifier name)]
  | .templateLiteral span quasis items =>
    record "TemplateLiteral" span [("quasis", .array (quasis.map templateElement)),
      ("expressions", .array (expressions items))]
  | .property span key value kind isMethod =>
    Estree.property span key.toJson value.toJson kind key.isComputed isMethod false
  | .shorthand span name initializer =>
    Estree.property span (identifier name)
      (match initializer with
      | none => identifier name
      | some value => withDefault span (identifier name) (some value.toJson))
      .init false false true
  | .spreadMember span argument => record "SpreadElement" span [("argument", argument.toJson)]
  | .identifierKey id => identifier id
  | .stringKey s => Estree.string s
  | .numberKey n => Estree.number n
  | .bigIntKey n => Estree.bigInt n
  | .privateKey name => privateName name
  | .computedKey expression => expression.toJson
  | .binding id => identifier id
  | .arrayPattern span elements remainder =>
    record "ArrayPattern" span
      [("elements", .array (snoc? (optionalElements elements) (rest? remainder)))]
  | .objectPattern span properties remainder =>
    record "ObjectPattern" span
      [("properties", .array (snoc? (patternProperties properties) (rest? remainder)))]
  | .memberTarget expression => expression.toJson
  | .patternProperty span key value isShorthand =>
    Estree.property span key.toJson value.toJson .init key.isComputed false isShorthand
  | .element span target initializer =>
    withDefault span target.toJson (match initializer with
      | none => none
      | some value => some value.toJson)
  | .rest span argument => record "RestElement" span [("argument", argument.toJson)]
  | .parameters _ params remainder => .array (snoc? (elements params) (rest? remainder))
  | .function span name params body isGenerator isAsync scope =>
    Estree.function "FunctionExpression" span name params.toJson body.toJson isGenerator isAsync
      scope
  | .block span body scope =>
    scopedRecord "BlockStatement" span scope [("body", .array (statements body))]
  | .classDefinition span name superClass bodySpan elements scope =>
    classRecord "ClassExpression" span name (expression? superClass) bodySpan
      (classElements elements) scope
  | .method span key kind isStatic value =>
    record "MethodDefinition" span [("key", key.toJson), ("value", value.toJson),
      ("kind", .string kind.text), ("computed", .bool key.isComputed),
      ("static", .bool isStatic)]
  | .field span key isStatic value =>
    record "PropertyDefinition" span [("key", key.toJson), ("value", expression? value),
      ("computed", .bool key.isComputed), ("static", .bool isStatic)]
  | .staticBlock span body scope =>
    scopedRecord "StaticBlock" span scope [("body", .array (statements body))]
  | .declarator span target init =>
    record "VariableDeclarator" span [("id", target.toJson), ("init", expression? init)]
  | .declaration span kind items =>
    record "VariableDeclaration" span [("declarations", .array (declarators items)),
      ("kind", .string kind.text)]
  | .noInit => .null
  | .declarationInit d => d.toJson
  | .expressionInit expression => expression.toJson
  | .declarationHead d => d.toJson
  | .patternHead p => p.toJson
  | .switchCase span test consequent =>
    record "SwitchCase" span [("test", expression? test),
      ("consequent", .array (statements consequent))]
  | .catchClause span param body scope =>
    scopedRecord "CatchClause" span scope
      [("param", pattern? param), ("body", body.toJson)]
  | .blockStatement b => b.toJson
  | .emptyStatement span => record "EmptyStatement" span []
  | .expressionStatement span expression =>
    record "ExpressionStatement" span [("expression", expression.toJson)]
  | .ifThen span test consequent =>
    record "IfStatement" span [("test", test.toJson), ("consequent", consequent.toJson),
      ("alternate", .null)]
  | .ifElse span test consequent alternate =>
    record "IfStatement" span [("test", test.toJson), ("consequent", consequent.toJson),
      ("alternate", alternate.toJson)]
  | .forLoop span init test step body scope =>
    scopedRecord "ForStatement" span scope [("init", init.toJson), ("test", expression? test),
      ("update", expression? step), ("body", body.toJson)]
  | .forIn span left right body scope =>
    scopedRecord "ForInStatement" span scope
      [("left", left.toJson), ("right", right.toJson), ("body", body.toJson)]
  | .forOf span isAwait left right body scope =>
    scopedRecord "ForOfStatement" span scope
      [("left", left.toJson), ("right", right.toJson), ("body", body.toJson),
        ("await", .bool isAwait)]
  | .whileLoop span test body =>
    record "WhileStatement" span [("test", test.toJson), ("body", body.toJson)]
  | .doWhile span body test =>
    record "DoWhileStatement" span [("body", body.toJson), ("test", test.toJson)]
  | .switch span discriminant cases scope =>
    scopedRecord "SwitchStatement" span scope
      [("discriminant", discriminant.toJson), ("cases", .array (switchCases cases))]
  | .tryCatch span body handler finalizer =>
    record "TryStatement" span [("block", body.toJson), ("handler", handler.toJson),
      ("finalizer", block? finalizer)]
  | .tryFinally span body finalizer =>
    record "TryStatement" span [("block", body.toJson), ("handler", .null),
      ("finalizer", finalizer.toJson)]
  | .throwValue span argument => record "ThrowStatement" span [("argument", argument.toJson)]
  | .returnValue span argument =>
    record "ReturnStatement" span [("argument", expression? argument)]
  | .breakFrom span label => record "BreakStatement" span [("label", identifier? label)]
  | .continueWith span label => record "ContinueStatement" span [("label", identifier? label)]
  | .labeled span label body =>
    record "LabeledStatement" span [("label", identifier label), ("body", body.toJson)]
  | .withObject span base body =>
    record "WithStatement" span [("object", base.toJson), ("body", body.toJson)]
  | .debugger span => record "DebuggerStatement" span []
  | .variableStatement d => d.toJson
  | .functionDeclaration (.function span name params body isGenerator isAsync scope) =>
    Estree.function "FunctionDeclaration" span name params.toJson body.toJson isGenerator isAsync
      scope
  | .classDeclaration (.classDefinition span name superClass bodySpan elements scope) =>
    classRecord "ClassDeclaration" span name (expression? superClass) bodySpan
      (classElements elements) scope

/-- An expression that may be missing. -/
def expression? : Option (Node .expression) → Json
  | none => .null
  | some e => e.toJson

/-- A pattern that may be missing. -/
def pattern? : Option (Node .pattern) → Json
  | none => .null
  | some p => p.toJson

/-- A block that may be missing. -/
def block? : Option (Node .block) → Json
  | none => .null
  | some b => b.toJson

/-- The rest of a pattern, if it has one. -/
def rest? : Option (Node .rest) → Option Json
  | none => none
  | some r => some r.toJson

/-- Expressions. -/
def expressions : List (Node .expression) → List Json
  | [] => []
  | e :: more => e.toJson :: expressions more

/-- The elements of an array. -/
def optionalExpressions : List (Option (Node .expression)) → List Json
  | [] => []
  | e :: more => expression? e :: optionalExpressions more

/-- The members of an object. -/
def objectMembers : List (Node .objectMember) → List Json
  | [] => []
  | m :: more => m.toJson :: objectMembers more

/-- The elements of an array pattern. -/
def optionalElements : List (Option (Node .element)) → List Json
  | [] => []
  | none :: more => .null :: optionalElements more
  | some e :: more => e.toJson :: optionalElements more

/-- The properties of an object pattern. -/
def patternProperties : List (Node .patternProperty) → List Json
  | [] => []
  | p :: more => p.toJson :: patternProperties more

/-- Parameters. -/
def elements : List (Node .element) → List Json
  | [] => []
  | e :: more => e.toJson :: elements more

/-- Statements. -/
def statements : List (Node .statement) → List Json
  | [] => []
  | s :: more => s.toJson :: statements more

/-- The elements of a class. -/
def classElements : List (Node .classElement) → List Json
  | [] => []
  | e :: more => e.toJson :: classElements more

/-- Declared patterns with their values. -/
def declarators : List (Node .declarator) → List Json
  | [] => []
  | d :: more => d.toJson :: declarators more

/-- The cases of a switch. -/
def switchCases : List (Node .switchCase) → List Json
  | [] => []
  | c :: more => c.toJson :: switchCases more

end

end Node

/-- A script as JSON; an empty one has no place. -/
def Program.toJson (program : Program) : Json :=
  .object ([("type", .string "Program"), ("body", .array (Node.statements program.body)),
    ("sourceType", .string "script")] ++
      if program.body.isEmpty then [] else Estree.place program.span)

end EcmaScript
