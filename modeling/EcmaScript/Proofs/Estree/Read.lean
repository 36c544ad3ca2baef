import EcmaScript.Estree.Basic
import EcmaScript.Number.Numeral

/-!
# Reading trees back from JSON

What a record of ESTree says about the node that it was made of. The place of a node, its
operator, its flags and its names stand in the record; several kinds of nodes share a type, and
are told apart by the fields beside it. A value that is no record of a node is read as some
node.

A list of nodes is written node by node, and what is missing is written as `null`.
-/

namespace EcmaScript

namespace Json

/-- The value that an object has under a key, if it has one. -/
def field? (key : String) : Json → Option Json
  | object members => members.lookup key
  | _ => none

/-- The value that an object has under a key; nothing if it has none. -/
def get (key : String) (json : Json) : Json := (json.field? key).getD null

/-- The text of a string. -/
def text : Json → String
  | string s => s
  | _ => ""

/-- The natural number that an integer is. -/
def nat : Json → Nat
  | integer n => n.toNat
  | _ => 0

/-- The truth value. -/
def flag : Json → Bool
  | bool b => b
  | _ => false

/-- The items of an array. -/
def items : Json → List Json
  | array xs => xs
  | _ => []

/-- Whether there is nothing. -/
def isNull : Json → Bool
  | null => true
  | _ => false

/-- The value that was encoded, unless it is missing. -/
def option {α : Type} (decode : Json → α) (json : Json) : Option α :=
  if json.isNull then none else some (decode json)

end Json

/-- A type of finitely many values that are told apart by how they are spelled. -/
class Spelled (α : Type) where
  /-- All values. -/
  all : List α
  /-- How a value is spelled. -/
  text : α → String
  /-- No value is left out. -/
  mem_all (x : α) : x ∈ all
  /-- No two values are spelled alike. -/
  nodup_text : (all.map text).Nodup

/-- The value that is spelled by a text. -/
def ofText (α : Type) [Spelled α] [Inhabited α] (s : String) : α :=
  ((Spelled.all (α := α)).find? fun a => Spelled.text a == s).getD default

/-- Among values that are spelled differently each is found by its spelling. -/
theorem find?_spelled {α : Type} {text : α → String} {all : List α} {x : α}
    (h : (all.map text).Nodup) (hx : x ∈ all) : (all.find? fun a => text a == text x) = some x := by
  induction all with
  | nil => cases hx
  | cons a all ih =>
    rw [List.map_cons, List.nodup_cons] at h
    rcases List.mem_cons.mp hx with rfl | hx
    · exact List.find?_cons_of_pos (beq_self_eq_true (text x))
    · have hne : text a ≠ text x := fun he => h.1 (he ▸ List.mem_map_of_mem hx)
      rw [List.find?_cons_of_neg (by simpa using hne)]
      exact ih h.2 hx

/-- A value is read back from its spelling. -/
theorem ofText_text {α : Type} [Spelled α] [Inhabited α] (x : α) :
    ofText α (Spelled.text x) = x := by
  rw [ofText, find?_spelled Spelled.nodup_text (Spelled.mem_all x)]
  rfl

instance : Spelled UnaryOperator where
  all := [.plus, .minus, .bitNot, .not, .delete, .typeof, .void]
  text := UnaryOperator.text
  mem_all operator := by cases operator <;> decide
  nodup_text := by decide

instance : Spelled UpdateOperator where
  all := [.increment, .decrement]
  text := UpdateOperator.text
  mem_all operator := by cases operator <;> decide
  nodup_text := by decide

instance : Spelled BinaryOperator where
  all :=
    [.coalesce, .or, .and, .bitOr, .bitXor, .bitAnd, .equal, .notEqual, .strictEqual,
      .strictNotEqual, .less, .greater, .lessEqual, .greaterEqual, .instanceOf, .isIn, .shiftLeft,
      .shiftRight, .shiftRightZero, .add, .subtract, .multiply, .divide, .remainder, .power]
  text := BinaryOperator.text
  mem_all operator := by cases operator <;> decide
  nodup_text := by decide +kernel

instance : Spelled AssignmentOperator where
  all := .assign :: (Spelled.all (α := BinaryOperator)).map .compound
  text := AssignmentOperator.text
  mem_all
    | .assign => List.mem_cons_self
    | .compound operator => List.mem_cons_of_mem _ (List.mem_map_of_mem (Spelled.mem_all operator))
  nodup_text := by decide +kernel

instance : Spelled VariableKind where
  all := [.varKind, .letKind, .constKind]
  text := VariableKind.text
  mem_all kind := by cases kind <;> decide
  nodup_text := by decide

instance : Spelled MethodKind where
  all := [.constructor, .method, .getter, .setter]
  text := MethodKind.text
  mem_all kind := by cases kind <;> decide
  nodup_text := by decide

instance : Spelled PropertyKind where
  all := [.init, .getter, .setter]
  text := PropertyKind.text
  mem_all kind := by cases kind <;> decide
  nodup_text := by decide

namespace Estree

/-- The type of a record. -/
def typeOf (json : Json) : String := (json.get "type").text

/-- Where a record stands. -/
def spanOf (json : Json) : Span := .ofOffsets (json.get "start").nat (json.get "end").nat

/-- The number of the scope of a record. -/
def scopeOf (json : Json) : ScopeId := (json.get "scopeContext").nat

/-- The spelling of a literal. -/
def rawOf (json : Json) : String := (json.get "raw").text

/-- A name. -/
def identifierOf (json : Json) : Identifier :=
  ⟨spanOf json, (json.get "name").text, scopeOf json⟩

/-- A private name. -/
def privateNameOf (json : Json) : PrivateName := ⟨spanOf json, (json.get "name").text⟩

/-- The name of a property behind a dot. -/
def memberNameOf (json : Json) : MemberName :=
  if typeOf json = "Identifier" then .identifier (identifierOf json)
  else .hidden (privateNameOf json)

/-- A number, whose value is that of its spelling. -/
def numberOf (json : Json) : NumberLiteral :=
  ⟨spanOf json, Numeral.value (rawOf json), rawOf json⟩

/-- A big integer. -/
def bigIntOf (json : Json) : BigIntLiteral := ⟨spanOf json, rawOf json⟩

/-- A string. -/
def stringOf (json : Json) : StringLiteral :=
  ⟨spanOf json, (json.get "value").text, rawOf json⟩

/-- A regular expression. -/
def regexOf (json : Json) : RegexLiteral :=
  ⟨spanOf json, ((json.get "regex").get "pattern").text, ((json.get "regex").get "flags").text⟩

/-- A piece of a template. -/
def templateElementOf (json : Json) : TemplateElement :=
  ⟨spanOf json, ((json.get "value").get "raw").text,
    ((json.get "value").get "cooked").option Json.text, (json.get "tail").flag⟩

/-- What kind of literal the record of one stands for. Only big integers and regular
expressions have a field of their own, and the raw text of no number is that of `null`. -/
def literalOf (json : Json) : Expression :=
  if !(json.get "regex").isNull then .regex (regexOf json)
  else if !(json.get "bigint").isNull then .bigInt (bigIntOf json)
  else match json.get "value" with
  | .bool value => .boolean (spanOf json) value
  | .string _ => .string (stringOf json)
  | _ => if rawOf json = "null" then .null (spanOf json) else .number (numberOf json)

/-- What kind of literal a key is. -/
def literalKeyOf (json : Json) : Node .propertyKey :=
  if !(json.get "bigint").isNull then .bigIntKey (bigIntOf json)
  else match json.get "value" with
  | .string _ => .stringKey (stringOf json)
  | _ => .numberKey (numberOf json)

/-- The items of a list before the rest, and the rest, if the last one is that. -/
def splitRest (items : List Json) : List Json × Option Json :=
  match items.getLast? with
  | some last => if typeOf last = "RestElement" then (items.dropLast, some last) else (items, none)
  | none => ([], none)

/-- How nodes of each form are read. -/
abbrev Reader := (form : Form) → Json → Node form

section

variable (read : Reader) (json : Json)

/-- The nodes in a field. -/
def nodesOf (form : Form) (key : String) : List (Node form) :=
  (json.get key).items.map (read form)

/-- The nodes in a field, with holes. -/
def optionalNodesOf (form : Form) (key : String) : List (Option (Node form)) :=
  (json.get key).items.map (Json.option (read form))

/-- The node in a field, if there is one. -/
def nodeOf? (form : Form) (key : String) : Option (Node form) :=
  (json.get key).option (read form)

/-- An expression. -/
def expressionOf : Expression :=
  match typeOf json with
  | "Identifier" => .reference (identifierOf json)
  | "PrivateIdentifier" => .privateReference (privateNameOf json)
  | "Literal" => literalOf json
  | "TemplateLiteral" => .template (read .template json)
  | "TaggedTemplateExpression" =>
    .taggedTemplate (spanOf json) (read .expression (json.get "tag"))
      (read .template (json.get "quasi"))
  | "ArrayExpression" => .array (spanOf json) (optionalNodesOf read json .expression "elements")
  | "ObjectExpression" => .object (spanOf json) (nodesOf read json .objectMember "properties")
  | "FunctionExpression" => .functionExpression (read .function json)
  | "ArrowFunctionExpression" =>
    if (json.get "expression").flag then
      .conciseArrow (spanOf json) (read .parameters (json.get "params"))
        (read .expression (json.get "body")) (json.get "async").flag (scopeOf json)
    else
      .arrow (spanOf json) (read .parameters (json.get "params")) (read .block (json.get "body"))
        (json.get "async").flag (scopeOf json)
  | "ClassExpression" => .classExpression (read .classDefinition json)
  | "UnaryExpression" =>
    .unary (spanOf json) (ofText UnaryOperator (json.get "operator").text)
      (read .expression (json.get "argument"))
  | "UpdateExpression" =>
    .update (spanOf json)
      (ofText UpdateOperator (json.get "operator").text)
      (json.get "prefix").flag (read .expression (json.get "argument"))
  | "BinaryExpression" | "LogicalExpression" =>
    .binary (spanOf json)
      (ofText BinaryOperator (json.get "operator").text)
      (read .expression (json.get "left")) (read .expression (json.get "right"))
  | "AssignmentExpression" =>
    .assignment (spanOf json)
      (ofText AssignmentOperator (json.get "operator").text)
      (read .pattern (json.get "left")) (read .expression (json.get "right"))
  | "ConditionalExpression" =>
    .conditional (spanOf json) (read .expression (json.get "test"))
      (read .expression (json.get "consequent")) (read .expression (json.get "alternate"))
  | "CallExpression" =>
    .call (spanOf json) (read .expression (json.get "callee"))
      (nodesOf read json .expression "arguments") (json.get "optional").flag
  | "NewExpression" =>
    .construct (spanOf json) (read .expression (json.get "callee"))
      (nodesOf read json .expression "arguments")
  | "MemberExpression" =>
    if (json.get "computed").flag then
      .index (spanOf json) (read .expression (json.get "object"))
        (read .expression (json.get "property")) (json.get "optional").flag
    else
      .member (spanOf json) (read .expression (json.get "object"))
        (memberNameOf (json.get "property")) (json.get "optional").flag
  | "ChainExpression" => .optionalChain (spanOf json) (read .expression (json.get "expression"))
  | "SequenceExpression" => .sequence (spanOf json) (nodesOf read json .expression "expressions")
  | "SpreadElement" => .spread (spanOf json) (read .expression (json.get "argument"))
  | "YieldExpression" =>
    .yieldValue (spanOf json) (nodeOf? read json .expression "argument")
      (json.get "delegate").flag
  | "AwaitExpression" => .awaitValue (spanOf json) (read .expression (json.get "argument"))
  | "ThisExpression" => .thisValue (spanOf json)
  | "Super" => .superBase (spanOf json)
  | "MetaProperty" =>
    .metaProperty (spanOf json) (identifierOf (json.get "meta"))
      (identifierOf (json.get "property"))
  | _ => default

/-- A template. -/
def templateOf : Node .template :=
  .templateLiteral (spanOf json) ((json.get "quasis").items.map templateElementOf)
    (nodesOf read json .expression "expressions")

/-- A key; one in brackets is an expression. -/
def keyOf (computed : Bool) : Node .propertyKey :=
  if computed then .computedKey (read .expression json)
  else match typeOf json with
  | "Identifier" => .identifierKey (identifierOf json)
  | "PrivateIdentifier" => .privateKey (privateNameOf json)
  | _ => literalKeyOf json

/-- The key of a property. -/
def keyIn : Node .propertyKey := keyOf read (json.get "key") (json.get "computed").flag

/-- The default behind a name in a pattern. -/
def defaultOf? : Option Expression :=
  if typeOf json = "AssignmentPattern" then some (read .expression (json.get "right")) else none

/-- A part of an object literal. -/
def objectMemberOf : Node .objectMember :=
  match typeOf json with
  | "SpreadElement" => .spreadMember (spanOf json) (read .expression (json.get "argument"))
  | _ =>
    if (json.get "shorthand").flag then
      .shorthand (spanOf json) (identifierOf (json.get "key")) (defaultOf? read (json.get "value"))
    else
      .property (spanOf json) (keyIn read json) (read .expression (json.get "value"))
        (ofText PropertyKind (json.get "kind").text)
        (json.get "method").flag

/-- A pattern; whatever is no name, array or object is a property. -/
def patternOf : Pattern :=
  match typeOf json with
  | "Identifier" => .binding (identifierOf json)
  | "ArrayPattern" =>
    .arrayPattern (spanOf json)
      ((splitRest (json.get "elements").items).1.map (Json.option (read .element)))
      ((splitRest (json.get "elements").items).2.map (read .rest))
  | "ObjectPattern" =>
    .objectPattern (spanOf json)
      ((splitRest (json.get "properties").items).1.map (read .patternProperty))
      ((splitRest (json.get "properties").items).2.map (read .rest))
  | _ => .memberTarget (read .expression json)

/-- A property of a pattern. -/
def patternPropertyOf : Node .patternProperty :=
  .patternProperty (spanOf json) (keyIn read json) (read .element (json.get "value"))
    (json.get "shorthand").flag

/-- A pattern with its default; one without a default stands where its target stands. -/
def elementOf : Node .element :=
  match typeOf json with
  | "AssignmentPattern" =>
    .element (spanOf json) (read .pattern (json.get "left"))
      (some (read .expression (json.get "right")))
  | _ => .element (spanOf json) (read .pattern json) none

/-- The rest of a pattern. -/
def restOf : Node .rest := .rest (spanOf json) (read .pattern (json.get "argument"))

/-- Parameters, which have no record and so no place. -/
def parametersOf : Node .parameters :=
  .parameters .unset ((splitRest json.items).1.map (read .element))
    ((splitRest json.items).2.map (read .rest))

/-- A function. -/
def functionOf : Node .function :=
  .function (spanOf json) ((json.get "id").option identifierOf)
    (read .parameters (json.get "params")) (read .block (json.get "body"))
    (json.get "generator").flag (json.get "async").flag (scopeOf json)

/-- A block. -/
def blockOf : Node .block :=
  .block (spanOf json) (nodesOf read json .statement "body") (scopeOf json)

/-- A class. -/
def classDefinitionOf : Node .classDefinition :=
  .classDefinition (spanOf json) ((json.get "id").option identifierOf)
    (nodeOf? read json .expression "superClass") (spanOf (json.get "body"))
    (nodesOf read (json.get "body") .classElement "body") (scopeOf json)

/-- An element of a class. -/
def classElementOf : Node .classElement :=
  match typeOf json with
  | "MethodDefinition" =>
    .method (spanOf json) (keyIn read json)
      (ofText MethodKind (json.get "kind").text) (json.get "static").flag
      (read .function (json.get "value"))
  | "PropertyDefinition" =>
    .field (spanOf json) (keyIn read json) (json.get "static").flag
      (nodeOf? read json .expression "value")
  | _ => .staticBlock (spanOf json) (nodesOf read json .statement "body") (scopeOf json)

/-- A pattern that is declared, with its value. -/
def declaratorOf : Node .declarator :=
  .declarator (spanOf json) (read .pattern (json.get "id")) (nodeOf? read json .expression "init")

/-- A declaration of variables. -/
def declarationOf : Node .declaration :=
  .declaration (spanOf json) (ofText VariableKind (json.get "kind").text)
    (nodesOf read json .declarator "declarations")

/-- What a loop starts with; only a declaration has declarators. -/
def forInitOf : Node .forInit :=
  if json.isNull then .noInit
  else if (json.get "declarations").isNull then .expressionInit (read .expression json)
  else .declarationInit (read .declaration json)

/-- What a loop gives values to. -/
def forHeadOf : Node .forHead :=
  if (json.get "declarations").isNull then .patternHead (read .pattern json)
  else .declarationHead (read .declaration json)

/-- A case of a switch. -/
def switchCaseOf : Node .switchCase :=
  .switchCase (spanOf json) (nodeOf? read json .expression "test")
    (nodesOf read json .statement "consequent")

/-- What catches an exception. -/
def catchClauseOf : Node .catchClause :=
  .catchClause (spanOf json) (nodeOf? read json .pattern "param") (read .block (json.get "body"))
    (scopeOf json)

/-- A statement. -/
def statementOf : Statement :=
  match typeOf json with
  | "BlockStatement" => .blockStatement (read .block json)
  | "EmptyStatement" => .emptyStatement (spanOf json)
  | "ExpressionStatement" =>
    .expressionStatement (spanOf json) (read .expression (json.get "expression"))
  | "IfStatement" =>
    if (json.get "alternate").isNull then
      .ifThen (spanOf json) (read .expression (json.get "test"))
        (read .statement (json.get "consequent"))
    else
      .ifElse (spanOf json) (read .expression (json.get "test"))
        (read .statement (json.get "consequent")) (read .statement (json.get "alternate"))
  | "ForStatement" =>
    .forLoop (spanOf json) (read .forInit (json.get "init")) (nodeOf? read json .expression "test")
      (nodeOf? read json .expression "update") (read .statement (json.get "body"))
      (scopeOf json)
  | "ForInStatement" =>
    .forIn (spanOf json) (read .forHead (json.get "left")) (read .expression (json.get "right"))
      (read .statement (json.get "body")) (scopeOf json)
  | "ForOfStatement" =>
    .forOf (spanOf json) (json.get "await").flag (read .forHead (json.get "left"))
      (read .expression (json.get "right")) (read .statement (json.get "body")) (scopeOf json)
  | "WhileStatement" =>
    .whileLoop (spanOf json) (read .expression (json.get "test"))
      (read .statement (json.get "body"))
  | "DoWhileStatement" =>
    .doWhile (spanOf json) (read .statement (json.get "body"))
      (read .expression (json.get "test"))
  | "SwitchStatement" =>
    .switch (spanOf json) (read .expression (json.get "discriminant"))
      (nodesOf read json .switchCase "cases") (scopeOf json)
  | "TryStatement" =>
    if (json.get "handler").isNull then
      .tryFinally (spanOf json) (read .block (json.get "block"))
        (read .block (json.get "finalizer"))
    else
      .tryCatch (spanOf json) (read .block (json.get "block"))
        (read .catchClause (json.get "handler")) (nodeOf? read json .block "finalizer")
  | "ThrowStatement" => .throwValue (spanOf json) (read .expression (json.get "argument"))
  | "ReturnStatement" => .returnValue (spanOf json) (nodeOf? read json .expression "argument")
  | "BreakStatement" => .breakFrom (spanOf json) ((json.get "label").option identifierOf)
  | "ContinueStatement" => .continueWith (spanOf json) ((json.get "label").option identifierOf)
  | "LabeledStatement" =>
    .labeled (spanOf json) (identifierOf (json.get "label")) (read .statement (json.get "body"))
  | "WithStatement" =>
    .withObject (spanOf json) (read .expression (json.get "object"))
      (read .statement (json.get "body"))
  | "DebuggerStatement" => .debugger (spanOf json)
  | "VariableDeclaration" => .variableStatement (read .declaration json)
  | "FunctionDeclaration" => .functionDeclaration (functionOf read json)
  | _ => .classDeclaration (classDefinitionOf read json)

end

/-- A node of some form from the nodes in its fields. -/
def nodeOf (read : Reader) : Reader
  | .expression => expressionOf read
  | .template => templateOf read
  | .objectMember => objectMemberOf read
  | .propertyKey => fun json => keyOf read json false
  | .pattern => patternOf read
  | .patternProperty => patternPropertyOf read
  | .element => elementOf read
  | .rest => restOf read
  | .parameters => parametersOf read
  | .function => functionOf read
  | .block => blockOf read
  | .classDefinition => classDefinitionOf read
  | .classElement => classElementOf read
  | .declarator => declaratorOf read
  | .declaration => declarationOf read
  | .forInit => forInitOf read
  | .forHead => forHeadOf read
  | .switchCase => switchCaseOf read
  | .catchClause => catchClauseOf read
  | .statement => statementOf read

/-- Some node of each form. -/
def noNode : (form : Form) → Node form
  | .expression => default
  | .template => .templateLiteral .unset [] []
  | .objectMember => .shorthand .unset default none
  | .propertyKey => .identifierKey default
  | .pattern => default
  | .patternProperty => .patternProperty .unset (.identifierKey default)
    (.element .unset default none) true
  | .element => .element .unset default none
  | .rest => .rest .unset default
  | .parameters => .parameters .unset [] none
  | .function => .function .unset none (.parameters .unset [] none) (.block .unset [] 0) false
    false 0
  | .block => .block .unset [] 0
  | .classDefinition => .classDefinition .unset none none .unset [] 0
  | .classElement => .staticBlock .unset [] 0
  | .declarator => .declarator .unset default none
  | .declaration => .declaration .unset .varKind []
  | .forInit => .noInit
  | .forHead => .patternHead default
  | .switchCase => .switchCase .unset none []
  | .catchClause => .catchClause .unset none (.block .unset [] 0) 0
  | .statement => default

/-- The node that a value of some depth stands for. -/
def readNode : Nat → Reader
  | 0 => fun form _ => noNode form
  | depth + 1 => nodeOf (readNode depth)

end Estree

end EcmaScript

namespace EcmaScript.Node

@[simp] theorem expression?_eq (x : Option Expression) :
    expression? x = Json.ofOption toJson x := by
  cases x <;> rfl

@[simp] theorem pattern?_eq (x : Option Pattern) : pattern? x = Json.ofOption toJson x := by
  cases x <;> rfl

@[simp] theorem block?_eq (x : Option (Node .block)) : block? x = Json.ofOption toJson x := by
  cases x <;> rfl

@[simp] theorem rest?_eq (x : Option (Node .rest)) : rest? x = x.map toJson := by
  cases x <;> rfl

@[simp] theorem expressions_eq (xs : List Expression) : expressions xs = xs.map toJson := by
  induction xs with
  | nil => rfl
  | cons x xs ih => rw [expressions, ih, List.map_cons]

@[simp] theorem optionalExpressions_eq (xs : List (Option Expression)) :
    optionalExpressions xs = xs.map (Json.ofOption toJson) := by
  induction xs with
  | nil => rfl
  | cons x xs ih => rw [optionalExpressions, ih, List.map_cons, expression?_eq]

@[simp] theorem objectMembers_eq (xs : List (Node .objectMember)) :
    objectMembers xs = xs.map toJson := by
  induction xs with
  | nil => rfl
  | cons x xs ih => rw [objectMembers, ih, List.map_cons]

@[simp] theorem optionalElements_eq (xs : List (Option (Node .element))) :
    optionalElements xs = xs.map (Json.ofOption toJson) := by
  induction xs with
  | nil => rfl
  | cons x xs ih => cases x <;> rw [optionalElements, ih, List.map_cons] <;> rfl

@[simp] theorem patternProperties_eq (xs : List (Node .patternProperty)) :
    patternProperties xs = xs.map toJson := by
  induction xs with
  | nil => rfl
  | cons x xs ih => rw [patternProperties, ih, List.map_cons]

@[simp] theorem elements_eq (xs : List (Node .element)) : elements xs = xs.map toJson := by
  induction xs with
  | nil => rfl
  | cons x xs ih => rw [elements, ih, List.map_cons]

@[simp] theorem statements_eq (xs : List Statement) : statements xs = xs.map toJson := by
  induction xs with
  | nil => rfl
  | cons x xs ih => rw [statements, ih, List.map_cons]

@[simp] theorem classElements_eq (xs : List (Node .classElement)) :
    classElements xs = xs.map toJson := by
  induction xs with
  | nil => rfl
  | cons x xs ih => rw [classElements, ih, List.map_cons]

@[simp] theorem declarators_eq (xs : List (Node .declarator)) : declarators xs = xs.map toJson := by
  induction xs with
  | nil => rfl
  | cons x xs ih => rw [declarators, ih, List.map_cons]

@[simp] theorem switchCases_eq (xs : List (Node .switchCase)) : switchCases xs = xs.map toJson := by
  induction xs with
  | nil => rfl
  | cons x xs ih => rw [switchCases, ih, List.map_cons]

end EcmaScript.Node
