import EcmaScript.Syntax.BoundNames

/-!
# Walking a tree

The constructs and names of a tree in the order of the source, each construct before its
parts. An expression, statement, pattern or member is met twice, first as such and then as
what it is. A name that is key and value of a property at once is met once.
-/

namespace EcmaScript

/-- What a name is used for. -/
inductive NameRole where
  /-- The value of a variable. -/
  | reference
  /-- A variable that is given a value. -/
  | binding
  | label
  | property
deriving Repr, DecidableEq, Inhabited

namespace NameRole

/-- The name under which a role is reported. -/
def text : NameRole → String
  | reference => "reference"
  | binding => "binding"
  | label => "label"
  | property => "property"

/-- The name under which an identifier in that role is met. -/
def visitName : NameRole → String
  | reference => "identifier_reference"
  | binding => "binding_identifier"
  | label => "label_identifier"
  | property => "property_identifier"

end NameRole

/-- Something that is met on a walk. -/
inductive Visit where
  /-- A construct with a name and a place. -/
  | construct (name : String) (span : Span)
  | expression (span : Span) (isSimpleTarget isOptionalChain : Bool)
  | propertyKey (span : Span) (isComputed : Bool) (staticName : Option String)
  | parameters (span : Span) (count : Nat)
  | declarator (span : Span) (names : List String)
  | identifier (role : NameRole) (id : Identifier)
  | privateName (name : PrivateName)
deriving Repr, DecidableEq, Inhabited

namespace Visit

/-- What is met, in a word. -/
def name : Visit → String
  | construct name _ => name
  | expression .. => "expression"
  | propertyKey .. => "property_key"
  | parameters .. => "parameter_list"
  | declarator .. => "variable_declarator"
  | identifier role _ => role.visitName
  | privateName _ => "private_identifier"

/-- The place of what is met. -/
def span : Visit → Span
  | construct _ span | expression span .. | propertyKey span .. | parameters span _
  | declarator span _ => span
  | identifier _ id => id.span
  | privateName name => name.span

/-- The identifier that is met, with its role. -/
def identifier? : Visit → Option (NameRole × Identifier)
  | identifier role id => some (role, id)
  | _ => none

/-- The private name that is met. -/
def privateName? : Visit → Option PrivateName
  | privateName name => some name
  | _ => none

end Visit

/-- The name of a property behind a dot. -/
def MemberName.visit : MemberName → Visit
  | identifier id => .identifier .property id
  | hidden name => .privateName name

/-- The pieces of a template with what was found in the expressions between them. -/
def TemplateElement.interleave : List TemplateElement → List (List Visit) → List Visit
  | [], _ => []
  | e :: more, [] => .construct "template_element" e.span :: interleave more []
  | e :: more, v :: visits => .construct "template_element" e.span :: v ++ interleave more visits

namespace Node

/-- An expression as such, and as what it is. -/
def enter (e : Expression) (what : List Visit) : List Visit :=
  .expression e.span e.isSimpleTarget e.isOptionalChain :: what

/-- A construct of some general kind, and as what it is. -/
def enterAs (general specific : String) (span : Span) : List Visit :=
  [.construct general span, .construct specific span]

/-- What is met of a node before its parts. Nodes that only wrap another are met as such, if
at all. -/
def visitsAtEntry {form : Form} (node : Node form) : List Visit :=
  match node with
  | .reference id => enter (.reference id) [.identifier .reference id]
  | .privateReference name => enter (.privateReference name) [.privateName name]
  | e@(.boolean span _) => enter e [.construct "boolean_literal" span]
  | e@(.null span) => enter e [.construct "null_literal" span]
  | e@(.number literal) => enter e [.construct "number_literal" literal.span]
  | e@(.bigInt literal) => enter e [.construct "bigint_literal" literal.span]
  | e@(.string literal) => enter e [.construct "string_literal" literal.span]
  | e@(.regex literal) => enter e [.construct "regexp_literal" literal.span]
  | e@(.template _) | e@(.functionExpression _) | e@(.classExpression _) => enter e []
  | e@(.taggedTemplate span ..) => enter e [.construct "tagged_template" span]
  | e@(.array span _) => enter e [.construct "array_literal" span]
  | e@(.object span _) => enter e [.construct "object_literal" span]
  | e@(.arrow span _ body ..) =>
    enter e [.construct "arrow_function" span, .construct "arrow_body" body.span]
  | e@(.conciseArrow span _ body ..) =>
    enter e [.construct "arrow_function" span, .construct "arrow_body" body.span]
  | e@(.unary span ..) => enter e [.construct "unary_expression" span]
  | e@(.update span ..) => enter e [.construct "update_expression" span]
  | e@(.binary span ..) => enter e [.construct "binary_expression" span]
  | e@(.assignment span ..) => enter e [.construct "assignment_expression" span]
  | e@(.conditional span ..) => enter e [.construct "conditional_expression" span]
  | e@(.call span ..) => enter e [.construct "call_expression" span]
  | e@(.construct span ..) => enter e [.construct "new_expression" span]
  | e@(.member span _ name _) =>
    enter e [.construct "member_expression" span, .construct "member_property" name.span]
  | e@(.index span _ key _) =>
    enter e [.construct "member_expression" span, .construct "member_property" key.span]
  | e@(.optionalChain span _) => enter e [.construct "optional_chain" span]
  | e@(.sequence span _) => enter e [.construct "sequence_expression" span]
  | e@(.spread span _) => enter e [.construct "spread_element" span]
  | e@(.yieldValue span ..) => enter e [.construct "yield_expression" span]
  | e@(.awaitValue span _) => enter e [.construct "await_expression" span]
  | e@(.thisValue span) => enter e [.construct "this_expression" span]
  | e@(.superBase span) => enter e [.construct "super" span]
  | e@(.metaProperty span ..) => enter e [.construct "meta_property" span]
  | .templateLiteral span .. => [.construct "template_literal" span]
  | .property span .. => enterAs "object_member" "property" span
  | .shorthand span .. => enterAs "object_member" "shorthand_property" span
  | .spreadMember span _ => enterAs "object_member" "spread_element" span
  | .identifierKey id =>
    [.propertyKey id.span false (some id.name), .identifier .property id]
  | .stringKey literal => [.propertyKey literal.span false (some literal.value),
      .construct "string_literal" literal.span]
  | .numberKey literal =>
    [.propertyKey literal.span false none, .construct "number_literal" literal.span]
  | .bigIntKey literal =>
    [.propertyKey literal.span false none, .construct "bigint_literal" literal.span]
  | .privateKey name => [.propertyKey name.span false none, .privateName name]
  | .computedKey expression => [.propertyKey expression.span true none]
  | .binding id => [.construct "pattern" id.span, .identifier .binding id]
  | .arrayPattern span .. => enterAs "pattern" "array_pattern" span
  | .objectPattern span .. => enterAs "pattern" "object_pattern" span
  | .memberTarget expression => [.construct "pattern" expression.span]
  | .patternProperty span .. => [.construct "pattern_property" span]
  | .element span .. => [.construct "binding_element" span]
  | .rest span _ => [.construct "rest_element" span]
  | params@(.parameters span ..) => [.parameters span params.parameterCount]
  | .function span .. => [.construct "function" span]
  | .block span .. => [.construct "block" span]
  | .classDefinition span .. => [.construct "class" span]
  | .method span .. => enterAs "class_element" "method_definition" span
  | .field span .. => enterAs "class_element" "field_definition" span
  | .staticBlock span .. => enterAs "class_element" "static_block" span
  | .declarator span target _ => [.declarator span (target.boundNames.map (·.name))]
  | .declaration span .. => [.construct "variable_declaration" span]
  | .noInit => []
  | .declarationInit d => [.construct "for_init" d.span]
  | .expressionInit expression => [.construct "for_init" expression.span]
  | .declarationHead d => [.construct "for_head" d.span]
  | .patternHead p => [.construct "for_head" p.span]
  | .switchCase span .. => [.construct "switch_case" span]
  | .catchClause span .. => [.construct "catch_clause" span]
  | .blockStatement b => [.construct "statement" b.span]
  | .emptyStatement span => enterAs "statement" "empty_statement" span
  | .expressionStatement span _ => enterAs "statement" "expression_statement" span
  | .ifThen span .. | .ifElse span .. => enterAs "statement" "if_statement" span
  | .forLoop span .. => enterAs "statement" "for_statement" span
  | .forIn span .. => enterAs "statement" "for_in_statement" span
  | .forOf span .. => enterAs "statement" "for_of_statement" span
  | .whileLoop span .. => enterAs "statement" "while_statement" span
  | .doWhile span .. => enterAs "statement" "do_while_statement" span
  | .switch span .. => enterAs "statement" "switch_statement" span
  | .tryCatch span .. | .tryFinally span .. => enterAs "statement" "try_statement" span
  | .throwValue span _ => enterAs "statement" "throw_statement" span
  | .returnValue span _ => enterAs "statement" "return_statement" span
  | .breakFrom span _ => enterAs "statement" "break_statement" span
  | .continueWith span _ => enterAs "statement" "continue_statement" span
  | .labeled span .. => enterAs "statement" "labeled_statement" span
  | .withObject span .. => enterAs "statement" "with_statement" span
  | .debugger span => enterAs "statement" "debugger_statement" span
  | .variableStatement d => [.construct "statement" d.span]
  | .functionDeclaration definition => [.construct "statement" definition.span]
  | .classDeclaration definition => [.construct "statement" definition.span]

/-- A name that may be missing. -/
def visitName? (role : NameRole) (id : Option Identifier) : List Visit :=
  id.toList.map (.identifier role)

mutual

/-- What is met on a walk through a node. -/
def visits {form : Form} (node : Node form) : List Visit :=
  node.visitsAtEntry ++ match node with
  | .template t => t.visits
  | .taggedTemplate _ tag quasi => tag.visits ++ quasi.visits
  | .array _ elements => visitOptionals elements
  | .object _ members => visitMembers members
  | .functionExpression definition => definition.visits
  | .arrow _ params body .. => params.visits ++ body.visits
  | .conciseArrow _ params body .. => params.visits ++ body.visits
  | .classExpression definition => definition.visits
  | .unary _ _ argument => argument.visits
  | .update _ _ _ argument => argument.visits
  | .binary _ _ left right => left.visits ++ right.visits
  | .assignment _ _ target value => target.visits ++ value.visits
  | .conditional _ test consequent alternate =>
    test.visits ++ consequent.visits ++ alternate.visits
  | .call _ callee arguments _ => callee.visits ++ visitExpressions arguments
  | .construct _ callee arguments => callee.visits ++ visitExpressions arguments
  | .member _ base name _ => base.visits ++ [name.visit]
  | .index _ base key _ => base.visits ++ key.visits
  | .optionalChain _ expression => expression.visits
  | .sequence _ expressions => visitExpressions expressions
  | .spread _ argument => argument.visits
  | .yieldValue _ argument _ => visitExpression? argument
  | .awaitValue _ argument => argument.visits
  | .metaProperty _ holder name => [.identifier .property holder, .identifier .property name]
  | .templateLiteral _ quasis expressions =>
    TemplateElement.interleave quasis (visitEach expressions)
  | .property _ key value .. => key.visits ++ value.visits
  | .shorthand _ name initializer =>
    .identifier .reference name :: visitExpression? initializer
  | .spreadMember _ argument => argument.visits
  | .computedKey expression => expression.visits
  | .arrayPattern _ elements remainder => visitOptionalElements elements ++ visitRest? remainder
  | .objectPattern _ properties remainder => visitProperties properties ++ visitRest? remainder
  | .memberTarget expression => expression.visits
  | .patternProperty _ key value isShorthand =>
    (if isShorthand then [] else key.visits) ++ value.visits
  | .element _ target initializer => target.visits ++ visitExpression? initializer
  | .rest _ argument => argument.visits
  | .parameters _ params remainder => visitElements params ++ visitRest? remainder
  | .function _ name params body .. => visitName? .binding name ++ params.visits ++ body.visits
  | .block _ body _ => visitStatements body
  | .classDefinition _ name superClass bodySpan elements _ =>
    visitName? .binding name ++ visitExpression? superClass ++
      .construct "class_body" bodySpan :: visitClassElements elements
  | .method _ key _ _ value => key.visits ++ value.visits
  | .field _ key _ value => key.visits ++ visitExpression? value
  | .staticBlock _ body _ => visitStatements body
  | .declarator _ target init => target.visits ++ visitExpression? init
  | .declaration _ _ ds => visitDeclarators ds
  | .declarationInit d => d.visits
  | .expressionInit expression => expression.visits
  | .declarationHead d => d.visits
  | .patternHead p => p.visits
  | .switchCase _ test consequent => visitExpression? test ++ visitStatements consequent
  | .catchClause _ param body _ => visitPattern? param ++ body.visits
  | .blockStatement b => b.visits
  | .expressionStatement _ expression => expression.visits
  | .ifThen _ test consequent => test.visits ++ consequent.visits
  | .ifElse _ test consequent alternate =>
    test.visits ++ consequent.visits ++ alternate.visits
  | .forLoop _ init test step body _ =>
    init.visits ++ visitExpression? test ++ visitExpression? step ++ body.visits
  | .forIn _ left right body _ => left.visits ++ right.visits ++ body.visits
  | .forOf _ _ left right body _ => left.visits ++ right.visits ++ body.visits
  | .whileLoop _ test body => test.visits ++ body.visits
  | .doWhile _ body test => body.visits ++ test.visits
  | .switch _ discriminant cases _ => discriminant.visits ++ visitCases cases
  | .tryCatch _ body handler finalizer =>
    body.visits ++ handler.visits ++ visitBlock? finalizer
  | .tryFinally _ body finalizer => body.visits ++ finalizer.visits
  | .throwValue _ argument => argument.visits
  | .returnValue _ argument => visitExpression? argument
  | .breakFrom _ label => visitName? .label label
  | .continueWith _ label => visitName? .label label
  | .labeled _ label body => .identifier .label label :: body.visits
  | .withObject _ base body => base.visits ++ body.visits
  | .variableStatement d => d.visits
  | .functionDeclaration definition => definition.visits
  | .classDeclaration definition => definition.visits
  | _ => []

/-- An expression that may be missing. -/
def visitExpression? : Option (Node .expression) → List Visit
  | none => []
  | some e => e.visits

/-- A pattern that may be missing. -/
def visitPattern? : Option (Node .pattern) → List Visit
  | none => []
  | some p => p.visits

/-- A block that may be missing. -/
def visitBlock? : Option (Node .block) → List Visit
  | none => []
  | some b => b.visits

/-- The rest of a pattern, if it has one. -/
def visitRest? : Option (Node .rest) → List Visit
  | none => []
  | some r => r.visits

/-- Expressions. -/
def visitExpressions : List (Node .expression) → List Visit
  | [] => []
  | e :: more => e.visits ++ visitExpressions more

/-- Expressions, each by itself. -/
def visitEach : List (Node .expression) → List (List Visit)
  | [] => []
  | e :: more => e.visits :: visitEach more

/-- The elements of an array. -/
def visitOptionals : List (Option (Node .expression)) → List Visit
  | [] => []
  | e :: more => visitExpression? e ++ visitOptionals more

/-- The members of an object. -/
def visitMembers : List (Node .objectMember) → List Visit
  | [] => []
  | m :: more => m.visits ++ visitMembers more

/-- The elements of an array pattern. -/
def visitOptionalElements : List (Option (Node .element)) → List Visit
  | [] => []
  | none :: more => visitOptionalElements more
  | some e :: more => e.visits ++ visitOptionalElements more

/-- The properties of an object pattern. -/
def visitProperties : List (Node .patternProperty) → List Visit
  | [] => []
  | p :: more => p.visits ++ visitProperties more

/-- Parameters. -/
def visitElements : List (Node .element) → List Visit
  | [] => []
  | e :: more => e.visits ++ visitElements more

/-- Statements. -/
def visitStatements : List (Node .statement) → List Visit
  | [] => []
  | s :: more => s.visits ++ visitStatements more

/-- The elements of a class. -/
def visitClassElements : List (Node .classElement) → List Visit
  | [] => []
  | e :: more => e.visits ++ visitClassElements more

/-- Declared patterns with their values. -/
def visitDeclarators : List (Node .declarator) → List Visit
  | [] => []
  | d :: more => d.visits ++ visitDeclarators more

/-- The cases of a switch. -/
def visitCases : List (Node .switchCase) → List Visit
  | [] => []
  | c :: more => c.visits ++ visitCases more

end

end Node

namespace Program

/-- What is met on a walk through a program. -/
def visits (program : Program) : List Visit :=
  .construct "program" program.span :: Node.visitStatements program.body

/-- The identifiers of a program with their roles, in the order of the source. -/
def identifiers (program : Program) : List (NameRole × Identifier) :=
  program.visits.filterMap Visit.identifier?

/-- The identifiers of a program in one role, in the order of the source. -/
def identifiersIn (program : Program) (role : NameRole) : List Identifier :=
  (program.identifiers.filter (·.1 == role)).map (·.2)

/-- The private names of a program, in the order of the source. -/
def privateNames (program : Program) : List PrivateName :=
  program.visits.filterMap Visit.privateName?

end Program

end EcmaScript
