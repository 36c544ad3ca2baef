import EcmaScript.Syntax.Visit

/-!
# The calls of a walk

A walk makes a call for what it meets, and out of this call those for the parts. So the calls of a
walk form a tree, and in the order in which they are made each stands before those that are made out
of it. The body of an arrow function, the name behind a dot and the first part of a loop are met on
a walk as what they are and nothing else, so there is no call for their place in the construct.
-/

namespace EcmaScript

/-- Whether there is a call for what is met. -/
def Visit.isCall (visit : Visit) : Bool :=
  visit.name != "arrow_body" && visit.name != "member_property" && visit.name != "for_init"

/-- A call for what is met, with the calls that are made out of it. -/
inductive Call where
  | mk (visit : Visit) (made : List Call)

namespace Call

/-- What is met. -/
def visit : Call → Visit
  | mk visit _ => visit

/-- The calls that are made out of the call. -/
def made : Call → List Call
  | mk _ made => made

/-- Where that stands which is met. -/
def span (call : Call) : Span := call.visit.span

mutual

/-- All that is met, in the order of the calls. -/
def visits : Call → List Visit
  | mk visit made => visit :: visitsOf made

/-- All that is met by several calls. -/
def visitsOf : List Call → List Visit
  | [] => []
  | call :: more => call.visits ++ visitsOf more

end

/-- The second call is made on the way of the first, or is that one. -/
inductive Reaches : Call → Call → Prop where
  | refl {call : Call} : Reaches call call
  | made {call inner last : Call} : inner ∈ call.made → Reaches inner last → Reaches call last

/-- Calls each of which is made out of the one before it, the others out of the last. -/
def chain : List Visit → List Call → List Call
  | [], made => made
  | visit :: more, made => [mk visit (chain more made)]

/-- The call for something without parts. -/
def leaf (visit : Visit) : List Call := chain [visit] []

/-- The pieces of a template with the calls for the expressions between them. -/
def interleave : List TemplateElement → List (List Call) → List Call
  | [], _ => []
  | e :: more, [] => leaf (.construct "template_element" e.span) ++ interleave more []
  | e :: more, c :: calls =>
    leaf (.construct "template_element" e.span) ++ (c ++ interleave more calls)

theorem visitsOf_append (xs ys : List Call) : visitsOf (xs ++ ys) = visitsOf xs ++ visitsOf ys := by
  induction xs with
  | nil => rfl
  | cons x xs ih => rw [List.cons_append, visitsOf, visitsOf, ih, List.append_assoc]

theorem visitsOf_chain (visits : List Visit) (made : List Call) :
    visitsOf (chain visits made) = visits ++ visitsOf made := by
  induction visits with
  | nil => rfl
  | cons visit more ih =>
    show (visit :: visitsOf (chain more made)) ++ [] = visit :: (more ++ visitsOf made)
    rw [List.append_nil, ih]

end Call

namespace Node

open Call

/-- The calls for the node itself. -/
def callsAtEntry {form : Form} (node : Node form) : List Visit :=
  node.visitsAtEntry.filter Visit.isCall

/-- A call for a name that may be missing. -/
def callName? (role : NameRole) (id : Option Identifier) : List Call :=
  id.toList.flatMap fun id => leaf (.identifier role id)

mutual

/-- The calls of a walk through a node. -/
def calls {form : Form} (node : Node form) : List Call :=
  chain node.callsAtEntry <| match node with
  | .template t => t.calls
  | .taggedTemplate _ tag quasi => tag.calls ++ quasi.calls
  | .array _ elements => callsOfOptionals elements
  | .object _ members => callsOfMembers members
  | .functionExpression definition => definition.calls
  | .arrow _ params body .. => params.calls ++ body.calls
  | .conciseArrow _ params body .. => params.calls ++ body.calls
  | .classExpression definition => definition.calls
  | .unary _ _ argument => argument.calls
  | .update _ _ _ argument => argument.calls
  | .binary _ _ left right => left.calls ++ right.calls
  | .assignment _ _ target value => target.calls ++ value.calls
  | .conditional _ test consequent alternate =>
    test.calls ++ consequent.calls ++ alternate.calls
  | .call _ callee arguments _ => callee.calls ++ callsOfExpressions arguments
  | .construct _ callee arguments => callee.calls ++ callsOfExpressions arguments
  | .member _ base name _ => base.calls ++ leaf name.visit
  | .index _ base key _ => base.calls ++ key.calls
  | .optionalChain _ expression => expression.calls
  | .sequence _ expressions => callsOfExpressions expressions
  | .spread _ argument => argument.calls
  | .yieldValue _ argument _ => callsOfExpression? argument
  | .awaitValue _ argument => argument.calls
  | .metaProperty _ holder name =>
    leaf (.identifier .property holder) ++ leaf (.identifier .property name)
  | .templateLiteral _ quasis expressions => interleave quasis (callsOfEach expressions)
  | .property _ key value .. => key.calls ++ value.calls
  | .shorthand _ name initializer =>
    leaf (.identifier .reference name) ++ callsOfExpression? initializer
  | .spreadMember _ argument => argument.calls
  | .computedKey expression => expression.calls
  | .arrayPattern _ elements remainder => callsOfOptionalElements elements ++ callsOfRest? remainder
  | .objectPattern _ properties remainder => callsOfProperties properties ++ callsOfRest? remainder
  | .memberTarget expression => expression.calls
  | .patternProperty _ key value isShorthand =>
    (if isShorthand then [] else key.calls) ++ value.calls
  | .element _ target initializer => target.calls ++ callsOfExpression? initializer
  | .rest _ argument => argument.calls
  | .parameters _ params remainder => callsOfElements params ++ callsOfRest? remainder
  | .function _ name params body .. => callName? .binding name ++ params.calls ++ body.calls
  | .block _ body _ => callsOfStatements body
  | .classDefinition _ name superClass bodySpan elements _ =>
    callName? .binding name ++ callsOfExpression? superClass ++
      chain [.construct "class_body" bodySpan] (callsOfClassElements elements)
  | .method _ key _ _ value => key.calls ++ value.calls
  | .field _ key _ value => key.calls ++ callsOfExpression? value
  | .staticBlock _ body _ => callsOfStatements body
  | .declarator _ target init => target.calls ++ callsOfExpression? init
  | .declaration _ _ ds => callsOfDeclarators ds
  | .declarationInit d => d.calls
  | .expressionInit expression => expression.calls
  | .declarationHead d => d.calls
  | .patternHead p => p.calls
  | .switchCase _ test consequent => callsOfExpression? test ++ callsOfStatements consequent
  | .catchClause _ param body _ => callsOfPattern? param ++ body.calls
  | .blockStatement b => b.calls
  | .expressionStatement _ expression => expression.calls
  | .ifThen _ test consequent => test.calls ++ consequent.calls
  | .ifElse _ test consequent alternate =>
    test.calls ++ consequent.calls ++ alternate.calls
  | .forLoop _ init test step body _ =>
    init.calls ++ callsOfExpression? test ++ callsOfExpression? step ++ body.calls
  | .forIn _ left right body _ => left.calls ++ right.calls ++ body.calls
  | .forOf _ _ left right body _ => left.calls ++ right.calls ++ body.calls
  | .whileLoop _ test body => test.calls ++ body.calls
  | .doWhile _ body test => body.calls ++ test.calls
  | .switch _ discriminant cases _ => discriminant.calls ++ callsOfCases cases
  | .tryCatch _ body handler finalizer =>
    body.calls ++ handler.calls ++ callsOfBlock? finalizer
  | .tryFinally _ body finalizer => body.calls ++ finalizer.calls
  | .throwValue _ argument => argument.calls
  | .returnValue _ argument => callsOfExpression? argument
  | .breakFrom _ label => callName? .label label
  | .continueWith _ label => callName? .label label
  | .labeled _ label body => leaf (.identifier .label label) ++ body.calls
  | .withObject _ base body => base.calls ++ body.calls
  | .variableStatement d => d.calls
  | .functionDeclaration definition => definition.calls
  | .classDeclaration definition => definition.calls
  | _ => []

/-- An expression that may be missing. -/
def callsOfExpression? : Option (Node .expression) → List Call
  | none => []
  | some e => e.calls

/-- A pattern that may be missing. -/
def callsOfPattern? : Option (Node .pattern) → List Call
  | none => []
  | some p => p.calls

/-- A block that may be missing. -/
def callsOfBlock? : Option (Node .block) → List Call
  | none => []
  | some b => b.calls

/-- The rest of a pattern, if it has one. -/
def callsOfRest? : Option (Node .rest) → List Call
  | none => []
  | some r => r.calls

/-- Expressions. -/
def callsOfExpressions : List (Node .expression) → List Call
  | [] => []
  | e :: more => e.calls ++ callsOfExpressions more

/-- Expressions, each by itself. -/
def callsOfEach : List (Node .expression) → List (List Call)
  | [] => []
  | e :: more => e.calls :: callsOfEach more

/-- The elements of an array. -/
def callsOfOptionals : List (Option (Node .expression)) → List Call
  | [] => []
  | e :: more => callsOfExpression? e ++ callsOfOptionals more

/-- The members of an object. -/
def callsOfMembers : List (Node .objectMember) → List Call
  | [] => []
  | m :: more => m.calls ++ callsOfMembers more

/-- The elements of an array pattern. -/
def callsOfOptionalElements : List (Option (Node .element)) → List Call
  | [] => []
  | none :: more => callsOfOptionalElements more
  | some e :: more => e.calls ++ callsOfOptionalElements more

/-- The properties of an object pattern. -/
def callsOfProperties : List (Node .patternProperty) → List Call
  | [] => []
  | p :: more => p.calls ++ callsOfProperties more

/-- Parameters. -/
def callsOfElements : List (Node .element) → List Call
  | [] => []
  | e :: more => e.calls ++ callsOfElements more

/-- Statements. -/
def callsOfStatements : List (Node .statement) → List Call
  | [] => []
  | s :: more => s.calls ++ callsOfStatements more

/-- The elements of a class. -/
def callsOfClassElements : List (Node .classElement) → List Call
  | [] => []
  | e :: more => e.calls ++ callsOfClassElements more

/-- Declared patterns with their values. -/
def callsOfDeclarators : List (Node .declarator) → List Call
  | [] => []
  | d :: more => d.calls ++ callsOfDeclarators more

/-- The cases of a switch. -/
def callsOfCases : List (Node .switchCase) → List Call
  | [] => []
  | c :: more => c.calls ++ callsOfCases more

end

/-- The calls are those for what is met. -/
def Mirrors (calls : List Call) (visits : List Visit) : Prop :=
  visitsOf calls = visits.filter Visit.isCall

theorem mirrors_nil : Mirrors [] [] := rfl

theorem mirrors_append {xs ys : List Call} {us vs : List Visit} (hx : Mirrors xs us)
    (hy : Mirrors ys vs) : Mirrors (xs ++ ys) (us ++ vs) := by
  rw [Mirrors, visitsOf_append, hx, hy, List.filter_append]

theorem mirrors_chain {visit : Visit} {made : List Call} {visits : List Visit}
    (hv : visit.isCall = true) (h : Mirrors made visits) :
    Mirrors (chain [visit] made) (visit :: visits) := by
  rw [Mirrors, visitsOf_chain, h, List.filter_cons_of_pos hv]
  rfl

theorem mirrors_leaf {visit : Visit} (hv : visit.isCall = true) : Mirrors (leaf visit) [visit] :=
  mirrors_chain hv mirrors_nil

theorem mirrors_cons {visit : Visit} {calls : List Call} {visits : List Visit}
    (hv : visit.isCall = true) (h : Mirrors calls visits) :
    Mirrors (leaf visit ++ calls) (visit :: visits) := mirrors_append (mirrors_leaf hv) h

/-- The calls for a node are those for it and for what is inside. -/
theorem mirrors_entry {form : Form} (node : Node form) {made : List Call} {visits : List Visit}
    (h : Mirrors made visits) :
    Mirrors (chain node.callsAtEntry made) (node.visitsAtEntry ++ visits) := by
  rw [Mirrors, visitsOf_chain, h, List.filter_append, callsAtEntry]

theorem mirrors_empty {form : Form} (node : Node form) :
    Mirrors (chain node.callsAtEntry []) (node.visitsAtEntry ++ []) :=
  mirrors_entry node mirrors_nil

theorem isCall_identifier (role : NameRole) (id : Identifier) :
    (Visit.identifier role id).isCall = true := by
  cases role <;> rfl

theorem isCall_memberName (name : MemberName) : name.visit.isCall = true := by
  cases name <;> rfl

theorem mirrors_name? (role : NameRole) (id : Option Identifier) :
    Mirrors (callName? role id) (visitName? role id) := by
  cases id with
  | none => rfl
  | some id => exact mirrors_leaf (isCall_identifier role id)

theorem mirrors_pieces (quasis : List TemplateElement) :
    Mirrors (interleave quasis []) (TemplateElement.interleave quasis []) := by
  induction quasis with
  | nil => rfl
  | cons e more ih => exact mirrors_cons rfl ih

mutual

/-- The calls of a walk through a node are those for what is met on it. -/
theorem mirrors_calls {form : Form} : (node : Node form) → Mirrors node.calls node.visits
  | .reference _ | .binding _ | .identifierKey _ | .privateReference _ | .privateKey _
  | .boolean .. | .null _ | .thisValue _ | .superBase _ | .emptyStatement _ | .debugger _
  | .number _ | .numberKey _ | .bigInt _ | .bigIntKey _ | .string _ | .stringKey _ | .regex _
  | .noInit => mirrors_empty _
  | .template x | .functionExpression x | .functionDeclaration x | .classExpression x
  | .classDeclaration x | .unary _ _ x | .update _ _ _ x | .optionalChain _ x | .spread _ x
  | .spreadMember _ x | .awaitValue _ x | .computedKey x | .memberTarget x | .expressionInit x
  | .rest _ x | .declarationInit x | .declarationHead x | .variableStatement x | .patternHead x
  | .blockStatement x | .expressionStatement _ x | .throwValue _ x =>
    mirrors_entry _ (mirrors_calls x)
  | .taggedTemplate _ x y | .arrow _ x y _ _ | .conciseArrow _ x y _ _ | .binary _ _ x y
  | .assignment _ _ x y | .index _ x y _ | .property _ x y _ _ | .method _ x _ _ y
  | .ifThen _ x y | .whileLoop _ x y | .doWhile _ x y | .tryFinally _ x y | .withObject _ x y =>
    mirrors_entry _ (mirrors_append (mirrors_calls x) (mirrors_calls y))
  | .conditional _ x y z | .ifElse _ x y z | .forIn _ x y z _ | .forOf _ _ x y z _ =>
    mirrors_entry _
      (mirrors_append (mirrors_append (mirrors_calls x) (mirrors_calls y)) (mirrors_calls z))
  | .patternProperty _ _ y true => mirrors_entry _ (mirrors_calls y)
  | .patternProperty _ x y false =>
    mirrors_entry _ (mirrors_append (mirrors_calls x) (mirrors_calls y))
  | .forLoop _ init test step body _ =>
    mirrors_entry _ (mirrors_append (mirrors_append (mirrors_append (mirrors_calls init)
      (mirrors_expression? test)) (mirrors_expression? step)) (mirrors_calls body))
  | .array _ xs => mirrors_entry _ (mirrors_optionals xs)
  | .object _ xs => mirrors_entry _ (mirrors_members xs)
  | .call _ x xs _ | .construct _ x xs =>
    mirrors_entry _ (mirrors_append (mirrors_calls x) (mirrors_expressions xs))
  | .member _ x name _ =>
    mirrors_entry _ (mirrors_append (mirrors_calls x) (mirrors_leaf (isCall_memberName name)))
  | .metaProperty _ _ _ => mirrors_entry _ (mirrors_cons rfl (mirrors_leaf rfl))
  | .sequence _ xs => mirrors_entry _ (mirrors_expressions xs)
  | .yieldValue _ x _ | .returnValue _ x => mirrors_entry _ (mirrors_expression? x)
  | .templateLiteral _ quasis xs => mirrors_entry _ (mirrors_interleave quasis xs)
  | .shorthand _ _ x => mirrors_entry _ (mirrors_cons rfl (mirrors_expression? x))
  | .arrayPattern _ xs x =>
    mirrors_entry _ (mirrors_append (mirrors_optionalElements xs) (mirrors_rest? x))
  | .objectPattern _ xs x =>
    mirrors_entry _ (mirrors_append (mirrors_properties xs) (mirrors_rest? x))
  | .parameters _ xs x => mirrors_entry _ (mirrors_append (mirrors_elements xs) (mirrors_rest? x))
  | .element _ x y | .declarator _ x y | .field _ x _ y =>
    mirrors_entry _ (mirrors_append (mirrors_calls x) (mirrors_expression? y))
  | .function _ name x y _ _ _ =>
    mirrors_entry _ (mirrors_append (mirrors_append (mirrors_name? .binding name)
      (mirrors_calls x)) (mirrors_calls y))
  | .block _ xs _ | .staticBlock _ xs _ => mirrors_entry _ (mirrors_statements xs)
  | .classDefinition _ name x _ xs _ =>
    mirrors_entry _ (mirrors_append (mirrors_append (mirrors_name? .binding name)
      (mirrors_expression? x)) (mirrors_chain rfl (mirrors_classElements xs)))
  | .declaration _ _ xs => mirrors_entry _ (mirrors_declarators xs)
  | .switchCase _ x xs =>
    mirrors_entry _ (mirrors_append (mirrors_expression? x) (mirrors_statements xs))
  | .catchClause _ x y _ => mirrors_entry _ (mirrors_append (mirrors_pattern? x) (mirrors_calls y))
  | .switch _ x xs _ => mirrors_entry _ (mirrors_append (mirrors_calls x) (mirrors_cases xs))
  | .tryCatch _ x y z =>
    mirrors_entry _
      (mirrors_append (mirrors_append (mirrors_calls x) (mirrors_calls y)) (mirrors_block? z))
  | .breakFrom _ label | .continueWith _ label => mirrors_entry _ (mirrors_name? .label label)
  | .labeled _ _ x => mirrors_entry _ (mirrors_cons rfl (mirrors_calls x))

theorem mirrors_expression? :
    (x : Option (Node .expression)) → Mirrors (callsOfExpression? x) (visitExpression? x)
  | none => mirrors_nil
  | some x => mirrors_calls x

theorem mirrors_pattern? :
    (x : Option (Node .pattern)) → Mirrors (callsOfPattern? x) (visitPattern? x)
  | none => mirrors_nil
  | some x => mirrors_calls x

theorem mirrors_block? :
    (x : Option (Node .block)) → Mirrors (callsOfBlock? x) (visitBlock? x)
  | none => mirrors_nil
  | some x => mirrors_calls x

theorem mirrors_rest? :
    (x : Option (Node .rest)) → Mirrors (callsOfRest? x) (visitRest? x)
  | none => mirrors_nil
  | some x => mirrors_calls x

theorem mirrors_expressions :
    (xs : List (Node .expression)) → Mirrors (callsOfExpressions xs) (visitExpressions xs)
  | [] => mirrors_nil
  | x :: more => mirrors_append (mirrors_calls x) (mirrors_expressions more)

theorem mirrors_interleave : (quasis : List TemplateElement) → (xs : List (Node .expression)) →
    Mirrors (interleave quasis (callsOfEach xs)) (TemplateElement.interleave quasis (visitEach xs))
  | [], _ => mirrors_nil
  | e :: more, [] => mirrors_pieces (e :: more)
  | _ :: more, x :: xs =>
    mirrors_cons rfl (mirrors_append (mirrors_calls x) (mirrors_interleave more xs))

theorem mirrors_optionals :
    (xs : List (Option (Node .expression))) → Mirrors (callsOfOptionals xs) (visitOptionals xs)
  | [] => mirrors_nil
  | x :: more => mirrors_append (mirrors_expression? x) (mirrors_optionals more)

theorem mirrors_members :
    (xs : List (Node .objectMember)) → Mirrors (callsOfMembers xs) (visitMembers xs)
  | [] => mirrors_nil
  | x :: more => mirrors_append (mirrors_calls x) (mirrors_members more)

theorem mirrors_optionalElements : (xs : List (Option (Node .element))) →
    Mirrors (callsOfOptionalElements xs) (visitOptionalElements xs)
  | [] => mirrors_nil
  | none :: more => mirrors_optionalElements more
  | some x :: more => mirrors_append (mirrors_calls x) (mirrors_optionalElements more)

theorem mirrors_properties :
    (xs : List (Node .patternProperty)) → Mirrors (callsOfProperties xs) (visitProperties xs)
  | [] => mirrors_nil
  | x :: more => mirrors_append (mirrors_calls x) (mirrors_properties more)

theorem mirrors_elements :
    (xs : List (Node .element)) → Mirrors (callsOfElements xs) (visitElements xs)
  | [] => mirrors_nil
  | x :: more => mirrors_append (mirrors_calls x) (mirrors_elements more)

theorem mirrors_statements :
    (xs : List (Node .statement)) → Mirrors (callsOfStatements xs) (visitStatements xs)
  | [] => mirrors_nil
  | x :: more => mirrors_append (mirrors_calls x) (mirrors_statements more)

theorem mirrors_classElements :
    (xs : List (Node .classElement)) → Mirrors (callsOfClassElements xs) (visitClassElements xs)
  | [] => mirrors_nil
  | x :: more => mirrors_append (mirrors_calls x) (mirrors_classElements more)

theorem mirrors_declarators :
    (xs : List (Node .declarator)) → Mirrors (callsOfDeclarators xs) (visitDeclarators xs)
  | [] => mirrors_nil
  | x :: more => mirrors_append (mirrors_calls x) (mirrors_declarators more)

theorem mirrors_cases :
    (xs : List (Node .switchCase)) → Mirrors (callsOfCases xs) (visitCases xs)
  | [] => mirrors_nil
  | x :: more => mirrors_append (mirrors_calls x) (mirrors_cases more)

end

end Node

/-- The call for a whole program. -/
def Program.call (program : Program) : Call :=
  .mk (.construct "program" program.span) (Node.callsOfStatements program.body)

/-- The calls of a walk through a program are those for what is met on it. -/
theorem Program.visits_call (program : Program) :
    program.call.visits = program.visits.filter Visit.isCall := by
  show _ :: Call.visitsOf _ = List.filter _ (_ :: _)
  rw [List.filter_cons_of_pos rfl, Node.mirrors_statements]

end EcmaScript
