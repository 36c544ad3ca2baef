import EcmaScript.Proofs.Syntax.Parts

/-!
# Trees with other data

A tree of the same shape as another one, in which spans, names and the numbers of scopes are
replaced. Moving a tree to another place, erasing its scopes and giving it other scopes are all
of this kind. Replacing data twice replaces them once by what they become in the end.
-/

namespace EcmaScript

/-- Where the spans of the nodes of each form go. -/
abbrev Relocation := Form → Span → Span

/-- What becomes of the data that the nodes of a tree hold beside their parts. -/
structure DataMap where
  /-- The spans, by the form of the node; those of names and literals go where expressions do. -/
  span : Relocation := fun _ span => span
  /-- The names of variables, with their spans. -/
  name : Identifier → Identifier := id
  /-- The names of properties and labels, with their spans. -/
  label : Identifier → Identifier := id
  /-- The scopes. -/
  scope : ScopeId → ScopeId := id

namespace DataMap

/-- Nothing changes. -/
def same : DataMap := {}

/-- First the second change is made, then the first one. -/
def comp (m' m : DataMap) : DataMap where
  span form := m'.span form ∘ m.span form
  name := m'.name ∘ m.name
  label := m'.label ∘ m.label
  scope := m'.scope ∘ m.scope

@[simp] theorem span_same (form : Form) (span : Span) : same.span form span = span := rfl

@[simp] theorem name_same (id : Identifier) : same.name id = id := rfl

@[simp] theorem label_same (id : Identifier) : same.label id = id := rfl

@[simp] theorem scope_same (scope : ScopeId) : same.scope scope = scope := rfl

variable (m' m : DataMap)

@[simp] theorem span_comp (form : Form) (span : Span) :
    (m'.comp m).span form span = m'.span form (m.span form span) := rfl

@[simp] theorem name_comp (id : Identifier) : (m'.comp m).name id = m'.name (m.name id) := rfl

@[simp] theorem label_comp (id : Identifier) : (m'.comp m).label id = m'.label (m.label id) := rfl

@[simp] theorem scope_comp (scope : ScopeId) :
    (m'.comp m).scope scope = m'.scope (m.scope scope) := rfl

end DataMap

/-- The private name with its span elsewhere. -/
def PrivateName.relocate (f : Span → Span) (name : PrivateName) : PrivateName :=
  { name with span := f name.span }

/-- The number with its span elsewhere. -/
def NumberLiteral.relocate (f : Span → Span) (literal : NumberLiteral) : NumberLiteral :=
  { literal with span := f literal.span }

/-- The big integer with its span elsewhere. -/
def BigIntLiteral.relocate (f : Span → Span) (literal : BigIntLiteral) : BigIntLiteral :=
  { literal with span := f literal.span }

/-- The string with its span elsewhere. -/
def StringLiteral.relocate (f : Span → Span) (literal : StringLiteral) : StringLiteral :=
  { literal with span := f literal.span }

/-- The regular expression with its span elsewhere. -/
def RegexLiteral.relocate (f : Span → Span) (literal : RegexLiteral) : RegexLiteral :=
  { literal with span := f literal.span }

/-- The piece of a template with its span elsewhere. -/
def TemplateElement.relocate (f : Span → Span) (element : TemplateElement) : TemplateElement :=
  { element with span := f element.span }

/-- Pieces of templates whose spans stay are as they were. -/
theorem TemplateElement.map_relocate_id (quasis : List TemplateElement) :
    quasis.map (relocate fun span => span) = quasis := List.map_id quasis

/-- The name of a property with other data. -/
def MemberName.mapData (m : DataMap) : MemberName → MemberName
  | identifier id => .identifier (m.label id)
  | hidden name => .hidden (name.relocate (m.span .expression))

namespace Node

mutual

/-- The tree of the same shape with other data. -/
def mapData (m : DataMap) {form : Form} : Node form → Node form
  | .reference id => .reference (m.name id)
  | .privateReference name => .privateReference (name.relocate (m.span .expression))
  | .boolean span value => .boolean (m.span .expression span) value
  | .null span => .null (m.span .expression span)
  | .number literal => .number (literal.relocate (m.span .expression))
  | .bigInt literal => .bigInt (literal.relocate (m.span .expression))
  | .string literal => .string (literal.relocate (m.span .expression))
  | .regex literal => .regex (literal.relocate (m.span .expression))
  | .template literal => .template (literal.mapData m)
  | .taggedTemplate span tag quasi =>
    .taggedTemplate (m.span .expression span) (tag.mapData m) (quasi.mapData m)
  | .array span elements => .array (m.span .expression span) (mapOptionals m elements)
  | .object span members => .object (m.span .expression span) (mapMembers m members)
  | .functionExpression definition => .functionExpression (definition.mapData m)
  | .arrow span params body isAsync scope =>
    .arrow (m.span .expression span) (params.mapData m) (body.mapData m) isAsync (m.scope scope)
  | .conciseArrow span params body isAsync scope =>
    .conciseArrow (m.span .expression span) (params.mapData m) (body.mapData m) isAsync
      (m.scope scope)
  | .classExpression definition => .classExpression (definition.mapData m)
  | .unary span operator argument => .unary (m.span .expression span) operator (argument.mapData m)
  | .update span operator leading argument =>
    .update (m.span .expression span) operator leading (argument.mapData m)
  | .binary span operator left right =>
    .binary (m.span .expression span) operator (left.mapData m) (right.mapData m)
  | .assignment span operator target value =>
    .assignment (m.span .expression span) operator (target.mapData m) (value.mapData m)
  | .conditional span test consequent alternate =>
    .conditional (m.span .expression span) (test.mapData m) (consequent.mapData m)
      (alternate.mapData m)
  | .call span callee arguments optional =>
    .call (m.span .expression span) (callee.mapData m) (mapExpressions m arguments) optional
  | .construct span callee arguments =>
    .construct (m.span .expression span) (callee.mapData m) (mapExpressions m arguments)
  | .member span base name optional =>
    .member (m.span .expression span) (base.mapData m) (name.mapData m) optional
  | .index span base key optional =>
    .index (m.span .expression span) (base.mapData m) (key.mapData m) optional
  | .optionalChain span expression =>
    .optionalChain (m.span .expression span) (expression.mapData m)
  | .sequence span expressions => .sequence (m.span .expression span) (mapExpressions m expressions)
  | .spread span argument => .spread (m.span .expression span) (argument.mapData m)
  | .yieldValue span argument delegate =>
    .yieldValue (m.span .expression span) (mapExpression? m argument) delegate
  | .awaitValue span argument => .awaitValue (m.span .expression span) (argument.mapData m)
  | .thisValue span => .thisValue (m.span .expression span)
  | .superBase span => .superBase (m.span .expression span)
  | .metaProperty span holder name =>
    .metaProperty (m.span .expression span) (m.label holder) (m.label name)
  | .templateLiteral span quasis expressions =>
    .templateLiteral (m.span .template span)
      (quasis.map (TemplateElement.relocate (m.span .expression))) (mapExpressions m expressions)
  | .property span key value kind isMethod =>
    .property (m.span .objectMember span) (key.mapData m) (value.mapData m) kind isMethod
  | .shorthand span name initializer =>
    .shorthand (m.span .objectMember span) (m.name name) (mapExpression? m initializer)
  | .spreadMember span argument => .spreadMember (m.span .objectMember span) (argument.mapData m)
  | .identifierKey id => .identifierKey (m.label id)
  | .stringKey literal => .stringKey (literal.relocate (m.span .expression))
  | .numberKey literal => .numberKey (literal.relocate (m.span .expression))
  | .bigIntKey literal => .bigIntKey (literal.relocate (m.span .expression))
  | .privateKey name => .privateKey (name.relocate (m.span .expression))
  | .computedKey expression => .computedKey (expression.mapData m)
  | .binding id => .binding (m.name id)
  | .arrayPattern span elements remainder =>
    .arrayPattern (m.span .pattern span) (mapOptionalElements m elements) (mapRest? m remainder)
  | .objectPattern span properties remainder =>
    .objectPattern (m.span .pattern span) (mapProperties m properties) (mapRest? m remainder)
  | .memberTarget expression => .memberTarget (expression.mapData m)
  | .patternProperty span key value short =>
    .patternProperty (m.span .patternProperty span) (key.mapData m) (value.mapData m) short
  | .element span target initializer =>
    .element (m.span .element span) (target.mapData m) (mapExpression? m initializer)
  | .rest span argument => .rest (m.span .rest span) (argument.mapData m)
  | .parameters span params remainder =>
    .parameters (m.span .parameters span) (mapElements m params) (mapRest? m remainder)
  | .function span name params body isGenerator isAsync scope =>
    .function (m.span .function span) (name.map m.name) (params.mapData m) (body.mapData m)
      isGenerator isAsync (m.scope scope)
  | .block span body scope => .block (m.span .block span) (mapStatements m body) (m.scope scope)
  | .classDefinition span name superClass bodySpan elements scope =>
    .classDefinition (m.span .classDefinition span) (name.map m.name) (mapExpression? m superClass)
      (m.span .classDefinition bodySpan) (mapClassElements m elements) (m.scope scope)
  | .method span key kind isStatic value =>
    .method (m.span .classElement span) (key.mapData m) kind isStatic (value.mapData m)
  | .field span key isStatic value =>
    .field (m.span .classElement span) (key.mapData m) isStatic (mapExpression? m value)
  | .staticBlock span body scope =>
    .staticBlock (m.span .classElement span) (mapStatements m body) (m.scope scope)
  | .declarator span target init =>
    .declarator (m.span .declarator span) (target.mapData m) (mapExpression? m init)
  | .declaration span kind declarators =>
    .declaration (m.span .declaration span) kind (mapDeclarators m declarators)
  | .noInit => .noInit
  | .declarationInit d => .declarationInit (d.mapData m)
  | .expressionInit expression => .expressionInit (expression.mapData m)
  | .declarationHead d => .declarationHead (d.mapData m)
  | .patternHead pattern => .patternHead (pattern.mapData m)
  | .switchCase span test consequent =>
    .switchCase (m.span .switchCase span) (mapExpression? m test) (mapStatements m consequent)
  | .catchClause span param body scope =>
    .catchClause (m.span .catchClause span) (mapPattern? m param) (body.mapData m) (m.scope scope)
  | .blockStatement body => .blockStatement (body.mapData m)
  | .emptyStatement span => .emptyStatement (m.span .statement span)
  | .expressionStatement span expression =>
    .expressionStatement (m.span .statement span) (expression.mapData m)
  | .ifThen span test consequent =>
    .ifThen (m.span .statement span) (test.mapData m) (consequent.mapData m)
  | .ifElse span test consequent alternate =>
    .ifElse (m.span .statement span) (test.mapData m) (consequent.mapData m) (alternate.mapData m)
  | .forLoop span init test step body scope =>
    .forLoop (m.span .statement span) (init.mapData m) (mapExpression? m test)
      (mapExpression? m step) (body.mapData m) (m.scope scope)
  | .forIn span left right body scope =>
    .forIn (m.span .statement span) (left.mapData m) (right.mapData m) (body.mapData m)
      (m.scope scope)
  | .forOf span isAwait left right body scope =>
    .forOf (m.span .statement span) isAwait (left.mapData m) (right.mapData m) (body.mapData m)
      (m.scope scope)
  | .whileLoop span test body =>
    .whileLoop (m.span .statement span) (test.mapData m) (body.mapData m)
  | .doWhile span body test => .doWhile (m.span .statement span) (body.mapData m) (test.mapData m)
  | .switch span discriminant cases scope =>
    .switch (m.span .statement span) (discriminant.mapData m) (mapCases m cases) (m.scope scope)
  | .tryCatch span body handler finalizer =>
    .tryCatch (m.span .statement span) (body.mapData m) (handler.mapData m) (mapBlock? m finalizer)
  | .tryFinally span body finalizer =>
    .tryFinally (m.span .statement span) (body.mapData m) (finalizer.mapData m)
  | .throwValue span argument => .throwValue (m.span .statement span) (argument.mapData m)
  | .returnValue span argument => .returnValue (m.span .statement span) (mapExpression? m argument)
  | .breakFrom span label => .breakFrom (m.span .statement span) (label.map m.label)
  | .continueWith span label => .continueWith (m.span .statement span) (label.map m.label)
  | .labeled span label body => .labeled (m.span .statement span) (m.label label) (body.mapData m)
  | .withObject span base body =>
    .withObject (m.span .statement span) (base.mapData m) (body.mapData m)
  | .debugger span => .debugger (m.span .statement span)
  | .variableStatement d => .variableStatement (d.mapData m)
  | .functionDeclaration definition => .functionDeclaration (definition.mapData m)
  | .classDeclaration definition => .classDeclaration (definition.mapData m)

/-- An expression that may be missing. -/
def mapExpression? (m : DataMap) : Option (Node .expression) → Option (Node .expression)
  | none => none
  | some x => some (x.mapData m)

/-- A pattern that may be missing. -/
def mapPattern? (m : DataMap) : Option (Node .pattern) → Option (Node .pattern)
  | none => none
  | some x => some (x.mapData m)

/-- A block that may be missing. -/
def mapBlock? (m : DataMap) : Option (Node .block) → Option (Node .block)
  | none => none
  | some x => some (x.mapData m)

/-- The rest of a pattern, if it has one. -/
def mapRest? (m : DataMap) : Option (Node .rest) → Option (Node .rest)
  | none => none
  | some x => some (x.mapData m)

/-- Expressions. -/
def mapExpressions (m : DataMap) : List (Node .expression) → List (Node .expression)
  | [] => []
  | x :: more => x.mapData m :: mapExpressions m more

/-- The elements of an array. -/
def mapOptionals (m : DataMap) : List (Option (Node .expression)) → 
    List (Option (Node .expression))
  | [] => []
  | x :: more => mapExpression? m x :: mapOptionals m more

/-- The members of an object. -/
def mapMembers (m : DataMap) : List (Node .objectMember) → List (Node .objectMember)
  | [] => []
  | x :: more => x.mapData m :: mapMembers m more

/-- The elements of an array pattern. -/
def mapOptionalElements (m : DataMap) : List (Option (Node .element)) →
    List (Option (Node .element))
  | [] => []
  | none :: more => none :: mapOptionalElements m more
  | some x :: more => some (x.mapData m) :: mapOptionalElements m more

/-- The properties of an object pattern. -/
def mapProperties (m : DataMap) : List (Node .patternProperty) →
    List (Node .patternProperty)
  | [] => []
  | x :: more => x.mapData m :: mapProperties m more

/-- Parameters. -/
def mapElements (m : DataMap) : List (Node .element) → List (Node .element)
  | [] => []
  | x :: more => x.mapData m :: mapElements m more

/-- Statements. -/
def mapStatements (m : DataMap) : List (Node .statement) → List (Node .statement)
  | [] => []
  | x :: more => x.mapData m :: mapStatements m more

/-- The elements of a class. -/
def mapClassElements (m : DataMap) : List (Node .classElement) → List (Node .classElement)
  | [] => []
  | x :: more => x.mapData m :: mapClassElements m more

/-- Declared patterns with their values. -/
def mapDeclarators (m : DataMap) : List (Node .declarator) → List (Node .declarator)
  | [] => []
  | x :: more => x.mapData m :: mapDeclarators m more

/-- The cases of a switch. -/
def mapCases (m : DataMap) : List (Node .switchCase) → List (Node .switchCase)
  | [] => []
  | x :: more => x.mapData m :: mapCases m more

end

@[simp] theorem mapExpression?_eq (m : DataMap) (x : Option (Node .expression)) :
    mapExpression? m x = x.map (mapData m) := by
  cases x <;> rfl

@[simp] theorem mapPattern?_eq (m : DataMap) (x : Option (Node .pattern)) :
    mapPattern? m x = x.map (mapData m) := by
  cases x <;> rfl

@[simp] theorem mapBlock?_eq (m : DataMap) (x : Option (Node .block)) : 
    mapBlock? m x = x.map (mapData m) := by
  cases x <;> rfl

@[simp] theorem mapRest?_eq (m : DataMap) (x : Option (Node .rest)) : mapRest? m x =
    x.map (mapData m) := by
  cases x <;> rfl

@[simp] theorem mapExpressions_eq (m : DataMap) (xs : List (Node .expression)) :
    mapExpressions m xs = xs.map (mapData m) := by
  induction xs with
  | nil => rfl
  | cons x xs ih => rw [mapExpressions, ih, List.map_cons]

@[simp] theorem mapOptionals_eq (m : DataMap) (xs : List (Option (Node .expression))) :
    mapOptionals m xs = xs.map (Option.map (mapData m)) := by
  induction xs with
  | nil => rfl
  | cons x xs ih => rw [mapOptionals, ih, mapExpression?_eq, List.map_cons]

@[simp] theorem mapMembers_eq (m : DataMap) (xs : List (Node .objectMember)) :
    mapMembers m xs = xs.map (mapData m) := by
  induction xs with
  | nil => rfl
  | cons x xs ih => rw [mapMembers, ih, List.map_cons]

@[simp] theorem mapOptionalElements_eq (m : DataMap) (xs : List (Option (Node .element))) :
    mapOptionalElements m xs = xs.map (Option.map (mapData m)) := by
  induction xs with
  | nil => rfl
  | cons x xs ih =>
    cases x with
    | none => rw [mapOptionalElements, ih, List.map_cons]; rfl
    | some x => rw [mapOptionalElements, ih, List.map_cons]; rfl

@[simp] theorem mapProperties_eq (m : DataMap) (xs : List (Node .patternProperty)) :
    mapProperties m xs = xs.map (mapData m) := by
  induction xs with
  | nil => rfl
  | cons x xs ih => rw [mapProperties, ih, List.map_cons]

@[simp] theorem mapElements_eq (m : DataMap) (xs : List (Node .element)) :
    mapElements m xs = xs.map (mapData m) := by
  induction xs with
  | nil => rfl
  | cons x xs ih => rw [mapElements, ih, List.map_cons]

@[simp] theorem mapStatements_eq (m : DataMap) (xs : List (Node .statement)) :
    mapStatements m xs = xs.map (mapData m) := by
  induction xs with
  | nil => rfl
  | cons x xs ih => rw [mapStatements, ih, List.map_cons]

@[simp] theorem mapClassElements_eq (m : DataMap) (xs : List (Node .classElement)) :
    mapClassElements m xs = xs.map (mapData m) := by
  induction xs with
  | nil => rfl
  | cons x xs ih => rw [mapClassElements, ih, List.map_cons]

@[simp] theorem mapDeclarators_eq (m : DataMap) (xs : List (Node .declarator)) :
    mapDeclarators m xs = xs.map (mapData m) := by
  induction xs with
  | nil => rfl
  | cons x xs ih => rw [mapDeclarators, ih, List.map_cons]

@[simp] theorem mapCases_eq (m : DataMap) (xs : List (Node .switchCase)) :
    mapCases m xs = xs.map (mapData m) := by
  induction xs with
  | nil => rfl
  | cons x xs ih => rw [mapCases, ih, List.map_cons]

section

variable {m m' : DataMap} {form : Form}

private theorem option_same {x : Option (Node form)} (h : ∀ y, x = some y → y.mapData .same = y) :
    x.map (mapData .same) = x := by
  cases x with
  | none => rfl
  | some x => exact congrArg some (h x rfl)

private theorem map_same {xs : List (Node form)} (h : ∀ x ∈ xs, x.mapData .same = x) :
    xs.map (mapData .same) = xs := by
  conv_rhs => rw [← List.map_id xs]
  exact List.map_congr_left h

private theorem holes_same {xs : List (Option (Node form))}
    (h : ∀ x, some x ∈ xs → x.mapData .same = x) : xs.map (Option.map (mapData .same)) = xs := by
  conv_rhs => rw [← List.map_id xs]
  exact List.map_congr_left fun x hx => option_same fun y hy => h y (hy ▸ hx)

private theorem quasis_same (quasis : List TemplateElement) :
    quasis.map (TemplateElement.relocate (DataMap.same.span .expression)) = quasis :=
  TemplateElement.map_relocate_id quasis

private theorem memberName_same (name : MemberName) : name.mapData .same = name := by
  cases name <;> rfl

private theorem identifier?_same (id : Option Identifier) :
    id.map DataMap.same.name = id ∧ id.map DataMap.same.label = id :=
  ⟨Option.map_id_apply, Option.map_id_apply⟩

/-- A tree in which no data changes is the tree itself. -/
theorem mapData_same (x : Node form) : x.mapData .same = x := by
  induction x using induction_parts with
  | node x ih =>
    cases x <;> simp only [parts, List.forall_mem_cons, List.forall_mem_append,
      List.forall_mem_map, Option.mem_toList, List.reduceOption_mem_iff, List.not_mem_nil,
      false_imp_iff, implies_true, and_true] at ih <;>
    conv_lhs => whnf
    all_goals first
      | rfl
      | simp_all only [mapExpression?_eq, mapPattern?_eq, mapBlock?_eq, mapRest?_eq,
          mapExpressions_eq, mapMembers_eq, mapProperties_eq, mapElements_eq, mapStatements_eq,
          mapClassElements_eq, mapDeclarators_eq, mapCases_eq, mapOptionals_eq,
          mapOptionalElements_eq, option_same, map_same, holes_same, quasis_same, memberName_same,
          identifier?_same, implies_true, DataMap.span_same, DataMap.name_same, DataMap.label_same,
          DataMap.scope_same]

private theorem option_comp {x : Option (Node form)}
    (h : ∀ y, x = some y → (y.mapData m).mapData m' = y.mapData (m'.comp m)) :
    (x.map (mapData m)).map (mapData m') = x.map (mapData (m'.comp m)) := by
  cases x with
  | none => rfl
  | some x => exact congrArg some (h x rfl)

private theorem map_comp {xs : List (Node form)}
    (h : ∀ x ∈ xs, (x.mapData m).mapData m' = x.mapData (m'.comp m)) :
    (xs.map (mapData m)).map (mapData m') = xs.map (mapData (m'.comp m)) := by
  rw [List.map_map]
  exact List.map_congr_left h

private theorem holes_comp {xs : List (Option (Node form))}
    (h : ∀ x, some x ∈ xs → (x.mapData m).mapData m' = x.mapData (m'.comp m)) :
    (xs.map (Option.map (mapData m))).map (Option.map (mapData m')) =
      xs.map (Option.map (mapData (m'.comp m))) := by
  rw [List.map_map]
  exact List.map_congr_left fun x hx => option_comp fun y hy => h y (hy ▸ hx)

private theorem quasis_comp (quasis : List TemplateElement) :
    (quasis.map (TemplateElement.relocate (m.span .expression))).map
        (TemplateElement.relocate (m'.span .expression)) =
      quasis.map (TemplateElement.relocate ((m'.comp m).span .expression)) := by
  rw [List.map_map]
  rfl

private theorem memberName_comp (name : MemberName) :
    (name.mapData m).mapData m' = name.mapData (m'.comp m) := by
  cases name <;> rfl

private theorem identifier?_comp (id : Option Identifier) :
    (id.map m.name).map m'.name = id.map (m'.comp m).name ∧
      (id.map m.label).map m'.label = id.map (m'.comp m).label :=
  ⟨Option.map_map .., Option.map_map ..⟩

/-- To change the data of a tree twice is to change it once. -/
theorem mapData_mapData (x : Node form) : (x.mapData m).mapData m' = x.mapData (m'.comp m) := by
  induction x using induction_parts with
  | node x ih =>
    cases x <;> simp only [parts, List.forall_mem_cons, List.forall_mem_append,
      List.forall_mem_map, Option.mem_toList, List.reduceOption_mem_iff, List.not_mem_nil,
      false_imp_iff, implies_true, and_true] at ih <;>
    conv_lhs => whnf
    all_goals first
      | rfl
      | conv_rhs => whnf
        simp_all only [mapExpression?_eq, mapPattern?_eq, mapBlock?_eq, mapRest?_eq,
          mapExpressions_eq, mapMembers_eq, mapProperties_eq, mapElements_eq, mapStatements_eq,
          mapClassElements_eq, mapDeclarators_eq, mapCases_eq, mapOptionals_eq,
          mapOptionalElements_eq, option_comp, map_comp, holes_comp, quasis_comp, memberName_comp,
          identifier?_comp, implies_true, DataMap.span_comp, DataMap.name_comp, DataMap.label_comp,
          DataMap.scope_comp]

end

end Node

end EcmaScript
