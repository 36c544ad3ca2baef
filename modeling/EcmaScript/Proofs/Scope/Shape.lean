import EcmaScript.Proofs.Scope.Layout
import EcmaScript.Proofs.Syntax.Parsed
import EcmaScript.Scope.Resolve

/-!
# Resolving keeps the shape

A resolved tree differs from the tree itself only in the numbers of scopes: with these erased
it is the tree again. So both declare the same names.

Most nodes are resolved part by part. The functions for lists of nodes are brought into one
form first.

A tree that is another one with its numbers erased declares the same names.
-/

namespace EcmaScript

open Resolution

namespace Node

@[simp] theorem resolveExpression?_eq (x : Option (Node .expression)) :
    resolveExpression? x = x.mapM resolve := by
  cases x <;> rfl

@[simp] theorem resolvePattern?_eq (x : Option (Node .pattern)) :
    resolvePattern? x = x.mapM resolve := by
  cases x <;> rfl

@[simp] theorem resolveBlock?_eq (x : Option (Node .block)) :
    resolveBlock? x = x.mapM resolve := by
  cases x <;> rfl

@[simp] theorem resolveRest?_eq (x : Option (Node .rest)) :
    resolveRest? x = x.mapM resolve := by
  cases x <;> rfl

@[simp] theorem resolveExpressions_eq (xs : List (Node .expression)) :
    resolveExpressions xs = xs.mapM' resolve := by
  induction xs with
  | nil => rfl
  | cons x xs ih => rw [resolveExpressions, ih, List.mapM']

@[simp] theorem resolveMembers_eq (xs : List (Node .objectMember)) :
    resolveMembers xs = xs.mapM' resolve := by
  induction xs with
  | nil => rfl
  | cons x xs ih => rw [resolveMembers, ih, List.mapM']

@[simp] theorem resolveProperties_eq (xs : List (Node .patternProperty)) :
    resolveProperties xs = xs.mapM' resolve := by
  induction xs with
  | nil => rfl
  | cons x xs ih => rw [resolveProperties, ih, List.mapM']

@[simp] theorem resolveElements_eq (xs : List (Node .element)) :
    resolveElements xs = xs.mapM' resolve := by
  induction xs with
  | nil => rfl
  | cons x xs ih => rw [resolveElements, ih, List.mapM']

@[simp] theorem resolveStatements_eq (xs : List (Node .statement)) :
    resolveStatements xs = xs.mapM' resolve := by
  induction xs with
  | nil => rfl
  | cons x xs ih => rw [resolveStatements, ih, List.mapM']

@[simp] theorem resolveClassElements_eq (xs : List (Node .classElement)) :
    resolveClassElements xs = xs.mapM' resolve := by
  induction xs with
  | nil => rfl
  | cons x xs ih => rw [resolveClassElements, ih, List.mapM']

@[simp] theorem resolveCases_eq (xs : List (Node .switchCase)) :
    resolveCases xs = xs.mapM' resolve := by
  induction xs with
  | nil => rfl
  | cons x xs ih => rw [resolveCases, ih, List.mapM']

@[simp] theorem resolveOptionals_eq (xs : List (Option (Node .expression))) :
    resolveOptionals xs = xs.mapM' (Option.mapM resolve) := by
  induction xs with
  | nil => rfl
  | cons x xs ih => rw [resolveOptionals, ih, resolveExpression?_eq, List.mapM']

@[simp] theorem resolveOptionalElements_eq (xs : List (Option (Node .element))) :
    resolveOptionalElements xs = xs.mapM' (Option.mapM resolve) := by
  induction xs with
  | nil => rfl
  | cons x xs ih =>
    cases x with
    | none => rw [resolveOptionalElements, ih]; rfl
    | some x => rw [resolveOptionalElements, ih]; rfl

/-- Where declarators are not declared one by one, they are resolved like any list. -/
theorem resolveDeclarators_eq {kind : VariableKind} (h : kind.isLexical = false)
    (xs : List (Node .declarator)) : resolveDeclarators kind xs = xs.mapM' resolve := by
  induction xs with
  | nil => rfl
  | cons x xs ih => rw [resolveDeclarators, h, ih, List.mapM']; rfl

section

variable {form : Form}

/-- Nodes that are resolved one after the other are the same but for their numbers. -/
theorem erase_mapM' {xs : List (Node form)} (h : ∀ x ∈ xs, ∀ table, (x.resolve table).1.erase = x)
    (table : ScopeTable) : (xs.mapM' resolve table).1.map erase = xs := by
  induction xs generalizing table with
  | nil => rfl
  | cons x xs ih =>
    rw [List.forall_mem_cons] at h
    show erase (x.resolve table).1 :: (xs.mapM' resolve (x.resolve table).2).1.map erase = _
    rw [h.1, ih h.2]

/-- Declarators that are resolved one after the other are the same but for their numbers. -/
theorem erase_resolveDeclarators {kind : VariableKind} {xs : List (Node .declarator)}
    (h : ∀ x ∈ xs, ∀ table, (x.resolve table).1.erase = x) (table : ScopeTable) :
    (resolveDeclarators kind xs table).1.map erase = xs := by
  induction xs generalizing table with
  | nil => rfl
  | cons x xs ih =>
    rw [List.forall_mem_cons] at h
    rw [resolveDeclarators]
    cases kind.isLexical with
    | true =>
      show erase (x.resolve _).1 :: (resolveDeclarators kind xs _).1.map erase = _
      rw [h.1, ih h.2]
    | false =>
      show erase (x.resolve _).1 :: (resolveDeclarators kind xs _).1.map erase = _
      rw [h.1, ih h.2]

/-- A node that may be missing is the same but for its numbers. -/
theorem erase_mapM {x : Option (Node form)} (h : ∀ y ∈ x, ∀ table, (y.resolve table).1.erase = y)
    (table : ScopeTable) : (x.mapM resolve table).1.map erase = x := by
  cases x with
  | none => rfl
  | some x => exact congrArg some (h x rfl table)

/-- A list with holes is the same but for its numbers. -/
theorem erase_mapM'_mapM {xs : List (Option (Node form))}
    (h : ∀ x ∈ xs.reduceOption, ∀ table, (x.resolve table).1.erase = x) (table : ScopeTable) :
    (xs.mapM' (Option.mapM resolve) table).1.map (Option.map erase) = xs := by
  induction xs generalizing table with
  | nil => rfl
  | cons x xs ih =>
    have hx : ∀ y ∈ x, ∀ table, (y.resolve table).1.erase = y := by
      rintro y rfl
      exact h y (by simp [List.reduceOption_mem_iff])
    have hxs : ∀ y ∈ xs.reduceOption, ∀ table, (y.resolve table).1.erase = y := by
      intro y hy
      exact h y (by simp_all [List.reduceOption_mem_iff])
    show (x.mapM resolve table).1.map erase ::
      (xs.mapM' (Option.mapM resolve) (x.mapM resolve table).2).1.map (Option.map erase) = _
    rw [erase_mapM hx, ih hxs]

end

end Node

/-- A name without a number stays as it is. -/
theorem Identifier.erase_eq {id : Identifier} (h : id.scope = 0) : id.erase = id := by
  cases id
  cases h
  rfl

/-- A name without a number, if there is one, stays as it is. -/
theorem Identifier.map_erase_eq {id : Option Identifier}
    (h : ∀ scope ∈ id.toList.map Identifier.scope, scope = 0) : id.map Identifier.erase = id := by
  cases id with
  | none => rfl
  | some id => exact congrArg some (Identifier.erase_eq (h _ (by simp)))

/-- A name that is resolved is the same name. -/
theorem Resolution.erase_identifier? {id : Option Identifier}
    (h : ∀ scope ∈ id.toList.map Identifier.scope, scope = 0) (table : ScopeTable) :
    (identifier? id table).1.map Identifier.erase = id := by
  cases id with
  | none => rfl
  | some id => exact congrArg some (Identifier.erase_eq (h id.scope (by simp)))

/-- What holds of a result whatever the scope is, holds with or without a scope for a loop. -/
theorem Resolution.inLoopScope_fst {α : Type} {P : α → Prop} {declares : Bool} {scope : ScopeId}
    {inner : ScopeId → Resolution α} (h : ∀ scope table, P (inner scope table).1)
    (table : ScopeTable) : P (inLoopScope declares scope inner table).1 := by
  cases declares <;> exact h _ _

open Node in
/-- Resolving changes nothing but the numbers of scopes. -/
theorem Parsed.erase_resolve {form : Form} {x : Node form} (h : Parsed x) (table : ScopeTable) :
    (x.resolve table).1.erase = x := by
  induction x using Node.induction_two generalizing table with
  | node x below =>
    have ih : ∀ p ∈ x.parts, ∀ table, (p.node.resolve table).1.erase = p.node :=
      fun p hp table => (below p hp).1 (h.of_mem_parts p hp) table
    have hzero := h.stamps_eq
    cases x with
    | template literal =>
      exact congrArg Node.template (List.forall_mem_singleton.mp ih _)
    | functionExpression definition =>
      exact congrArg Node.functionExpression (List.forall_mem_singleton.mp ih _)
    | classExpression definition =>
      exact congrArg Node.classExpression (List.forall_mem_singleton.mp ih _)
    | unary span operator argument =>
      exact congrArg (Node.unary span operator) (List.forall_mem_singleton.mp ih _)
    | update span operator leading argument =>
      exact congrArg (Node.update span operator leading) (List.forall_mem_singleton.mp ih _)
    | optionalChain span expression =>
      exact congrArg (Node.optionalChain span) (List.forall_mem_singleton.mp ih _)
    | spread span argument =>
      exact congrArg (Node.spread span) (List.forall_mem_singleton.mp ih _)
    | awaitValue span argument =>
      exact congrArg (Node.awaitValue span) (List.forall_mem_singleton.mp ih _)
    | spreadMember span argument =>
      exact congrArg (Node.spreadMember span) (List.forall_mem_singleton.mp ih _)
    | computedKey expression =>
      exact congrArg Node.computedKey (List.forall_mem_singleton.mp ih _)
    | memberTarget expression =>
      exact congrArg Node.memberTarget (List.forall_mem_singleton.mp ih _)
    | rest span argument =>
      exact congrArg (Node.rest span) (List.forall_mem_singleton.mp ih _)
    | declarationInit d =>
      exact congrArg Node.declarationInit (List.forall_mem_singleton.mp ih _)
    | expressionInit expression =>
      exact congrArg Node.expressionInit (List.forall_mem_singleton.mp ih _)
    | declarationHead d =>
      exact congrArg Node.declarationHead (List.forall_mem_singleton.mp ih _)
    | patternHead pattern =>
      exact congrArg Node.patternHead (List.forall_mem_singleton.mp ih _)
    | blockStatement body =>
      exact congrArg Node.blockStatement (List.forall_mem_singleton.mp ih _)
    | expressionStatement span expression =>
      exact congrArg (Node.expressionStatement span) (List.forall_mem_singleton.mp ih _)
    | throwValue span argument =>
      exact congrArg (Node.throwValue span) (List.forall_mem_singleton.mp ih _)
    | variableStatement d =>
      exact congrArg Node.variableStatement (List.forall_mem_singleton.mp ih _)
    | taggedTemplate span tag quasi =>
      simp only [parts, List.forall_mem_cons] at ih
      exact congrArg₂ (Node.taggedTemplate span) (ih.1 _) (ih.2.1 _)
    | binary span operator left right =>
      simp only [parts, List.forall_mem_cons] at ih
      exact congrArg₂ (Node.binary span operator) (ih.1 _) (ih.2.1 _)
    | assignment span operator target value =>
      simp only [parts, List.forall_mem_cons] at ih
      exact congrArg₂ (Node.assignment span operator) (ih.1 _) (ih.2.1 _)
    | ifThen span test consequent =>
      simp only [parts, List.forall_mem_cons] at ih
      exact congrArg₂ (Node.ifThen span) (ih.1 _) (ih.2.1 _)
    | whileLoop span test body =>
      simp only [parts, List.forall_mem_cons] at ih
      exact congrArg₂ (Node.whileLoop span) (ih.1 _) (ih.2.1 _)
    | doWhile span body test =>
      simp only [parts, List.forall_mem_cons] at ih
      exact congrArg₂ (Node.doWhile span) (ih.1 _) (ih.2.1 _)
    | tryFinally span body finalizer =>
      simp only [parts, List.forall_mem_cons] at ih
      exact congrArg₂ (Node.tryFinally span) (ih.1 _) (ih.2.1 _)
    | withObject span base body =>
      simp only [parts, List.forall_mem_cons] at ih
      exact congrArg₂ (Node.withObject span) (ih.1 _) (ih.2.1 _)
    | index span base key isOptional =>
      simp only [parts, List.forall_mem_cons] at ih
      exact congrArg₂ (Node.index span · · isOptional) (ih.1 _) (ih.2.1 _)
    | property span key value kind isMethod =>
      simp only [parts, List.forall_mem_cons] at ih
      exact congrArg₂ (Node.property span · · kind isMethod) (ih.1 _) (ih.2.1 _)
    | patternProperty span key value isShorthand =>
      simp only [parts, List.forall_mem_cons] at ih
      exact congrArg₂ (Node.patternProperty span · · isShorthand) (ih.1 _) (ih.2.1 _)
    | method span key kind isStatic value =>
      simp only [parts, List.forall_mem_cons] at ih
      exact congrArg₂ (Node.method span · kind isStatic ·) (ih.1 _) (ih.2.1 _)
    | conditional span test consequent alternate =>
      simp only [parts, List.forall_mem_cons] at ih
      show Node.conditional span (erase (test.resolve table).1) (erase (consequent.resolve _).1)
        (erase (alternate.resolve _).1) = _
      rw [ih.1, ih.2.1, ih.2.2.1]
    | ifElse span test consequent alternate =>
      simp only [parts, List.forall_mem_cons] at ih
      show Node.ifElse span (erase (test.resolve table).1) (erase (consequent.resolve _).1)
        (erase (alternate.resolve _).1) = _
      rw [ih.1, ih.2.1, ih.2.2.1]
    | member span base name isOptional =>
      simp only [parts, List.forall_mem_cons] at ih
      have hname : name.erase = name := by
        cases name with
        | identifier id => exact congrArg _ (Identifier.erase_eq (hzero _ (by simp [stamps])))
        | hidden name => rfl
      exact congrArg₂ (Node.member span · · isOptional) (ih.1 _) hname
    | metaProperty span holder name =>
      have hholder := Identifier.erase_eq (hzero holder.scope (by simp [stamps]))
      have hname := Identifier.erase_eq (hzero name.scope (by simp [stamps]))
      exact congrArg₂ (Node.metaProperty span) hholder hname
    | reference id =>
      exact congrArg Node.reference (Identifier.erase_eq (hzero id.scope (by simp [stamps])))
    | binding id =>
      exact congrArg Node.binding (Identifier.erase_eq (hzero id.scope (by simp [stamps])))
    | identifierKey id =>
      exact congrArg Node.identifierKey (Identifier.erase_eq (hzero _ (by simp [stamps])))
    | breakFrom span label =>
      exact congrArg (Node.breakFrom span) (Identifier.map_erase_eq hzero)
    | continueWith span label =>
      exact congrArg (Node.continueWith span) (Identifier.map_erase_eq hzero)
    | labeled span label body =>
      simp only [parts, List.forall_mem_cons] at ih
      have hlabel := Identifier.erase_eq (hzero label.scope (by simp [stamps]))
      exact congrArg₂ (Node.labeled span) hlabel (ih.1 _)
    | array span elements =>
      simp only [parts, List.forall_mem_map] at ih
      show Node.array span (mapOptionals .erasing (resolveOptionals elements table).1) = _
      rw [mapOptionals_eq, resolveOptionals_eq, erase_mapM'_mapM ih]
    | object span members =>
      simp only [parts, List.forall_mem_map] at ih
      show Node.object span (mapMembers .erasing (resolveMembers members table).1) = _
      rw [mapMembers_eq, resolveMembers_eq, erase_mapM' ih]
    | sequence span expressions =>
      simp only [parts, List.forall_mem_map] at ih
      show Node.sequence span (mapExpressions .erasing (resolveExpressions expressions table).1) = _
      rw [mapExpressions_eq, resolveExpressions_eq, erase_mapM' ih]
    | templateLiteral span quasis expressions =>
      simp only [parts, List.forall_mem_map] at ih
      show Node.templateLiteral span (quasis.map (TemplateElement.relocate fun span => span))
        (mapExpressions .erasing (resolveExpressions expressions table).1) = _
      rw [TemplateElement.map_relocate_id, mapExpressions_eq, resolveExpressions_eq,
        erase_mapM' ih]
    | call span callee arguments isOptional =>
      simp only [parts, List.forall_mem_cons, List.forall_mem_map] at ih
      show Node.call span (erase (callee.resolve table).1)
        (mapExpressions .erasing (resolveExpressions arguments _).1) isOptional = _
      rw [mapExpressions_eq, resolveExpressions_eq, erase_mapM' ih.2, ih.1]
    | construct span callee arguments =>
      simp only [parts, List.forall_mem_cons, List.forall_mem_map] at ih
      show Node.construct span (erase (callee.resolve table).1)
        (mapExpressions .erasing (resolveExpressions arguments _).1) = _
      rw [mapExpressions_eq, resolveExpressions_eq, erase_mapM' ih.2, ih.1]
    | yieldValue span argument delegate =>
      simp only [parts, List.forall_mem_map, Option.mem_toList] at ih
      show Node.yieldValue span (mapExpression? .erasing (resolveExpression? argument table).1)
        delegate = _
      rw [mapExpression?_eq, resolveExpression?_eq, erase_mapM ih]
    | returnValue span argument =>
      simp only [parts, List.forall_mem_map, Option.mem_toList] at ih
      show Node.returnValue span (mapExpression? .erasing (resolveExpression? argument table).1) = _
      rw [mapExpression?_eq, resolveExpression?_eq, erase_mapM ih]
    | shorthand span name initializer =>
      simp only [parts, List.forall_mem_map, Option.mem_toList] at ih
      show Node.shorthand span name.erase
        (mapExpression? .erasing (resolveExpression? initializer table).1) = _
      rw [mapExpression?_eq, resolveExpression?_eq, erase_mapM ih,
        Identifier.erase_eq (hzero _ (by simp [stamps]))]
    | arrayPattern span elements remainder =>
      simp only [parts, List.forall_mem_append, List.forall_mem_map, Option.mem_toList] at ih
      show Node.arrayPattern span (mapOptionalElements .erasing (resolveOptionalElements
        elements table).1)
        (mapRest? .erasing (resolveRest? remainder _).1) = _
      rw [mapOptionalElements_eq, resolveOptionalElements_eq, erase_mapM'_mapM ih.1,
        mapRest?_eq, resolveRest?_eq, erase_mapM ih.2]
    | objectPattern span properties remainder =>
      simp only [parts, List.forall_mem_append, List.forall_mem_map, Option.mem_toList] at ih
      show Node.objectPattern span (mapProperties .erasing (resolveProperties properties table).1)
        (mapRest? .erasing (resolveRest? remainder _).1) = _
      rw [mapProperties_eq, resolveProperties_eq, erase_mapM' ih.1, mapRest?_eq, resolveRest?_eq,
        erase_mapM ih.2]
    | parameters span params remainder =>
      simp only [parts, List.forall_mem_append, List.forall_mem_map, Option.mem_toList] at ih
      show Node.parameters span (mapElements .erasing (resolveElements params _).1)
        (mapRest? .erasing (resolveRest? remainder _).1) = _
      rw [mapElements_eq, resolveElements_eq, erase_mapM' ih.1, mapRest?_eq, resolveRest?_eq,
        erase_mapM ih.2]
    | element span target initializer =>
      simp only [parts, List.forall_mem_cons, List.forall_mem_map, Option.mem_toList] at ih
      show Node.element span (erase (target.resolve table).1)
        (mapExpression? .erasing (resolveExpression? initializer _).1) = _
      rw [mapExpression?_eq, resolveExpression?_eq, erase_mapM ih.2, ih.1]
    | declarator span target init =>
      simp only [parts, List.forall_mem_cons, List.forall_mem_map, Option.mem_toList] at ih
      show Node.declarator span (erase (target.resolve table).1)
        (mapExpression? .erasing (resolveExpression? init _).1) = _
      rw [mapExpression?_eq, resolveExpression?_eq, erase_mapM ih.2, ih.1]
    | field span key isStatic value =>
      simp only [parts, List.forall_mem_cons, List.forall_mem_map, Option.mem_toList] at ih
      show Node.field span (erase (key.resolve table).1) isStatic
        (mapExpression? .erasing (resolveExpression? value _).1) = _
      rw [mapExpression?_eq, resolveExpression?_eq, erase_mapM ih.2, ih.1]
    | switchCase span test consequent =>
      simp only [parts, List.forall_mem_append, List.forall_mem_map, Option.mem_toList] at ih
      show Node.switchCase span (mapExpression? .erasing (resolveExpression? test table).1)
        (mapStatements .erasing (resolveStatements consequent _).1) = _
      rw [mapExpression?_eq, resolveExpression?_eq, erase_mapM ih.1, mapStatements_eq,
        resolveStatements_eq, erase_mapM' ih.2]
    | tryCatch span body handler finalizer =>
      simp only [parts, List.forall_mem_cons, List.forall_mem_map, Option.mem_toList] at ih
      show Node.tryCatch span (erase (body.resolve table).1) (erase (handler.resolve _).1)
        (mapBlock? .erasing (resolveBlock? finalizer _).1) = _
      rw [mapBlock?_eq, resolveBlock?_eq, erase_mapM ih.2.2, ih.1, ih.2.1]
    | arrow span params body isAsync scope =>
      simp only [parts, List.forall_mem_cons] at ih
      obtain rfl : scope = 0 := hzero scope (by simp [stamps])
      exact congrArg₂ (Node.arrow span · · isAsync 0) (ih.1 _) (ih.2.1 _)
    | conciseArrow span params body isAsync scope =>
      simp only [parts, List.forall_mem_cons] at ih
      obtain rfl : scope = 0 := hzero scope (by simp [stamps])
      exact congrArg₂ (Node.conciseArrow span · · isAsync 0) (ih.1 _) (ih.2.1 _)
    | function span name params body isGenerator isAsync scope =>
      simp only [parts, List.forall_mem_cons] at ih
      simp only [stamps, List.forall_mem_cons] at hzero
      obtain ⟨rfl, hname⟩ := hzero
      show Node.function span ((identifier? name _).1.map Identifier.erase)
        (erase (params.resolve _).1) (erase (body.resolve _).1) isGenerator isAsync 0 = _
      rw [erase_identifier? hname, ih.1, ih.2.1]
    | block span body scope =>
      simp only [parts, List.forall_mem_map] at ih
      obtain rfl : scope = 0 := hzero scope (by simp [stamps])
      show Node.block span (mapStatements .erasing (resolveStatements body _).1) 0 = _
      rw [mapStatements_eq, resolveStatements_eq, erase_mapM' ih]
    | staticBlock span body scope =>
      simp only [parts, List.forall_mem_map] at ih
      obtain rfl : scope = 0 := hzero scope (by simp [stamps])
      show Node.staticBlock span (mapStatements .erasing (resolveStatements body _).1) 0 = _
      rw [mapStatements_eq, resolveStatements_eq, erase_mapM' ih]
    | classDefinition span name superClass bodySpan elements scope =>
      simp only [parts, List.forall_mem_append, List.forall_mem_map, Option.mem_toList] at ih
      simp only [stamps, List.forall_mem_cons] at hzero
      obtain ⟨rfl, hname⟩ := hzero
      show Node.classDefinition span ((identifier? name _).1.map Identifier.erase)
        (mapExpression? .erasing (resolveExpression? superClass _).1) bodySpan
        (mapClassElements .erasing (resolveClassElements elements _).1) 0 = _
      rw [erase_identifier? hname, mapExpression?_eq, resolveExpression?_eq, erase_mapM ih.1,
        mapClassElements_eq, resolveClassElements_eq, erase_mapM' ih.2]
    | catchClause span param body scope =>
      simp only [parts, List.forall_mem_append, List.forall_mem_map, Option.mem_toList,
        List.forall_mem_singleton] at ih
      obtain rfl : scope = 0 := hzero scope (by simp [stamps])
      show Node.catchClause span (mapPattern? .erasing (resolvePattern? param _).1)
        (erase (body.resolve _).1) 0 = _
      rw [mapPattern?_eq, resolvePattern?_eq, erase_mapM ih.1, ih.2]
    | switch span discriminant cases scope =>
      simp only [parts, List.forall_mem_cons, List.forall_mem_map] at ih
      obtain rfl : scope = 0 := hzero scope (by simp [stamps])
      show Node.switch span (erase (discriminant.resolve table).1)
        (mapCases .erasing (resolveCases cases _).1) 0 = _
      rw [mapCases_eq, resolveCases_eq, erase_mapM' ih.2, ih.1]
    | forLoop span init test step body scope =>
      have hinit := ih ⟨.complete, init⟩ (by simp [parts])
      have htest : ∀ e ∈ test, ∀ table, (e.resolve table).1.erase = e :=
        fun e he => ih ⟨.complete, e⟩ (by simp [parts, Option.mem_def.mp he])
      have hstep : ∀ e ∈ step, ∀ table, (e.resolve table).1.erase = e :=
        fun e he => ih ⟨.complete, e⟩ (by simp [parts, Option.mem_def.mp he])
      have hbody := ih ⟨.complete, body⟩ (by simp [parts])
      obtain rfl : scope = 0 := hzero scope (by simp [stamps])
      refine inLoopScope_fst (P := fun y : Statement => y.erase = _) (fun scope table => ?_) table
      show Node.forLoop span (erase (init.resolve table).1)
        (mapExpression? .erasing (resolveExpression? test _).1)
        (mapExpression? .erasing (resolveExpression? step _).1) (erase (body.resolve _).1) 0 = _
      rw [mapExpression?_eq, resolveExpression?_eq, erase_mapM htest, mapExpression?_eq,
        resolveExpression?_eq, erase_mapM hstep, hinit, hbody]
    | forIn span left right body scope =>
      simp only [parts, List.forall_mem_cons] at ih
      obtain rfl : scope = 0 := hzero scope (by simp [stamps])
      refine inLoopScope_fst (P := fun y : Statement => y.erase = _) (fun scope table => ?_) table
      show Node.forIn span (erase (left.resolve table).1) (erase (right.resolve _).1)
        (erase (body.resolve _).1) 0 = _
      rw [ih.1, ih.2.1, ih.2.2.1]
    | forOf span isAwait left right body scope =>
      simp only [parts, List.forall_mem_cons] at ih
      obtain rfl : scope = 0 := hzero scope (by simp [stamps])
      refine inLoopScope_fst (P := fun y : Statement => y.erase = _) (fun scope table => ?_) table
      show Node.forOf span isAwait (erase (left.resolve table).1) (erase (right.resolve _).1)
        (erase (body.resolve _).1) 0 = _
      rw [ih.1, ih.2.1, ih.2.2.1]
    | declaration span kind ds =>
      simp only [parts, List.forall_mem_map] at ih
      show Node.declaration span kind (mapDeclarators .erasing (resolveDeclarators kind ds
        table).1) = _
      rw [mapDeclarators_eq, erase_resolveDeclarators ih]
    | functionDeclaration definition =>
      have hdefinition := h.of_mem_parts ⟨.complete, definition⟩ (by simp [parts])
      have hinner : ∀ q ∈ definition.parts, ∀ table, (q.node.resolve table).1.erase = q.node :=
        fun q hq => (below ⟨.complete, definition⟩ (by simp [parts])).2 q hq
          (hdefinition.of_mem_parts q hq)
      cases definition with
      | function span name params body isGenerator isAsync scope =>
        simp only [parts, List.forall_mem_cons] at hinner
        have hown := hdefinition.stamps_eq
        simp only [stamps, List.forall_mem_cons] at hown
        obtain ⟨rfl, hname⟩ := hown
        show Node.functionDeclaration (.function span ((identifier? name _).1.map Identifier.erase)
          (erase (params.resolve _).1) (erase (body.resolve _).1) isGenerator isAsync 0) = _
        rw [erase_identifier? hname, hinner.1, hinner.2.1]
    | classDeclaration definition =>
      have hdefinition := h.of_mem_parts ⟨.declared, definition⟩ (by simp [parts])
      have hinner : ∀ q ∈ definition.parts, ∀ table, (q.node.resolve table).1.erase = q.node :=
        fun q hq => (below ⟨.declared, definition⟩ (by simp [parts])).2 q hq
          (hdefinition.of_mem_parts q hq)
      cases definition with
      | classDefinition span name superClass bodySpan elements scope =>
        simp only [parts, List.forall_mem_append, List.forall_mem_map, Option.mem_toList]
          at hinner
        have hown := hdefinition.stamps_eq
        simp only [stamps, List.forall_mem_cons] at hown
        obtain ⟨rfl, hname⟩ := hown
        show Node.classDeclaration
          (.classDefinition span ((identifier? name _).1.map Identifier.erase)
            (mapExpression? .erasing (resolveExpression? superClass _).1) bodySpan
            (mapClassElements .erasing (resolveClassElements elements _).1) 0) = _
        rw [erase_identifier? hname, mapExpression?_eq, resolveExpression?_eq,
          erase_mapM hinner.1, mapClassElements_eq, resolveClassElements_eq,
          erase_mapM' hinner.2]
    | _ => rfl

/-- A tree that has no numbers yet has none to set back. -/
theorem Parsed.erase_eq {form : Form} {x : Node form} (h : Parsed x) : x.erase = x := by
  have hx := h.erase_resolve {}
  rw [← hx, Node.erase_erase]

namespace Part

/-- Parts with their names resolved, one after the other. -/
def resolveAll : List Part → Resolution (List Part)
  | [] => return []
  | p :: more => return ⟨p.role, ← p.node.resolve⟩ :: (← resolveAll more)

/-- The first part is resolved first. -/
theorem resolveAll_cons (p : Part) (ps : List Part) (table : ScopeTable) :
    resolveAll (p :: ps) table =
      (⟨p.role, (p.node.resolve table).1⟩ :: (resolveAll ps (p.node.resolve table).2).1,
        (resolveAll ps (p.node.resolve table).2).2) := rfl

/-- Parts are resolved one behind the other. -/
theorem resolveAll_append (ps qs : List Part) (table : ScopeTable) :
    resolveAll (ps ++ qs) table =
      ((resolveAll ps table).1 ++ (resolveAll qs (resolveAll ps table).2).1,
        (resolveAll qs (resolveAll ps table).2).2) := by
  induction ps generalizing table with
  | nil => rfl
  | cons p ps ih => rw [List.cons_append, resolveAll_cons, ih, resolveAll_cons, List.cons_append]

/-- Parts in one role are resolved as the list of their nodes. -/
theorem resolveAll_map {form : Form} (role : Role) (xs : List (Node form)) (table : ScopeTable) :
    resolveAll (xs.map (⟨role, ·⟩)) table =
      ((xs.mapM' Node.resolve table).1.map (⟨role, ·⟩), (xs.mapM' Node.resolve table).2) := by
  induction xs generalizing table with
  | nil => rfl
  | cons x xs ih =>
    rw [List.map_cons, resolveAll_cons, ih]
    rfl

/-- A part that may be missing is resolved where it is present. -/
theorem resolveAll_toList {form : Form} (role : Role) (x : Option (Node form))
    (table : ScopeTable) :
    resolveAll (x.toList.map (⟨role, ·⟩)) table =
      ((x.mapM Node.resolve table).1.toList.map (⟨role, ·⟩), (x.mapM Node.resolve table).2) := by
  cases x <;> rfl

/-- The holes of a list are left out. -/
theorem resolveAll_reduceOption {form : Form} (role : Role) (xs : List (Option (Node form)))
    (table : ScopeTable) :
    resolveAll (xs.reduceOption.map (⟨role, ·⟩)) table =
      ((xs.mapM' (Option.mapM Node.resolve) table).1.reduceOption.map (⟨role, ·⟩),
        (xs.mapM' (Option.mapM Node.resolve) table).2) := by
  induction xs generalizing table with
  | nil => rfl
  | cons x xs ih =>
    cases x with
    | none => exact ih table
    | some x =>
      rw [List.reduceOption_cons_of_some, List.map_cons, resolveAll_cons, ih]
      rfl

end Part

/-- A name with its scope looked up, if it stands for a variable. -/
def NameRole.resolve (role : NameRole) (table : ScopeTable) (id : Identifier) : Identifier :=
  match role with
  | .reference | .binding => { id with scope := table.lookup id.name }
  | .label | .property => id

namespace Node

/-- Whether a node is resolved part by part: it opens no scope, and declares nothing. -/
def isPlainlyResolved {form : Form} : Node form → Bool
  | .arrow .. | .conciseArrow .. | .parameters .. | .function .. | .block ..
  | .classDefinition .. | .staticBlock .. | .declaration .. | .catchClause .. | .forLoop ..
  | .forIn .. | .forOf .. | .switch .. | .functionDeclaration _ | .classDeclaration _ => false
  | _ => true

/-- A node that is resolved plainly has its parts resolved in turn. -/
theorem parts_resolve {form : Form} {x : Node form} (hx : x.isPlainlyResolved = true)
    (table : ScopeTable) :
    Part.resolveAll x.parts table = ((x.resolve table).1.parts, (x.resolve table).2) := by
  cases x with
  | arrow | conciseArrow | parameters | function | block | classDefinition | staticBlock
  | declaration | catchClause | forLoop | forIn | forOf | switch | functionDeclaration
  | classDeclaration => exact nomatch hx
  | array span elements =>
    show Part.resolveAll (elements.reduceOption.map (⟨.cover, ·⟩)) table = _
    rw [Part.resolveAll_reduceOption, ← resolveOptionals_eq]
    rfl
  | object span members =>
    show Part.resolveAll (members.map (⟨.cover, ·⟩)) table = _
    rw [Part.resolveAll_map, ← resolveMembers_eq]
    rfl
  | sequence span expressions =>
    show Part.resolveAll (expressions.map (⟨.cover, ·⟩)) table = _
    rw [Part.resolveAll_map, ← resolveExpressions_eq]
    rfl
  | templateLiteral span quasis expressions =>
    show Part.resolveAll (expressions.map (⟨.complete, ·⟩)) table = _
    rw [Part.resolveAll_map, ← resolveExpressions_eq]
    rfl
  | call span callee arguments isOptional =>
    show Part.resolveAll (⟨.complete, callee⟩ :: arguments.map (⟨.complete, ·⟩)) table = _
    rw [Part.resolveAll_cons, Part.resolveAll_map, ← resolveExpressions_eq]
    rfl
  | construct span callee arguments =>
    show Part.resolveAll (⟨.callee, callee⟩ :: arguments.map (⟨.complete, ·⟩)) table = _
    rw [Part.resolveAll_cons, Part.resolveAll_map, ← resolveExpressions_eq]
    rfl
  | yieldValue _ e | shorthand _ _ e | returnValue _ e =>
    show Part.resolveAll (e.toList.map (⟨.complete, ·⟩)) table = _
    rw [Part.resolveAll_toList, ← resolveExpression?_eq]
    rfl
  | element _ x e | field _ x _ e | declarator _ x e =>
    show Part.resolveAll (⟨.complete, x⟩ :: e.toList.map (⟨.complete, ·⟩)) table = _
    rw [Part.resolveAll_cons, Part.resolveAll_toList, ← resolveExpression?_eq]
    rfl
  | arrayPattern span elements remainder =>
    show Part.resolveAll (elements.reduceOption.map (⟨.complete, ·⟩) ++
      remainder.toList.map (⟨.complete, ·⟩)) table = _
    rw [Part.resolveAll_append, Part.resolveAll_reduceOption, Part.resolveAll_toList,
      ← resolveOptionalElements_eq, ← resolveRest?_eq]
    rfl
  | objectPattern span properties remainder =>
    show Part.resolveAll (properties.map (⟨.complete, ·⟩) ++
      remainder.toList.map (⟨.complete, ·⟩)) table = _
    rw [Part.resolveAll_append, Part.resolveAll_map, Part.resolveAll_toList,
      ← resolveProperties_eq, ← resolveRest?_eq]
    rfl
  | switchCase span test consequent =>
    show Part.resolveAll (test.toList.map (⟨.complete, ·⟩) ++
      consequent.map (⟨.complete, ·⟩)) table = _
    rw [Part.resolveAll_append, Part.resolveAll_toList, Part.resolveAll_map,
      ← resolveStatements_eq, ← resolveExpression?_eq]
    rfl
  | tryCatch span body handler finalizer =>
    show Part.resolveAll (⟨.complete, body⟩ :: ⟨.complete, handler⟩ ::
      finalizer.toList.map (⟨.complete, ·⟩)) table = _
    rw [Part.resolveAll_cons, Part.resolveAll_cons, Part.resolveAll_toList, ← resolveBlock?_eq]
    rfl
  | _ => rfl

/-- Whether a node is resolved part by part does not change by resolving it. -/
theorem isPlainlyResolved_resolve {form : Form} {x : Node form} (hx : x.isPlainlyResolved = true)
    (table : ScopeTable) : (x.resolve table).1.isPlainlyResolved = true := by
  cases x with
  | arrow | conciseArrow | parameters | function | block | classDefinition | staticBlock
  | declaration | catchClause | forLoop | forIn | forOf | switch | functionDeclaration
  | classDeclaration => exact nomatch hx
  | _ => rfl

/-- The names of a node that is resolved plainly, resolved. -/
theorem ownNames_resolve {form : Form} {x : Node form} (hx : x.isPlainlyResolved = true)
    (table : ScopeTable) : (x.resolve table).1.ownNames =
      x.ownNames.map fun (role, id) => (role, role.resolve table id) := by
  cases x with
  | arrow | conciseArrow | parameters | function | block | classDefinition | staticBlock
  | declaration | catchClause | forLoop | forIn | forOf | switch | functionDeclaration
  | classDeclaration => exact nomatch hx
  | member span base name isOptional => cases name <;> rfl
  | breakFrom span label | continueWith span label => cases label <;> rfl
  | _ => rfl

/-- The layout of a node that is resolved plainly. -/
theorem layout_eq {form : Form} {x : Node form} (hx : x.isPlainlyResolved = true)
    (declared : Bool) (frames : List Frame) :
    x.layout declared frames = namesIn frames x.ownNames ++ partsIn frames x.parts := by
  cases x with
  | arrow | conciseArrow | parameters | function | block | classDefinition | staticBlock
  | declaration | catchClause | forLoop | forIn | forOf | switch | functionDeclaration
  | classDeclaration => exact nomatch hx
  | _ => rfl

section

variable {form : Form} {x y : Node form}

@[simp] theorem declaredNames_map_erase (ds : List Declaration) :
    declaredNames (ds.map eraseDeclared) = declaredNames ds := by
  simp only [declaredNames, List.map_map]
  rfl

/-- A node introduces the same without its numbers. -/
theorem introduces_erase (x : Node form) :
    x.erase.introduces = x.introduces.map eraseDeclared := by
  have hdeclaration : ∀ d : Node .declaration,
      d.erase.introduces = d.introduces.map eraseDeclared := by
    rintro ⟨⟩
    rename_i span kind ds
    show (if kind.isLexical then (declaratorNames (mapDeclarators .erasing ds)).map _ else []) =
      (if kind.isLexical then (declaratorNames ds).map _ else []).map _
    rw [mapDeclarators_eq, declaratorNames_erase]
    split
    · exact map_declared_erase _ _
    · rfl
  cases x with
  | declaration span kind ds => exact hdeclaration _
  | declarationInit d | declarationHead d => exact hdeclaration d
  | parameters span params remainder =>
    show (boundNames (erase (parameters span params remainder))).map _ =
      ((boundNames (parameters span params remainder)).map _).map _
    rw [boundNames_erase, map_declared_erase]
  | _ => rfl

/-- Nodes that differ in numbers only introduce the same names. -/
theorem declaredNames_introduces (h : y.erase = x) :
    declaredNames y.introduces = declaredNames x.introduces := by
  rw [← h, introduces_erase, declaredNames_map_erase]

/-- Nodes that differ in numbers only have the same variables. -/
theorem declaredNames_hoisted (h : y.erase = x) :
    declaredNames y.hoisted = declaredNames x.hoisted := by
  rw [← h, hoisted_erase, declaredNames_map_erase]

/-- Statements that differ in numbers only have the same variables. -/
theorem declaredNames_hoistedAll {xs ys : List Statement} (h : ys.map erase = xs) :
    declaredNames (hoistedAll ys) = declaredNames (hoistedAll xs) := by
  rw [← h, hoistedAll_eq, hoistedAll_eq, flatMap_map_congr fun x _ => hoisted_erase x,
    declaredNames_map_erase]

/-- Statements that differ in numbers only declare the same names lexically. -/
theorem declaredNames_lexical {xs ys : List Statement} (h : ys.map erase = xs) :
    declaredNames (ys.flatMap lexical) = declaredNames (xs.flatMap lexical) := by
  rw [← h, flatMap_map_congr fun x _ => lexical_erase x, declaredNames_map_erase]

/-- Cases that differ in numbers only declare the same names lexically. -/
theorem declaredNames_lexicalInCases {xs ys : List (Node .switchCase)} (h : ys.map erase = xs) :
    declaredNames (lexicalInCases ys) = declaredNames (lexicalInCases xs) := by
  rw [← h, lexicalInCases_erase, declaredNames_map_erase]

/-- Nodes that differ in numbers only bind the same names. -/
theorem names_boundNames (h : y.erase = x) :
    y.boundNames.map (·.name) = x.boundNames.map (·.name) := by
  rw [← h, boundNames_erase, List.map_map]
  rfl

/-- Declarators that differ in numbers only bind the same names. -/
theorem names_declaratorNames {xs ys : List (Node .declarator)} (h : ys.map erase = xs) :
    (declaratorNames ys).map (·.name) = (declaratorNames xs).map (·.name) := by
  rw [← h, declaratorNames_erase, List.map_map]
  rfl

/-- Whether a head declares lexically does not depend on numbers. -/
theorem declaresLexically_erase (x : Node form) :
    x.erase.declaresLexically = x.declaresLexically := by
  cases x with
  | declarationInit d | declarationHead d => cases d; rfl
  | _ => rfl

end

end Node

end EcmaScript
