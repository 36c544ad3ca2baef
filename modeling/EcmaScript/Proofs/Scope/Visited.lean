import EcmaScript.Proofs.Scope.Layout

/-!
# Identifiers that are visited

Every identifier that is met on a walk through a tree is a name of one of its nodes, in the
role that it is met in.
-/

namespace EcmaScript

namespace Node

theorem visitExpression?_eq (x : Option (Node .expression)) :
    visitExpression? x = x.toList.flatMap visits := by
  cases x <;> simp [visitExpression?]

theorem visitPattern?_eq (x : Option (Node .pattern)) :
    visitPattern? x = x.toList.flatMap visits := by
  cases x <;> simp [visitPattern?]

theorem visitBlock?_eq (x : Option (Node .block)) :
    visitBlock? x = x.toList.flatMap visits := by
  cases x <;> simp [visitBlock?]

theorem visitRest?_eq (x : Option (Node .rest)) : visitRest? x = x.toList.flatMap visits := by
  cases x <;> simp [visitRest?]

theorem visitExpressions_eq (xs : List (Node .expression)) :
    visitExpressions xs = xs.flatMap visits := by
  induction xs with
  | nil => rfl
  | cons x xs ih => rw [visitExpressions, ih, List.flatMap_cons]

theorem visitEach_eq (xs : List (Node .expression)) : visitEach xs = xs.map visits := by
  induction xs with
  | nil => rfl
  | cons x xs ih => rw [visitEach, ih, List.map_cons]

theorem visitOptionals_eq (xs : List (Option (Node .expression))) :
    visitOptionals xs = xs.reduceOption.flatMap visits := by
  induction xs with
  | nil => rfl
  | cons x xs ih => cases x <;> simp [visitOptionals, visitExpression?, ih]

theorem visitMembers_eq (xs : List (Node .objectMember)) :
    visitMembers xs = xs.flatMap visits := by
  induction xs with
  | nil => rfl
  | cons x xs ih => rw [visitMembers, ih, List.flatMap_cons]

theorem visitOptionalElements_eq (xs : List (Option (Node .element))) :
    visitOptionalElements xs = xs.reduceOption.flatMap visits := by
  induction xs with
  | nil => rfl
  | cons x xs ih => cases x <;> simp [visitOptionalElements, ih]

theorem visitProperties_eq (xs : List (Node .patternProperty)) :
    visitProperties xs = xs.flatMap visits := by
  induction xs with
  | nil => rfl
  | cons x xs ih => rw [visitProperties, ih, List.flatMap_cons]

theorem visitElements_eq (xs : List (Node .element)) : visitElements xs = xs.flatMap visits := by
  induction xs with
  | nil => rfl
  | cons x xs ih => rw [visitElements, ih, List.flatMap_cons]

theorem visitStatements_eq (xs : List (Node .statement)) :
    visitStatements xs = xs.flatMap visits := by
  induction xs with
  | nil => rfl
  | cons x xs ih => rw [visitStatements, ih, List.flatMap_cons]

theorem visitClassElements_eq (xs : List (Node .classElement)) :
    visitClassElements xs = xs.flatMap visits := by
  induction xs with
  | nil => rfl
  | cons x xs ih => rw [visitClassElements, ih, List.flatMap_cons]

theorem visitDeclarators_eq (xs : List (Node .declarator)) :
    visitDeclarators xs = xs.flatMap visits := by
  induction xs with
  | nil => rfl
  | cons x xs ih => rw [visitDeclarators, ih, List.flatMap_cons]

theorem visitCases_eq (xs : List (Node .switchCase)) : visitCases xs = xs.flatMap visits := by
  induction xs with
  | nil => rfl
  | cons x xs ih => rw [visitCases, ih, List.flatMap_cons]

section

variable {role : NameRole} {id : Identifier}

/-- The pieces of a template are no identifiers. -/
theorem mem_interleave {quasis : List TemplateElement} {visits : List (List Visit)}
    (h : .identifier role id ∈ TemplateElement.interleave quasis visits) :
    ∃ vs ∈ visits, .identifier role id ∈ vs := by
  induction quasis generalizing visits with
  | nil => simp [TemplateElement.interleave] at h
  | cons q quasis ih =>
    cases visits with
    | nil =>
      simp only [TemplateElement.interleave, List.mem_cons, reduceCtorEq, false_or] at h
      exact ih h
    | cons vs visits =>
      simp only [TemplateElement.interleave, List.cons_append, List.mem_cons, List.mem_append,
        reduceCtorEq, false_or] at h
      rcases h with h | h
      · exact ⟨vs, List.mem_cons_self, h⟩
      · obtain ⟨ws, hws, hmem⟩ := ih h
        exact ⟨ws, List.mem_cons_of_mem _ hws, hmem⟩

/-- An identifier that is met before the parts of a node is a name of the node. -/
theorem own_of_mem_visitsAtEntry {form : Form} {x : Node form}
    (h : .identifier role id ∈ x.visitsAtEntry) : (role, id) ∈ x.ownNames := by
  cases x with
  | reference id' =>
    have hmem : Visit.identifier role id ∈ enter (.reference id') [.identifier .reference id'] := h
    simpa [enter, ownNames] using hmem
  | identifierKey id' =>
    have hmem : Visit.identifier role id ∈
        [.propertyKey id'.span false (some id'.name), .identifier .property id'] := h
    simpa [ownNames] using hmem
  | binding id' =>
    have hmem : Visit.identifier role id ∈
        [.construct "pattern" id'.span, .identifier .binding id'] := h
    simpa [ownNames] using hmem
  | _ =>
    simp only [visitsAtEntry, enter, enterAs, List.mem_cons, List.not_mem_nil, reduceCtorEq,
      or_self] at h

/-- An identifier is met before the parts of a node, or among the rest of what is met. -/
theorem own_or_rest {form : Form} {x : Node form} (rest : List Visit)
    (h : .identifier role id ∈ x.visitsAtEntry ++ rest)
    (hrest : .identifier role id ∈ rest →
      (role, id) ∈ x.ownNames ∨ ∃ p ∈ x.parts, .identifier role id ∈ p.node.visits) :
    (role, id) ∈ x.ownNames ∨ ∃ p ∈ x.parts, .identifier role id ∈ p.node.visits := by
  rcases List.mem_append.mp h with h | h
  · exact Or.inl (own_of_mem_visitsAtEntry h)
  · exact hrest h

/-- The same where the rest is met in the parts. -/
theorem own_or_part {form : Form} {x : Node form} (rest : List Visit)
    (h : .identifier role id ∈ x.visitsAtEntry ++ rest)
    (hrest : .identifier role id ∈ rest →
      ∃ p ∈ x.parts, .identifier role id ∈ p.node.visits) :
    (role, id) ∈ x.ownNames ∨ ∃ p ∈ x.parts, .identifier role id ∈ p.node.visits :=
  own_or_rest rest h fun h => Or.inr (hrest h)

/-- An identifier that is met is a name of the node, or is met in one of its parts. -/
theorem own_or_part_of_mem_visits {form : Form} {x : Node form}
    (h : .identifier role id ∈ x.visits) :
    (role, id) ∈ x.ownNames ∨ ∃ p ∈ x.parts, .identifier role id ∈ p.node.visits := by
  cases x with
  | template a | functionExpression a | classExpression a | unary _ _ a | update _ _ _ a
  | optionalChain _ a | spread _ a | awaitValue _ a | spreadMember _ a | computedKey a
  | memberTarget a | rest _ a | declarationInit a | expressionInit a | declarationHead a
  | patternHead a | blockStatement a | expressionStatement _ a | throwValue _ a
  | variableStatement a | functionDeclaration a | classDeclaration a =>
    exact own_or_part (a.visits) h fun h => ⟨_, List.mem_cons_self, h⟩
  | taggedTemplate _ a b | arrow _ a b | conciseArrow _ a b | binary _ _ a b
  | assignment _ _ a b | index _ a b | property _ a b | method _ a _ _ b | ifThen _ a b
  | whileLoop _ a b | doWhile _ a b | tryFinally _ a b | withObject _ a b =>
    exact own_or_part (a.visits ++ b.visits) h fun h => by simpa [parts] using h
  | conditional _ a b c | ifElse _ a b c | forIn _ a b c | forOf _ _ a b c =>
    exact own_or_part (a.visits ++ b.visits ++ c.visits) h fun h => by
      simpa [parts, or_assoc] using h
  | array _ a =>
    exact own_or_part (visitOptionals a) h fun h => by
      simpa [parts, visitOptionals_eq] using h
  | object _ a =>
    exact own_or_part (visitMembers a) h fun h => by
      simpa [parts, visitMembers_eq] using h
  | call _ a b | construct _ a b =>
    exact own_or_part (a.visits ++ visitExpressions b) h fun h => by
      simpa [parts, visitExpressions_eq] using h
  | sequence _ a =>
    exact own_or_part (visitExpressions a) h fun h => by
      simpa [parts, visitExpressions_eq] using h
  | yieldValue _ a | returnValue _ a =>
    exact own_or_part (visitExpression? a) h fun h => by
      simpa [parts, visitExpression?_eq] using h
  | templateLiteral _ quasis a =>
    refine own_or_part (TemplateElement.interleave quasis (visitEach a)) h fun h => ?_
    obtain ⟨vs, hvs, hmem⟩ := mem_interleave h
    rw [visitEach_eq, List.mem_map] at hvs
    obtain ⟨e, he, rfl⟩ := hvs
    exact ⟨⟨.complete, e⟩, by simpa [parts] using he, hmem⟩
  | arrayPattern _ a b =>
    exact own_or_part (visitOptionalElements a ++ visitRest? b) h fun h => by
      simpa [parts, visitOptionalElements_eq, visitRest?_eq, or_and_right, exists_or] using h
  | objectPattern _ a b =>
    exact own_or_part (visitProperties a ++ visitRest? b) h fun h => by
      simpa [parts, visitProperties_eq, visitRest?_eq, or_and_right, exists_or] using h
  | parameters _ a b =>
    exact own_or_part (visitElements a ++ visitRest? b) h fun h => by
      simpa [parts, visitElements_eq, visitRest?_eq, or_and_right, exists_or] using h
  | patternProperty _ a b isShorthand =>
    refine own_or_part ((if isShorthand then [] else a.visits) ++ b.visits) h fun h => ?_
    cases isShorthand <;> simp_all [parts]
  | element _ a b | declarator _ a b | field _ a _ b =>
    exact own_or_part (a.visits ++ visitExpression? b) h fun h => by
      simpa [parts, visitExpression?_eq] using h
  | block _ a | staticBlock _ a =>
    exact own_or_part (visitStatements a) h fun h => by
      simpa [parts, visitStatements_eq] using h
  | declaration _ _ a =>
    exact own_or_part (visitDeclarators a) h fun h => by
      simpa [parts, visitDeclarators_eq] using h
  | switchCase _ a b =>
    exact own_or_part (visitExpression? a ++ visitStatements b) h fun h => by
      simpa [parts, visitExpression?_eq, visitStatements_eq, or_and_right, exists_or] using h
  | catchClause _ a b =>
    exact own_or_part (visitPattern? a ++ b.visits) h fun h => by
      simpa [parts, visitPattern?_eq, or_and_right, exists_or] using h
  | forLoop _ a b c d =>
    exact own_or_part (a.visits ++ visitExpression? b ++ visitExpression? c ++ d.visits) h
      fun h => by
        simpa [parts, visitExpression?_eq, or_and_right, exists_or, or_assoc] using h
  | switch _ a b =>
    exact own_or_part (a.visits ++ visitCases b) h fun h => by
      simpa [parts, visitCases_eq] using h
  | tryCatch _ a b c =>
    exact own_or_part (a.visits ++ b.visits ++ visitBlock? c) h fun h => by
      simpa [parts, visitBlock?_eq, or_assoc] using h
  | member _ a name =>
    refine own_or_rest (a.visits ++ [name.visit]) h fun h => ?_
    cases name <;> simp_all [parts, ownNames, MemberName.visit, or_comm]
  | metaProperty _ a b =>
    refine own_or_rest [.identifier .property a, .identifier .property b] h fun h => ?_
    simpa [ownNames, parts] using h
  | shorthand _ a b =>
    refine own_or_rest (.identifier .reference a :: visitExpression? b) h fun h => ?_
    simpa [ownNames, parts, visitExpression?_eq] using h
  | function _ name a b =>
    refine own_or_rest (visitName? .binding name ++ a.visits ++ b.visits) h fun h => ?_
    simpa [ownNames, parts, visitName?, or_assoc, eq_comm] using h
  | classDefinition _ name a bodySpan b =>
    refine own_or_rest (visitName? .binding name ++ visitExpression? a ++
      .construct "class_body" bodySpan :: visitClassElements b) h fun h => ?_
    simpa [ownNames, parts, visitName?, visitExpression?_eq, visitClassElements_eq, or_assoc,
      or_and_right, exists_or, eq_comm] using h
  | breakFrom _ label | continueWith _ label =>
    refine own_or_rest (visitName? .label label) h fun h => ?_
    simpa [ownNames, parts, visitName?, eq_comm] using h
  | labeled _ label a =>
    refine own_or_rest (.identifier .label label :: a.visits) h fun h => ?_
    simpa [ownNames, parts] using h
  | _ => exact own_or_rest [] h (by simp)

/-- A name that is visited is a node's own. -/
theorem exists_own_of_mem_visits {form : Form} {x : Node form}
    (h : .identifier role id ∈ x.visits) (r : Role) :
    ∃ q, Part.Reaches ⟨r, x⟩ q ∧ (role, id) ∈ q.node.ownNames := by
  induction x using induction_parts generalizing r with
  | node x ih =>
    rcases own_or_part_of_mem_visits h with hown | ⟨p, hp, hvisit⟩
    · exact ⟨_, .refl, hown⟩
    · obtain ⟨q, hq, hown⟩ := ih p hp hvisit p.role
      exact ⟨q, .head hp hq, hown⟩

end

end Node

/-- Every identifier that is met in a script is a name of one of its nodes. -/
theorem Program.exists_own_of_mem_identifiers {program : Program} {role : NameRole}
    {id : Identifier} (h : (role, id) ∈ program.identifiers) :
    ∃ p ∈ program.parts, ∃ q, p.Reaches q ∧ (role, id) ∈ q.node.ownNames := by
  rw [identifiers, List.mem_filterMap] at h
  obtain ⟨visit, hvisit, hidentifier⟩ := h
  cases visit with
  | identifier role' id' =>
    cases hidentifier
    rw [visits, List.mem_cons, Node.visitStatements_eq, List.mem_flatMap] at hvisit
    obtain ⟨s, hs, hmem⟩ := hvisit.resolve_left (fun heq => nomatch heq)
    obtain ⟨q, hq, hown⟩ := Node.exists_own_of_mem_visits hmem .complete
    exact ⟨⟨.complete, s⟩, List.mem_map_of_mem hs, q, hq, hown⟩
  | _ => exact nomatch hidentifier

end EcmaScript
