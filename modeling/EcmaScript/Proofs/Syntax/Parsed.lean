import EcmaScript.Proofs.Syntax.Erase

/-!
# Trees as they are parsed

Before names are resolved no node of a tree has the number of a scope, and a statement that
stands alone in another one, outside of any list, declares no name for a list.

What a tree has had when it was parsed can still be read off the numbered one.
-/

namespace EcmaScript

namespace Node

/-- The numbers of scopes that a node itself has: of the scope that it opens, and of its
names. -/
def stamps {form : Form} : Node form → List ScopeId
  | .reference id | .binding id | .identifierKey id | .shorthand _ id _ => [id.scope]
  | .member _ _ (.identifier id) _ => [id.scope]
  | .metaProperty _ holder name => [holder.scope, name.scope]
  | .arrow _ _ _ _ scope | .conciseArrow _ _ _ _ scope | .block _ _ scope
  | .staticBlock _ _ scope | .catchClause _ _ _ scope | .switch _ _ _ scope
  | .forLoop _ _ _ _ _ scope | .forIn _ _ _ _ scope | .forOf _ _ _ _ _ scope => [scope]
  | .function _ name _ _ _ _ scope => scope :: name.toList.map (·.scope)
  | .classDefinition _ name _ _ _ scope => scope :: name.toList.map (·.scope)
  | .breakFrom _ label | .continueWith _ label => label.toList.map (·.scope)
  | .labeled _ label _ => [label.scope]
  | _ => []

/-- The statements that stand alone in a statement. -/
def substatements {form : Form} : Node form → List Statement
  | .ifThen _ _ body | .whileLoop _ _ body | .doWhile _ body _ | .labeled _ _ body
  | .withObject _ _ body | .forLoop _ _ _ _ body _ | .forIn _ _ _ body _
  | .forOf _ _ _ _ body _ => [body]
  | .ifElse _ _ consequent alternate => [consequent, alternate]
  | _ => []

end Node

/-- The part without the numbers of scopes. -/
def Part.erase (p : Part) : Part := ⟨p.role, p.node.erase⟩

/-- Nothing in the tree has the number of a scope yet, and no statement that stands alone
declares a name for a list. -/
inductive Parsed : {form : Form} → Node form → Prop where
  | node {form : Form} {x : Node form} (stamps : ∀ scope ∈ x.stamps, scope = 0)
      (substatements : ∀ s ∈ x.substatements, s.lexical = [])
      (parts : ∀ p ∈ x.parts, Parsed p.node) : Parsed x

namespace Parsed

section

variable {form : Form} {x : Node form}

/-- No scope of a parsed node has a number. -/
theorem stamps_eq (h : Parsed x) : ∀ scope ∈ x.stamps, scope = 0 := by
  cases h with
  | node hstamps _ _ => exact hstamps

/-- What stands alone in a parsed statement declares for no list. -/
theorem lexical_eq (h : Parsed x) : ∀ s ∈ x.substatements, s.lexical = [] := by
  cases h with
  | node _ hsubstatements _ => exact hsubstatements

/-- The parts of a parsed node are as they are parsed. -/
theorem of_mem_parts (h : Parsed x) : ∀ p ∈ x.parts, Parsed p.node := by
  cases h with
  | node _ _ hparts => exact hparts

end

end Parsed

namespace Node

/-- Parts lose their numbers as the nodes do. -/
theorem map_erase_map {form : Form} (role : Role) (xs : List (Node form)) :
    (xs.map erase).map (⟨role, ·⟩ : Node form → Part) =
      (xs.map (⟨role, ·⟩ : Node form → Part)).map Part.erase := by
  simp only [List.map_map]
  rfl

/-- The parts of a node without numbers are its parts without numbers. -/
theorem parts_erase {form : Form} (x : Node form) : x.erase.parts = x.parts.map Part.erase := by
  cases x with
  | array span elements =>
    show (mapOptionals .erasing elements).reduceOption.map _ = _
    rw [mapOptionals_eq, List.reduceOption_map, map_erase_map]
    rfl
  | object span members =>
    show (mapMembers .erasing members).map _ = _
    rw [mapMembers_eq, map_erase_map]
    rfl
  | call span callee arguments | construct span callee arguments =>
    show _ :: (mapExpressions .erasing arguments).map _ = _
    rw [mapExpressions_eq, map_erase_map]
    rfl
  | sequence span expressions | templateLiteral span quasis expressions =>
    show (mapExpressions .erasing expressions).map _ = _
    rw [mapExpressions_eq, map_erase_map]
    rfl
  | yieldValue span argument | returnValue span argument | shorthand span name argument =>
    cases argument <;> rfl
  | arrayPattern span elements remainder =>
    show (mapOptionalElements .erasing elements).reduceOption.map _ ++ _ = List.map _ (_ ++ _)
    rw [mapOptionalElements_eq, List.reduceOption_map, map_erase_map, List.map_append]
    cases remainder <;> rfl
  | objectPattern span properties remainder =>
    show (mapProperties .erasing properties).map _ ++ _ = List.map _ (_ ++ _)
    rw [mapProperties_eq, map_erase_map, List.map_append]
    cases remainder <;> rfl
  | element span target initializer | declarator span target initializer
  | field span target isStatic initializer => cases initializer <;> rfl
  | parameters span params remainder =>
    show (mapElements .erasing params).map _ ++ _ = List.map _ (_ ++ _)
    rw [mapElements_eq, map_erase_map, List.map_append]
    cases remainder <;> rfl
  | block span body | staticBlock span body =>
    show (mapStatements .erasing body).map _ = _
    rw [mapStatements_eq, map_erase_map]
    rfl
  | classDefinition span name superClass bodySpan elements =>
    show _ ++ (mapClassElements .erasing elements).map _ = List.map _ (_ ++ _)
    rw [mapClassElements_eq, map_erase_map, List.map_append]
    cases superClass <;> rfl
  | declaration span kind ds =>
    show (mapDeclarators .erasing ds).map _ = _
    rw [mapDeclarators_eq, map_erase_map]
    rfl
  | switchCase span test body =>
    show _ ++ (mapStatements .erasing body).map _ = List.map _ (_ ++ _)
    rw [mapStatements_eq, map_erase_map, List.map_append]
    cases test <;> rfl
  | switch span discriminant cases =>
    show _ :: (mapCases .erasing cases).map _ = _
    rw [mapCases_eq, map_erase_map]
    rfl
  | catchClause span param body => cases param <;> rfl
  | tryCatch span body handler finalizer => cases finalizer <;> rfl
  | forLoop span init test step body => cases test <;> cases step <;> rfl
  | _ => rfl

/-- What stands alone in a statement loses its numbers with it. -/
theorem substatements_erase {form : Form} (x : Node form) :
    x.erase.substatements = x.substatements.map erase := by
  cases x <;> rfl

end Node

section

variable {form : Form} {x : Node form}

/-- The parts of a node that is as it was parsed once its numbers are lost. -/
theorem Parsed.of_mem_parts_erase (h : Parsed x.erase) {q : Part} (hq : q ∈ x.parts) :
    Parsed q.node.erase := by
  apply h.of_mem_parts q.erase
  rw [Node.parts_erase]
  exact List.mem_map_of_mem hq

/-- A statement that stands alone declares no name for a list. -/
theorem Parsed.lexical_eq_of_erase (h : Parsed x.erase) {s : Statement}
    (hs : s ∈ x.substatements) : s.lexical = [] := by
  have hlexical := h.lexical_eq s.erase
    (by rw [Node.substatements_erase]; exact List.mem_map_of_mem hs)
  rw [Node.lexical_erase, List.map_eq_nil_iff] at hlexical
  exact hlexical

end

end EcmaScript
