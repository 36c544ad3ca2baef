import EcmaScript.Proofs.Scope.Layout

/-!
# What a region declares

The names of a scope, said without going through the tree: which nodes declare a name, and over
which parts such a node may be reached. A variable or a function belongs to everything around it
up to the next function, arrow function or static block; a name that is bound in a pattern is
found over patterns only, and not in the values and keys that these have.
-/

namespace EcmaScript

open Relation

/-- Whether names can be bound by a node of the form: a pattern, a part of one or parameters. -/
def Form.isPattern : Form → Bool
  | .pattern | .patternProperty | .element | .rest | .parameters => true
  | _ => false

/-- Whether a node of the form can have variables in it that belong to the function around. -/
def Form.hasVariables : Form → Bool
  | .block | .declaration | .forInit | .forHead | .switchCase | .catchClause | .statement => true
  | _ => false

/-- Whether the variables that are declared inside of the node stay there. -/
def Node.keepsVariables {form : Form} : Node form → Bool
  | .function .. | .arrow .. | .conciseArrow .. | .staticBlock .. => true
  | _ => false

namespace Part

/-- The second node is a part of the first, and the names that it binds are bound by the
first. -/
def HoldsPattern (p q : Part) : Prop :=
  p.Holds q ∧ p.form.isPattern = true ∧ q.form.isPattern = true

/-- The second node is a part of the first, and its variables do not stay in the first. -/
def HoldsVariables (p q : Part) : Prop := p.Holds q ∧ p.node.keepsVariables = false

end Part

namespace Node

/-- The node is the identifier, which is bound. -/
def IsBinding {form : Form} : Node form → Identifier → Prop
  | .binding own, id => own = id
  | _, _ => False

/-- The name is bound by the pattern or by the parameters. -/
def Binds {form : Form} (x : Node form) (name : String) : Prop :=
  ∃ q, ReflTransGen Part.HoldsPattern ⟨.complete, x⟩ q ∧
    ∃ id, q.node.IsBinding id ∧ id.name = name

/-- The name is bound by one of the declarators. -/
def DeclaratorsBind (ds : List (Node .declarator)) (name : String) : Prop :=
  ∃ span target init, .declarator span target init ∈ ds ∧ target.Binds name

/-- The node declares the name with `var`, or as that of a function. -/
def DeclaresVariable {form : Form} : Node form → String → Prop
  | .declaration _ kind ds, name => kind = .varKind ∧ DeclaratorsBind ds name
  | .functionDeclaration (.function _ own ..), name => ∃ id ∈ own, id.name = name
  | _, _ => False

/-- The name is declared with `var`, or as that of a function, at any depth in the node, but not
inside of a further function, arrow function or static block. -/
def Hoists {form : Form} (x : Node form) (name : String) : Prop :=
  ∃ q, ReflTransGen Part.HoldsVariables ⟨.complete, x⟩ q ∧ q.node.DeclaresVariable name

/-- The name is declared with `let` or `const`. -/
def DeclaresLet : Node .declaration → String → Prop
  | .declaration _ kind ds, name =>
    (kind = .letKind ∨ kind = .constKind) ∧ DeclaratorsBind ds name

/-- The statement itself declares the name with `let` or `const`, or as that of a class. -/
def DeclaresLexical : Statement → String → Prop
  | .variableStatement d, name => d.DeclaresLet name
  | .classDeclaration (.classDefinition _ own ..), name => ∃ id ∈ own, id.name = name
  | _, _ => False

/-- The head of a loop declares the name with `let` or `const`. -/
def DeclaresInHead {form : Form} : Node form → String → Prop
  | .declarationInit d, name | .declarationHead d, name => d.DeclaresLet name
  | _, _ => False

end Node

/-- The name is declared in the scope of the region. -/
def Region.Declares : Region → String → Prop
  | script body, name | staticBlock body, name =>
    (∃ s ∈ body, s.Hoists name) ∨ ∃ s ∈ body, s.DeclaresLexical name
  | function own params body, name =>
    (∃ id ∈ own, id.name = name) ∨ params.Binds name ∨ ∃ b ∈ body, b.Hoists name
  | block body, name => ∃ s ∈ body, s.DeclaresLexical name
  | switch cases, name =>
    ∃ span test body, .switchCase span test body ∈ cases ∧ ∃ s ∈ body, s.DeclaresLexical name
  | loop head, name => head.DeclaresInHead name
  | handler param, name => ∃ p ∈ param, p.Binds name
  | classBody own, name => ∃ id ∈ own, id.name = name

namespace Node

/-- Only patterns, parts of them and parameters bind names. -/
theorem boundNames_eq_nil {form : Form} (h : form.isPattern = false) (x : Node form) :
    x.boundNames = [] := by
  cases x with
  | binding | arrayPattern | objectPattern | patternProperty | element | rest | parameters =>
    exact nomatch h
  | _ => rfl

/-- The names that a node binds are its own or those of its parts. -/
theorem own_or_part_of_mem_boundNames {form : Form} {x : Node form} {id : Identifier}
    (h : id ∈ x.boundNames) :
    x.IsBinding id ∨ ∃ q ∈ x.parts, q.form ≠ .parameters ∧ id ∈ q.node.boundNames := by
  cases x with
  | binding =>
    rw [List.mem_singleton.mp h]
    exact Or.inl rfl
  | arrayPattern | objectPattern | parameters =>
    simp only [boundNames, elementNames_eq, propertyNames_eq, parameterNames_eq, restNames_eq,
      List.mem_append, List.mem_flatMap] at h
    right
    simp only [parts, List.mem_append, List.mem_map]
    rcases h with ⟨a, ha, hid⟩ | ⟨a, ha, hid⟩
    · exact ⟨_, Or.inl ⟨a, ha, rfl⟩, by simp, hid⟩
    · exact ⟨_, Or.inr ⟨a, ha, rfl⟩, by simp, hid⟩
  | patternProperty span key value isShorthand =>
    exact Or.inr ⟨⟨.complete, value⟩, by simp [parts], by simp, h⟩
  | element span target initializer =>
    exact Or.inr ⟨⟨.complete, target⟩, by simp [parts], by simp, h⟩
  | rest span argument => exact Or.inr ⟨⟨.complete, argument⟩, by simp [parts], by simp, h⟩
  | _ => cases h

/-- A pattern binds the names of its parts. -/
theorem mem_boundNames_of_mem_parts {form : Form} {x : Node form} {q : Part} {id : Identifier}
    (hx : form.isPattern = true) (hq : q ∈ x.parts) (h : id ∈ q.node.boundNames) :
    id ∈ x.boundNames := by
  cases x with
  | binding => cases hq
  | arrayPattern | objectPattern | parameters =>
    simp only [boundNames, elementNames_eq, propertyNames_eq, parameterNames_eq, restNames_eq,
      List.mem_append, List.mem_flatMap]
    simp only [parts, List.mem_append, List.mem_map] at hq
    rcases hq with ⟨a, ha, rfl⟩ | ⟨a, ha, rfl⟩
    · exact Or.inl ⟨a, ha, h⟩
    · exact Or.inr ⟨a, ha, h⟩
  | memberTarget expression =>
    rw [List.mem_singleton.mp hq, boundNames_eq_nil rfl] at h
    cases h
  | patternProperty span key value isShorthand =>
    simp only [parts, List.mem_cons, List.not_mem_nil, or_false] at hq
    rcases hq with rfl | rfl
    · rw [boundNames_eq_nil rfl] at h
      cases h
    · exact h
  | element span target initializer =>
    simp only [parts, List.mem_cons, List.mem_map] at hq
    rcases hq with rfl | ⟨value, -, rfl⟩
    · exact h
    · rw [boundNames_eq_nil rfl] at h
      cases h
  | rest span argument =>
    rw [List.mem_singleton.mp hq] at h
    exact h
  | _ => cases hx

/-- What binds a name is a pattern, a part of one or parameters. -/
theorem isPattern_of_mem_boundNames {form : Form} {x : Node form} {id : Identifier}
    (h : id ∈ x.boundNames) : form.isPattern = true := by
  by_contra hform
  rw [boundNames_eq_nil (by simpa using hform)] at h
  exact nomatch h

/-- A node binds the names that can be reached over patterns. -/
theorem exists_mem_boundNames {form : Form} (x : Node form) (name : String) :
    (∃ id ∈ x.boundNames, id.name = name) ↔ x.Binds name := by
  apply Part.iff_reaches (fun p => ∃ id ∈ p.node.boundNames, id.name = name)
    (fun p => ∃ id, p.node.IsBinding id ∧ id.name = name) (fun h => h.1) _ ⟨.complete, x⟩
  intro p
  constructor
  · rintro ⟨id, hid, hname⟩
    rcases own_or_part_of_mem_boundNames hid with hown | ⟨q, hq, -, hmem⟩
    · exact Or.inl ⟨id, hown, hname⟩
    · have hpattern := isPattern_of_mem_boundNames hid
      exact Or.inr ⟨q, ⟨hq, hpattern, isPattern_of_mem_boundNames hmem⟩, id, hmem, hname⟩
  · rintro (⟨id, hown, hname⟩ | ⟨q, ⟨hq, hform, -⟩, id, hid, hname⟩)
    · obtain ⟨role, y⟩ := p
      cases y with
      | binding own => exact ⟨id, List.mem_singleton.mpr hown.symm, hname⟩
      | _ => exact hown.elim
    · exact ⟨id, mem_boundNames_of_mem_parts hform hq hid, hname⟩

/-- The names of declarators are those that their targets bind. -/
theorem exists_mem_declaratorNames (ds : List (Node .declarator)) (name : String) :
    (∃ id ∈ declaratorNames ds, id.name = name) ↔ DeclaratorsBind ds name := by
  induction ds with
  | nil => simp [declaratorNames, DeclaratorsBind]
  | cons d ds ih =>
    cases d with
    | declarator span target init =>
      simp only [DeclaratorsBind] at ih
      simp [declaratorNames, DeclaratorsBind, or_and_right, exists_or, ih, exists_mem_boundNames]

/-- A node of another form has no variables in it. -/
theorem hoisted_eq_nil {form : Form} (h : form.hasVariables = false) (x : Node form) :
    x.hoisted = [] := by
  cases x with
  | declaration | variableStatement | functionDeclaration | block | blockStatement | ifThen
  | ifElse | declarationInit | declarationHead | forLoop | forIn | forOf | whileLoop | doWhile
  | switch | switchCase | tryCatch | tryFinally | catchClause | labeled | withObject =>
    exact nomatch h
  | _ => rfl

/-- Outside of statements, only what keeps its variables has statements among its parts. -/
theorem hasVariables_of_mem_parts {form : Form} {x : Node form} (h : form.hasVariables = false)
    (hx : x.keepsVariables = false) : ∀ q ∈ x.parts, q.form.hasVariables = false := by
  cases x with
  | function | arrow | conciseArrow | staticBlock => exact nomatch hx
  | declaration | variableStatement | functionDeclaration | block | blockStatement | ifThen
  | ifElse | declarationInit | declarationHead | forLoop | forIn | forOf | whileLoop | doWhile
  | switch | switchCase | tryCatch | tryFinally | catchClause | labeled | withObject
  | expressionInit | patternHead | expressionStatement | throwValue | returnValue
  | classDeclaration => exact nomatch h
  | _ =>
    simp only [parts, List.forall_mem_cons, List.forall_mem_append, List.forall_mem_map,
      List.not_mem_nil, Form.hasVariables, false_implies, implies_true, and_self]

/-- The variables and the function that a node declares itself. -/
def ownVariables {form : Form} : Node form → List Declaration
  | .declaration _ kind ds =>
    if kind.isLexical then [] else (declaratorNames ds).map (·, .varBinding)
  | .functionDeclaration (.function _ name ..) => name.toList.map (·, .function)
  | _ => []

/-- No name is declared by nothing. -/
theorem nothing_declared {name : String} :
    ¬∃ d ∈ ([] : List Declaration), d.1.name = name := by
  simp

/-- The variables that a node declares itself. -/
theorem exists_mem_ownVariables {form : Form} (x : Node form) (name : String) :
    (∃ d ∈ x.ownVariables, d.1.name = name) ↔ x.DeclaresVariable name := by
  cases x with
  | declaration span kind ds =>
    rw [DeclaresVariable, ← exists_mem_declaratorNames]
    cases kind <;> simp [ownVariables, VariableKind.isLexical]
  | functionDeclaration definition =>
    cases definition
    simp [ownVariables, DeclaresVariable]
  | _ => exact iff_of_false nothing_declared id

/-- Parts of other forms have no variables in them. -/
theorem flatMap_hoisted_eq_nil {parts : List Part}
    (h : ∀ q ∈ parts, q.form.hasVariables = false) :
    parts.flatMap (fun q => q.node.hoisted) = [] := by
  rw [List.flatMap_eq_nil_iff]
  intro q hq
  exact hoisted_eq_nil (h q hq) q.node

/-- The variables of a node that does not keep them are its own and those of its parts. -/
theorem hoisted_eq {form : Form} {x : Node form} (hx : x.keepsVariables = false) :
    x.hoisted = x.ownVariables ++ x.parts.flatMap fun q => q.node.hoisted := by
  have hexpression : ∀ e : Expression, e.hoisted = [] := hoisted_eq_nil rfl
  cases x with
  | declaration | classDeclaration | expressionInit | patternHead | expressionStatement
  | throwValue | returnValue =>
    rw [flatMap_hoisted_eq_nil (by simp [parts, Form.hasVariables]), List.append_nil]
    rfl
  | functionDeclaration definition =>
    rw [flatMap_hoisted_eq_nil (by simp [parts, Form.hasVariables]), List.append_nil]
    cases definition with
    | function span name => cases name <;> rfl
  | emptyStatement | breakFrom | continueWith | debugger | noInit => rfl
  | variableStatement | declarationInit | declarationHead | blockStatement =>
    exact (List.append_nil _).symm
  | ifThen | whileLoop | doWhile | labeled | withObject | ifElse | forIn | forOf | tryFinally =>
    simp only [parts, List.flatMap_cons, List.flatMap_nil, hexpression, List.nil_append,
      List.append_nil]
    rfl
  | block span body scope =>
    simp only [parts, List.flatMap_map, ← hoistedAll_eq]
    rfl
  | switch span discriminant cases scope =>
    simp only [parts, List.flatMap_cons, List.flatMap_map, hexpression, ← hoistedCases_eq]
    rfl
  | switchCase span test body =>
    simp only [parts, List.flatMap_append, List.flatMap_map, hexpression, ← hoistedAll_eq]
    cases test <;> rfl
  | catchClause span param body scope =>
    simp only [parts, List.flatMap_append, List.flatMap_map, List.flatMap_cons, List.flatMap_nil,
      List.append_nil]
    rw [List.flatMap_eq_nil_iff.mpr fun p _ => hoisted_eq_nil rfl p]
    rfl
  | forLoop span init test step body scope =>
    simp only [parts, List.flatMap_append, List.flatMap_map, List.flatMap_cons, List.flatMap_nil,
      List.append_nil, hexpression]
    cases test <;> cases step <;>
      simp only [Option.toList_none, Option.toList_some, List.flatMap_nil, List.flatMap_cons,
        List.append_nil] <;>
      rfl
  | tryCatch span body handler finalizer =>
    simp only [parts, List.flatMap_cons, List.flatMap_map]
    cases finalizer with
    | none => exact congrArg (body.hoisted ++ ·) (List.append_nil _).symm
    | some finalizer =>
      show body.hoisted ++ handler.hoisted ++ finalizer.hoisted =
        body.hoisted ++ (handler.hoisted ++ (finalizer.hoisted ++ []))
      rw [List.append_nil, List.append_assoc]
  | function | arrow | conciseArrow | staticBlock => cases hx
  | _ =>
    rw [flatMap_hoisted_eq_nil (hasVariables_of_mem_parts rfl hx), hoisted_eq_nil rfl]
    rfl

/-- A node declares the variables that can be reached without going into a function. -/
theorem exists_mem_hoisted {form : Form} (x : Node form) (name : String) :
    (∃ d ∈ x.hoisted, d.1.name = name) ↔ x.Hoists name := by
  apply Part.iff_reaches (fun p => ∃ d ∈ p.node.hoisted, d.1.name = name)
    (fun p => p.node.DeclaresVariable name) (fun h => h.1) _ ⟨.complete, x⟩
  intro p
  cases hkeeps : p.node.keepsVariables with
  | true =>
    obtain ⟨role, y⟩ := p
    cases y with
    | function | arrow | conciseArrow | staticBlock =>
      apply iff_of_false
      · rintro ⟨d, hd, -⟩
        exact nomatch hd
      · rintro (hown | ⟨q, ⟨-, hq⟩, -⟩)
        · exact hown
        · exact nomatch hq
    | _ => exact nomatch hkeeps
  | false =>
    rw [hoisted_eq hkeeps, ← exists_mem_ownVariables]
    simp only [List.mem_append, List.mem_flatMap, Part.HoldsVariables, Part.Holds, hkeeps,
      and_true]
    constructor
    · rintro ⟨d, hd | ⟨q, hq, hd⟩, hname⟩
      · exact Or.inl ⟨d, hd, hname⟩
      · exact Or.inr ⟨q, hq, d, hd, hname⟩
    · rintro (⟨d, hd, hname⟩ | ⟨q, hq, d, hd, hname⟩)
      · exact ⟨d, Or.inl hd, hname⟩
      · exact ⟨d, Or.inr ⟨q, hq, hd⟩, hname⟩

/-- Names that are all declared in one way. -/
theorem exists_mem_map_declared (ids : List Identifier) (kind : BindingKind) (name : String) :
    (∃ d ∈ ids.map (·, kind), d.1.name = name) ↔ ∃ id ∈ ids, id.name = name := by
  simp

/-- What a declaration introduces is what it declares with `let` or `const`. -/
theorem exists_mem_introduces (d : Node .declaration) (name : String) :
    (∃ e ∈ d.introduces, e.1.name = name) ↔ d.DeclaresLet name := by
  cases d with
  | declaration span kind ds =>
    rw [DeclaresLet, ← exists_mem_declaratorNames]
    cases kind <;> simp [introduces, VariableKind.isLexical]

/-- What a statement declares itself is what it declares lexically. -/
theorem exists_mem_lexical (s : Statement) (name : String) :
    (∃ d ∈ s.lexical, d.1.name = name) ↔ s.DeclaresLexical name := by
  cases s with
  | variableStatement d =>
    cases d with
    | declaration span kind ds => exact exists_mem_introduces (.declaration span kind ds) name
  | classDeclaration definition =>
    cases definition with
    | classDefinition span own =>
      cases own <;> simp [lexical, DeclaresLexical]
  | _ => exact iff_of_false nothing_declared id

/-- What the head of a loop introduces is what it declares with `let` or `const`. -/
theorem exists_mem_introduces_head {form : Form} (head : Node form) (name : String) :
    (∃ d ∈ if head.declaresLexically then head.introduces else [], d.1.name = name) ↔
      head.DeclaresInHead name := by
  cases head with
  | declarationInit d | declarationHead d =>
    rw [DeclaresInHead, ← exists_mem_introduces]
    cases d with
    | declaration span kind ds => cases kind <;> rfl
  | _ => exact iff_of_false nothing_declared id

/-- What parameters introduce is what they bind. -/
theorem exists_mem_introduces_parameters (params : Node .parameters) (name : String) :
    (∃ d ∈ params.introduces, d.1.name = name) ↔ params.Binds name := by
  rw [← exists_mem_boundNames]
  cases params with
  | parameters span params remainder => exact exists_mem_map_declared _ _ name

end Node

/-- What is declared in a list, item by item. -/
theorem exists_mem_flatMap {α : Type} {xs : List α} {declared : α → List Declaration}
    {P : α → String → Prop} {name : String}
    (h : ∀ x, (∃ d ∈ declared x, d.1.name = name) ↔ P x name) :
    (∃ d ∈ xs.flatMap declared, d.1.name = name) ↔ ∃ x ∈ xs, P x name := by
  simp only [List.mem_flatMap, ← h]
  constructor
  · rintro ⟨d, ⟨x, hx, hd⟩, hname⟩
    exact ⟨x, hx, d, hd, hname⟩
  · rintro ⟨x, hx, d, hd, hname⟩
    exact ⟨d, ⟨x, hx, hd⟩, hname⟩

/-- The names of a region are those that are declared in it. -/
theorem Region.mem_names_iff (region : Region) (name : String) :
    name ∈ region.names ↔ region.Declares name := by
  have hlexical : ∀ body : List Statement, (∃ d ∈ body.flatMap Node.lexical, d.1.name = name) ↔
      ∃ s ∈ body, s.DeclaresLexical name :=
    fun body => exists_mem_flatMap fun s => Node.exists_mem_lexical s name
  have hhoisted : ∀ {form : Form} (xs : List (Node form)),
      (∃ d ∈ xs.flatMap Node.hoisted, d.1.name = name) ↔ ∃ x ∈ xs, x.Hoists name :=
    fun xs => exists_mem_flatMap fun x => Node.exists_mem_hoisted x name
  rw [names, mem_declaredNames]
  cases region with
  | script body | staticBlock body =>
    simp only [declarations, Declares, Node.hoistedAll_eq, List.mem_append, or_and_right,
      exists_or, hhoisted, hlexical]
  | function own params body =>
    simp only [declarations, Declares, List.mem_append, or_and_right, exists_or, hhoisted,
      Node.exists_mem_introduces_parameters]
    simp [or_assoc]
  | block body => exact hlexical body
  | switch cases =>
    refine (exists_mem_flatMap (P := fun c name => ∃ span test body,
      c = .switchCase span test body ∧ ∃ s ∈ body, s.DeclaresLexical name) fun c => ?_).trans ?_
    · cases c with
      | switchCase span test body => simpa using hlexical body
    · constructor
      · rintro ⟨c, hc, span, test, body, rfl, hs⟩
        exact ⟨span, test, body, hc, hs⟩
      · rintro ⟨span, test, body, hc, hs⟩
        exact ⟨_, hc, span, test, body, rfl, hs⟩
  | loop head => exact Node.exists_mem_introduces_head head name
  | handler param =>
    rw [declarations, Node.exists_mem_map_declared]
    cases param <;> simp [Declares, Node.exists_mem_boundNames]
  | classBody own =>
    rw [declarations, Node.exists_mem_map_declared]
    simp [Declares]

end EcmaScript
