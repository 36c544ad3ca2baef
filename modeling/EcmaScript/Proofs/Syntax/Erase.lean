import EcmaScript.Proofs.Syntax.Map
import EcmaScript.Scope.Declarations

/-!
# Trees without scopes

A tree before its names are resolved is the resolved one with the numbers of all scopes set
back to zero. What a tree declares does not depend on those numbers: erasing them keeps the
names that patterns bind, and those that statements declare.

A tree without numbers stays as it is.
-/

namespace EcmaScript

/-- The name with no scope. -/
def Identifier.erase (id : Identifier) : Identifier := { id with scope := 0 }

@[simp] theorem Identifier.name_erase (id : Identifier) : id.erase.name = id.name := rfl

/-- The scopes are set back to zero, and the rest stays. -/
def DataMap.erasing : DataMap where
  name := Identifier.erase
  label := Identifier.erase
  scope _ := 0

/-- The name of a property with no scope. -/
abbrev MemberName.erase : MemberName → MemberName := mapData .erasing

namespace Node

/-- The tree with the numbers of all scopes set back to zero. -/
abbrev erase {form : Form} : Node form → Node form := mapData .erasing

@[simp] theorem elementNames_eq (xs : List (Option (Node .element))) :
    elementNames xs = xs.reduceOption.flatMap boundNames := by
  induction xs with
  | nil => rfl
  | cons x xs ih =>
    cases x with
    | none => rw [elementNames, ih, List.reduceOption_cons_of_none]
    | some x => rw [elementNames, ih, List.reduceOption_cons_of_some, List.flatMap_cons]

@[simp] theorem propertyNames_eq (xs : List (Node .patternProperty)) :
    propertyNames xs = xs.flatMap boundNames := by
  induction xs with
  | nil => rfl
  | cons x xs ih => rw [propertyNames, ih, List.flatMap_cons]

@[simp] theorem parameterNames_eq (xs : List (Node .element)) :
    parameterNames xs = xs.flatMap boundNames := by
  induction xs with
  | nil => rfl
  | cons x xs ih => rw [parameterNames, ih, List.flatMap_cons]

@[simp] theorem restNames_eq (x : Option (Node .rest)) :
    restNames x = x.toList.flatMap boundNames := by
  cases x <;> simp [restNames]

@[simp] theorem hoistedAll_eq (xs : List Statement) : hoistedAll xs = xs.flatMap hoisted := by
  induction xs with
  | nil => rfl
  | cons x xs ih => rw [hoistedAll, ih, List.flatMap_cons]

@[simp] theorem hoistedCases_eq (xs : List (Node .switchCase)) :
    hoistedCases xs = xs.flatMap hoisted := by
  induction xs with
  | nil => rfl
  | cons x xs ih => rw [hoistedCases, ih, List.flatMap_cons]

/-- A collecting function that agrees on the elements of two lists. -/
theorem flatMap_map_congr {α β γ : Type} {f : β → List γ} {g : α → List γ} {h : α → β}
    {e : γ → γ} {xs : List α} (hx : ∀ x ∈ xs, f (h x) = (g x).map e) :
    (xs.map h).flatMap f = (xs.flatMap g).map e := by
  rw [List.flatMap_map, List.map_flatMap]
  exact List.flatMap_congr hx

/-- The names that are bound stay, without their numbers. -/
theorem boundNames_erase {form : Form} (x : Node form) :
    x.erase.boundNames = x.boundNames.map Identifier.erase := by
  induction x using induction_parts with
  | node x ih =>
    cases x with
    | arrayPattern span elements remainder =>
      simp only [parts, List.forall_mem_append, List.forall_mem_map] at ih
      show elementNames (mapOptionalElements .erasing elements) ++
        restNames (mapRest? .erasing remainder) =
        (elementNames elements ++ restNames remainder).map _
      simp only [mapOptionalElements_eq, elementNames_eq, mapRest?_eq, restNames_eq,
        List.map_append, List.reduceOption_map, Option.toList_map]
      rw [flatMap_map_congr ih.1, flatMap_map_congr ih.2]
    | objectPattern span properties remainder =>
      simp only [parts, List.forall_mem_append, List.forall_mem_map] at ih
      show propertyNames (mapProperties .erasing properties) ++
        restNames (mapRest? .erasing remainder) =
        (propertyNames properties ++ restNames remainder).map _
      simp only [mapProperties_eq, propertyNames_eq, mapRest?_eq, restNames_eq,
        List.map_append, Option.toList_map]
      rw [flatMap_map_congr ih.1, flatMap_map_congr ih.2]
    | parameters span params remainder =>
      simp only [parts, List.forall_mem_append, List.forall_mem_map] at ih
      show parameterNames (mapElements .erasing params) ++ restNames (mapRest? .erasing remainder) =
        (parameterNames params ++ restNames remainder).map _
      simp only [mapElements_eq, parameterNames_eq, mapRest?_eq, restNames_eq,
        List.map_append, Option.toList_map]
      rw [flatMap_map_congr ih.1, flatMap_map_congr ih.2]
    | patternProperty span key value short =>
      exact ih ⟨.complete, value⟩ (by simp [parts])
    | element span target initializer =>
      exact ih ⟨.complete, target⟩ (by simp [parts])
    | rest span argument => exact ih ⟨.complete, argument⟩ (by simp [parts])
    | _ => rfl

/-- The names that are declared stay, without their numbers. -/
theorem declaratorNames_erase (ds : List (Node .declarator)) :
    declaratorNames (ds.map erase) = (declaratorNames ds).map Identifier.erase := by
  induction ds with
  | nil => rfl
  | cons d ds ih =>
    cases d with
    | declarator span target init =>
      show (erase target).boundNames ++ declaratorNames (ds.map erase) =
        (target.boundNames ++ declaratorNames ds).map _
      rw [boundNames_erase, ih, List.map_append]

/-- The declared name with no scope. -/
def eraseDeclared (d : Declaration) : Declaration := (d.1.erase, d.2)

/-- Names of one kind stay of that kind. -/
theorem map_declared_erase (kind : BindingKind) (ids : List Identifier) :
    (ids.map Identifier.erase).map (·, kind) = (ids.map (·, kind)).map eraseDeclared := by
  simp only [List.map_map]
  rfl

/-- The names that are hoisted stay, without their numbers. -/
theorem hoisted_erase {form : Form} (x : Node form) :
    x.erase.hoisted = x.hoisted.map eraseDeclared := by
  induction x using induction_parts with
  | node x ih =>
    cases x with
    | declaration span kind ds =>
      show (if kind.isLexical then [] else (declaratorNames (mapDeclarators .erasing ds)).map _) =
        (if kind.isLexical then [] else (declaratorNames ds).map _).map _
      rw [mapDeclarators_eq, declaratorNames_erase]
      split
      · rfl
      · exact map_declared_erase _ _
    | functionDeclaration definition =>
      cases definition with
      | function span name params body isGenerator isAsync scope => cases name <;> rfl
    | block span body scope =>
      simp only [parts, List.forall_mem_map] at ih
      show hoistedAll (mapStatements .erasing body) = (hoistedAll body).map _
      simp only [mapStatements_eq, hoistedAll_eq]
      exact flatMap_map_congr ih
    | switch span discriminant cases scope =>
      simp only [parts, List.forall_mem_cons, List.forall_mem_map] at ih
      show hoistedCases (mapCases .erasing cases) = (hoistedCases cases).map _
      simp only [mapCases_eq, hoistedCases_eq]
      exact flatMap_map_congr ih.2
    | switchCase span test consequent =>
      simp only [parts, List.forall_mem_append, List.forall_mem_map] at ih
      show hoistedAll (mapStatements .erasing consequent) = (hoistedAll consequent).map _
      simp only [mapStatements_eq, hoistedAll_eq]
      exact flatMap_map_congr ih.2
    | ifElse span test consequent alternate =>
      simp only [parts, List.forall_mem_cons] at ih
      show consequent.erase.hoisted ++ alternate.erase.hoisted =
        (consequent.hoisted ++ alternate.hoisted).map _
      rw [ih.2.1, ih.2.2.1, List.map_append]
    | forLoop span init test step body scope =>
      have hinit := ih ⟨.complete, init⟩ (by simp [parts])
      have hbody := ih ⟨.complete, body⟩ (by simp [parts])
      show init.erase.hoisted ++ body.erase.hoisted = (init.hoisted ++ body.hoisted).map _
      rw [hinit, hbody, List.map_append]
    | forIn span left right body scope =>
      have hleft := ih ⟨.complete, left⟩ (by simp [parts])
      have hbody := ih ⟨.complete, body⟩ (by simp [parts])
      show left.erase.hoisted ++ body.erase.hoisted = (left.hoisted ++ body.hoisted).map _
      rw [hleft, hbody, List.map_append]
    | forOf span isAwait left right body scope =>
      have hleft := ih ⟨.complete, left⟩ (by simp [parts])
      have hbody := ih ⟨.complete, body⟩ (by simp [parts])
      show left.erase.hoisted ++ body.erase.hoisted = (left.hoisted ++ body.hoisted).map _
      rw [hleft, hbody, List.map_append]
    | tryCatch span body handler finalizer =>
      have hbody := ih ⟨.complete, body⟩ (by simp [parts])
      have hhandler := ih ⟨.complete, handler⟩ (by simp [parts])
      cases finalizer with
      | none =>
        show body.erase.hoisted ++ handler.erase.hoisted = (body.hoisted ++ handler.hoisted).map _
        rw [hbody, hhandler, List.map_append]
      | some finalizer =>
        have hfinal := ih ⟨.complete, finalizer⟩ (by simp [parts])
        show body.erase.hoisted ++ handler.erase.hoisted ++ finalizer.erase.hoisted =
          (body.hoisted ++ handler.hoisted ++ finalizer.hoisted).map _
        rw [hbody, hhandler, hfinal, List.map_append, List.map_append]
    | tryFinally span body finalizer =>
      have hbody := ih ⟨.complete, body⟩ (by simp [parts])
      have hfinal := ih ⟨.complete, finalizer⟩ (by simp [parts])
      show body.erase.hoisted ++ finalizer.erase.hoisted = (body.hoisted ++ finalizer.hoisted).map _
      rw [hbody, hfinal, List.map_append]
    | variableStatement d | declarationInit d | declarationHead d | blockStatement d =>
      exact ih ⟨.complete, d⟩ (by simp [parts])
    | ifThen _ _ body | whileLoop _ _ body | doWhile _ body _ | catchClause _ _ body _
    | labeled _ _ body | withObject _ _ body => exact ih ⟨.complete, body⟩ (by simp [parts])
    | _ => rfl

/-- The names that a statement declares for its list stay, without their numbers. -/
theorem lexical_erase (x : Statement) : x.erase.lexical = x.lexical.map eraseDeclared := by
  cases x with
  | variableStatement d =>
    cases d with
    | declaration span kind ds =>
      show (if kind.isLexical then (declaratorNames (mapDeclarators .erasing ds)).map _ else []) =
        (if kind.isLexical then (declaratorNames ds).map _ else []).map _
      rw [mapDeclarators_eq, declaratorNames_erase]
      split
      · exact map_declared_erase _ _
      · rfl
  | classDeclaration definition =>
    cases definition with
    | classDefinition span name superClass bodySpan elements scope => cases name <;> rfl
  | _ => rfl

/-- The names that cases declare stay, without their numbers. -/
theorem lexicalInCases_erase (cases : List (Node .switchCase)) :
    lexicalInCases (cases.map erase) = (lexicalInCases cases).map eraseDeclared := by
  apply flatMap_map_congr
  rintro ⟨⟩ -
  rename_i span test consequent
  show (mapStatements .erasing consequent).flatMap lexical = (consequent.flatMap lexical).map _
  rw [mapStatements_eq]
  exact flatMap_map_congr fun x _ => lexical_erase x

end Node

/-- Setting the numbers back once more changes nothing. -/
theorem Node.erase_erase {form : Form} (x : Node form) : x.erase.erase = x.erase :=
  x.mapData_mapData

/-- The program with the numbers of all scopes set back to zero. -/
def Program.erase (program : Program) : Program :=
  { program with body := program.body.map Node.erase }

end EcmaScript
