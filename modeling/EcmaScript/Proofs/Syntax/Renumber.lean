import EcmaScript.Proofs.Syntax.Map

/-!
# Trees with other numbers

A tree whose names and scopes have numbers can be given other ones: every name that stands for
a variable gets its new number, and so does every scope. Labels and names of properties are in no
scope, and stay as they are. With every number in its place the tree is as it was.
-/

namespace EcmaScript

/-- A change of the numbers of scopes. -/
structure Renumbering where
  /-- A name with its new number. -/
  name : Identifier → Identifier
  /-- The new number of a scope. -/
  scope : ScopeId → ScopeId

/-- Every number stays. -/
def Renumbering.same : Renumbering := ⟨id, id⟩

/-- The numbers of scopes change, also those that names have, and the rest stays. -/
def DataMap.renumbering (f : Renumbering) : DataMap where
  name := f.name
  scope := f.scope

/-- The name of a property has no number. -/
theorem MemberName.mapData_renumbering (f : Renumbering) (name : MemberName) :
    name.mapData (.renumbering f) = name := by
  cases name <;> rfl

namespace Node

/-- The tree with its numbers changed. -/
abbrev renumber (f : Renumbering) {form : Form} : Node form → Node form :=
  mapData (.renumbering f)

/-- A tree in which every number stays is the tree itself. -/
theorem renumber_same {form : Form} (x : Node form) : x.renumber .same = x := x.mapData_same

/-- Statements with all their numbers kept are the same. -/
theorem renumberStatements_same (xs : List (Node .statement)) :
    mapStatements (.renumbering .same) xs = xs := by
  rw [mapStatements_eq]
  exact (List.map_congr_left fun x _ => x.renumber_same).trans (List.map_id xs)

end Node

end EcmaScript
