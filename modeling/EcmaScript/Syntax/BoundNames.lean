import EcmaScript.Syntax.Node

/-!
# Names that a pattern binds

The identifiers that a pattern or a list of parameters gives values to, in the order of the
source. Properties that are assigned to are no names.
-/

namespace EcmaScript.Node

mutual

/-- The names that a pattern, or a part of one, binds. -/
def boundNames {form : Form} : Node form → List Identifier
  | .binding id => [id]
  | .arrayPattern _ elements remainder => elementNames elements ++ restNames remainder
  | .objectPattern _ properties remainder => propertyNames properties ++ restNames remainder
  | .patternProperty _ _ value _ => value.boundNames
  | .element _ target _ => target.boundNames
  | .rest _ argument => argument.boundNames
  | .parameters _ params remainder => parameterNames params ++ restNames remainder
  | _ => []

/-- The names that the elements of an array pattern bind. -/
def elementNames : List (Option (Node .element)) → List Identifier
  | [] => []
  | none :: more => elementNames more
  | some e :: more => e.boundNames ++ elementNames more

/-- The names that the properties of an object pattern bind. -/
def propertyNames : List (Node .patternProperty) → List Identifier
  | [] => []
  | p :: more => p.boundNames ++ propertyNames more

/-- The names that parameters bind. -/
def parameterNames : List (Node .element) → List Identifier
  | [] => []
  | e :: more => e.boundNames ++ parameterNames more

/-- The names that the rest of a pattern binds. -/
def restNames : Option (Node .rest) → List Identifier
  | none => []
  | some r => r.boundNames

end

end EcmaScript.Node
