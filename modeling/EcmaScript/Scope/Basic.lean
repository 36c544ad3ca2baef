import EcmaScript.Syntax.Literal

/-!
# Scopes

A scope is a stretch of a program in which names have a meaning of their own. Of several
declarations of one name in one scope the first counts, except that a function takes the
place of anything but a parameter.
-/

namespace EcmaScript

/-- What a scope belongs to. -/
inductive ScopeKind where
  | global | function | block | catchClause | classBody
deriving Repr, DecidableEq, Inhabited

namespace ScopeKind

/-- The name under which a kind is reported. -/
def name : ScopeKind → String
  | global => "Global"
  | function => "Function"
  | block => "Block"
  | catchClause => "Catch"
  | classBody => "Class"

/-- Every kind of scope. -/
def all : List ScopeKind := [global, function, block, catchClause, classBody]

/-- The kind that is reported under a name. -/
def ofName? (name : String) : Option ScopeKind := all.find? (·.name == name)

/-- Whether variables declared by `var` belong to scopes of this kind. -/
def holdsVariables : ScopeKind → Bool
  | global | function => true
  | _ => false

end ScopeKind

/-- How a name was declared. -/
inductive BindingKind where
  | varBinding | letBinding | constBinding | function | parameter | classBinding
  | catchParameter
deriving Repr, DecidableEq, Inhabited

namespace BindingKind

/-- The name under which a kind is reported. -/
def name : BindingKind → String
  | varBinding => "Var"
  | letBinding => "Let"
  | constBinding => "Const"
  | function => "Function"
  | parameter => "Parameter"
  | classBinding => "Class"
  | catchParameter => "CatchParameter"

/-- Every kind of declaration. -/
def all : List BindingKind :=
  [varBinding, letBinding, constBinding, function, parameter, classBinding, catchParameter]

/-- The kind that is reported under a name. -/
def ofName? (name : String) : Option BindingKind := all.find? (·.name == name)

end BindingKind

/-- The meaning of a name in a scope. -/
structure Binding where
  /-- How the name was declared. -/
  kind : BindingKind
  /-- Where it was declared. -/
  declaredAt : Position
deriving Repr, DecidableEq, Inhabited

/-- A scope with its names. -/
structure Scope where
  /-- The number of the scope. -/
  id : ScopeId
  /-- What the scope belongs to. -/
  kind : ScopeKind
  /-- The place of the enclosing scope in the table of all scopes. -/
  parent : Option Nat := none
  /-- The names of the scope, in the order of their first declaration. -/
  bindings : List (String × Binding) := []
deriving Repr, DecidableEq, Inhabited

namespace Scope

/-- The meaning of a name. -/
def get? (scope : Scope) (name : String) : Option Binding := scope.bindings.lookup name

/-- Whether a declaration of a name that is already declared takes its place. -/
def replaces (kind : BindingKind) (existing : Binding) : Bool :=
  kind == .function && existing.kind != .parameter

/-- The names of a scope after one more declaration. -/
def insert (name : String) (binding : Binding) :
    List (String × Binding) → List (String × Binding)
  | [] => [(name, binding)]
  | (other, existing) :: more =>
    if other == name then
      (other, if replaces binding.kind existing then binding else existing) :: more
    else (other, existing) :: insert name binding more

/-- The scope after one more declaration. -/
def declare (scope : Scope) (name : String) (kind : BindingKind) (declaredAt : Position) :
    Scope :=
  { scope with bindings := insert name ⟨kind, declaredAt⟩ scope.bindings }

/-- The names of a scope in alphabetical order, by code points. -/
def sortedBindings (scope : Scope) : List (String × Binding) :=
  scope.bindings.mergeSort fun a b => a.1 ≤ b.1

end Scope

end EcmaScript
