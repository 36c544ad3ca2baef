import EcmaScript.Scope.Basic

/-!
# Scope tables

All scopes of a program in the order in which they were opened, and which of them are open.
The number of a scope is its place in the table plus one. The first scope of a table is
never closed, so that a table can be used for several programs in turn; the global scope of
a later one then lies inside that of the first.
-/

namespace EcmaScript

/-- The scopes met so far. -/
structure ScopeTable where
  /-- All scopes, in the order in which they were opened. -/
  scopes : Array Scope := #[]
  /-- The places of the open scopes, the innermost first. -/
  active : List Nat := []
deriving Repr, Inhabited

namespace ScopeTable

/-- The scope with a given number. -/
def scope? (table : ScopeTable) (id : ScopeId) : Option Scope :=
  if id = 0 then none else table.scopes[id - 1]?

/-- The number that the next scope gets. -/
def nextId (table : ScopeTable) : ScopeId := table.scopes.size + 1

/-- The table with a new innermost scope. -/
def push (table : ScopeTable) (kind : ScopeKind) : ScopeTable where
  scopes := table.scopes.push { id := table.nextId, kind, parent := table.active.head? }
  active := table.scopes.size :: table.active

/-- The table without its innermost open scope, unless it is the only one. -/
def pop (table : ScopeTable) : ScopeTable :=
  match table.active with
  | _ :: next :: outer => { table with active := next :: outer }
  | _ => table

/-- The table with a name declared in the innermost scope. -/
def declare (table : ScopeTable) (id : Identifier) (kind : BindingKind) : ScopeTable :=
  match table.active with
  | [] => table
  | i :: _ =>
    { table with scopes := table.scopes.modify i (·.declare id.name kind id.span.start) }

/-- The number of the global scope of a program that is the first of its table. -/
def globalId : ScopeId := 1

/-- The scope at a place of the table, if it declares a name. -/
def declaring? (table : ScopeTable) (name : String) (i : Nat) : Option ScopeId := do
  let scope ← table.scopes[i]?
  if (scope.get? name).isSome then some scope.id else none

/-- The number of the innermost scope that declares a name, or else that of the global
scope. -/
def lookup (table : ScopeTable) (name : String) : ScopeId :=
  (table.active.findSome? (table.declaring? name)).getD globalId

end ScopeTable

end EcmaScript
