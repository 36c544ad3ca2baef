import EcmaScript.Proofs.Scope.Accepted
import EcmaScript.Proofs.Scope.Echo

/-!
# Resolving a program again

A table can be used for several runs over one program. Every run adds the same scopes once more,
with their numbers moved on by those that the table has already, and gives the names the numbers
of its own scopes. The global scope of the first run, which stays open, and the numbers that are
in the tree already have no part in this: whether a name is found there or nowhere, it gets the
number of the first global scope.
-/

namespace EcmaScript

open Resolution

/-- The scope as a later run adds it to a table that has a number of scopes already: the scope
that was the outermost lies in the first one of the table. -/
def Scope.moved (size : Nat) (scope : Scope) : Scope :=
  { scope with
    id := scope.id + size
    parent :=
      match scope.parent with
      | some parent => some (parent + size)
      | none => if size = 0 then none else some 0 }

@[simp] theorem Scope.moved_zero (scope : Scope) : scope.moved 0 = scope := by
  obtain ⟨id, kind, parent, bindings⟩ := scope
  cases parent <;> rfl

/-- Numbers are moved on, but for those of some names. -/
def Renumbering.onward (size : Nat) (isFree : Identifier → Bool) : Renumbering where
  name id := if isFree id then id else { id with scope := id.scope + size }
  scope id := if id = 0 then 0 else id + size

theorem Renumbering.onward_zero (isFree : Identifier → Bool) : onward 0 isFree = same := by
  simp only [onward, same, mk.injEq]
  constructor
  · funext id
    exact ite_self id
  · funext id
    by_cases hid : id = 0
    · rw [if_pos hid, hid]
      rfl
    · exact if_neg hid

namespace ScopeTable

/-- The second table has some older scopes, then those of the first, moved on by their number.
The same of these are open, in the first table at least the outermost one. -/
structure Extends (older : Array Scope) (outer : List Nat) (t t' : ScopeTable) : Prop where
  scopes : t'.scopes = older ++ t.scopes.map (Scope.moved older.size)
  active : t'.active = t.active.map (· + older.size) ++ outer
  ids : ∀ i scope, t.scopes[i]? = some scope → scope.id = i + 1
  parents : ∀ i scope, t.scopes[i]? = some scope → (scope.parent = none ↔ i = 0)
  first : t.active.getLast? = some 0
  descending : t.active.Pairwise (· > ·)
  bounded : ∀ i ∈ t.active, i < t.scopes.size

variable {older : Array Scope} {outer : List Nat} {t t' : ScopeTable}

/-- The larger table has the older scopes more. -/
theorem Extends.size (h : Extends older outer t t') :
    t'.scopes.size = t.scopes.size + older.size := by
  rw [h.scopes, Array.size_append, Array.size_map, Nat.add_comm]

/-- The next number of the larger table is moved on by the number of older scopes. -/
theorem Extends.nextId (h : Extends older outer t t') : t'.nextId = t.nextId + older.size := by
  show t'.scopes.size + 1 = t.scopes.size + 1 + older.size
  rw [h.size]
  exact Nat.add_right_comm _ _ _

/-- A scope is always open. -/
theorem Extends.active_ne_nil (h : Extends older outer t t') : t.active ≠ [] := by
  intro hnil
  have hfirst := h.first
  rw [hnil] at hfirst
  exact nomatch hfirst

/-- Both open a scope of one kind. -/
theorem Extends.push (h : Extends older outer t t') (kind : ScopeKind) :
    Extends older outer (t.push kind) (t'.push kind) := by
  obtain ⟨i, rest, hactive⟩ := List.exists_cons_of_ne_nil h.active_ne_nil
  constructor
  · have hnew : Scope.moved older.size { id := t.nextId, kind, parent := t.active.head? } =
        { id := t'.nextId, kind, parent := t'.active.head? } := by
      rw [h.nextId, h.active, hactive]
      rfl
    show t'.scopes.push _ = older ++ (t.scopes.push _).map _
    rw [Array.map_push, hnew, Array.append_push, ← h.scopes]
  · show t'.scopes.size :: t'.active = (t.scopes.size :: t.active).map _ ++ outer
    rw [h.size, h.active]
    rfl
  · intro j scope hscope
    rw [ScopeTable.push, Array.getElem?_push] at hscope
    split at hscope
    case isTrue hj =>
      rw [← Option.some.inj hscope, hj]
      rfl
    case isFalse => exact h.ids j scope hscope
  · intro j scope hscope
    rw [ScopeTable.push, Array.getElem?_push] at hscope
    split at hscope
    case isTrue hj =>
      have hi := h.bounded i (hactive ▸ List.mem_cons_self)
      rw [← Option.some.inj hscope, hactive]
      simp only [List.head?_cons, reduceCtorEq, false_iff]
      omega
    case isFalse => exact h.parents j scope hscope
  · show (t.scopes.size :: t.active).getLast? = some 0
    rw [List.getLast?_cons, h.first]
    rfl
  · exact List.pairwise_cons.mpr ⟨h.bounded, h.descending⟩
  · intro j hj
    show j < (t.scopes.push _).size
    rw [Array.size_push]
    rcases List.mem_cons.mp hj with rfl | hj
    · exact Nat.lt_succ_self _
    · exact Nat.lt_succ_of_lt (h.bounded j hj)

/-- Both close the innermost scope. -/
theorem Extends.pop (h : Extends older outer t t') (htail : t.active.tail ≠ []) :
    Extends older outer t.pop t'.pop := by
  obtain ⟨i, rest, hactive⟩ := List.exists_cons_of_ne_nil h.active_ne_nil
  have hrest : rest ≠ [] := by
    rwa [hactive] at htail
  have hafter : t'.active = (i + older.size) :: (rest.map (· + older.size) ++ outer) := by
    rw [h.active, hactive]
    rfl
  have hinner : t.pop.active = rest := active_pop hactive hrest
  have houter : t'.pop.active = rest.map (· + older.size) ++ outer :=
    active_pop hafter (by simp [hrest])
  have hdescending := h.descending
  have hfirst := h.first
  rw [hactive] at hdescending hfirst
  constructor
  · rw [scopes_pop, scopes_pop, h.scopes]
  · rw [houter, hinner]
  · rw [scopes_pop]
    exact h.ids
  · rw [scopes_pop]
    exact h.parents
  · rw [hinner, ← hfirst, List.getLast?_cons_of_ne_nil hrest]
  · rw [hinner]
    exact (List.pairwise_cons.mp hdescending).2
  · rw [hinner, scopes_pop]
    exact fun j hj => h.bounded j (hactive ▸ List.mem_cons_of_mem i hj)

/-- Both declare a name. -/
theorem Extends.declare (h : Extends older outer t t') (id : Identifier) (kind : BindingKind) :
    Extends older outer (t.declare id kind) (t'.declare id kind) := by
  obtain ⟨i, rest, hactive⟩ := List.exists_cons_of_ne_nil h.active_ne_nil
  have hafter : t'.active = (i + older.size) :: (rest.map (· + older.size) ++ outer) := by
    rw [h.active, hactive]
    rfl
  have hscopes : (t.declare id kind).scopes =
      t.scopes.modify i (·.declare id.name kind id.span.start) := by
    rw [ScopeTable.declare, hactive]
  have hscopes' : (t'.declare id kind).scopes =
      t'.scopes.modify (i + older.size) (·.declare id.name kind id.span.start) := by
    rw [ScopeTable.declare, hafter]
  have hsame := (Grows.declare t id kind).active
  have hsame' := (Grows.declare t' id kind).active
  have hgiven : ∀ {j : Nat} {scope : Scope}, (t.declare id kind).scopes[j]? = some scope →
      ∃ before : Scope, t.scopes[j]? = some before ∧ scope.id = before.id ∧
        scope.parent = before.parent := by
    intro j scope hscope
    rw [hscopes, Array.getElem?_modify] at hscope
    split at hscope
    · obtain ⟨before, hbefore, rfl⟩ := Option.map_eq_some_iff.mp hscope
      exact ⟨before, hbefore, rfl, rfl⟩
    · exact ⟨scope, hscope, rfl, rfl⟩
  constructor
  · rw [hscopes', hscopes, h.scopes]
    apply Array.ext_getElem?
    intro j
    rw [Array.getElem?_modify, Array.getElem?_append, Array.getElem?_append, Array.getElem?_map,
      Array.getElem?_map, Array.getElem?_modify]
    by_cases hj : j < older.size
    · rw [if_neg (by omega), if_pos hj, if_pos hj]
    · rw [if_neg hj, if_neg hj]
      by_cases hi : i + older.size = j
      · rw [if_pos hi, if_pos (by omega), Option.map_map, Option.map_map]
        rfl
      · rw [if_neg hi, if_neg (by omega)]
  · rw [hsame', hsame, h.active]
  · intro j scope hscope
    obtain ⟨before, hbefore, hid, -⟩ := hgiven hscope
    rw [hid, h.ids j before hbefore]
  · intro j scope hscope
    obtain ⟨before, hbefore, -, hparent⟩ := hgiven hscope
    rw [hparent, h.parents j before hbefore]
  · rw [hsame, h.first]
  · rw [hsame]
    exact h.descending
  · rw [hsame, size_declare]
    exact h.bounded

/-- Both declare some names. -/
theorem Extends.declareAll (h : Extends older outer t t') (ds : List Declaration) :
    Extends older outer (t.declareAll ds) (t'.declareAll ds) := by
  induction ds generalizing t t' with
  | nil => exact h
  | cons d ds ih => exact ih (h.declare d.1 d.2)

/-- What the search finds in one scope of the table. -/
theorem declaring?_eq {scope : Scope} {i : Nat} (name : String) (h : t.scopes[i]? = some scope) :
    t.declaring? name i = if (scope.get? name).isSome then some scope.id else none := by
  rw [declaring?, h]
  rfl

/-- What is declared in the scopes that are moved is what is declared in them. -/
theorem Extends.declaring?_eq (h : Extends older outer t t') (name : String) {i : Nat}
    (hi : i < t.scopes.size) :
    t'.declaring? name (i + older.size) = (t.declaring? name i).map (· + older.size) := by
  have hscope := Array.getElem?_eq_getElem hi
  have hmoved : t'.scopes[i + older.size]? = some (t.scopes[i].moved older.size) := by
    rw [h.scopes, Array.getElem?_append_right (Nat.le_add_left _ _), Nat.add_sub_cancel,
      Array.getElem?_map, hscope]
    rfl
  rw [ScopeTable.declaring?_eq name hscope, ScopeTable.declaring?_eq name hmoved]
  show (if (t.scopes[i].get? name).isSome then _ else _) = _
  split <;> rfl

/-- The scopes that are open around those of the larger table are the first one at most. -/
def OnlyFirst (older : Array Scope) (outer : List Nat) : Prop :=
  ∀ i ∈ outer, ∃ scope, older[i]? = some scope ∧ scope.id = globalId

/-- A name that is found in the first table is found in the moved scope, and one that is not has
the number of the global scope in both. -/
theorem Extends.lookup (h : Extends older outer t t') (houter : OnlyFirst older outer)
    (name : String) :
    match t.active.findSome? (t.declaring? name) with
    | some id => t.lookup name = id ∧ t'.lookup name = id + older.size
    | none => t.lookup name = globalId ∧ t'.lookup name = globalId := by
  have hinner : ∀ places : List Nat, (∀ i ∈ places, i < t.scopes.size) →
      (places.map (· + older.size)).findSome? (t'.declaring? name) =
        (places.findSome? (t.declaring? name)).map (· + older.size) := by
    intro places hplaces
    induction places with
    | nil => rfl
    | cons i places ih =>
      rw [List.forall_mem_cons] at hplaces
      rw [List.map_cons, List.findSome?_cons, List.findSome?_cons,
        h.declaring?_eq name hplaces.1, ih hplaces.2]
      cases t.declaring? name i <;> rfl
  have hglobal : ((outer.findSome? (t'.declaring? name)).getD globalId) = globalId := by
    cases hfind : outer.findSome? (t'.declaring? name) with
    | none => rfl
    | some id =>
      obtain ⟨i, hi, hid⟩ := List.exists_of_findSome?_eq_some hfind
      obtain ⟨scope, hscope, hone⟩ := houter i hi
      have hlt : i < older.size := (Array.getElem?_eq_some_iff.mp hscope).1
      have hplace : t'.scopes[i]? = some scope := by
        rw [h.scopes, Array.getElem?_append_left hlt, hscope]
      rw [ScopeTable.declaring?_eq name hplace] at hid
      split at hid
      · rw [← Option.some.inj hid, hone]
        rfl
      · exact nomatch hid
  rw [ScopeTable.lookup, ScopeTable.lookup, h.active, List.findSome?_append,
    hinner t.active h.bounded]
  cases t.active.findSome? (t.declaring? name) with
  | some id => exact ⟨rfl, rfl⟩
  | none => exact ⟨rfl, hglobal⟩

/-- The first scope of the table declares exactly some names. -/
def FirstHas (names : List String) (t : ScopeTable) : Prop :=
  ∃ scope, t.scopes[0]? = some scope ∧ ∀ name, scope.Has name ↔ name ∈ names

/-- Names that the first scope has already may be declared there again. -/
theorem FirstHas.declare {names : List String} (h : FirstHas names t) (id : Identifier)
    (kind : BindingKind) (hid : t.active.head? = some 0 → id.name ∈ names) :
    FirstHas names (t.declare id kind) := by
  obtain ⟨scope, hscope, hnames⟩ := h
  have hplace := scope?_declare t id kind 1
  have hfirst : t.scope? 1 = some scope := hscope
  rw [hfirst] at hplace
  by_cases hhead : t.active.head? = some 0
  · rw [if_pos hhead] at hplace
    refine ⟨_, hplace, fun name => ?_⟩
    rw [Scope.has_declare, hnames]
    exact or_iff_right_of_imp fun hname => hname ▸ hid hhead
  · rw [if_neg hhead] at hplace
    exact ⟨scope, hplace, hnames⟩

/-- A name is found nowhere if it has the number of the first scope without being declared there. -/
theorem Extends.findSome?_eq_none {names : List String} (h : Extends older outer t t')
    (hfirst : FirstHas names t) (name : String) :
    t.active.findSome? (t.declaring? name) = none ↔ t.lookup name = globalId ∧ name ∉ names := by
  obtain ⟨scope, hscope, hnames⟩ := hfirst
  constructor
  · intro hnone
    refine ⟨by rw [ScopeTable.lookup, hnone]; rfl, fun hname => ?_⟩
    -- The outermost scope is open, so the name would be found there at last.
    have hzero := List.findSome?_eq_none_iff.mp hnone 0 (List.mem_of_getLast? h.first)
    have hhas : (scope.get? name).isSome = true := (hnames name).mpr hname
    rw [ScopeTable.declaring?_eq name hscope, if_pos hhas] at hzero
    cases hzero
  · rintro ⟨hglobal, hname⟩
    by_contra hfound
    obtain ⟨id, hid⟩ := Option.ne_none_iff_exists'.mp hfound
    obtain ⟨i, hi, hplace⟩ := List.exists_of_findSome?_eq_some hid
    have hone : id = globalId := by
      rw [ScopeTable.lookup, hid] at hglobal
      exact hglobal
    have hat := Array.getElem?_eq_getElem (h.bounded i hi)
    rw [ScopeTable.declaring?_eq name hat] at hplace
    split at hplace
    case isTrue hhas =>
      have hnumber : i + 1 = 1 := by
        rw [← h.ids i _ hat, Option.some.inj hplace, hone]
        rfl
      obtain rfl : i = 0 := Nat.succ.inj hnumber
      rw [Option.some.inj (hat.symm.trans hscope)] at hhas
      exact hname ((hnames name).mp hhas)
    case isFalse => cases hplace

end ScopeTable

open ScopeTable in
/-- A table goes together with one that extends it, once the names of its first scope are known:
a name is free if it has the number of this scope without being one of these. -/
theorem Pairing.onward {older : Array Scope} {outer : List Nat} (houter : OnlyFirst older outer)
    (names : List String) :
    Pairing (.onward older.size fun id => id.scope == globalId && !names.contains id.name)
      (· ∈ names) fun t t' => Extends older outer t t' ∧ FirstHas names t where
  scope_zero := rfl
  push := by
    rintro t t' ⟨h, scope, hscope, hnames⟩ kind
    refine ⟨h.push kind, scope, ?_, hnames⟩
    rw [ScopeTable.push, Array.getElem?_push_lt (Array.getElem?_eq_some_iff.mp hscope).1]
    exact congrArg some (Array.getElem?_eq_some_iff.mp hscope).2
  nextId := fun h => h.1.nextId
  pop := by
    rintro t t' ⟨h, hfirst⟩ htail
    refine ⟨h.pop htail, ?_⟩
    rw [FirstHas, scopes_pop]
    exact hfirst
  declare := by
    rintro t t' ⟨h, hfirst⟩ id kind hallowed
    refine ⟨h.declare id kind, hfirst.declare id kind fun hhead => hallowed ?_⟩
    -- The first scope is the innermost one only if it is the only one that is open.
    obtain ⟨i, rest, hactive⟩ := List.exists_cons_of_ne_nil h.active_ne_nil
    have hdescending := h.descending
    have hlast := h.first
    rw [hactive] at hdescending hlast hhead ⊢
    obtain rfl : i = 0 := Option.some.inj hhead
    cases rest with
    | nil => rfl
    | cons j rest =>
      have hlt := (List.pairwise_cons.mp hdescending).1 j List.mem_cons_self
      exact absurd hlt (Nat.not_lt_zero j)
  lookup := by
    rintro t t' ⟨h, hfirst⟩ - id
    have hlookup := h.lookup houter id.name
    have hfree := h.findSome?_eq_none hfirst id.name
    simp only [Renumbering.onward]
    cases hfind : t.active.findSome? (t.declaring? id.name) with
    | none =>
      rw [hfind] at hlookup hfree
      obtain ⟨hglobal, hname⟩ := hfree.mp rfl
      simp [hlookup.2, hglobal, hname]
    | some s =>
      rw [hfind] at hlookup hfree
      have hnot : ¬(t.lookup id.name = globalId ∧ id.name ∉ names) := fun hand => by
        cases hfree.mpr hand
      rw [if_neg (by simpa using hnot), hlookup.1, hlookup.2]

/-- A table goes together with itself. -/
theorem Pairing.same : Pairing .same (fun _ => True) Eq where
  scope_zero := rfl
  push := by rintro t _ rfl kind; rfl
  nextId := by rintro t _ rfl; rfl
  pop := by rintro t _ rfl _; rfl
  declare := by rintro t _ rfl id kind _; rfl
  lookup := by rintro t _ rfl _ id; rfl

namespace Program

/-- The table in which a program puts its statements: one more scope with the names of the script
declared. -/
def entered (program : Program) (table : ScopeTable) : ScopeTable :=
  (table.push .global).declareAll (Region.script program.body).declarations

/-- A program is resolved by resolving its statements in the table that has been entered. -/
theorem resolve_eq (program : Program) (table : ScopeTable) :
    program.resolve table =
      ({ program with
          body := (Node.resolveStatements program.body (program.entered table)).1 },
        (Node.resolveStatements program.body (program.entered table)).2.pop) := by
  simp only [entered, Region.declarations, ScopeTable.declareAll, List.foldl_append]
  rfl

/-- The scope of the script is open inside those that were. -/
theorem active_entered (program : Program) (table : ScopeTable) :
    (program.entered table).active = table.scopes.size :: table.active :=
  (Pairing.same.declareAll rfl _ fun _ _ _ => trivial).2

/-- A scope is open in the table that has been entered. -/
theorem entered_ne_nil (program : Program) (table : ScopeTable) :
    (program.entered table).active ≠ [] := by
  rw [active_entered]
  exact List.cons_ne_nil _ _

section

variable {program : Program} (h : ∀ s ∈ program.body, Parsed s)
include h

/-- The statements of a script are echoed, where the names of the script may be declared. -/
theorem echoes_statements {f : Renumbering} {allowed : String → Prop}
    {tables : ScopeTable → ScopeTable → Prop} (hpairing : Pairing f allowed tables)
    (hallowed : ∀ name ∈ (Region.script program.body).names, allowed name)
    (start : ScopeTable) :
    Echoes tables True (Node.mapStatements (.renumbering f)) (Node.resolveStatements program.body)
      (Node.resolveStatements (Node.resolveStatements program.body start).1) := by
  refine Echoes.list Node.resolveStatements_eq (Node.mapStatements_eq (.renumbering f)) ?_ start
  refine fun s hs start => ((h s hs).echoed hpairing start).mono fun _ name hname => ?_
  rw [Node.introduces_eq_nil rfl, List.nil_append, Node.expects_statement] at hname
  obtain ⟨d, hd, rfl⟩ := mem_declaredNames.mp hname
  apply hallowed
  exact mem_declaredNames.mpr ⟨d, List.mem_append_right _ (List.mem_flatMap.mpr ⟨s, hs, hd⟩), rfl⟩

/-- The numbers that are in statements already have no part in a run over them. -/
theorem resolveStatements_again (start : ScopeTable) {table : ScopeTable}
    (hopen : table.active ≠ []) :
    Node.resolveStatements (Node.resolveStatements program.body start).1 table =
      Node.resolveStatements program.body table := by
  obtain ⟨hvalue, hlater, -⟩ := echoes_statements h .same (fun _ _ => trivial) start table _ rfl
    hopen fun _ => trivial
  refine Prod.ext ?_ hlater.symm
  rw [hvalue, Node.renumberStatements_same]

/-- The numbers that are in a program already have no part in a run. -/
theorem resolve_again (start table : ScopeTable) :
    (program.resolve start).1.resolve table = program.resolve table := by
  obtain ⟨body, hbody⟩ : ∃ body, body =
      (Node.resolveStatements program.body (program.entered start)).1 := ⟨_, rfl⟩
  have herase : body.map Node.erase = program.body.map Node.erase :=
    hbody ▸ Node.statements_again h
  have hdeclarations : (Region.script body).declarations.map Node.eraseDeclared =
      (Region.script program.body).declarations.map Node.eraseDeclared := by
    simp only [Region.declarations, List.map_append, Node.map_hoistedAll_congr herase,
      Node.map_lexical_congr herase]
  have hentered : ({ program with body } : Program).entered table = program.entered table := by
    rw [entered, entered, ← ScopeTable.declareAll_erase, hdeclarations,
      ScopeTable.declareAll_erase]
  have hrun := resolveStatements_again h (program.entered start) (entered_ne_nil program table)
  rw [resolve_eq program start, ← hbody, resolve_eq, resolve_eq, hentered]
  rw [← hbody] at hrun
  rw [hrun]

end

/-- The program after being resolved some times, each time once more with the same table, and the
table that there is then. -/
def rerun (program : Program) : Nat → Program × ScopeTable
  | 0 => (program, {})
  | k + 1 => (rerun program k).1.resolve.run (rerun program k).2

/-- The program with other numbers. -/
def renumber (f : Renumbering) (program : Program) : Program :=
  { program with body := Node.mapStatements (.renumbering f) program.body }

/-- Nothing changes with the same numbers. -/
theorem renumber_same (program : Program) : program.renumber .same = program := by
  rw [renumber, Node.renumberStatements_same]

/-- A name of the resolved program that is found in no scope: it has the number of the global
scope without being declared there. -/
def isFree (program : Program) (id : Identifier) : Bool :=
  id.scope == ScopeTable.globalId && !(Region.script program.body).names.contains id.name

section

variable {program : Program} (h : ∀ s ∈ program.body, Parsed s)
include h

/-- Each run is one over the program as it is without numbers. -/
theorem rerun_succ (k : Nat) :
    program.rerun (k + 1) = program.resolve (program.rerun k).2 := by
  cases k with
  | zero => rfl
  | succ k =>
    have hbefore : (program.rerun (k + 1)).1 = (program.resolve (program.rerun k).2).1 := by
      rw [rerun_succ k]
    show (program.rerun (k + 1)).1.resolve _ = _
    rw [hbefore, resolve_again h]

omit h in
/-- Where the statements of a program are resolved by themselves, the script has its names. -/
theorem firstHas_entered (program : Program) :
    ScopeTable.FirstHas (Region.script program.body).names (program.entered {}) := by
  have hempty : ScopeTable.Shows {} [] := ⟨rfl, by simp, List.Pairwise.nil⟩
  have hshows := ((hempty.push .global).declareAll (Region.script program.body).declarations).1
  obtain ⟨scope, hscope, -, hnames⟩ := hshows.names _ List.mem_cons_self
  exact ⟨scope, hscope, fun name => by rw [hnames, List.append_nil]; rfl⟩

omit h in
/-- A program enters a table that has scopes already as it enters an empty one. -/
theorem extends_entered (program : Program) {table : ScopeTable} (hactive : table.active = [0])
    (hsize : 0 < table.scopes.size) :
    ScopeTable.Extends table.scopes [0] (program.entered {}) (program.entered table) := by
  have hone : ∀ {i : Nat} {scope : Scope}, (ScopeTable.push {} .global).scopes[i]? = some scope →
      i = 0 ∧ scope = { id := 1, kind := .global } := by
    intro i scope hscope
    cases i with
    | zero => exact ⟨rfl, (Option.some.inj hscope).symm⟩
    | succ i => exact nomatch hscope
  apply ScopeTable.Extends.declareAll
  constructor
  · have hroot : Scope.moved table.scopes.size { id := 1, kind := .global } =
        { id := table.nextId, kind := .global, parent := some 0 } := by
      simp only [Scope.moved, if_neg hsize.ne']
      rw [Nat.add_comm]
      rfl
    have hempty : (ScopeTable.push {} .global).scopes = #[{ id := 1, kind := .global }] := rfl
    rw [hempty, List.map_toArray, List.map_singleton, hroot, Array.append_singleton,
      ScopeTable.push, hactive]
    rfl
  · show table.scopes.size :: table.active = [0 + table.scopes.size, 0]
    rw [hactive, Nat.zero_add]
  · intro i scope hscope
    obtain ⟨rfl, rfl⟩ := hone hscope
    rfl
  · intro i scope hscope
    obtain ⟨rfl, rfl⟩ := hone hscope
    exact iff_of_true rfl rfl
  · rfl
  · exact List.pairwise_singleton _ _
  · intro i hi
    obtain rfl := List.mem_singleton.mp hi
    exact Nat.one_pos

/-- A run that starts in a table which has the scopes of earlier ones. -/
theorem resolve_extends {table : ScopeTable} (hactive : table.active = [0])
    (hfirst : ∃ scope, table.scopes[0]? = some scope ∧ scope.id = ScopeTable.globalId) :
    (program.resolve table).1 =
        program.resolved.renumber (.onward table.scopes.size program.isFree) ∧
      (program.resolve table).2.scopes =
        table.scopes ++ program.scopeTable.scopes.map (Scope.moved table.scopes.size) ∧
      (program.resolve table).2.active = [0] ∧
      ∀ i scope, program.scopeTable.scopes[i]? = some scope →
        scope.id = i + 1 ∧ (scope.parent = none ↔ i = 0) := by
  obtain ⟨first, hplace, hid⟩ := hfirst
  have hsize := (Array.getElem?_eq_some_iff.mp hplace).1
  have houter : ScopeTable.OnlyFirst table.scopes [0] := by
    intro i hi
    obtain rfl := List.mem_singleton.mp hi
    exact ⟨first, hplace, hid⟩
  have hstart := extends_entered program hactive hsize
  obtain ⟨hvalue, ⟨hlater, -⟩, hopen⟩ := echoes_statements h
    (Pairing.onward houter (Region.script program.body).names) (fun _ hname => hname) {}
    (program.entered {}) (program.entered table) ⟨hstart, firstHas_entered program⟩
    (entered_ne_nil program {}) fun _ => trivial
  rw [resolveStatements_again h {} (entered_ne_nil program table)] at hvalue hlater
  rw [active_entered] at hopen
  have hscopes : program.scopeTable.scopes =
      (Node.resolveStatements program.body (program.entered {})).2.scopes := by
    rw [scopeTable_eq, ScopeTable.scopes_pop]
    rfl
  have hclosed : (program.resolve table).2.active = [0] := by
    rw [resolve_eq]
    apply ScopeTable.active_pop _ (List.cons_ne_nil 0 [])
    · exact table.scopes.size
    · rw [hlater.active, hopen]
      exact congrArg (· :: [0]) (Nat.zero_add _)
  refine ⟨?_, ?_, hclosed, fun i scope hscope => ?_⟩
  · rw [resolve_eq, hvalue, renumber, body_resolved]
    rfl
  · rw [resolve_eq, ScopeTable.scopes_pop, hlater.scopes, hscopes]
  · rw [hscopes] at hscope
    exact ⟨hlater.ids i scope hscope, hlater.parents i scope hscope⟩

/-- Statements leave the same scopes open. -/
theorem active_resolveStatements {table : ScopeTable} (hopen : table.active ≠ []) :
    (Node.resolveStatements program.body table).2.active = table.active :=
  (echoes_statements h .same (fun _ _ => trivial) table table table rfl hopen fun _ => trivial).2.2

/-- What all runs leave: the scopes of the first run once for each of them. -/
theorem rerun_table (k : Nat) :
    (program.rerun (k + 1)).2.active = [0] ∧
      (program.rerun (k + 1)).2.scopes.size = (k + 1) * program.scopeTable.scopes.size ∧
      ∃ scope, (program.rerun (k + 1)).2.scopes[0]? = some scope ∧
        scope.id = ScopeTable.globalId := by
  induction k with
  | zero =>
    obtain ⟨-, scope, hscope, hid, -⟩ := opened h List.mem_cons_self
    refine ⟨?_, (Nat.one_mul _).symm, scope, hscope, hid⟩
    have hactive : (Node.resolveStatements program.body (program.entered {})).2.active = [0] :=
      (active_resolveStatements h (entered_ne_nil program {})).trans (active_entered program {})
    show (program.resolve {}).2.active = [0]
    rw [resolve_eq]
    simp only [ScopeTable.pop, hactive]
  | succ k ih =>
    obtain ⟨hactive, hsize, scope, hscope, hid⟩ := ih
    obtain ⟨-, hscopes, hclosed, -⟩ := resolve_extends h hactive ⟨scope, hscope, hid⟩
    rw [rerun_succ h]
    refine ⟨hclosed, ?_, scope, ?_, hid⟩
    · rw [hscopes, Array.size_append, Array.size_map, hsize, ← Nat.succ_mul]
    · rw [hscopes, Array.getElem?_append_left (Array.getElem?_eq_some_iff.mp hscope).1, hscope]

end

end Program

/-- Some of the frames has the name. -/
def Frame.Sees (frames : List Frame) (name : String) : Prop := ∃ frame ∈ frames, name ∈ frame.names

namespace Frame

variable {frames : List Frame} {name : String}

/-- A name that is seen is seen from further in. -/
theorem Sees.cons (h : Sees frames name) (frame : Frame) : Sees (frame :: frames) name :=
  have ⟨other, hmem, hname⟩ := h
  ⟨other, List.mem_cons_of_mem _ hmem, hname⟩

/-- A name that is seen stays seen when others are declared. -/
theorem Sees.grow (h : Sees frames name) (names : List String) :
    Sees (Frame.grow names frames) name := by
  obtain ⟨frame, hmem, hname⟩ := h
  cases frames with
  | nil => exact nomatch hmem
  | cons first outer =>
    rcases List.mem_cons.mp hmem with rfl | hmem
    · exact ⟨_, List.mem_cons_self, List.mem_append_right _ hname⟩
    · exact ⟨frame, List.mem_cons_of_mem _ hmem, hname⟩

end Frame

namespace Node

variable {form : Form} {x : Node form} {declared : Bool} {frames inner : List Frame} {name : String}

/-- What is seen around a node is seen in its parts. -/
theorem sees_part {q : Part} (h : .part inner q ∈ x.layout declared frames)
    (hsees : Frame.Sees frames name) : Frame.Sees inner name := by
  cases x with
  | arrow | conciseArrow | function =>
    rcases part_mem_functionIn.mp h with ⟨-, rfl⟩ | ⟨-, rfl⟩ <;> exact hsees.cons _
  | classDefinition =>
    rw [(part_mem_classIn.mp h).2]
    exact hsees.cons _
  | block | staticBlock | catchClause =>
    simp only [layout, scopeIn, List.mem_cons, reduceCtorEq, part_mem_partsIn, false_or] at h
    rw [h.2]
    exact hsees.cons _
  | switch =>
    simp only [layout, scopeIn, List.mem_cons, Item.part.injEq, reduceCtorEq, part_mem_partsIn,
      false_or] at h
    rcases h with ⟨rfl, -⟩ | ⟨-, rfl⟩
    · exact hsees
    · exact hsees.cons _
  | forLoop _ head | forIn _ head | forOf _ _ head =>
    cases hlexical : head.declaresLexically with
    | true =>
      rcases (part_mem_loopIn hlexical).mp h with ⟨-, rfl⟩ | ⟨-, rfl⟩ <;> exact hsees.cons _
    | false =>
      rw [((part_mem_plainLoopIn hlexical).mp h).2]
      exact hsees
  | parameters =>
    simp only [layout, part_mem_partsIn] at h
    rw [h.2]
    exact hsees.grow _
  | declaration span kind ds =>
    simp only [layout] at h
    split at h
    · obtain ⟨d, -, -, names, rfl, -, -⟩ := part_mem_declaratorsIn h
      exact hsees.grow names
    · rw [(part_mem_partsIn.mp h).2]
      exact hsees
  | _ =>
    simp only [layout, List.mem_append, part_not_mem_namesIn, part_mem_partsIn, false_or] at h
    rw [h.2]
    exact hsees

/-- What is seen around a node is seen where its names stand. -/
theorem sees_name {role : NameRole} {id : Identifier}
    (h : .name role id inner ∈ x.layout declared frames) (hsees : Frame.Sees frames name) :
    Frame.Sees inner name := by
  cases x with
  | arrow | conciseArrow => simp [layout, functionIn] at h
  | function =>
    cases declared with
    | true => simp_all [layout, functionIn]
    | false =>
      simp only [layout, functionIn, Bool.false_eq_true, if_false, List.mem_append,
        List.mem_cons, reduceCtorEq, name_mem_namesIn, false_or, List.not_mem_nil, or_false] at h
      rw [h.2]
      exact hsees.cons _
  | classDefinition =>
    cases declared with
    | true => simp_all [layout, classIn]
    | false =>
      simp only [layout, classIn, Bool.false_eq_true, if_false, List.mem_append,
        List.mem_cons, reduceCtorEq, name_mem_namesIn, false_or, name_not_mem_partsIn,
        or_false] at h
      rw [h.2]
      exact hsees.cons _
  | block | staticBlock | catchClause | switch => simp_all [layout, scopeIn]
  | forLoop | forIn | forOf =>
    simp only [layout, loopIn] at h
    split at h <;> simp_all
  | declaration span kind ds =>
    simp only [layout] at h
    split at h <;> simp_all
  | parameters => simp [layout] at h
  | _ =>
    simp only [layout, List.mem_append, name_mem_namesIn, name_not_mem_partsIn, or_false] at h
    rw [h.2]
    exact hsees

end Node

namespace Program

/-- The names of a script are seen everywhere in it. -/
theorem Site.sees {program : Program} {path : List Part} {declared : Bool} {frames : List Frame}
    (h : program.Site path declared frames) {name : String}
    (hname : name ∈ (Region.script program.body).names) : Frame.Sees frames name := by
  induction h with
  | statement => exact ⟨_, List.mem_singleton_self _, hname⟩
  | part _ hq ih => exact Node.sees_part hq ih

/-- A name that stands for a variable is free just where no scope around it has the name. -/
theorem isFree_iff {program : Program} (h : ∀ s ∈ program.body, Parsed s) {path : List Part}
    {role : NameRole} {id : Identifier} {frames : List Frame}
    (hstands : program.resolved.Stands path (.name role id frames))
    (hrole : role = .reference ∨ role = .binding) :
    program.isFree id = true ↔ ¬Frame.Sees frames id.name := by
  have hstamp : id.scope = Frame.innermost frames id.name := by
    rcases hrole with rfl | rfl
    · exact (named h (hstands.mem_walk rfl)).1
    · exact (named h (hstands.mem_walk rfl)).1
  have hsupports := (named h (hstands.mem_walk rfl)).2
  simp only [isFree, Bool.and_eq_true, beq_iff_eq, Bool.not_eq_true', List.contains_eq_mem,
    decide_eq_false_iff_not]
  constructor
  · rintro ⟨hglobal, hnot⟩ ⟨frame, hframe, hname⟩
    have hsome : (frames.find? (id.name ∈ ·.names)).isSome = true :=
      List.find?_isSome.mpr ⟨frame, hframe, by simpa using hname⟩
    obtain ⟨found, hfound⟩ := Option.isSome_iff_exists.mp hsome
    have hone : found.id = ScopeTable.globalId := by
      rw [← hglobal, hstamp, Frame.innermost, hfound]
      rfl
    obtain ⟨scope, hscope, hhas⟩ := hsupports found (List.mem_of_find?_eq_some hfound)
    have hmem : id.name ∈ found.names := by simpa using List.find?_some hfound
    -- The frame is that of the global scope, so the name is declared there.
    obtain ⟨-, global, hglobalScope, -, -, -, hnames⟩ := opened h List.mem_cons_self
    rw [hone, hglobalScope] at hscope
    obtain rfl := Option.some.inj hscope
    rw [← names_resolved h] at hnot
    exact hnot ((hnames id.name).mp (hhas id.name hmem))
  · intro hunseen
    obtain ⟨p, above, declared, around, -, hsite, hname⟩ := hstands
    refine ⟨?_, fun hmem => hunseen ?_⟩
    · have hnone : frames.find? (id.name ∈ ·.names) = none :=
        List.find?_eq_none.mpr fun frame hframe hmem =>
          hunseen ⟨frame, hframe, of_decide_eq_true hmem⟩
      rw [hstamp, Frame.innermost, hnone]
      rfl
    · rw [← names_resolved h] at hmem
      exact Node.sees_name hname (hsite.sees hmem)

end Program

/-- An accepted program is resolved any number of times with one table. Each run adds the scopes of
the first one, moved on by those that are there, and gives the program of the first run with its
numbers moved on as much; only the names that are found in no scope, which are those that no scope
around them has, keep the number of the first scope. With a new table for each run, all of them
give the same program. -/
theorem parse_rerun {text : String} {program : Program} (hparse : parse text = .ok program) :
    (∀ k,
      (program.rerun (k + 1)).2.scopes.size = (k + 1) * program.scopeTable.scopes.size ∧
      (program.rerun (k + 1)).2.scopes = (program.rerun k).2.scopes ++
        program.scopeTable.scopes.map (Scope.moved (k * program.scopeTable.scopes.size)) ∧
      (program.rerun (k + 1)).1 = program.resolved.renumber
        (.onward (k * program.scopeTable.scopes.size) program.isFree)) ∧
    (∀ i scope, program.scopeTable.scopes[i]? = some scope →
      scope.id = i + 1 ∧ (scope.parent = none ↔ i = 0)) ∧
    (∀ path role id frames, program.resolved.Stands path (.name role id frames) →
      role = .reference ∨ role = .binding →
        (program.isFree id = true ↔ ¬Frame.Sees frames id.name)) ∧
    program.resolved.resolved = program.resolved := by
  have h := parse_parsed hparse
  obtain ⟨hactive, -, hfirst⟩ := Program.rerun_table h 0
  refine ⟨fun k => ⟨(Program.rerun_table h k).2.1, ?_⟩,
    (Program.resolve_extends h hactive hfirst).2.2.2,
    fun path role id frames hstands hrole => Program.isFree_iff h hstands hrole, ?_⟩
  · cases k with
    | zero =>
      rw [Nat.zero_mul, Renumbering.onward_zero, Program.renumber_same]
      refine ⟨?_, rfl⟩
      have hmoved : Scope.moved 0 = id := funext Scope.moved_zero
      rw [hmoved, Array.map_id]
      exact (Array.empty_append).symm
    | succ k =>
      obtain ⟨hactive, hsize, hfirst⟩ := Program.rerun_table h k
      obtain ⟨hvalue, hscopes, -⟩ := Program.resolve_extends h hactive hfirst
      rw [Program.rerun_succ h, ← hsize]
      exact ⟨hscopes, hvalue⟩
  · exact congrArg Prod.fst (Program.resolve_again h {} {})

/-- A script in which one name is declared and one is not, with the numbers of both after three
runs. -/
private def declaredAndFree : Accepted "let x; \x7bx; z\x7d" fun program =>
    program.scopeTable.scopes.size == 2 &&
      (program.rerun 3).1.identifiers.map (fun (_, id) => (id.name, id.scope)) ==
        [("x", 5), ("x", 5), ("z", 1)] :=
  .ofRun (by decide +kernel)

/-- Three runs leave six scopes, and only the name that is nowhere declared has the number of the
first one. -/
theorem parse_rerun_undeclared : ∃ program, parse "let x; \x7bx; z\x7d" = .ok program ∧
    (program.rerun 3).2.scopes.size = 6 ∧
    (program.rerun 3).1 = program.resolved.renumber (.onward 4 program.isFree) ∧
    (program.rerun 3).1.identifiers.map (fun (_, id) => (id.name, id.scope)) =
      [("x", 5), ("x", 5), ("z", 1)] := by
  obtain ⟨program, hparse, hok⟩ := declaredAndFree
  obtain ⟨hcount, hnames⟩ := Bool.and_eq_true_iff.mp hok
  obtain ⟨hsize, -, hvalue⟩ := (parse_rerun hparse).1 2
  rw [eq_of_beq hcount] at hsize hvalue
  exact ⟨program, hparse, hsize, hvalue, eq_of_beq hnames⟩

end EcmaScript
