import EcmaScript.Proofs.Scope.Shape
import EcmaScript.Proofs.Scope.Table

/-!
# What a run of the resolver leaves

A run of the resolver takes a table that shows some frames to a later one, and gives a tree. It
is traced by the names and scopes of that tree when each of these names has the number that
the frames in force there say, and when the new scopes of the table are these scopes, in this
order, each with its kind, its parent and its names.

A run is traced step by step: declaring names and looking them up are steps, and so is a scope
with the steps inside of it.
-/

namespace EcmaScript

open Resolution

/-- The number that a name is given where frames are in force. -/
def NameRole.stamp (role : NameRole) (frames : List Frame) (name : String) : ScopeId :=
  match role with
  | .reference | .binding => Frame.innermost frames name
  | .label | .property => 0

namespace ScopeTable

/-- The table has the scope of a region, inside of the given frames, whose scopes are older. -/
def Opened (table : ScopeTable) (id : Nat) (region : Region) (outer : List Frame) : Prop :=
  (∀ frame ∈ outer, 1 ≤ frame.id ∧ frame.id < id) ∧
    ∃ scope, table.scope? id = some scope ∧ scope.id = id ∧ scope.kind = region.kind ∧
      scope.parent = outer.head?.map (·.id - 1) ∧ ∀ name, scope.Has name ↔ name ∈ region.names

/-- A table with further declarations in its innermost scope. -/
def declareAll (table : ScopeTable) (ds : List Declaration) : ScopeTable :=
  ds.foldl (fun table (id, kind) => table.declare id kind) table

end ScopeTable

/-- A run from a table that shows `frames` to one that shows `inner` is traced by the names and
scopes of the tree that it gives. -/
structure Traced (frames : List Frame) (table : ScopeTable) (items : List Item)
    (inner : List Frame) (later : ScopeTable) : Prop where
  before : table.Shows frames
  shows : later.Shows inner
  grows : ScopeTable.Grows table later
  /-- The names have the numbers that the frames say, and the scopes of these frames are in the
  table. -/
  named : ∀ role id around, .name role id around ∈ items →
    id.scope = role.stamp around id.name ∧ later.Supports around
  /-- The scopes are numbered in their order. -/
  numbered : items.filterMap Item.scope? =
    List.range' table.nextId (later.scopes.size - table.scopes.size)
  /-- The scopes are those of their regions. -/
  opened : ∀ id region outer, .opens id region outer ∈ items → later.Opened id region outer

section

variable {frames inner innermost : List Frame} {frame : Frame} {outer : List Frame}
  {table later last : ScopeTable} {items more : List Item}

/-- A run that does nothing. -/
theorem Traced.nil (h : table.Shows frames) : Traced frames table [] frames table where
  before := h
  shows := h
  grows := .refl table
  named := by simp
  numbered := by simp
  opened := by simp

/-- A scope that a run has opened is not changed by what follows. -/
theorem ScopeTable.Opened.grows {id : Nat} {region : Region}
    (hopened : later.Opened id region outer)
    (hactive : later.active = table.active) (h : table.Shows frames) (hid : table.scopes.size < id)
    (hg : Grows later last) : last.Opened id region outer := by
  obtain ⟨holder, scope, hscope, hrest⟩ := hopened
  refine ⟨holder, scope, ?_, hrest⟩
  rw [hg.others id (scope?_bounds hscope).2, hscope]
  -- The innermost open scope is older than the run.
  rw [hactive, h.active]
  cases frames with
  | nil => simp
  | cons frame frames =>
    obtain ⟨first, hfirst, -⟩ := h.names frame List.mem_cons_self
    have hbounds := scope?_bounds hfirst
    simp only [List.map_cons, List.head?_cons, ne_eq, Option.some.injEq]
    omega

/-- Runs one behind the other. -/
theorem Traced.trans (h : Traced frames table items inner later)
    (k : Traced inner later more innermost last) :
    Traced frames table (items ++ more) innermost last where
  before := h.before
  shows := k.shows
  grows := h.grows.trans k.grows
  named := by
    intro role id around hname
    rcases List.mem_append.mp hname with hname | hname
    · obtain ⟨hstamp, hsupports⟩ := h.named role id around hname
      exact ⟨hstamp, hsupports.grows k.grows⟩
    · exact k.named role id around hname
  numbered := by
    have hle := h.grows.size_le
    have hle' := k.grows.size_le
    rw [List.filterMap_append, h.numbered, k.numbered]
    have hnext : later.nextId = table.nextId + (later.scopes.size - table.scopes.size) := by
      show later.scopes.size + 1 = table.scopes.size + 1 + _
      omega
    rw [hnext, List.range'_append_1]
    congr 1
    omega
  opened := by
    intro id region outer hopens
    rcases List.mem_append.mp hopens with hopens | hopens
    · refine (h.opened id region outer hopens).grows h.grows.active h.before ?_ k.grows
      have hmem : id ∈ items.filterMap Item.scope? := List.mem_filterMap.mpr ⟨_, hopens, rfl⟩
      rw [h.numbered, List.mem_range'_1] at hmem
      exact hmem.1
    · exact k.opened id region outer hopens

/-- Frames with the same names can take the place of each other. -/
theorem ScopeTable.Shows.congr {names names' : List String} {id : Nat}
    (h : table.Shows (⟨id, names⟩ :: outer)) (hnames : ∀ name, name ∈ names ↔ name ∈ names') :
    table.Shows (⟨id, names'⟩ :: outer) where
  active := h.active
  names := by
    intro f hf
    rcases List.mem_cons.mp hf with rfl | hf
    · obtain ⟨scope, hscope, hid, hhas⟩ := h.names _ List.mem_cons_self
      exact ⟨scope, hscope, hid, fun name => (hhas name).trans (hnames name)⟩
    · exact h.names f (List.mem_cons_of_mem _ hf)
  descending := List.pairwise_cons.mpr (List.pairwise_cons.mp h.descending)

/-- Only which names the innermost frame has matters. -/
theorem Traced.congr {names : List String} {id : Nat}
    (h : Traced frames table items (⟨id, names⟩ :: outer) later) (names' : List String)
    (hnames : ∀ name, name ∈ names ↔ name ∈ names') :
    Traced frames table items (⟨id, names'⟩ :: outer) later :=
  { h with shows := h.shows.congr hnames }

/-- Names that were given the numbers of the frames in force. -/
theorem Traced.names {names : List (NameRole × Identifier)} (h : table.Shows frames)
    (hnames : ∀ role id, (role, id) ∈ names → id.scope = role.stamp frames id.name) :
    Traced frames table (Node.namesIn frames names) frames table where
  before := h
  shows := h
  grows := .refl table
  named := by
    intro role id around hname
    obtain ⟨hmem, rfl⟩ := Node.name_mem_namesIn.mp hname
    exact ⟨hnames role id hmem, h.supports⟩
  numbered := by simp [Node.namesIn, List.filterMap_map, Function.comp_def, Item.scope?]
  opened := by simp

/-- The innermost frame gets the names that are declared. -/
theorem ScopeTable.Shows.declareAll (h : table.Shows (frame :: outer)) (ds : List Declaration) :
    (table.declareAll ds).Shows (⟨frame.id, declaredNames ds ++ frame.names⟩ :: outer) ∧
      Grows table (table.declareAll ds) := by
  induction ds generalizing table frame with
  | nil => exact ⟨h, .refl table⟩
  | cons d ds ih =>
    obtain ⟨hshows, hgrows⟩ := ih (h.declare d.1 d.2)
    refine ⟨hshows.congr fun name => ?_, (Grows.declare table d.1 d.2).trans hgrows⟩
    simp [declaredNames, or_left_comm]

@[simp] theorem ScopeTable.size_declareAll (table : ScopeTable) (ds : List Declaration) :
    (table.declareAll ds).scopes.size = table.scopes.size := by
  induction ds generalizing table with
  | nil => rfl
  | cons d ds ih => exact (ih _).trans (size_declare table d.1 d.2)

/-- A run that only declares. -/
theorem Traced.declares (h : table.Shows (frame :: outer)) (ds : List Declaration) :
    Traced (frame :: outer) table [] (⟨frame.id, declaredNames ds ++ frame.names⟩ :: outer)
      (table.declareAll ds) where
  before := h
  shows := (h.declareAll ds).1
  grows := (h.declareAll ds).2
  named := by simp
  numbered := by simp
  opened := by simp

/-- What has changed behind a scope is only that it is there. -/
theorem ScopeTable.Grows.scope {kind : ScopeKind} (hshows : table.Shows (frame :: outer))
    (h : Grows (table.push kind) later) : Grows table later.pop := by
  obtain ⟨first, hfirst, -⟩ := hshows.names frame List.mem_cons_self
  have hpos := scope?_bounds hfirst
  have hold : ∀ id ≤ table.scopes.size, later.pop.scope? id = table.scope? id := by
    intro id hid
    have hne : (table.push kind).active.head? ≠ some (id - 1) := by
      show some table.scopes.size ≠ some (id - 1)
      rw [ne_eq, Option.some.injEq]
      omega
    have hle : id ≤ (table.push kind).scopes.size := by
      simp only [push, Array.size_push]
      omega
    rw [scope?_pop, h.others id hle hne, scope?_push_of_le table kind hid]
  constructor
  · exact active_pop h.active (by simp [hshows.active])
  · rw [scopes_pop]
    have hle := h.size_le
    simp only [push, Array.size_push] at hle
    omega
  · exact fun id hid _ => hold id hid
  · intro id scope hscope
    exact ⟨scope, by rw [hold id (scope?_bounds hscope).2, hscope], rfl, rfl, fun _ hn => hn⟩

/-- A scope around a run that ends with all names of the region declared in it. -/
theorem Traced.scope (region : Region) (hshows : table.Shows (frame :: outer))
    (h : Traced (⟨table.nextId, []⟩ :: frame :: outer) (table.push region.kind) items
      (⟨table.nextId, region.names⟩ :: frame :: outer) later) :
    Traced (frame :: outer) table
      (.opens table.nextId region (frame :: outer) :: items) (frame :: outer) later.pop where
  before := hshows
  shows := h.shows.pop (by simp)
  grows := h.grows.scope hshows
  named := by
    intro role id around hname
    have hmem : .name role id around ∈ items := by simpa using hname
    obtain ⟨hstamp, hsupports⟩ := h.named role id around hmem
    refine ⟨hstamp, fun f hf => ?_⟩
    rw [ScopeTable.scope?_pop]
    exact hsupports f hf
  numbered := by
    have hle := h.grows.size_le
    simp only [ScopeTable.push, Array.size_push] at hle
    have hcount : later.scopes.size - table.scopes.size =
        later.scopes.size - (table.scopes.size + 1) + 1 := by omega
    show table.nextId :: items.filterMap Item.scope? = _
    rw [h.numbered, ScopeTable.scopes_pop, hcount, List.range'_succ]
    simp [ScopeTable.push, ScopeTable.nextId]
  opened := by
    intro id r around hopens
    rcases List.mem_cons.mp hopens with heq | hopens
    · cases heq
      obtain ⟨scope, hscope, hid, hnames⟩ := h.shows.names _ List.mem_cons_self
      obtain ⟨now, hnow, hkind, hparent, -⟩ :=
        h.grows.kept _ _ (ScopeTable.scope?_push_nextId table region.kind)
      obtain rfl : now = scope := Option.some.inj (hnow.symm.trans hscope)
      refine ⟨fun f hf => ?_, now, by rw [ScopeTable.scope?_pop]; exact hscope, hid, hkind, ?_,
        hnames⟩
      · obtain ⟨older, hbefore, -⟩ := hshows.names f hf
        have hbounds := ScopeTable.scope?_bounds hbefore
        exact ⟨hbounds.1, Nat.lt_succ_of_le hbounds.2⟩
      · rw [hparent, hshows.active]
        rfl
    · obtain ⟨holder, scope, hscope, hrest⟩ := h.opened id r around hopens
      exact ⟨holder, scope, by rw [ScopeTable.scope?_pop, hscope], hrest⟩

end

end EcmaScript
