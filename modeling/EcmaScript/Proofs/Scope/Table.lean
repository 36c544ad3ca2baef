import EcmaScript.Proofs.Scope.Layout

/-!
# Scope tables and frames

A table shows frames when these are its open scopes with exactly the names that are declared in
them so far. Then a name is looked up in the table as it is in the frames. Declaring names,
opening a scope and closing it change what a table shows in the obvious way.

While a tree is resolved, of the scopes there already only the innermost gets further names.
-/

namespace EcmaScript

namespace Scope

/-- The name is declared in the scope. -/
def Has (scope : Scope) (name : String) : Prop := (scope.get? name).isSome = true

/-- A name that is put in is found, and the others as before. -/
theorem isSome_lookup_insert (name other : String) (binding : Binding)
    (bindings : List (String × Binding)) :
    ((insert name binding bindings).lookup other).isSome = true ↔
      other = name ∨ (bindings.lookup other).isSome = true := by
  induction bindings with
  | nil =>
    by_cases h : other = name
    · simp [insert, h]
    · simp [insert, List.lookup_cons, h, beq_eq_false_iff_ne.mpr h]
  | cons entry more ih =>
    obtain ⟨first, existing⟩ := entry
    by_cases hname : first = name
    · subst hname
      by_cases h : other = first
      · simp [insert, h]
      · simp [insert, List.lookup_cons, h, beq_eq_false_iff_ne.mpr h]
    · have hinsert : insert name binding ((first, existing) :: more) =
          (first, existing) :: insert name binding more := by simp [insert, hname]
      rw [hinsert]
      by_cases h : other = first
      · simp [h]
      · simp [List.lookup_cons, beq_eq_false_iff_ne.mpr h, ih]

/-- A declared name is in the scope, and the others as before. -/
theorem has_declare {scope : Scope} {name other : String} {kind : BindingKind}
    {declaredAt : Position} :
    (scope.declare name kind declaredAt).Has other ↔ other = name ∨ scope.Has other :=
  isSome_lookup_insert name other _ scope.bindings

end Scope

namespace ScopeTable

/-- The frame has exactly the names that are declared in its scope. -/
def ShowsFrame (table : ScopeTable) (frame : Frame) : Prop :=
  ∃ scope, table.scope? frame.id = some scope ∧ scope.id = frame.id ∧
    ∀ name, scope.Has name ↔ name ∈ frame.names

/-- The open scopes of a table and the names declared in them are those of the frames. -/
structure Shows (table : ScopeTable) (frames : List Frame) : Prop where
  /-- The frames are those of the open scopes. -/
  active : table.active = frames.map (·.id - 1)
  /-- The frames have the names of these scopes. -/
  names : ∀ frame ∈ frames, table.ShowsFrame frame
  /-- An inner scope has been opened after the outer ones. -/
  descending : frames.Pairwise fun inner outer => outer.id < inner.id

/-- The scopes of the frames are in the table, and declare at least their names. -/
def Supports (table : ScopeTable) (frames : List Frame) : Prop :=
  ∀ frame ∈ frames, ∃ scope, table.scope? frame.id = some scope ∧
    ∀ name ∈ frame.names, scope.Has name

/-- Of the scopes there already, at most the innermost has got further names. -/
structure Grows (table later : ScopeTable) : Prop where
  /-- The same scopes are open. -/
  active : later.active = table.active
  /-- No scope is lost. -/
  size_le : table.scopes.size ≤ later.scopes.size
  /-- All scopes but the innermost are as they were. -/
  others : ∀ id ≤ table.scopes.size, table.active.head? ≠ some (id - 1) →
    later.scope? id = table.scope? id
  /-- No scope loses names. -/
  kept : ∀ id scope, table.scope? id = some scope → ∃ now : Scope,
    later.scope? id = some now ∧ now.kind = scope.kind ∧ now.parent = scope.parent ∧
      ∀ name, scope.Has name → now.Has name

section

variable {table later last : ScopeTable} {frames : List Frame} {frame : Frame} {id : Nat}
  {scope : Scope}

/-- The numbers of the scopes of a table are those from one to their number. -/
theorem scope?_bounds (h : table.scope? id = some scope) :
    1 ≤ id ∧ id ≤ table.scopes.size := by
  unfold scope? at h
  split at h
  · exact nomatch h
  · rename_i hzero
    have hpos : 0 < id := Nat.pos_of_ne_zero hzero
    have hlt : id - 1 < table.scopes.size := (Array.getElem?_eq_some_iff.mp h).1
    omega

/-- A table without further names. -/
theorem Grows.refl (table : ScopeTable) : Grows table table where
  active := rfl
  size_le := Nat.le_refl _
  others := fun _ _ _ => rfl
  kept := fun _ scope h => ⟨scope, h, rfl, rfl, fun _ => id⟩

/-- Tables that grow one after the other. -/
theorem Grows.trans (h : Grows table later) (k : Grows later last) : Grows table last where
  active := k.active.trans h.active
  size_le := Nat.le_trans h.size_le k.size_le
  others := fun i hi hhead =>
    (k.others i (Nat.le_trans hi h.size_le) (h.active ▸ hhead)).trans (h.others i hi hhead)
  kept := by
    intro i scope hscope
    obtain ⟨now, hnow, hkind, hparent, hnames⟩ := h.kept i scope hscope
    obtain ⟨final, hfinal, hkind', hparent', hnames'⟩ := k.kept i now hnow
    exact ⟨final, hfinal, hkind'.trans hkind, hparent'.trans hparent,
      fun name hn => hnames' name (hnames name hn)⟩

/-- A table that has grown still has the scopes of the frames. -/
theorem Supports.grows (h : table.Supports frames) (hg : Grows table later) :
    later.Supports frames := by
  intro frame hf
  obtain ⟨scope, hscope, hnames⟩ := h frame hf
  obtain ⟨now, hnow, -, -, hkept⟩ := hg.kept _ scope hscope
  exact ⟨now, hnow, fun name hn => hkept name (hnames name hn)⟩

/-- A table has the scopes that its frames show. -/
theorem Shows.supports (h : table.Shows frames) : table.Supports frames := by
  intro frame hf
  obtain ⟨scope, hscope, -, hnames⟩ := h.names frame hf
  exact ⟨scope, hscope, fun name => (hnames name).mpr⟩

/-- The search finds a name in a scope exactly when its frame has it. -/
theorem ShowsFrame.declaring?_eq (h : table.ShowsFrame frame) (name : String) :
    table.declaring? name (frame.id - 1) =
      if name ∈ frame.names then some frame.id else none := by
  obtain ⟨scope, hscope, hid, hnames⟩ := h
  have hplace : table.scopes[frame.id - 1]? = some scope := by
    unfold scope? at hscope
    split at hscope
    · exact nomatch hscope
    · exact hscope
  simp only [declaring?, hplace, Option.bind_eq_bind, Option.bind_some, hid]
  exact if_congr (hnames name) rfl rfl

/-- A name is looked up as it is in the frames. -/
theorem Shows.lookup_eq (h : table.Shows frames) (name : String) :
    table.lookup name = Frame.innermost frames name := by
  have hfind : ∀ fs : List Frame, (∀ f ∈ fs, table.ShowsFrame f) →
      (fs.map (·.id - 1)).findSome? (table.declaring? name) =
        (fs.find? (name ∈ ·.names)).map (·.id) := by
    intro fs
    induction fs with
    | nil => intro _; rfl
    | cons f fs ih =>
      intro hfs
      rw [List.forall_mem_cons] at hfs
      rw [List.map_cons, List.findSome?_cons, hfs.1.declaring?_eq, ih hfs.2, List.find?_cons]
      by_cases hname : name ∈ f.names <;> simp [hname]
  rw [lookup, h.active, hfind frames h.names, Frame.innermost]

/-- A declaration changes the innermost scope only. -/
theorem scope?_declare (table : ScopeTable) (declared : Identifier) (kind : BindingKind)
    (id : Nat) :
    (table.declare declared kind).scope? id =
      if table.active.head? = some (id - 1) then
        (table.scope? id).map (·.declare declared.name kind declared.span.start)
      else table.scope? id := by
  unfold declare scope?
  cases hactive : table.active with
  | nil => simp
  | cons i outer =>
    by_cases hid : id = 0
    · simp [hid]
    · simp only [if_neg hid, List.head?_cons, Option.some.injEq, Array.getElem?_modify]

@[simp] theorem size_declare (table : ScopeTable) (declared : Identifier) (kind : BindingKind) :
    (table.declare declared kind).scopes.size = table.scopes.size := by
  unfold declare
  split <;> simp

/-- A declaration only adds a name. -/
theorem Grows.declare (table : ScopeTable) (declared : Identifier) (kind : BindingKind) :
    Grows table (table.declare declared kind) where
  active := by
    unfold ScopeTable.declare
    split <;> rfl
  size_le := by simp
  others := fun id _ hhead => by rw [scope?_declare, if_neg hhead]
  kept := by
    intro id scope hscope
    rw [scope?_declare, hscope]
    split
    · exact ⟨_, rfl, rfl, rfl, fun name hn => Scope.has_declare.mpr (Or.inr hn)⟩
    · exact ⟨_, rfl, rfl, rfl, fun _ hn => hn⟩

/-- The innermost frame gets the name that is declared. -/
theorem Shows.declare (h : table.Shows frames) (declared : Identifier) (kind : BindingKind) :
    (table.declare declared kind).Shows (Frame.grow [declared.name] frames) := by
  have hactive := (Grows.declare table declared kind).active
  cases frames with
  | nil => exact ⟨hactive.trans h.active, by simp [Frame.grow], by simp [Frame.grow]⟩
  | cons frame outer =>
    have hhead : table.active.head? = some (frame.id - 1) := by simp [h.active]
    refine ⟨hactive.trans h.active, ?_, ?_⟩
    · intro f hf
      rcases List.mem_cons.mp hf with rfl | hf
      · obtain ⟨scope, hscope, hid, hnames⟩ := h.names frame List.mem_cons_self
        refine ⟨scope.declare declared.name kind declared.span.start, ?_, hid, fun name => ?_⟩
        · rw [scope?_declare, if_pos hhead, hscope, Option.map_some]
        · rw [Scope.has_declare, hnames, List.singleton_append, List.mem_cons]
      · have hlt := List.rel_of_pairwise_cons h.descending hf
        obtain ⟨scope, hscope, hid, hnames⟩ := h.names f (List.mem_cons_of_mem _ hf)
        have hbounds := scope?_bounds hscope
        refine ⟨scope, ?_, hid, hnames⟩
        rw [scope?_declare, if_neg, hscope]
        rw [hhead, Option.some.injEq]
        omega
    · have hdescending := List.pairwise_cons.mp h.descending
      exact List.pairwise_cons.mpr hdescending

/-- A new scope leaves the others as they are. -/
theorem scope?_push_of_le (table : ScopeTable) (kind : ScopeKind) (hid : id ≤ table.scopes.size) :
    (table.push kind).scope? id = table.scope? id := by
  unfold scope? push
  split
  · rfl
  · rename_i hzero
    have hpos : 0 < id := Nat.pos_of_ne_zero hzero
    have hlt : id - 1 < table.scopes.size := by omega
    exact (Array.getElem?_push_lt hlt).trans (Array.getElem?_eq_getElem hlt).symm

/-- The new scope has the next number and no names. -/
theorem scope?_push_nextId (table : ScopeTable) (kind : ScopeKind) :
    (table.push kind).scope? table.nextId =
      some { id := table.nextId, kind, parent := table.active.head? } := by
  unfold scope? push nextId
  simp

/-- A new scope is shown by an empty frame inside the others. -/
theorem Shows.push (h : table.Shows frames) (kind : ScopeKind) :
    (table.push kind).Shows (⟨table.nextId, []⟩ :: frames) := by
  have hbounds : ∀ f ∈ frames, 1 ≤ f.id ∧ f.id ≤ table.scopes.size := by
    intro f hf
    obtain ⟨scope, hscope, -⟩ := h.names f hf
    exact scope?_bounds hscope
  constructor
  · rw [List.map_cons, ← h.active]
    rfl
  · intro f hf
    rcases List.mem_cons.mp hf with rfl | hf
    · exact ⟨_, scope?_push_nextId table kind, rfl, fun name => by simp [Scope.Has, Scope.get?]⟩
    · obtain ⟨scope, hscope, hid, hnames⟩ := h.names f hf
      exact ⟨scope, (scope?_push_of_le table kind (hbounds f hf).2).trans hscope, hid, hnames⟩
  · exact List.pairwise_cons.mpr
      ⟨fun f hf => Nat.lt_succ_of_le (hbounds f hf).2, h.descending⟩

@[simp] theorem scope?_pop (table : ScopeTable) : table.pop.scope? id = table.scope? id := by
  unfold pop
  split <;> rfl

@[simp] theorem scopes_pop (table : ScopeTable) : table.pop.scopes = table.scopes := by
  unfold pop
  split <;> rfl

/-- The scope around is the innermost one again. -/
theorem active_pop {i : Nat} {outer : List Nat} (h : table.active = i :: outer)
    (houter : outer ≠ []) : table.pop.active = outer := by
  obtain ⟨j, rest, rfl⟩ := List.exists_cons_of_ne_nil houter
  unfold pop
  rw [h]

/-- The frame of a closed scope is left out. -/
theorem Shows.pop (h : table.Shows (frame :: frames)) (hframes : frames ≠ []) :
    table.pop.Shows frames := by
  constructor
  · exact active_pop h.active (by simpa using hframes)
  · intro f hf
    obtain ⟨scope, hscope, hnames⟩ := h.names f (List.mem_cons_of_mem _ hf)
    exact ⟨scope, by rw [scope?_pop, hscope], hnames⟩
  · exact (List.pairwise_cons.mp h.descending).2

end

end ScopeTable

end EcmaScript
