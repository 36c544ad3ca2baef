import EcmaScript.Proofs.Scope.Layout

/-!
# Sites of a program

A site is a way down to a node, with the frames that are in force there. A walk lists the names
and the scopes that stand at the sites of a program, in the order in which they are resolved
and opened: a scope is opened before what is inside of it.

The frames of a site follow from the way down: they are those of the scopes that are opened on
it, but for the scope of a switch on the way to what the switch decides on.
-/

namespace EcmaScript

namespace Node

/-- The names and scopes in a tree, in the order in which they are resolved and opened. -/
def walk {form : Form} (declared : Bool) (frames : List Frame) (x : Node form) : List Item :=
  (x.layout declared frames).attach.flatMap fun
    | ⟨.part inner p, _⟩ => p.node.walk x.isDeclaration inner
    | ⟨.name role id inner, _⟩ => [.name role id inner]
    | ⟨.opens scope region outer, _⟩ => [.opens scope region outer]
termination_by sizeOf x
decreasing_by exact sizeOf_lt_of_mem_parts x _ (mem_parts_of_mem_layout (by assumption))

/-- The names and scopes in the items of a layout. -/
def walkItems (declared : Bool) (items : List Item) : List Item :=
  items.flatMap fun
    | .part inner p => p.node.walk declared inner
    | .name role id inner => [.name role id inner]
    | .opens scope region outer => [.opens scope region outer]

/-- The walk through a node is the one through its layout. -/
theorem walk_eq {form : Form} (declared : Bool) (frames : List Frame) (x : Node form) :
    x.walk declared frames = walkItems x.isDeclaration (x.layout declared frames) := by
  rw [walk, walkItems]
  refine (List.flatMap_subtype ?_).trans (by rw [List.unattach_attach])
  rintro (⟨role, id, inner⟩ | ⟨scope, region, outer⟩ | ⟨inner, p⟩) _ <;> rfl

section

variable {declared : Bool} {frames outer inner : List Frame} {items more : List Item}

@[simp] theorem walkItems_nil : walkItems declared [] = [] := rfl

@[simp] theorem walkItems_opens (scope : ScopeId) (region : Region) :
    walkItems declared (.opens scope region outer :: items) =
      .opens scope region outer :: walkItems declared items := rfl

@[simp] theorem walkItems_part (p : Part) :
    walkItems declared (.part inner p :: items) =
      p.node.walk declared inner ++ walkItems declared items := rfl

@[simp] theorem walkItems_append :
    walkItems declared (items ++ more) = walkItems declared items ++ walkItems declared more :=
  List.flatMap_append

@[simp] theorem walkItems_namesIn (names : List (NameRole × Identifier)) :
    walkItems declared (namesIn frames names) = namesIn frames names := by
  induction names with
  | nil => rfl
  | cons name names ih => exact congrArg (_ :: ·) ih

@[simp] theorem walkItems_partsIn (parts : List Part) :
    walkItems declared (partsIn frames parts) =
      parts.flatMap fun p => p.node.walk declared frames := by
  rw [walkItems, partsIn, List.flatMap_map]

/-- The walk through a class: its scope is opened in front of its name. -/
theorem walkItems_classExpression (scope : ScopeId) (name : Option Identifier)
    (parts : List Part) :
    walkItems declared (classIn false frames scope name parts) =
      .opens scope (.classBody name) frames ::
        (namesIn (⟨scope, (Region.classBody name).names⟩ :: frames)
            (name.toList.map (.binding, ·)) ++
          parts.flatMap fun p =>
            p.node.walk declared (⟨scope, (Region.classBody name).names⟩ :: frames)) := by
  simp [classIn]

/-- The walk through a declared class: its name stands in front of its scope. -/
theorem walkItems_classDeclaration (scope : ScopeId) (name : Option Identifier)
    (parts : List Part) :
    walkItems declared (classIn true frames scope name parts) =
      namesIn frames (name.toList.map (.binding, ·)) ++ .opens scope (.classBody name) frames ::
        parts.flatMap fun p =>
          p.node.walk declared (⟨scope, (Region.classBody name).names⟩ :: frames) := by
  simp [classIn]

/-- The walk through a function: its scope is opened in front of its name. -/
theorem walkItems_functionExpression (scope : ScopeId) (name : Option Identifier)
    (params : Node .parameters) (body : Part) (block : Option (Node .block)) :
    walkItems declared (functionIn false frames scope name params body block) =
      .opens scope (.function name params block) frames ::
        (namesIn (⟨scope, name.toList.map (·.name)⟩ :: frames) (name.toList.map (.binding, ·)) ++
          (params.walk declared (⟨scope, name.toList.map (·.name)⟩ :: frames) ++
            body.node.walk declared
              (⟨scope, (Region.function name params block).names⟩ :: frames))) := by
  simp [functionIn]

/-- The walk through a declared function: its name stands in front of its scope. -/
theorem walkItems_functionDeclaration (scope : ScopeId) (name : Option Identifier)
    (params : Node .parameters) (body : Part) (block : Option (Node .block)) :
    walkItems declared (functionIn true frames scope name params body block) =
      namesIn frames (name.toList.map (.binding, ·)) ++
        .opens scope (.function none params block) frames ::
          (params.walk declared (⟨scope, []⟩ :: frames) ++
            body.node.walk declared
              (⟨scope, (Region.function none params block).names⟩ :: frames)) := by
  simp [functionIn]

/-- What stands in a node itself is met on a walk through it. -/
theorem mem_walk_of_mem_layout {form : Form} {x : Node form} {item : Item}
    (h : item ∈ x.layout declared frames) (hpart : item.part? = none) :
    item ∈ x.walk declared frames := by
  rw [walk_eq, walkItems, List.mem_flatMap]
  refine ⟨item, h, ?_⟩
  cases item with
  | part inner p => exact nomatch hpart
  | _ => exact List.mem_singleton_self _

/-- What is met on a walk through a part is met on a walk through the node. -/
theorem mem_walk_of_mem_part {form : Form} {x : Node form} {item : Item} {p : Part}
    (h : .part inner p ∈ x.layout declared frames)
    (hitem : item ∈ p.node.walk x.isDeclaration inner) : item ∈ x.walk declared frames := by
  rw [walk_eq, walkItems, List.mem_flatMap]
  exact ⟨_, h, hitem⟩

end

/-- How many parts of a node stand before the scope that it opens. -/
def outside {form : Form} : Node form → Nat
  | .switch .. => 1
  | _ => 0

/-- The numbers of the scopes that the nodes of a tree open, in the order in which they are
opened: a node comes before its parts, but a switch only after what it decides on. -/
def openings {form : Form} (x : Node form) : List ScopeId :=
  let below := x.parts.attach.map fun ⟨p, _⟩ => p.node.openings
  (below.take x.outside).flatten ++ x.scope?.toList ++ (below.drop x.outside).flatten
termination_by sizeOf x
decreasing_by exact sizeOf_lt_of_mem_parts x _ (by assumption)

/-- The scopes of a node, its own among those of its parts. -/
theorem openings_eq {form : Form} (x : Node form) :
    x.openings = ((x.parts.take x.outside).flatMap fun p => p.node.openings) ++ x.scope?.toList ++
      (x.parts.drop x.outside).flatMap fun p => p.node.openings := by
  have hbelow : (x.parts.attach.map fun ⟨p, _⟩ => p.node.openings) =
      x.parts.map fun p => p.node.openings :=
    List.attach_map_val (f := fun p : Part => p.node.openings)
  rw [openings]
  simp only [hbelow, ← List.map_take, ← List.map_drop, List.flatMap_def]

end Node

/-- The scopes that an item opens. -/
def Item.openings : Item → List ScopeId
  | name .. => []
  | opens scope .. => [scope]
  | part _ p => p.node.openings

namespace Node

@[simp] theorem flatMap_openings_namesIn (frames : List Frame)
    (names : List (NameRole × Identifier)) : (namesIn frames names).flatMap Item.openings = [] := by
  simp [namesIn, Item.openings, List.flatMap_map]

@[simp] theorem flatMap_openings_partsIn (frames : List Frame) (parts : List Part) :
    (partsIn frames parts).flatMap Item.openings = parts.flatMap fun p => p.node.openings := by
  simp [partsIn, Item.openings, List.flatMap_map]

@[simp] theorem flatMap_openings_declaratorsIn (frames : List Frame)
    (ds : List (Node .declarator)) :
    (declaratorsIn frames ds).flatMap Item.openings = ds.flatMap openings := by
  induction ds generalizing frames with
  | nil => rfl
  | cons d ds ih => simp [declaratorsIn, Item.openings, ih]

/-- A layout has the scopes of a node in their order. -/
theorem flatMap_openings_layout {form : Form} (declared : Bool) (frames : List Frame)
    (x : Node form) : (x.layout declared frames).flatMap Item.openings = x.openings := by
  rw [openings_eq]
  cases x with
  | arrow | conciseArrow => rfl
  | function =>
    cases declared <;> simp [layout, functionIn, Item.openings, outside, scope?, parts]
  | classDefinition =>
    cases declared <;> simp [layout, classIn, Item.openings, outside, scope?]
  | block | staticBlock | catchClause | switch =>
    simp [layout, scopeIn, Item.openings, outside, scope?, parts]
  | forLoop | forIn | forOf =>
    simp only [layout, loopIn]
    split <;> simp_all [Item.openings, outside, scope?, parts]
  | declaration span kind ds =>
    simp only [layout]
    split <;> simp [outside, scope?, parts, List.flatMap_map]
  | _ => simp [layout, outside, scope?]

/-- A walk through a tree meets its scopes in their order. -/
theorem filterMap_scope?_walk {form : Form} (declared : Bool) (frames : List Frame)
    (x : Node form) : (x.walk declared frames).filterMap Item.scope? = x.openings := by
  induction x using induction_parts generalizing declared frames with
  | node x ih =>
    rw [walk_eq, walkItems, ← flatMap_openings_layout declared frames x, List.filterMap_flatMap]
    apply List.flatMap_congr
    intro item hitem
    cases item with
    | part inner p => exact ih p (mem_parts_of_mem_layout hitem) _ _
    | _ => rfl

end Node

namespace Program

/-- The frames around the statements of a script. -/
def frames (program : Program) : List Frame :=
  [⟨ScopeTable.globalId, (Region.script program.body).names⟩]

/-- The names and scopes of a script, in the order in which they are resolved and opened. -/
def walk (program : Program) : List Item :=
  .opens ScopeTable.globalId (.script program.body) [] ::
    program.body.flatMap fun s => s.walk false program.frames

/-- The numbers of the scopes that the nodes of a script open, in their order. -/
def openings (program : Program) : List ScopeId := program.body.flatMap Node.openings

/-- The scopes that are met on the walk are those of the nodes, in their order. -/
theorem filterMap_scope?_walk (program : Program) :
    program.walk.filterMap Item.scope? = ScopeTable.globalId :: program.openings := by
  rw [walk, openings, List.filterMap_cons, List.filterMap_flatMap]
  simp only [Item.scope?, Node.filterMap_scope?_walk]

/-- `Site path declared frames` says that the path leads down to a node, the last step first,
and that the frames are in force there; `declared` tells whether the node is the function or
the class of a declaration. -/
inductive Site (program : Program) : List Part → Bool → List Frame → Prop where
  | statement {s : Statement} (hs : s ∈ program.body) :
      Site program [⟨.complete, s⟩] false program.frames
  | part {p q : Part} {above : List Part} {declared : Bool} {frames inner : List Frame}
      (hp : Site program (p :: above) declared frames)
      (hq : .part inner q ∈ p.node.layout declared frames) :
      Site program (q :: p :: above) p.node.isDeclaration inner

/-- The item stands in the node that the path leads down to. -/
def Stands (program : Program) (path : List Part) (item : Item) : Prop :=
  ∃ p above declared frames, path = p :: above ∧ program.Site path declared frames ∧
    item ∈ p.node.layout declared frames

/-- The script, or one of its nodes, opens the scope with the number for the region. -/
def Opens (program : Program) (id : ScopeId) (region : Region) : Prop :=
  id = ScopeTable.globalId ∧ region = .script program.body ∨
    ∃ path outer, program.Stands path (.opens id region outer)

/-- The numbers of the scopes that are in force at the end of a path, the innermost first. -/
def scopesAround : List Part → List ScopeId
  | q :: p :: above => (p.node.inForce q).toList ++ scopesAround (p :: above)
  | _ => [ScopeTable.globalId]

section

variable {program : Program} {p q : Part} {path above : List Part} {declared : Bool}
  {frames : List Frame}

/-- The frames of a site are those of the scopes in force. -/
theorem Site.ids_eq (h : program.Site path declared frames) :
    frames.map Frame.id = scopesAround path := by
  induction h with
  | statement hs => rfl
  | part _ hq ih => rw [Node.ids_of_mem_layout hq, ih, scopesAround]

/-- A scope in force is the global one or one that a node on the way opens. -/
theorem mem_scopesAround {scope : ScopeId} (h : scope ∈ scopesAround (q :: above)) :
    scope = ScopeTable.globalId ∨ ∃ p ∈ above, p.node.scope? = some scope := by
  induction above generalizing q with
  | nil => exact Or.inl (List.mem_singleton.mp h)
  | cons p above ih =>
    rw [scopesAround, List.mem_append] at h
    rcases h with h | h
    · exact Or.inr ⟨p, List.mem_cons_self, Node.scope?_of_inForce (Option.mem_toList.mp h)⟩
    · rcases ih h with hglobal | ⟨r, hr, hscope⟩
      · exact Or.inl hglobal
      · exact Or.inr ⟨r, List.mem_cons_of_mem _ hr, hscope⟩

/-- A way down goes on through every part. -/
theorem Site.exists_part (h : program.Site (p :: above) declared frames) (hq : p.Holds q) :
    ∃ inner, program.Site (q :: p :: above) p.node.isDeclaration inner := by
  obtain ⟨inner, hinner⟩ := Node.exists_part_mem_layout hq declared frames
  exact ⟨inner, .part h hinner⟩

/-- There is a way down to everything below a node to which there is one. -/
theorem Site.exists_reaches (h : program.Site (p :: above) declared frames) (hq : p.Reaches q) :
    ∃ above declared frames, program.Site (q :: above) declared frames := by
  induction hq with
  | refl => exact ⟨_, _, _, h⟩
  | tail _ hstep ih =>
    obtain ⟨above, declared, frames, hsite⟩ := ih
    obtain ⟨inner, hinner⟩ := hsite.exists_part hstep
    exact ⟨_, _, _, hinner⟩

/-- What is met on a walk from a site is met on a walk through the script. -/
theorem Site.mem_walk (h : program.Site (p :: above) declared frames) {item : Item}
    (hitem : item ∈ p.node.walk declared frames) : item ∈ program.walk := by
  generalize hpath : p :: above = path at h
  induction h generalizing p above item with
  | statement hs =>
    cases hpath
    exact List.mem_cons_of_mem _ (List.mem_flatMap.mpr ⟨_, hs, hitem⟩)
  | part _ hq ih =>
    cases hpath
    exact ih (Node.mem_walk_of_mem_part hq hitem) rfl

/-- What stands at a site is met on a walk through the script. -/
theorem Stands.mem_walk {item : Item} (h : program.Stands path item)
    (hpart : item.part? = none) : item ∈ program.walk := by
  obtain ⟨p, above, declared, frames, rfl, hsite, hitem⟩ := h
  exact hsite.mem_walk (Node.mem_walk_of_mem_layout hitem hpart)

/-- What is met on a walk from a site stands at some site. -/
theorem Site.exists_stands (h : program.Site (p :: above) declared frames) {item : Item}
    (hitem : item ∈ p.node.walk declared frames) : ∃ path, program.Stands path item := by
  obtain ⟨role, x⟩ := p
  induction x using Node.induction_parts generalizing role above declared frames with
  | node x ih =>
    rw [Node.walk_eq, Node.walkItems, List.mem_flatMap] at hitem
    obtain ⟨entry, hentry, hitem⟩ := hitem
    cases entry with
    | part inner q =>
      exact ih q (Node.mem_parts_of_mem_layout hentry) _ (.part h hentry) hitem
    | name | opens =>
      rw [List.mem_singleton.mp hitem]
      exact ⟨_, _, _, _, _, rfl, h, hentry⟩

/-- What is met on a walk through a script is its own scope or stands at some site. -/
theorem exists_stands_of_mem_walk {item : Item} (h : item ∈ program.walk) :
    item = .opens ScopeTable.globalId (.script program.body) [] ∨
      ∃ path, program.Stands path item := by
  rcases List.mem_cons.mp h with h | h
  · exact Or.inl h
  · obtain ⟨s, hs, hitem⟩ := List.mem_flatMap.mp h
    exact Or.inr (Site.exists_stands (.statement hs) hitem)

/-- The scopes of a walk are those of the script and its nodes. -/
theorem opens_iff_mem_walk {id : ScopeId} {region : Region} :
    program.Opens id region ↔ ∃ outer, .opens id region outer ∈ program.walk := by
  constructor
  · rintro (⟨rfl, rfl⟩ | ⟨path, outer, hstands⟩)
    · exact ⟨[], List.mem_cons_self⟩
    · exact ⟨outer, hstands.mem_walk rfl⟩
  · rintro ⟨outer, hopens⟩
    rcases exists_stands_of_mem_walk hopens with heq | ⟨path, hstands⟩
    · cases heq
      exact Or.inl ⟨rfl, rfl⟩
    · exact Or.inr ⟨path, outer, hstands⟩

end

end Program

end EcmaScript
