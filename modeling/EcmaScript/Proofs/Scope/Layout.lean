import EcmaScript.Proofs.Syntax.Erase
import EcmaScript.Scope.Table
import EcmaScript.Syntax.Visit

/-!
# Scopes in force

Which scopes are in force where, said for one node at a time: given the frames around a node,
its layout lists the names that it has itself, the scope that it opens and its parts, each with
the frames in force there. A frame holds all names of its scope from the start, with two
exceptions. The parameters of a function do not see the variables of its body, and of the
variables that one `let` or `const` declares for the head of a loop each value sees its own
and those before it only.

Everything else about a tree follows from the layouts of its nodes: the sites of a program are
the ways down to its nodes with the frames that are met on them, and a walk lists what stands
at all of them.

Of all that a node consists of, only its parts have further frames, and these are those of the
scope that it opens.
-/

namespace EcmaScript

open Relation

/-- The names of declarations. -/
def declaredNames (ds : List Declaration) : List String := ds.map (·.1.name)

@[simp] theorem declaredNames_nil : declaredNames [] = [] := rfl

@[simp] theorem declaredNames_append (ds es : List Declaration) :
    declaredNames (ds ++ es) = declaredNames ds ++ declaredNames es := List.map_append

@[simp] theorem declaredNames_map (ids : List Identifier) (kind : BindingKind) :
    declaredNames (ids.map (·, kind)) = ids.map (·.name) := by
  simp [declaredNames, Function.comp_def]

@[simp] theorem mem_declaredNames {ds : List Declaration} {name : String} :
    name ∈ declaredNames ds ↔ ∃ d ∈ ds, d.1.name = name := List.mem_map

/-- The names of a scope that are in force at some place inside of it. -/
structure Frame where
  /-- The number of the scope. -/
  id : Nat
  /-- The names. -/
  names : List String
deriving Repr, DecidableEq

namespace Frame

/-- The frames with more names in the innermost one. -/
def grow (names : List String) : List Frame → List Frame
  | [] => []
  | frame :: outer => { frame with names := names ++ frame.names } :: outer

@[simp] theorem grow_cons (names : List String) (frame : Frame) (outer : List Frame) :
    grow names (frame :: outer) = ⟨frame.id, names ++ frame.names⟩ :: outer := rfl

@[simp] theorem ids_grow (names : List String) (frames : List Frame) :
    (grow names frames).map Frame.id = frames.map Frame.id := by
  cases frames <;> rfl

/-- The number of the innermost scope that has a name, or else that of the global scope. -/
def innermost (frames : List Frame) (name : String) : ScopeId :=
  ((frames.find? (name ∈ ·.names)).map (·.id)).getD ScopeTable.globalId

/-- A name of the first frame is found there. -/
theorem innermost_head {frame : Frame} {name : String} (h : name ∈ frame.names)
    (outer : List Frame) : innermost (frame :: outer) name = frame.id := by
  simp [innermost, h]

/-- A name is found in a frame, or it counts as global. -/
theorem innermost_mem (frames : List Frame) (name : String) :
    (∃ frame ∈ frames, name ∈ frame.names ∧ innermost frames name = frame.id) ∨
      innermost frames name = ScopeTable.globalId := by
  unfold innermost
  cases hfind : frames.find? (name ∈ ·.names) with
  | none => exact Or.inr rfl
  | some frame =>
    have hname : name ∈ frame.names := by simpa using List.find?_some hfind
    exact Or.inl ⟨frame, List.mem_of_find?_eq_some hfind, hname, rfl⟩

end Frame

namespace Node

/-- What a node declares, by the time it has been passed, in the scope that it stands in and
does not open: the head of a loop its variables, and parameters themselves. -/
def introduces {form : Form} : Node form → List Declaration
  | .declaration _ kind ds =>
    if kind.isLexical then (declaratorNames ds).map (·, kind.bindingKind) else []
  | .declarationInit d => d.introduces
  | .declarationHead d => d.introduces
  | .parameters _ params remainder =>
    (parameterNames params ++ restNames remainder).map (·, .parameter)
  | _ => []

/-- Whether a node declares the function or the class that is its part. -/
def isDeclaration {form : Form} : Node form → Bool
  | .functionDeclaration _ | .classDeclaration _ => true
  | _ => false

/-- The number of the scope that a node opens, if it opens one. -/
def scope? {form : Form} : Node form → Option ScopeId
  | .arrow _ _ _ _ scope | .conciseArrow _ _ _ _ scope | .function _ _ _ _ _ _ scope
  | .block _ _ scope | .classDefinition _ _ _ _ _ scope | .staticBlock _ _ scope
  | .catchClause _ _ _ scope | .switch _ _ _ scope => some scope
  | .forLoop _ init _ _ _ scope => if init.declaresLexically then some scope else none
  | .forIn _ left _ _ scope => if left.declaresLexically then some scope else none
  | .forOf _ _ left _ _ scope => if left.declaresLexically then some scope else none
  | _ => none

/-- The names that a node has itself, with what they are used for. -/
def ownNames {form : Form} : Node form → List (NameRole × Identifier)
  | .reference id | .shorthand _ id _ => [(.reference, id)]
  | .binding id => [(.binding, id)]
  | .function _ name .. => name.toList.map (.binding, ·)
  | .classDefinition _ name .. => name.toList.map (.binding, ·)
  | .member _ _ (.identifier id) _ | .identifierKey id => [(.property, id)]
  | .metaProperty _ holder name => [(.property, holder), (.property, name)]
  | .breakFrom _ label | .continueWith _ label => label.toList.map (.label, ·)
  | .labeled _ label _ => [(.label, label)]
  | _ => []

end Node

/-- What a scope is opened for. -/
inductive Region where
  | script (body : List Statement)
  /-- A function with its own name, if that is known inside. An arrow function with a single
  expression has no block. -/
  | function (own : Option Identifier) (params : Node .parameters) (body : Option (Node .block))
  | staticBlock (body : List Statement)
  | block (body : List Statement)
  | switch (cases : List (Node .switchCase))
  /-- A loop whose head declares variables. -/
  | loop {form : Form} (head : Node form)
  | handler (param : Option Pattern)
  | classBody (name : Option Identifier)

namespace Region

/-- The kind of the scope. -/
def kind : Region → ScopeKind
  | script _ => .global
  | function .. | staticBlock _ => .function
  | block _ | switch _ | loop _ => .block
  | handler _ => .catchClause
  | classBody _ => .classBody

/-- What is declared in the scope. -/
def declarations : Region → List Declaration
  | script body | staticBlock body => Node.hoistedAll body ++ body.flatMap Node.lexical
  | function own params body =>
    own.toList.map (·, .function) ++ params.introduces ++ body.toList.flatMap Node.hoisted
  | block body => body.flatMap Node.lexical
  | switch cases => Node.lexicalInCases cases
  | loop head => if head.declaresLexically then head.introduces else []
  | handler param => (param.toList.flatMap Node.boundNames).map (·, .catchParameter)
  | classBody name => name.toList.map (·, .classBinding)

/-- The names of the scope. -/
def names (region : Region) : List String := declaredNames region.declarations

end Region

/-- What a node consists of. -/
inductive Item where
  /-- A name, where the given frames are in force. -/
  | name (role : NameRole) (id : Identifier) (frames : List Frame)
  /-- A scope inside of the given frames. -/
  | opens (scope : ScopeId) (region : Region) (outer : List Frame)
  /-- A part, where the given frames are in force. -/
  | part (frames : List Frame) (part : Part)

namespace Item

/-- The name that an item is, with what it is used for. -/
def name? : Item → Option (NameRole × Identifier)
  | name role id _ => some (role, id)
  | _ => none

/-- The number of the scope that an item opens. -/
def scope? : Item → Option ScopeId
  | opens scope _ _ => some scope
  | _ => none

/-- The part that an item is. -/
def part? : Item → Option Part
  | part _ p => some p
  | _ => none

end Item

namespace Node

/-- Names, all with the same frames. -/
def namesIn (frames : List Frame) (names : List (NameRole × Identifier)) : List Item :=
  names.map fun (role, id) => .name role id frames

/-- Parts, all with the same frames. -/
def partsIn (frames : List Frame) (parts : List Part) : List Item := parts.map (.part frames)

/-- The declarators of the head of a loop: each has the names of the ones before it and its
own. -/
def declaratorsIn (frames : List Frame) : List (Node .declarator) → List Item
  | [] => []
  | d :: more =>
    let inner := Frame.grow ((declaratorNames [d]).map (·.name)) frames
    .part inner ⟨.complete, d⟩ :: declaratorsIn inner more

/-- A loop: a head that declares variables opens a scope, which has them once the head is
over. -/
def loopIn {form : Form} (frames : List Frame) (scope : ScopeId) (head : Node form)
    (others : List Part) : List Item :=
  if head.declaresLexically then
    .opens scope (.loop head) frames :: .part (⟨scope, []⟩ :: frames) ⟨.complete, head⟩ ::
      partsIn (⟨scope, (Region.loop head).names⟩ :: frames) others
  else partsIn frames (⟨.complete, head⟩ :: others)

/-- A function: its parameters see its own name and each other, its body sees all names. The
name of a declared function stands outside. -/
def functionIn (declared : Bool) (frames : List Frame) (scope : ScopeId)
    (name : Option Identifier) (params : Node .parameters) (body : Part)
    (block : Option (Node .block)) : List Item :=
  let own := if declared then none else name
  let region := Region.function own params block
  let opening := Item.opens scope region frames
  let inner := ⟨scope, own.toList.map (·.name)⟩ :: frames
  let named := namesIn (if declared then frames else inner) (name.toList.map (.binding, ·))
  (if declared then named ++ [opening] else opening :: named) ++
    [.part inner ⟨.complete, params⟩, .part (⟨scope, region.names⟩ :: frames) body]

/-- A class: all of it sees its name. The name of a declared class stands outside. -/
def classIn (declared : Bool) (frames : List Frame) (scope : ScopeId) (name : Option Identifier)
    (parts : List Part) : List Item :=
  let region := Region.classBody name
  let opening := Item.opens scope region frames
  let inner := ⟨scope, region.names⟩ :: frames
  let named := namesIn (if declared then frames else inner) (name.toList.map (.binding, ·))
  (if declared then named ++ [opening] else opening :: named) ++ partsIn inner parts

/-- A node whose parts all stand in the scope that it opens. -/
def scopeIn (frames : List Frame) (scope : ScopeId) (region : Region) (parts : List Part) :
    List Item :=
  .opens scope region frames :: partsIn (⟨scope, region.names⟩ :: frames) parts

/-- What a node consists of, in the order in which it is resolved. The first argument tells
whether the node is the function or the class of a declaration. -/
def layout {form : Form} (declared : Bool) (frames : List Frame) (x : Node form) : List Item :=
  match x with
  | .arrow _ params body _ scope =>
    functionIn false frames scope none params ⟨.complete, body⟩ (some body)
  | .conciseArrow _ params body _ scope =>
    functionIn false frames scope none params ⟨.complete, body⟩ none
  | .function _ name params body _ _ scope =>
    functionIn declared frames scope name params ⟨.complete, body⟩ (some body)
  | params@(.parameters ..) =>
    partsIn (Frame.grow (declaredNames params.introduces) frames) params.parts
  | .classDefinition span name superClass bodySpan elements scope =>
    classIn declared frames scope name
      (classDefinition span name superClass bodySpan elements scope).parts
  | .block _ body scope => scopeIn frames scope (.block body) (body.map (⟨.complete, ·⟩))
  | .staticBlock _ body scope =>
    scopeIn frames scope (.staticBlock body) (body.map (⟨.complete, ·⟩))
  | .catchClause _ param body scope =>
    scopeIn frames scope (.handler param)
      (param.toList.map (⟨.complete, ·⟩) ++ [⟨.complete, body⟩])
  | .switch _ discriminant cases scope =>
    .part frames ⟨.complete, discriminant⟩ ::
      scopeIn frames scope (.switch cases) (cases.map (⟨.complete, ·⟩))
  | .forLoop _ init test step body scope =>
    loopIn frames scope init (test.toList.map (⟨.complete, ·⟩) ++
      step.toList.map (⟨.complete, ·⟩) ++ [⟨.complete, body⟩])
  | .forIn _ left right body scope =>
    loopIn frames scope left [⟨.complete, right⟩, ⟨.complete, body⟩]
  | .forOf _ _ left right body scope =>
    loopIn frames scope left [⟨.complete, right⟩, ⟨.complete, body⟩]
  | .declaration _ kind ds =>
    if kind.isLexical then declaratorsIn frames ds else partsIn frames (ds.map (⟨.complete, ·⟩))
  | x => namesIn frames x.ownNames ++ partsIn frames x.parts

/-- The number of the scope that a node opens, if it is in force in the given part. What a
switch decides on stands outside of its scope. -/
def inForce {form : Form} (x : Node form) (q : Part) : Option ScopeId :=
  match x with
  | .switch _ _ _ scope => if q.form = .expression then none else some scope
  | x => x.scope?

/-- Only a scope that the node opens is in force because of it. -/
theorem scope?_of_inForce {form : Form} {x : Node form} {q : Part} {scope : ScopeId}
    (h : x.inForce q = some scope) : x.scope? = some scope := by
  cases x with
  | switch =>
    simp only [inForce] at h
    split at h
    · exact nomatch h
    · exact h
  | _ => exact h

section

variable {frames outer inner : List Frame} {names : List (NameRole × Identifier)}
  {parts : List Part} {role : NameRole} {id : Identifier} {scope : ScopeId} {region : Region}
  {q : Part}

@[simp] theorem name_mem_namesIn :
    .name role id inner ∈ namesIn frames names ↔ (role, id) ∈ names ∧ inner = frames := by
  simp [namesIn, eq_comm]

@[simp] theorem opens_not_mem_namesIn : ¬.opens scope region outer ∈ namesIn frames names := by
  simp [namesIn]

@[simp] theorem part_not_mem_namesIn : ¬.part inner q ∈ namesIn frames names := by
  simp [namesIn]

@[simp] theorem name_not_mem_partsIn : ¬.name role id inner ∈ partsIn frames parts := by
  simp [partsIn]

@[simp] theorem opens_not_mem_partsIn : ¬.opens scope region outer ∈ partsIn frames parts := by
  simp [partsIn]

@[simp] theorem part_mem_partsIn :
    .part inner q ∈ partsIn frames parts ↔ q ∈ parts ∧ inner = frames := by
  simp [partsIn, eq_comm]

@[simp] theorem name_not_mem_declaratorsIn {ds : List (Node .declarator)} :
    ¬.name role id inner ∈ declaratorsIn frames ds := by
  induction ds generalizing frames with
  | nil => simp [declaratorsIn]
  | cons d ds ih => simp [declaratorsIn, ih]

@[simp] theorem opens_not_mem_declaratorsIn {ds : List (Node .declarator)} :
    ¬.opens scope region outer ∈ declaratorsIn frames ds := by
  induction ds generalizing frames with
  | nil => simp [declaratorsIn]
  | cons d ds ih => simp [declaratorsIn, ih]

/-- The names of a first declarator come first. -/
theorem declaratorNames_cons (d : Node .declarator) (ds : List (Node .declarator)) :
    declaratorNames (d :: ds) = declaratorNames [d] ++ declaratorNames ds := by
  cases d
  simp [declaratorNames]

/-- A declarator stands where its names are known, and where otherwise only names of the
declarators before it have come in. -/
theorem part_mem_declaratorsIn {ds : List (Node .declarator)}
    (h : .part inner q ∈ declaratorsIn frames ds) :
    ∃ d ∈ ds, q = ⟨.complete, d⟩ ∧ ∃ names, inner = Frame.grow names frames ∧
      (∀ id ∈ declaratorNames [d], id.name ∈ names) ∧
        ∀ name ∈ names, name ∈ (declaratorNames ds).map (·.name) := by
  induction ds generalizing frames with
  | nil => simp [declaratorsIn] at h
  | cons d ds ih =>
    rw [declaratorNames_cons, List.map_append]
    rw [declaratorsIn, List.mem_cons] at h
    rcases h with h | h
    · cases h
      refine ⟨d, List.mem_cons_self, rfl, _, rfl, fun id hid => List.mem_map_of_mem hid, ?_⟩
      exact fun name hname => List.mem_append_left _ hname
    · obtain ⟨e, he, rfl, names, rfl, hknown, honly⟩ := ih h
      refine ⟨e, List.mem_cons_of_mem _ he, rfl, ?_⟩
      cases frames with
      | nil => exact ⟨names, rfl, hknown, fun name hn => List.mem_append_right _ (honly name hn)⟩
      | cons frame frames =>
        refine ⟨names ++ (declaratorNames [d]).map (·.name), by simp, ?_, ?_⟩
        · exact fun id hid => List.mem_append_left _ (hknown id hid)
        · intro name hname
          rcases List.mem_append.mp hname with hname | hname
          · exact List.mem_append_right _ (honly name hname)
          · exact List.mem_append_left _ hname

variable {declared : Bool} {name : Option Identifier} {params : Node .parameters} {body : Part}
  {block : Option (Node .block)}

/-- The two parts of a function, each with its frames. -/
theorem part_mem_functionIn :
    .part inner q ∈ functionIn declared frames scope name params body block ↔
      q = ⟨.complete, params⟩ ∧
          inner = ⟨scope, (if declared then none else name).toList.map (·.name)⟩ :: frames ∨
        q = body ∧ inner = ⟨scope,
          (Region.function (if declared then none else name) params block).names⟩ :: frames := by
  cases declared <;> simp [functionIn, and_comm]

/-- A function opens its scope. -/
theorem opens_mem_functionIn :
    .opens scope (.function (if declared then none else name) params block) frames ∈
      functionIn declared frames scope name params body block := by
  cases declared <;> simp [functionIn]

/-- The parts of a class all see its name. -/
theorem part_mem_classIn :
    .part inner q ∈ classIn declared frames scope name parts ↔
      q ∈ parts ∧ inner = ⟨scope, (Region.classBody name).names⟩ :: frames := by
  cases declared <;> simp [classIn]

/-- A class opens its scope. -/
theorem opens_mem_classIn :
    .opens scope (.classBody name) frames ∈ classIn declared frames scope name parts := by
  cases declared <;> simp [classIn]

/-- The parts of a loop whose head declares: the head sees less than the others. -/
theorem part_mem_loopIn {form : Form} {head : Node form} (h : head.declaresLexically = true) :
    .part inner q ∈ loopIn frames scope head parts ↔
      q = ⟨.complete, head⟩ ∧ inner = ⟨scope, []⟩ :: frames ∨
        q ∈ parts ∧ inner = ⟨scope, (Region.loop head).names⟩ :: frames := by
  simp [loopIn, h, and_comm]

/-- The parts of a loop whose head does not declare stand in the scope around. -/
theorem part_mem_plainLoopIn {form : Form} {head : Node form}
    (h : head.declaresLexically = false) :
    .part inner q ∈ loopIn frames scope head parts ↔
      (q = ⟨.complete, head⟩ ∨ q ∈ parts) ∧ inner = frames := by
  simp [loopIn, h]

/-- A loop whose head declares opens a scope. -/
theorem opens_mem_loopIn {form : Form} {head : Node form} (h : head.declaresLexically = true) :
    .opens scope (.loop head) frames ∈ loopIn frames scope head parts := by
  simp [loopIn, h]

end

@[simp] theorem filterMap_part?_namesIn (frames : List Frame)
    (names : List (NameRole × Identifier)) :
    (namesIn frames names).filterMap Item.part? = [] := by
  simp [namesIn, List.filterMap_map, Function.comp_def, Item.part?]

@[simp] theorem filterMap_part?_partsIn (frames : List Frame) (parts : List Part) :
    (partsIn frames parts).filterMap Item.part? = parts := by
  simp [partsIn, List.filterMap_map, Function.comp_def, Item.part?]

@[simp] theorem filterMap_part?_declaratorsIn (frames : List Frame)
    (ds : List (Node .declarator)) :
    (declaratorsIn frames ds).filterMap Item.part? = ds.map (⟨.complete, ·⟩) := by
  induction ds generalizing frames with
  | nil => rfl
  | cons d ds ih => simp [declaratorsIn, Item.part?, ih]

attribute [local simp] layout

/-- The parts of a layout are those of the node, in the same order. -/
theorem filterMap_part?_layout {form : Form} (declared : Bool) (frames : List Frame)
    (x : Node form) : (x.layout declared frames).filterMap Item.part? = x.parts := by
  cases x with
  | arrow span params body isAsync scope => rfl
  | conciseArrow span params body isAsync scope => rfl
  | function span name params body isGenerator isAsync scope =>
    cases declared <;> simp [layout, functionIn, List.filterMap_cons, Item.part?, parts]
  | parameters span params remainder => simp [layout]
  | classDefinition span name superClass bodySpan elements scope =>
    cases declared <;> simp [layout, classIn, List.filterMap_cons, Item.part?]
  | block span body scope => simp [layout, scopeIn, List.filterMap_cons, Item.part?, parts]
  | staticBlock span body scope => simp [layout, scopeIn, List.filterMap_cons, Item.part?, parts]
  | catchClause span param body scope =>
    simp [layout, scopeIn, List.filterMap_cons, Item.part?, parts]
  | switch span discriminant cases scope =>
    simp [layout, scopeIn, List.filterMap_cons, Item.part?, parts]
  | forLoop span init test step body scope =>
    simp only [layout, loopIn]
    split <;> simp [List.filterMap_cons, Item.part?, parts]
  | forIn span left right body scope =>
    simp only [layout, loopIn]
    split <;> simp [List.filterMap_cons, Item.part?, parts]
  | forOf span isAwait left right body scope =>
    simp only [layout, loopIn]
    split <;> simp [List.filterMap_cons, Item.part?, parts]
  | declaration span kind ds =>
    simp only [layout]
    split <;> simp [parts]
  | _ => simp [layout]

section

variable {form : Form} {x : Node form} {declared : Bool} {frames inner outer : List Frame}

/-- A part of a layout is one of the node. -/
theorem mem_parts_of_mem_layout {q : Part} (h : .part inner q ∈ x.layout declared frames) :
    q ∈ x.parts := by
  rw [← filterMap_part?_layout declared frames x]
  exact List.mem_filterMap.mpr ⟨_, h, rfl⟩

/-- Every part of a node has its place in the layout. -/
theorem exists_part_mem_layout {q : Part} (h : q ∈ x.parts) (declared : Bool)
    (frames : List Frame) : ∃ inner, .part inner q ∈ x.layout declared frames := by
  rw [← filterMap_part?_layout declared frames x] at h
  obtain ⟨item, hitem, hq⟩ := List.mem_filterMap.mp h
  cases item with
  | part inner p =>
    cases hq
    exact ⟨inner, hitem⟩
  | _ => exact nomatch hq

/-- In a part of a node the scope that the node opens is in force, and those around it. -/
theorem ids_of_mem_layout {q : Part} (h : .part inner q ∈ x.layout declared frames) :
    inner.map Frame.id = (x.inForce q).toList ++ frames.map Frame.id := by
  cases x with
  | arrow | conciseArrow | function =>
    rcases part_mem_functionIn.mp h with ⟨-, rfl⟩ | ⟨-, rfl⟩ <;> rfl
  | classDefinition =>
    rw [(part_mem_classIn.mp h).2]
    rfl
  | block | staticBlock | catchClause =>
    simp only [layout, scopeIn, List.mem_cons, reduceCtorEq, part_mem_partsIn, false_or] at h
    rw [h.2]
    rfl
  | switch =>
    simp only [layout, scopeIn, List.mem_cons, Item.part.injEq, reduceCtorEq, part_mem_partsIn,
      false_or, List.mem_map] at h
    rcases h with ⟨rfl, rfl⟩ | ⟨⟨c, -, rfl⟩, rfl⟩ <;> rfl
  | forLoop _ head | forIn _ head | forOf _ _ head =>
    cases hlexical : head.declaresLexically with
    | true =>
      rcases (part_mem_loopIn hlexical).mp h with ⟨-, rfl⟩ | ⟨-, rfl⟩ <;>
        simp [inForce, scope?, hlexical]
    | false =>
      rw [((part_mem_plainLoopIn hlexical).mp h).2]
      simp [inForce, scope?, hlexical]
  | parameters =>
    simp only [layout, part_mem_partsIn] at h
    rw [h.2, Frame.ids_grow]
    rfl
  | declaration span kind ds =>
    simp only [layout] at h
    split at h
    · obtain ⟨d, -, rfl, names, rfl, -, -⟩ := part_mem_declaratorsIn h
      rw [Frame.ids_grow]
      rfl
    · simp only [part_mem_partsIn] at h
      rw [h.2]
      rfl
  | _ =>
    simp only [layout, List.mem_append, part_not_mem_namesIn, part_mem_partsIn, false_or] at h
    rw [h.2]
    rfl

/-- A scope is opened inside of the frames around the node. -/
theorem opens_mem_layout {scope : ScopeId} {region : Region}
    (h : .opens scope region outer ∈ x.layout declared frames) :
    x.scope? = some scope ∧ outer = frames := by
  cases x with
  | arrow | conciseArrow | function | classDefinition =>
    cases declared <;> simp_all [layout, functionIn, classIn, scope?]
  | block | staticBlock | catchClause | switch => simp_all [layout, scopeIn, scope?]
  | forLoop | forIn | forOf =>
    simp only [layout, loopIn] at h
    split at h <;> simp_all [scope?]
  | declaration span kind ds =>
    simp only [layout] at h
    split at h <;> simp_all
  | _ => simp [layout] at h

/-- A node that has room for the number of a scope opens this scope. -/
theorem exists_opens_mem_layout {scope : ScopeId} (h : x.scope? = some scope) (declared : Bool)
    (frames : List Frame) : ∃ region, .opens scope region frames ∈ x.layout declared frames := by
  cases x with
  | arrow | conciseArrow | function =>
    cases h
    exact ⟨_, opens_mem_functionIn⟩
  | classDefinition =>
    cases h
    exact ⟨_, opens_mem_classIn⟩
  | block | staticBlock | catchClause =>
    cases h
    exact ⟨_, List.mem_cons_self⟩
  | switch =>
    cases h
    exact ⟨_, List.mem_cons_of_mem _ List.mem_cons_self⟩
  | forLoop | forIn | forOf =>
    simp only [scope?] at h
    split at h
    · rename_i hlexical
      cases h
      exact ⟨_, opens_mem_loopIn hlexical⟩
    · exact nomatch h
  | _ => exact nomatch h

/-- The names of a layout are those of the node. -/
theorem name_mem_layout {role : NameRole} {id : Identifier}
    (h : .name role id inner ∈ x.layout declared frames) : (role, id) ∈ x.ownNames := by
  cases x with
  | arrow | conciseArrow | function | classDefinition =>
    cases declared <;> simp_all [layout, functionIn, classIn, ownNames]
  | block | staticBlock | catchClause | switch => simp_all [layout, scopeIn]
  | forLoop | forIn | forOf =>
    simp only [layout, loopIn] at h
    split at h <;> simp_all
  | declaration span kind ds =>
    simp only [layout] at h
    split at h <;> simp_all
  | parameters => simp [layout] at h
  | _ =>
    simp only [layout, List.mem_append, name_mem_namesIn, name_not_mem_partsIn, or_false] at h
    exact h.1

/-- A name stands in the frames around the node or, as the own name of a function or a class, in
the scope that the node opens. -/
theorem ids_of_name_mem_layout {role : NameRole} {id : Identifier}
    (h : .name role id inner ∈ x.layout declared frames) :
    inner = frames ∨ role = .binding ∧
      ∃ scope, x.scope? = some scope ∧ inner.map Frame.id = scope :: frames.map Frame.id := by
  cases x with
  | arrow | conciseArrow => simp [layout, functionIn] at h
  | function | classDefinition =>
    cases declared <;> simp_all [layout, functionIn, classIn, scope?]
  | block | staticBlock | catchClause | switch => simp_all [layout, scopeIn]
  | forLoop | forIn | forOf =>
    simp only [layout, loopIn] at h
    split at h <;> simp_all
  | declaration span kind ds =>
    simp only [layout] at h
    split at h <;> simp_all
  | parameters => simp [layout] at h
  | _ =>
    simp only [layout, List.mem_append, name_mem_namesIn, name_not_mem_partsIn, or_false] at h
    exact Or.inl h.2

/-- Every name that a node has itself has its place in the layout. -/
theorem exists_name_mem_layout {role : NameRole} {id : Identifier} (h : (role, id) ∈ x.ownNames)
    (declared : Bool) (frames : List Frame) :
    ∃ inner, .name role id inner ∈ x.layout declared frames := by
  cases x with
  | arrow | conciseArrow | block | staticBlock | catchClause | switch | forLoop | forIn | forOf
  | declaration | parameters => exact nomatch h
  | function | classDefinition =>
    simp only [ownNames] at h
    cases declared <;> simp_all [layout, functionIn, classIn]
  | _ => exact ⟨frames, List.mem_append_left _ (name_mem_namesIn.mpr ⟨h, rfl⟩)⟩

end

end Node

end EcmaScript
