import EcmaScript.Proofs.Scope.Home
import EcmaScript.Proofs.Scope.Resolved

/-!
# Which names are seen

Where a scope is in force all of its names are seen, those that are declared further down as
well, with two exceptions. In the parameters of a function only its own name and its parameters
are seen. In the head of a loop the variables of the loop are seen from their declarators on.

A script that is resolved by itself has the scopes of its walk, and its names are numbered as
the frames around them say.
-/

namespace EcmaScript

open Resolution

namespace Program

/-- The scopes of a program that is resolved by itself. -/
def scopeTable (program : Program) : ScopeTable := (program.resolve.run {}).2

/-- The table in which the statements of a program are resolved. -/
def startTable (program : Program) : ScopeTable :=
  (ScopeTable.push {} .global).declareAll (Region.script program.body).declarations

/-- How a program is resolved by itself, from an empty table. -/
theorem resolve_run (program : Program) :
    program.resolve.run {} =
      ({ program with body := (Node.resolveStatements program.body program.startTable).1 },
        (Node.resolveStatements program.body program.startTable).2.pop) := by
  simp only [startTable, Region.declarations, ScopeTable.declareAll, List.foldl_append]
  rfl

/-- The statements of the resolved program. -/
theorem body_resolved (program : Program) :
    program.resolved.body = (Node.resolveStatements program.body program.startTable).1 := by
  rw [resolved, resolve_run]

/-- The table that is left when the scope of the script is closed. -/
theorem scopeTable_eq (program : Program) :
    program.scopeTable = (Node.resolveStatements program.body program.startTable).2.pop := by
  rw [scopeTable, resolve_run]

section

variable {program : Program} (h : ∀ s ∈ program.body, Parsed s)
include h

/-- The statements without their numbers are those that were parsed. -/
theorem erase_body_resolved : program.resolved.body.map Node.erase = program.body := by
  rw [body_resolved]
  exact Node.erase_resolveStatements h _

/-- Without the numbers the resolved program is the program. -/
theorem erase_resolved : program.resolved.erase = program := by
  have hbody := erase_body_resolved h
  rw [body_resolved] at hbody
  rw [resolved, resolve_run, erase, hbody]

/-- The script declares the same names, resolved or not. -/
theorem names_resolved : (Region.script program.resolved.body).names =
    (Region.script program.body).names := by
  have herase := erase_body_resolved h
  simp only [Region.names, Region.declarations, declaredNames_append,
    Node.declaredNames_lexical herase, Node.declaredNames_hoistedAll herase]

/-- The statements of a script are resolved inside of its own scope. -/
theorem traced :
    Traced [⟨ScopeTable.globalId, []⟩] (ScopeTable.push {} .global)
      (program.resolved.body.flatMap fun s => s.walk false program.resolved.frames)
      program.resolved.frames (Node.resolveStatements program.body program.startTable).2 := by
  have hempty : ScopeTable.Shows {} [] := ⟨rfl, by simp, List.Pairwise.nil⟩
  have hdeclared := (Traced.declares (hempty.push .global)
    (Region.script program.body).declarations).congr
    (Region.script program.resolved.body).names
    (by intro name; rw [names_resolved h, List.append_nil]; rfl)
  have hkeeps : ∀ p ∈ program.body.map (⟨.complete, ·⟩ : Statement → Part),
      Node.Keeps ⟨ScopeTable.globalId, (Region.script program.resolved.body).names⟩ p := by
    apply Node.keeps_statements
    intro name hname
    rw [names_resolved h]
    simp only [Region.names, Region.declarations, declaredNames_append]
    exact List.mem_append_right _ hname
  have hbody := Node.traced_parts (List.forall_mem_map.mpr fun s hs => (h s hs).traces) hkeeps
    hdeclared.shows
  have hrun : Part.resolveAll (program.body.map (⟨.complete, ·⟩)) program.startTable =
      (program.resolved.body.map (⟨.complete, ·⟩),
        (Node.resolveStatements program.body program.startTable).2) := by
    rw [Part.resolveAll_map, body_resolved, Node.resolveStatements_eq]
  rw [startTable] at hrun
  rw [hrun, List.flatMap_map] at hbody
  exact hdeclared.trans hbody

/-- The scopes are numbered in the order in which they are opened. -/
theorem numbered : program.resolved.walk.filterMap Item.scope? =
    List.range' 1 program.scopeTable.scopes.size := by
  have htraced := traced h
  have hle : 1 ≤ program.scopeTable.scopes.size := by
    rw [scopeTable_eq, ScopeTable.scopes_pop]
    exact htraced.grows.size_le
  obtain ⟨n, hn⟩ := Nat.exists_eq_add_of_le' hle
  have hnumbered := htraced.numbered
  rw [← ScopeTable.scopes_pop, ← scopeTable_eq, hn] at hnumbered
  rw [hn, List.range'_succ]
  exact congrArg (ScopeTable.globalId :: ·) hnumbered

/-- The names are numbered as the frames around them say, and these frames are those of scopes
of the table. -/
theorem named {role : NameRole} {id : Identifier} {frames : List Frame}
    (hname : .name role id frames ∈ program.resolved.walk) :
    id.scope = role.stamp frames id.name ∧ program.scopeTable.Supports frames := by
  have hmem : _ ∈ program.resolved.body.flatMap _ :=
    (List.mem_cons.mp hname).resolve_left (fun heq => nomatch heq)
  obtain ⟨hstamp, hsupports⟩ := (traced h).named role id frames hmem
  refine ⟨hstamp, fun frame hframe => ?_⟩
  rw [scopeTable_eq, ScopeTable.scope?_pop]
  exact hsupports frame hframe

/-- The scopes of the walk are those of the table. -/
theorem opened {id : ScopeId} {region : Region} {outer : List Frame}
    (hopens : .opens id region outer ∈ program.resolved.walk) :
    program.scopeTable.Opened id region outer := by
  have htraced := traced h
  suffices hopened : ScopeTable.Opened (Node.resolveStatements program.body program.startTable).2
      id region outer by
    obtain ⟨holder, scope, hscope, hrest⟩ := hopened
    exact ⟨holder, scope, by rw [scopeTable_eq, ScopeTable.scope?_pop, hscope], hrest⟩
  rcases List.mem_cons.mp hopens with heq | hopens
  · cases heq
    obtain ⟨scope, hscope, hid, hnames⟩ := htraced.shows.names _ List.mem_cons_self
    obtain ⟨now, hnow, hkind, hparent, -⟩ :=
      htraced.grows.kept _ _ (ScopeTable.scope?_push_nextId {} .global)
    obtain rfl : now = scope := Option.some.inj (hnow.symm.trans hscope)
    exact ⟨by simp, now, hscope, hid, hkind, hparent, hnames⟩
  · exact htraced.opened id region outer hopens

end

end Program

end EcmaScript

namespace EcmaScript

open Node

/-- The frames that are in force in a part of a node, from those around the node. -/
inductive Node.Enters {form : Form} (x : Node form) (declared : Bool) (frames : List Frame) :
    Part → List Frame → Prop where
  | same (q : Part) (hform : form ≠ .parameters) : Enters x declared frames q frames
  | scope {scope : ScopeId} {region : Region} (q : Part)
      (hopens : .opens scope region frames ∈ x.layout declared frames) :
      Enters x declared frames q (⟨scope, region.names⟩ :: frames)
  | parameters {scope : ScopeId} {own : Option Identifier} {params : Node .parameters}
      {block : Option (Node .block)}
      (hopens : .opens scope (.function own params block) frames ∈ x.layout declared frames) :
      Enters x declared frames ⟨.complete, params⟩ (⟨scope, own.toList.map (·.name)⟩ :: frames)
  | head {scope : ScopeId} {headForm : Form} {head : Node headForm}
      (hopens : .opens scope (.loop head) frames ∈ x.layout declared frames) :
      Enters x declared frames ⟨.complete, head⟩ (⟨scope, []⟩ :: frames)
  /-- From one declarator to the next. -/
  | declarator {names : List String} (q : Part) (hform : form ≠ .parameters)
      (hnames : ∀ name ∈ names, name ∈ declaredNames x.introduces) :
      Enters x declared frames q (Frame.grow names frames)
  /-- From the list of parameters to each of them. -/
  | parameter (q : Part) (hform : form = .parameters) :
      Enters x declared frames q (Frame.grow (declaredNames x.introduces) frames)

/-- Frames change on the way to a part only as a scope is entered, or names come into the
innermost one. -/
theorem Node.enters_of_mem_layout {form : Form} {x : Node form} {declared : Bool}
    {frames inner : List Frame} {q : Part} (h : .part inner q ∈ x.layout declared frames) :
    x.Enters declared frames q inner := by
  cases x with
  | arrow | conciseArrow | function =>
    rcases part_mem_functionIn.mp h with ⟨rfl, rfl⟩ | ⟨-, rfl⟩
    · exact .parameters opens_mem_functionIn
    · exact .scope q opens_mem_functionIn
  | classDefinition =>
    rw [(part_mem_classIn.mp h).2]
    exact .scope q opens_mem_classIn
  | block | staticBlock | catchClause =>
    simp only [layout, scopeIn, List.mem_cons, reduceCtorEq, part_mem_partsIn, false_or] at h
    rw [h.2]
    exact .scope q List.mem_cons_self
  | switch =>
    simp only [layout, scopeIn, List.mem_cons, Item.part.injEq, reduceCtorEq, part_mem_partsIn,
      false_or] at h
    rcases h with ⟨rfl, rfl⟩ | ⟨-, rfl⟩
    · exact .same _ nofun
    · exact .scope q (List.mem_cons_of_mem _ List.mem_cons_self)
  | forLoop _ head | forIn _ head | forOf _ _ head =>
    cases hlexical : head.declaresLexically with
    | true =>
      rcases (part_mem_loopIn hlexical).mp h with ⟨rfl, rfl⟩ | ⟨-, rfl⟩
      · exact .head (opens_mem_loopIn hlexical)
      · exact .scope q (opens_mem_loopIn hlexical)
    | false =>
      rw [((part_mem_plainLoopIn hlexical).mp h).2]
      exact .same q (by simp)
  | parameters =>
    simp only [layout, part_mem_partsIn] at h
    rw [h.2]
    exact .parameter q rfl
  | declaration span kind ds =>
    simp only [layout] at h
    split at h
    · rename_i hlexical
      obtain ⟨d, -, rfl, names, rfl, -, honly⟩ := part_mem_declaratorsIn h
      refine .declarator _ nofun fun name hname => ?_
      rw [introduces, if_pos hlexical, declaredNames_map]
      exact honly name hname
    · rw [(part_mem_partsIn.mp h).2]
      exact .same q (by simp)
  | _ =>
    simp only [layout, List.mem_append, part_not_mem_namesIn, part_mem_partsIn, false_or] at h
    rw [h.2]
    exact .same q (by simp)

/-- Parameters open no scope. -/
theorem Node.scope?_ne_some_of_parameters {form : Form} {x : Node form} {scope : ScopeId}
    (hform : form = .parameters) : x.scope? ≠ some scope := by
  cases hform
  cases x
  exact nofun

namespace Program

/-- The scope is that of a loop, and the path goes through the head of the loop. -/
def InHead (program : Program) (path : List Part) (scope : ScopeId) : Prop :=
  ∃ (form : Form) (head : Node form) (outer : List Frame),
    .opens scope (.loop head) outer ∈ program.walk ∧ ⟨.complete, head⟩ ∈ path

/-- The frame is that of a function, the path goes through the parameters of the function, and
the names are its own and theirs. -/
def InParameters (program : Program) (path : List Part) (frame : Frame) : Prop :=
  ∃ own params block outer, .opens frame.id (.function own params block) outer ∈ program.walk ∧
    ⟨.complete, params⟩ ∈ path ∧
      ∀ name, name ∈ frame.names ↔ (∃ id ∈ own, id.name = name) ∨ params.Binds name

section

variable {program : Program} {p q : Part} {path above : List Part} {declared : Bool}
  {frames inner : List Frame}

/-- Further down the path still goes through the head. -/
theorem InHead.cons {scope : ScopeId} (h : program.InHead path scope) (q : Part) :
    program.InHead (q :: path) scope := by
  obtain ⟨form, head, outer, hopens, hhead⟩ := h
  exact ⟨form, head, outer, hopens, List.mem_cons_of_mem _ hhead⟩

/-- Further down the path still goes through the parameters. -/
theorem InParameters.cons {frame : Frame} (h : program.InParameters path frame) (q : Part) :
    program.InParameters (q :: path) frame := by
  obtain ⟨own, params, block, outer, hopens, hparams, hnames⟩ := h
  exact ⟨own, params, block, outer, hopens, List.mem_cons_of_mem _ hparams, hnames⟩

/-- What the head of a loop declares is known there, unless the loop has a scope for it. -/
theorem Site.introduced_loop {form : Form} {head : Node form} {scope : ScopeId}
    {others : List Part} {frame : Frame} {around : List Frame}
    (hform : form = .forInit ∨ form = .forHead)
    (h : program.Site (p :: above) declared frames)
    (hlayout : p.node.layout declared frames = loopIn frames scope head others)
    (hq : .part (frame :: around) ⟨.complete, head⟩ ∈ p.node.layout declared frames) :
    (∀ name ∈ declaredNames head.introduces, name ∈ frame.names) ∨
      program.InHead (⟨.complete, head⟩ :: p :: above) frame.id := by
  cases hlexical : head.declaresLexically with
  | false =>
    left
    rw [introduces_of_not_declaresLexically hform hlexical]
    simp
  | true =>
    right
    have hopens : .opens scope (.loop head) frames ∈ p.node.layout declared frames := by
      rw [hlayout]
      exact opens_mem_loopIn hlexical
    have hid : frame.id = scope := by
      rw [hlayout, part_mem_loopIn hlexical] at hq
      rcases hq with ⟨-, heq⟩ | ⟨-, heq⟩
      · rw [(List.cons.inj heq).1]
      · rw [(List.cons.inj heq).1]
    rw [hid]
    exact ⟨form, head, frames, h.mem_walk (mem_walk_of_mem_layout hopens rfl), List.mem_cons_self⟩

/-- What a declaration declares is known where it stands, if it is not in the head of a loop. -/
theorem Site.introduced (hbody : ∀ s ∈ program.body, Parsed s.erase)
    (h : program.Site (p :: above) declared frames) (hform : p.form ≠ .parameters) :
    ∃ frame around, frames = frame :: around ∧
      ((∀ name ∈ declaredNames p.node.introduces, name ∈ frame.names) ∨
        program.InHead (p :: above) frame.id) := by
  generalize hpath : p :: above = path at h
  induction h generalizing p above with
  | statement hs =>
    cases hpath
    refine ⟨_, _, rfl, Or.inl ?_⟩
    rw [introduces_eq_nil rfl]
    simp
  | @part r q beyond declared frames inner hr hq ih =>
    cases hpath
    obtain ⟨frame, around, region, outer, rfl, -⟩ := (Site.part hr hq).home hbody
    refine ⟨frame, around, rfl, ?_⟩
    by_cases hintroduces : q.form.introduces = false
    · left
      rw [introduces_eq_nil hintroduces]
      simp
    have hpart := mem_parts_of_mem_layout hq
    have hplain : ∀ {parts : List Part}, q ∈ parts → ¬∀ q ∈ parts, q.form.introduces = false :=
      fun hmem hall => hintroduces (hall q hmem)
    obtain ⟨role, x⟩ := r
    cases x with
    | variableStatement d =>
      obtain ⟨f, rest, region, outer, rfl, -, hexpects, -⟩ := hr.home hbody
      simp only [layout, List.mem_append, part_not_mem_namesIn, part_mem_partsIn, false_or] at hq
      obtain ⟨hq, heq⟩ := hq
      cases heq
      rw [List.mem_singleton.mp hq]
      left
      intro name hname
      obtain ⟨e, he, rfl⟩ := mem_declaredNames.mp hname
      exact (hexpects e he).2
    | declarationInit d | declarationHead d =>
      obtain ⟨f, rest, rfl, hhead⟩ := ih (by simp) rfl
      simp only [layout, List.mem_append, part_not_mem_namesIn, part_mem_partsIn, false_or] at hq
      obtain ⟨hq, heq⟩ := hq
      cases heq
      rw [List.mem_singleton.mp hq]
      exact hhead.imp id fun hin => hin.cons _
    | forLoop span init test step body scope =>
      simp only [Node.parts, List.mem_append, List.mem_cons, List.mem_map, List.not_mem_nil,
        or_false] at hpart
      rcases hpart with ((rfl | ⟨e, -, rfl⟩) | ⟨e, -, rfl⟩) | rfl
      · exact Site.introduced_loop (Or.inl rfl) hr rfl hq
      · exact absurd rfl hintroduces
      · exact absurd rfl hintroduces
      · exact absurd rfl hintroduces
    | forIn span left right body | forOf span isAwait left right body =>
      simp only [Node.parts, List.mem_cons, List.not_mem_nil, or_false] at hpart
      rcases hpart with rfl | rfl | rfl
      · exact Site.introduced_loop (Or.inr rfl) hr rfl hq
      · exact absurd rfl hintroduces
      · exact absurd rfl hintroduces
    | arrow span params body | conciseArrow span params body | function span name params body =>
      simp only [Node.parts, List.mem_cons, List.not_mem_nil, or_false] at hpart
      rcases hpart with rfl | rfl
      · exact absurd rfl hform
      · exact absurd rfl hintroduces
    | _ =>
      refine absurd ?_ (hplain hpart)
      simp only [Node.parts, List.forall_mem_cons, List.forall_mem_append, List.forall_mem_map,
        List.not_mem_nil, Form.introduces, false_implies, implies_true, and_self]

/-- Parameters stand in a function, where only its own name is known yet. -/
theorem Site.parameters {role : Role} {params : Node .parameters}
    (h : program.Site (⟨role, params⟩ :: above) declared frames) :
    ∃ scope own block outer,
      .opens scope (.function own params block) outer ∈ program.walk ∧ role = .complete ∧
        frames = ⟨scope, own.toList.map (·.name)⟩ :: outer := by
  generalize hpath : ⟨role, params⟩ :: above = path at h
  cases h with
  | statement hs => exact nomatch hpath
  | @part r q beyond declared around frames hr hq =>
    cases hpath
    have hpart := mem_parts_of_mem_layout hq
    obtain ⟨role, x⟩ := r
    cases x with
    | arrow | conciseArrow | function =>
      rcases part_mem_functionIn.mp hq with ⟨heq, rfl⟩ | ⟨heq, -⟩
      · cases heq
        have hopens := hr.mem_walk (mem_walk_of_mem_layout opens_mem_functionIn rfl)
        exact ⟨_, _, _, _, hopens, rfl, rfl⟩
      · exact nomatch heq
    | _ => simp [Node.parts] at hpart

/-- A frame has all names of its scope, or the path goes through the parameters of the function
or through the head of the loop to which the scope belongs. -/
def Seen (program : Program) (table : ScopeTable) (path : List Part) (frame : Frame) : Prop :=
  table.ShowsFrame frame ∨ program.InParameters path frame ∨ program.InHead path frame.id

/-- Only the number and the names of a frame matter. -/
theorem Seen.congr {table : ScopeTable} {frame : Frame} (h : program.Seen table path frame)
    (other : Frame) (hid : other.id = frame.id)
    (hnames : ∀ name, name ∈ other.names ↔ name ∈ frame.names) :
    program.Seen table path other := by
  rcases h with ⟨scope, hscope, hnumber, hhas⟩ | ⟨own, params, block, outer, hopens,
    hparams, hown⟩ | h
  · left
    rw [← hid] at hscope hnumber
    exact ⟨scope, hscope, hnumber, fun name => (hhas name).trans (hnames name).symm⟩
  · right; left
    rw [← hid] at hopens
    exact ⟨own, params, block, outer, hopens, hparams, fun name => (hnames name).trans (hown name)⟩
  · right; right
    rw [hid]
    exact h

/-- What is seen by a frame is seen by it further down. -/
theorem Seen.cons {table : ScopeTable} {frame : Frame} (h : program.Seen table path frame)
    (q : Part) : program.Seen table (q :: path) frame := by
  rcases h with h | h | h
  · exact Or.inl h
  · exact Or.inr (Or.inl (h.cons q))
  · exact Or.inr (Or.inr (h.cons q))

end

section

variable {program : Program} (h : ∀ s ∈ program.body, Parsed s)
include h

/-- The statements without their numbers come from the parser. -/
theorem parsed_resolved : ∀ s ∈ program.resolved.body, Parsed s.erase := by
  intro s hs
  apply h
  rw [← erase_body_resolved h]
  exact List.mem_map_of_mem hs

/-- A frame with the names of a region that has been opened. -/
theorem showsFrame {scope : ScopeId} {region : Region} {outer : List Frame}
    (hopens : .opens scope region outer ∈ program.resolved.walk) :
    program.scopeTable.ShowsFrame ⟨scope, region.names⟩ := by
  obtain ⟨-, found, hscope, hid, -, -, hnames⟩ := opened h hopens
  exact ⟨found, hscope, hid, hnames⟩

/-- The names that come in from one declarator to the next have been seen before, if it is not in
the head of a loop. -/
theorem seen_declarator {p : Part} {above : List Part} {declared : Bool} {frame : Frame}
    {around : List Frame} {names : List String}
    (hsite : program.resolved.Site (p :: above) declared (frame :: around))
    (hform : p.form ≠ .parameters)
    (hnames : ∀ name ∈ names, name ∈ declaredNames p.node.introduces)
    (hframe : program.resolved.Seen program.scopeTable (p :: above) frame) :
    program.resolved.Seen program.scopeTable (p :: above) ⟨frame.id, names ++ frame.names⟩ := by
  obtain ⟨same, around, heq, hknown⟩ := hsite.introduced (parsed_resolved h) hform
  cases heq
  rcases hknown with hknown | hhead
  · refine hframe.congr ⟨frame.id, names ++ frame.names⟩ rfl fun name => ?_
    rw [List.mem_append]
    exact ⟨fun hn => hn.elim (fun hn => hknown name (hnames name hn)) id, Or.inr⟩
  · exact Or.inr (Or.inr hhead)

omit h in
/-- The parameters see the own name of the function and each other. -/
theorem seen_parameter {role : Role} {params : Node .parameters} {above : List Part}
    {declared : Bool} {frame : Frame} {around : List Frame} {table : ScopeTable}
    (hsite : program.Site (⟨role, params⟩ :: above) declared (frame :: around)) :
    program.Seen table (⟨role, params⟩ :: above)
      ⟨frame.id, declaredNames params.introduces ++ frame.names⟩ := by
  obtain ⟨scope, own, block, outer, hopens, rfl, heq⟩ := hsite.parameters
  cases heq
  refine Or.inr (Or.inl ⟨own, params, block, around, hopens, List.mem_cons_self, fun name => ?_⟩)
  rw [List.mem_append, mem_declaredNames, exists_mem_introduces_parameters, or_comm]
  simp

/-- What is seen at a node and in its parts. Where the node is a list of parameters, these have
not come into the innermost frame yet. -/
theorem seen_tail_and {p : Part} {above : List Part} {declared : Bool} {frames : List Frame}
    (hsite : program.resolved.Site (p :: above) declared frames) :
    (∀ frame ∈ frames.tail, program.resolved.Seen program.scopeTable (p :: above) frame) ∧
      (p.form ≠ .parameters →
        ∀ frame ∈ frames, program.resolved.Seen program.scopeTable (p :: above) frame) := by
  generalize hpath : p :: above = path at hsite
  induction hsite generalizing p above with
  | statement hs =>
    cases hpath
    refine ⟨nofun, fun _ frame hframe => ?_⟩
    rw [List.mem_singleton.mp hframe]
    exact Or.inl (showsFrame h List.mem_cons_self)
  | @part p q above declared frames inner hp hq ih =>
    cases hpath
    obtain ⟨htail, hall⟩ := ih rfl
    -- A frame on top of others that are seen already.
    have hcons : ∀ {frame : Frame} {around : List Frame},
        (∀ f ∈ around, program.resolved.Seen program.scopeTable (p :: above) f) →
        (q.form ≠ .parameters →
          program.resolved.Seen program.scopeTable (q :: p :: above) frame) →
        (∀ f ∈ (frame :: around).tail,
          program.resolved.Seen program.scopeTable (q :: p :: above) f) ∧
        (q.form ≠ .parameters → ∀ f ∈ frame :: around,
          program.resolved.Seen program.scopeTable (q :: p :: above) f) := by
      intro frame around haround hframe
      have hbelow := fun f hf => (haround f hf).cons q
      exact ⟨hbelow, fun hform => List.forall_mem_cons.mpr ⟨hframe hform, hbelow⟩⟩
    have hopened : ∀ {scope : ScopeId} {region : Region},
        .opens scope region frames ∈ p.node.layout declared frames →
          .opens scope region frames ∈ program.resolved.walk ∧ p.form ≠ .parameters := by
      intro scope region hopens
      refine ⟨hp.mem_walk (mem_walk_of_mem_layout hopens rfl), fun hform => ?_⟩
      exact scope?_ne_some_of_parameters hform (opens_mem_layout hopens).1
    cases enters_of_mem_layout hq with
    | same _ hform =>
      have hframes := fun f hf => (hall hform f hf).cons q
      exact ⟨fun f hf => hframes f (List.mem_of_mem_tail hf), fun _ => hframes⟩
    | scope _ hopens =>
      obtain ⟨hwalk, hform⟩ := hopened hopens
      exact hcons (hall hform) fun _ => Or.inl (showsFrame h hwalk)
    | parameters hopens => exact hcons (hall (hopened hopens).2) fun hform => absurd rfl hform
    | @head scope _ head hopens =>
      obtain ⟨hwalk, hform⟩ := hopened hopens
      exact hcons (hall hform) fun _ => Or.inr (Or.inr ⟨_, head, frames, hwalk, List.mem_cons_self⟩)
    | declarator _ hform hnames =>
      cases frames with
      | nil => exact ⟨nofun, fun _ => nofun⟩
      | cons frame around =>
        have hframes := List.forall_mem_cons.mp (hall hform)
        exact hcons hframes.2 fun _ => (seen_declarator h hp hform hnames hframes.1).cons q
    | parameter _ hform =>
      obtain ⟨role, x⟩ := p
      cases hform
      cases frames with
      | nil => exact ⟨nofun, fun _ => nofun⟩
      | cons frame around => exact hcons htail fun _ => (seen_parameter hp).cons q

end

end Program

end EcmaScript
