import EcmaScript.Proofs.Build.Rules
import EcmaScript.Proofs.Scope.Seen
import EcmaScript.Proofs.Scope.Visited

/-!
# Scopes of accepted texts

What a text that is parsed and then resolved by itself has for names and scopes. The resolved
tree is the parsed one with numbers put in; its scopes are numbered in the order in which they
are opened, and are those of the table; a scope of the table has the names that are declared for
it; and a name has the number of the innermost scope in force that has it.
-/

namespace EcmaScript

open Node

namespace Program

section

variable {program : Program} {role : NameRole} {id : Identifier} {path : List Part}
  {frames : List Frame}

/-- There is a way down to every node. -/
theorem exists_site {p q : Part} (hp : p ∈ program.parts) (hq : p.Reaches q) :
    ∃ above declared frames, program.Site (q :: above) declared frames := by
  obtain ⟨s, hs, rfl⟩ := List.mem_map.mp hp
  exact (Site.statement hs).exists_reaches hq

/-- Every name of a node stands somewhere. -/
theorem exists_stands_of_mem_ownNames {p q : Part} (hp : p ∈ program.parts) (hq : p.Reaches q)
    (h : (role, id) ∈ q.node.ownNames) :
    ∃ path frames, program.Stands path (.name role id frames) := by
  obtain ⟨above, declared, around, hsite⟩ := exists_site hp hq
  obtain ⟨frames, hname⟩ := exists_name_mem_layout h declared around
  exact ⟨q :: above, frames, q, above, declared, around, rfl, hsite, hname⟩

/-- Every identifier that is met stands somewhere. -/
theorem exists_stands_of_mem_identifiers (h : (role, id) ∈ program.identifiers) :
    ∃ path frames, program.Stands path (.name role id frames) := by
  obtain ⟨p, hp, q, hq, hown⟩ := exists_own_of_mem_identifiers h
  exact exists_stands_of_mem_ownNames hp hq hown

/-- A name stands in frames of scopes that nodes on the way to it open. -/
theorem Stands.mem_ids (h : program.Stands path (.name role id frames)) :
    ∀ frame ∈ frames, frame.id = ScopeTable.globalId ∨
      ∃ p ∈ path, p.node.scope? = some frame.id := by
  obtain ⟨p, above, declared, around, rfl, hsite, hname⟩ := h
  have haround : ∀ scope ∈ around.map Frame.id, scope = ScopeTable.globalId ∨
      ∃ q ∈ p :: above, q.node.scope? = some scope := by
    intro scope hscope
    rw [hsite.ids_eq] at hscope
    rcases mem_scopesAround hscope with hglobal | ⟨q, hq, hopens⟩
    · exact Or.inl hglobal
    · exact Or.inr ⟨q, List.mem_cons_of_mem _ hq, hopens⟩
  intro frame hframe
  have hid : frame.id ∈ frames.map Frame.id := List.mem_map_of_mem hframe
  rcases ids_of_name_mem_layout hname with rfl | ⟨-, scope, hscope, hids⟩
  · exact haround _ hid
  · rw [hids] at hid
    rcases List.mem_cons.mp hid with heq | hid
    · rw [heq]
      exact Or.inr ⟨p, List.mem_cons_self, hscope⟩
    · exact haround _ hid

/-- A reference stands in the frames of its node. -/
theorem Stands.of_reference (h : program.Stands path (.name .reference id frames)) :
    ∃ p above declared, path = p :: above ∧ p.form ≠ .parameters ∧
      program.Site (p :: above) declared frames := by
  obtain ⟨p, above, declared, around, rfl, hsite, hname⟩ := h
  rcases ids_of_name_mem_layout hname with rfl | ⟨hrole, -⟩
  · refine ⟨p, above, declared, rfl, ?_, hsite⟩
    have hown := name_mem_layout hname
    obtain ⟨role, x⟩ := p
    rintro rfl
    cases x
    exact nomatch hown
  · exact nomatch hrole

end

section

variable {program : Program} (h : ∀ s ∈ program.body, Parsed s)
include h

/-- The table has a scope for the script. -/
theorem scopeTable_size_pos : 1 ≤ program.scopeTable.scopes.size := by
  obtain ⟨-, scope, hscope, -⟩ := opened h (List.mem_cons_self)
  exact (ScopeTable.scope?_bounds hscope).2

/-- Every scope of the table is opened somewhere. -/
theorem exists_opens {i : Nat} (hi : i < program.scopeTable.scopes.size) :
    ∃ region outer, .opens (i + 1) region outer ∈ program.resolved.walk := by
  have hmem : i + 1 ∈ program.resolved.walk.filterMap Item.scope? := by
    rw [numbered h, List.mem_range'_1]
    omega
  obtain ⟨item, hitem, hscope⟩ := List.mem_filterMap.mp hmem
  cases item with
  | opens scope region outer =>
    cases hscope
    exact ⟨region, outer, hitem⟩
  | _ => exact nomatch hscope

/-- The scope of a region has the names that are declared there. -/
theorem exists_scope_of_opens {id : ScopeId} {region : Region}
    (hopens : program.resolved.Opens id region) :
    ∃ scope, program.scopeTable.scope? id = some scope ∧ scope.kind = region.kind ∧
      ∀ name, scope.Has name ↔ region.Declares name := by
  obtain ⟨outer, hwalk⟩ := opens_iff_mem_walk.mp hopens
  obtain ⟨-, scope, hscope, -, hkind, -, hnames⟩ := opened h hwalk
  exact ⟨scope, hscope, hkind, fun name => (hnames name).trans (region.mem_names_iff name)⟩

/-- The parent of a scope is the innermost scope around its node. -/
theorem exists_parent {path : List Part} {id : ScopeId} {region : Region} {outer : List Frame}
    (hstands : program.resolved.Stands path (.opens id region outer)) :
    ∃ scope parent, program.scopeTable.scope? id = some scope ∧
      (scopesAround path).head? = some parent ∧ scope.parent = some (parent - 1) ∧
        1 ≤ parent ∧ parent < id := by
  obtain ⟨hbefore, scope, hscope, -, -, hparent, -⟩ := opened h (hstands.mem_walk rfl)
  obtain ⟨p, above, declared, frames, rfl, hsite, hopens⟩ := hstands
  rw [(opens_mem_layout hopens).2] at hbefore hparent
  obtain ⟨frame, around, -, -, rfl, -⟩ := hsite.home (parsed_resolved h)
  obtain ⟨hpos, hlt⟩ := hbefore frame List.mem_cons_self
  exact ⟨scope, frame.id, hscope, by rw [← hsite.ids_eq]; rfl, hparent, hpos, hlt⟩

/-- A name that stands for a variable has the number of a scope around it, which has the name
unless it is the global one. -/
theorem encloses {path : List Part} {role : NameRole} {id : Identifier} {frames : List Frame}
    (hstands : program.resolved.Stands path (.name role id frames))
    (hrole : role = .reference ∨ role = .binding) :
    (1 ≤ id.scope ∧ id.scope ≤ program.scopeTable.scopes.size) ∧
      (id.scope = 1 ∨ ∃ p ∈ path, p.node.scope? = some id.scope) ∧
        (id.scope = 1 ∨
          ∃ scope, program.scopeTable.scope? id.scope = some scope ∧ scope.Has id.name) := by
  obtain ⟨hstamp, hsupports⟩ := named h (hstands.mem_walk rfl)
  have hscope : id.scope = Frame.innermost frames id.name := by
    rcases hrole with rfl | rfl
    · exact hstamp
    · exact hstamp
  rw [hscope]
  rcases Frame.innermost_mem frames id.name with ⟨frame, hframe, hname, heq⟩ | heq
  · obtain ⟨scope, hfound, hhas⟩ := hsupports frame hframe
    have hname := hhas id.name hname
    rw [heq]
    exact ⟨ScopeTable.scope?_bounds hfound, hstands.mem_ids frame hframe,
      Or.inr ⟨scope, hfound, hname⟩⟩
  · rw [heq]
    exact ⟨⟨le_rfl, scopeTable_size_pos h⟩, Or.inl rfl, Or.inl rfl⟩

/-- Names that stand for variables get a number, and no others. -/
theorem scope_eq_zero_iff {path : List Part} {role : NameRole} {id : Identifier}
    {frames : List Frame} (hstands : program.resolved.Stands path (.name role id frames)) :
    id.scope = 0 ↔ role = .label ∨ role = .property := by
  cases role with
  | reference =>
    have hpos := (encloses h hstands (Or.inl rfl)).1.1
    exact iff_of_false (Nat.ne_of_gt hpos) (by simp)
  | binding =>
    have hpos := (encloses h hstands (Or.inr rfl)).1.1
    exact iff_of_false (Nat.ne_of_gt hpos) (by simp)
  | label => exact iff_of_true (named h (hstands.mem_walk rfl)).1 (Or.inl rfl)
  | property => exact iff_of_true (named h (hstands.mem_walk rfl)).1 (Or.inr rfl)

/-- A scope of the table is one that is opened with its place as its number. -/
theorem exists_opened {i : Nat} {scope : Scope}
    (hscope : program.scopeTable.scopes[i]? = some scope) :
    ∃ region outer, .opens (i + 1) region outer ∈ program.resolved.walk ∧ scope.id = i + 1 := by
  obtain ⟨hi, -⟩ := Array.getElem?_eq_some_iff.mp hscope
  obtain ⟨region, outer, hwalk⟩ := exists_opens h hi
  obtain ⟨-, found, hfound, hid, -⟩ := opened h hwalk
  rw [ScopeTable.scope?, if_neg (Nat.succ_ne_zero i), Nat.add_sub_cancel, hscope] at hfound
  cases hfound
  exact ⟨region, outer, hwalk, hid⟩

/-- The nodes that open scopes have their numbers in the order of opening. -/
theorem openings_resolved :
    program.resolved.openings = List.range' 2 (program.scopeTable.scopes.size - 1) := by
  have hnumbered := numbered h
  obtain ⟨n, hn⟩ := Nat.exists_eq_add_of_le' (scopeTable_size_pos h)
  rw [filterMap_scope?_walk, hn, List.range'_succ] at hnumbered
  rw [hn, (List.cons.inj hnumbered).2]
  rfl

end

end Program

variable {text : String} {program : Program}

/-- A reference has the number of the innermost scope around it in which its name is seen, or
that of the global scope. All names of a scope are seen, wherever they are declared, except in
parameters, which see their function's own name and each other, and except in the head of a
loop, which sees each of the loop's variables from its declarator on only. -/
theorem parse_resolve_references (h : parse text = .ok program) :
    (∀ id, (.reference, id) ∈ program.resolved.identifiers →
      ∃ path frames, program.resolved.Stands path (.name .reference id frames)) ∧
    ∀ path id frames, program.resolved.Stands path (.name .reference id frames) →
      frames.map Frame.id = Program.scopesAround path ∧
        id.scope = Frame.innermost frames id.name ∧
          ∀ frame ∈ frames, program.resolved.Seen program.scopeTable path frame := by
  have hbody := parse_parsed h
  constructor
  · intro id hid
    exact Program.exists_stands_of_mem_identifiers hid
  · intro path id frames hstands
    have hstamp := (Program.named hbody (hstands.mem_walk rfl)).1
    obtain ⟨p, above, declared, rfl, hform, hsite⟩ := hstands.of_reference
    exact ⟨hsite.ids_eq, hstamp, (Program.seen_tail_and hbody hsite).2 hform⟩

/-- A script with a closure in the head of a loop, before the second variable of the loop. -/
def closureInHead : Accepted "let j; for (let i = () => j, j = 0;;) ;" fun program =>
    (program.scopeTable.scope? 2).any (·.get? "j" |>.isSome) &&
      program.resolved.identifiers.any fun (role, id) =>
        role == .reference && id.name == "j" && id.scope == 1 :=
  .ofRun (by decide +kernel)

/-- The closure in the head of the loop does not find the second variable of the loop, but the
one outside. -/
theorem parse_resolve_references_loop : ∃ program id,
    parse "let j; for (let i = () => j, j = 0;;) ;" = .ok program ∧
    (.reference, id) ∈ program.resolved.identifiers ∧ id.name = "j" ∧ id.scope = 1 ∧
    (∃ scope, program.scopeTable.scope? 2 = some scope ∧ scope.Has "j") ∧
    ∃ path frames, program.resolved.Stands path (.name .reference id frames) ∧
      frames.map Frame.id = Program.scopesAround path ∧
        id.scope = Frame.innermost frames id.name ∧
          ∀ frame ∈ frames, program.resolved.Seen program.scopeTable path frame := by
  obtain ⟨program, hparse, hok⟩ := closureInHead
  simp only [Bool.and_eq_true, Option.any_eq_true, List.any_eq_true, beq_iff_eq] at hok
  obtain ⟨⟨scope, hscope, hhas⟩, ⟨role, id⟩, hid, ⟨rfl, hname⟩, hone⟩ := hok
  obtain ⟨hall, hseen⟩ := parse_resolve_references hparse
  obtain ⟨path, frames, hstands⟩ := hall id hid
  exact ⟨program, id, hparse, hid, hname, hone, ⟨scope, hscope, hhas⟩, path, frames, hstands,
    hseen path id frames hstands⟩

/-- A name that stands for a variable has the number of a scope of the table. The scope is the
global one or one that a node around the name opens, and has the name unless it is the global
one. An identifier that is declared with `let` or `const`, as a class, as a parameter or with
`catch` has the number of the scope that was opened with it among its declarations. -/
theorem parse_resolve_encloses (h : parse text = .ok program) :
    (∀ role id, (role, id) ∈ program.resolved.identifiers →
      ∃ path frames, program.resolved.Stands path (.name role id frames)) ∧
    (∀ path role id frames, program.resolved.Stands path (.name role id frames) →
      role = .reference ∨ role = .binding →
        (1 ≤ id.scope ∧ id.scope ≤ program.scopeTable.scopes.size) ∧
        (id.scope = 1 ∨ ∃ p ∈ path, p.node.scope? = some id.scope) ∧
        (id.scope = 1 ∨
          ∃ scope, program.scopeTable.scope? id.scope = some scope ∧ scope.Has id.name)) ∧
    ∀ p ∈ program.resolved.parts, ∀ q, p.Reaches q → ∀ id kind, (id, kind) ∈ q.node.registers →
      ∃ region outer scope, .opens id.scope region outer ∈ program.resolved.walk ∧
        (id, kind) ∈ region.declarations ∧ program.scopeTable.scope? id.scope = some scope ∧
          scope.id = id.scope ∧ scope.kind = region.kind ∧ scope.Has id.name := by
  have hbody := parse_parsed h
  refine ⟨fun role id hid => Program.exists_stands_of_mem_identifiers hid,
    fun path role id frames hstands hrole => Program.encloses hbody hstands hrole, ?_⟩
  · intro p hp q hq id kind hd
    obtain ⟨above, declared, frames, hsite⟩ := Program.exists_site hp hq
    obtain ⟨path, frames, region, outer, hstands, hopens, hmem⟩ :=
      hsite.registered (Program.parsed_resolved hbody) hd
    have hstamp : id.scope = Frame.innermost frames id.name :=
      (Program.named hbody (hstands.mem_walk rfl)).1
    rw [← hstamp] at hopens
    obtain ⟨-, scope, hfound, hid, hkind, -, hnames⟩ := Program.opened hbody hopens
    have hname : id.name ∈ region.names := mem_declaredNames.mpr ⟨_, hmem, rfl⟩
    exact ⟨region, outer, scope, hopens, hmem, hfound, hid, hkind, (hnames _).mpr hname⟩

/-- A script with a switch on a name that a case of the switch declares too. -/
def switchOnName : Accepted
    "try \x7b\x7d catch (\x7be\x7d) \x7b switch (e) \x7b case 0: let e; \x7d \x7d" fun program =>
    program.resolved.identifiers.any fun (role, id) =>
      role == .reference && id.name == "e" && id.scope == 3 :=
  .ofRun (by decide +kernel)

/-- What a switch decides on stands outside of the scope of the switch. -/
theorem parse_resolve_encloses_switch : ∃ program id,
    parse "try \x7b\x7d catch (\x7be\x7d) \x7b switch (e) \x7b case 0: let e; \x7d \x7d" =
      .ok program ∧ (.reference, id) ∈ program.resolved.identifiers ∧ id.name = "e" ∧
    id.scope = 3 ∧ id.scope ≤ program.scopeTable.scopes.size ∧
    (∃ path frames, program.resolved.Stands path (.name .reference id frames) ∧
      ∃ p ∈ path, p.node.scope? = some id.scope) ∧
    ∃ scope, program.scopeTable.scope? id.scope = some scope ∧ scope.Has id.name := by
  obtain ⟨program, hparse, hok⟩ := switchOnName
  simp only [Bool.and_eq_true, List.any_eq_true, beq_iff_eq] at hok
  obtain ⟨⟨role, id⟩, hid, ⟨rfl, hname⟩, hthree⟩ := hok
  obtain ⟨hall, hencloses, -⟩ := parse_resolve_encloses hparse
  obtain ⟨path, frames, hstands⟩ := hall .reference id hid
  obtain ⟨hbounds, hopens, hhas⟩ := hencloses path .reference id frames hstands (Or.inl rfl)
  have hother : id.scope ≠ 1 := by rw [hthree]; decide
  exact ⟨program, id, hparse, hid, hname, hthree, hbounds.2,
    ⟨path, frames, hstands, hopens.resolve_left hother⟩, hhas.resolve_left hother⟩

/-- The scopes of the table are those that the script and its nodes open, and a scope has the
names that are declared in its region and no other. -/
theorem parse_resolve_declares (h : parse text = .ok program) :
    (∀ i scope, program.scopeTable.scopes[i]? = some scope →
      ∃ region, program.resolved.Opens (i + 1) region ∧ scope.kind = region.kind ∧
        ∀ name, scope.Has name ↔ region.Declares name) ∧
    ∀ id region, program.resolved.Opens id region →
      ∃ scope, program.scopeTable.scope? id = some scope ∧ scope.kind = region.kind ∧
        ∀ name, scope.Has name ↔ region.Declares name := by
  have hbody := parse_parsed h
  constructor
  · intro i scope hscope
    obtain ⟨region, outer, hwalk, -⟩ := Program.exists_opened hbody hscope
    have hopens := Program.opens_iff_mem_walk.mpr ⟨outer, hwalk⟩
    obtain ⟨found, hfound, hrest⟩ := Program.exists_scope_of_opens hbody hopens
    obtain rfl : found = scope := by
      rw [ScopeTable.scope?, if_neg (Nat.succ_ne_zero i), Nat.add_sub_cancel, hscope] at hfound
      exact (Option.some.inj hfound).symm
    exact ⟨region, hopens, hrest⟩
  · intro id region hopens
    exact Program.exists_scope_of_opens hbody hopens

/-- A script with a function that declares a parameter, a variable, and a name in a block. -/
def variableInBlock : Accepted "function f(a) \x7b if (a) \x7b var v; let w; \x7d \x7d"
    fun program =>
    program.scopeTable.scopes[1]?.any fun scope =>
      (scope.get? "a").isSome && (scope.get? "v").isSome && !(scope.get? "w").isSome :=
  .ofRun (by decide +kernel)

/-- A variable belongs to the function however deep it stands, unlike what is declared with
`let`. -/
theorem parse_resolve_declares_variable : ∃ program region,
    parse "function f(a) \x7b if (a) \x7b var v; let w; \x7d \x7d" = .ok program ∧
    program.resolved.Opens 2 region ∧ region.Declares "a" ∧ region.Declares "v" ∧
      ¬region.Declares "w" := by
  obtain ⟨program, hparse, hok⟩ := variableInBlock
  simp only [Option.any_eq_true, Bool.and_eq_true, Bool.not_eq_true'] at hok
  obtain ⟨scope, hscope, ⟨ha, hv⟩, hw⟩ := hok
  obtain ⟨region, hopens, -, hnames⟩ := (parse_resolve_declares hparse).1 1 scope hscope
  refine ⟨program, region, hparse, hopens, (hnames "a").mp ha, (hnames "v").mp hv, ?_⟩
  rw [← hnames "w", Scope.Has, hw]
  exact Bool.false_ne_true

/-- The first program with numbers put in is the second, and the scopes are those of the
table. -/
structure Program.Numbered (program resolved : Program) (table : ScopeTable) : Prop where
  /-- Nothing but numbers has changed. -/
  erased : resolved.erase = program
  /-- Names that stand for variables have a number; labels and properties have none. -/
  named : ∀ p ∈ resolved.parts, ∀ q, p.Reaches q → ∀ role id, (role, id) ∈ q.node.ownNames →
    (id.scope = 0 ↔ role = .label ∨ role = .property)
  /-- The nodes that open a scope have the numbers from two on, in the order of opening. -/
  ordered : resolved.openings = List.range' 2 (table.scopes.size - 1)
  /-- The number of a scope tells its place in the table. -/
  placed : ∀ i scope, table.scopes[i]? = some scope → scope.id = i + 1
  /-- The first scope is that of the script, and has no parent. -/
  root : ∃ scope, table.scopes[0]? = some scope ∧ scope.parent = none
  /-- Each further scope is opened by a node. -/
  opened : ∀ i, 0 < i → i < table.scopes.size →
    ∃ path region outer, resolved.Stands path (.opens (i + 1) region outer)
  /-- The parent of the scope of a node is the innermost scope in force around the node. -/
  inside : ∀ path id region outer, resolved.Stands path (.opens id region outer) →
    ∃ scope parent, table.scope? id = some scope ∧
      (Program.scopesAround path).head? = some parent ∧ scope.parent = some (parent - 1) ∧
        1 ≤ parent ∧ parent < id

/-- Resolving puts numbers into a program and changes nothing else. -/
theorem parse_resolve_numbers (h : parse text = .ok program) :
    program.Numbered program.resolved program.scopeTable := by
  have hbody := parse_parsed h
  constructor
  case erased => exact Program.erase_resolved hbody
  case named =>
    intro p hp q hq role id hid
    obtain ⟨path, frames, hstands⟩ := Program.exists_stands_of_mem_ownNames hp hq hid
    exact Program.scope_eq_zero_iff hbody hstands
  case ordered => exact Program.openings_resolved hbody
  case placed =>
    intro i scope hscope
    obtain ⟨region, outer, -, hid⟩ := Program.exists_opened hbody hscope
    exact hid
  case root =>
    obtain ⟨-, scope, hscope, -, -, hparent, -⟩ := Program.opened hbody List.mem_cons_self
    exact ⟨scope, hscope, hparent⟩
  case opened =>
    intro i hpos hi
    obtain ⟨region, outer, hwalk⟩ := Program.exists_opens hbody hi
    rcases Program.exists_stands_of_mem_walk hwalk with heq | ⟨path, hstands⟩
    · have hzero : i + 1 = 1 := Option.some.inj (congrArg Item.scope? heq)
      omega
    · exact ⟨path, region, outer, hstands⟩
  case inside => exact fun path id region outer => Program.exists_parent hbody

/-- A script with a label, a loop, a function with `new.target`, a class, a static block and a
switch. -/
def manyScopes : Accepted
    ("a: for (let x of [function () \x7b new.target \x7d]) \x7b" ++
      "class C \x7b static \x7b switch (x) \x7b\x7d \x7d \x7d \x7d") fun program =>
    program.scopeTable.scopes.size == 8 :=
  .ofRun (by decide +kernel)

/-- The script opens seven scopes, and they are numbered in this order. -/
theorem parse_resolve_numbers_loop : ∃ program,
    parse ("a: for (let x of [function () \x7b new.target \x7d]) \x7b" ++
      "class C \x7b static \x7b switch (x) \x7b\x7d \x7d \x7d \x7d") = .ok program ∧
    program.Numbered program.resolved program.scopeTable ∧
    program.resolved.openings = [2, 3, 4, 5, 6, 7, 8] := by
  obtain ⟨program, hparse, hok⟩ := manyScopes
  have hnumbered := parse_resolve_numbers hparse
  refine ⟨program, hparse, hnumbered, ?_⟩
  rw [hnumbered.ordered, eq_of_beq hok]
  rfl

end EcmaScript
