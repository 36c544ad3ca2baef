import EcmaScript.Proofs.Scope.Site
import EcmaScript.Proofs.Scope.Traced

/-!
# Every tree is resolved as its layout says

Wherever a parsed tree is resolved, the run is traced by a walk through the resolved tree. The
induction is over the parts of a node, and over their parts where a declaration resolves its
function or class by itself.

A statement is resolved where the names that it declares for its list are in the frame already;
the head of a loop and the parameters of a function put theirs there.
-/

namespace EcmaScript

open Resolution

/-- Whether a node of the form can declare names in the scope that it stands in. -/
@[simp] def Form.introduces : Form → Bool
  | .declaration | .forInit | .forHead | .parameters => true
  | _ => false

/-- Whether names of a node of the form can have been declared before the node is met. -/
@[simp] def Form.expects : Form → Bool
  | .statement | .switchCase => true
  | _ => false

namespace Node

/-- What a node declares, but has been declared before the node is met. -/
def expects {form : Form} : Node form → List Declaration
  | .variableStatement d => d.introduces
  | .classDeclaration (.classDefinition _ name ..) => name.toList.map (·, .classBinding)
  | .switchCase _ _ consequent => consequent.flatMap lexical
  | _ => []

@[simp] theorem introduces_eq_nil {form : Form} (h : form.introduces = false) (x : Node form) :
    x.introduces = [] := by
  cases x with
  | declaration | declarationInit | declarationHead | parameters => exact nomatch h
  | _ => rfl

@[simp] theorem expects_eq_nil {form : Form} (h : form.expects = false) (x : Node form) :
    x.expects = [] := by
  cases x with
  | variableStatement | classDeclaration | switchCase => exact nomatch h
  | _ => rfl

@[simp] theorem expects_statement (x : Statement) : x.expects = x.lexical := by
  cases x with
  | variableStatement d => cases d; rfl
  | classDeclaration definition =>
    cases definition with
    | classDefinition span name superClass bodySpan elements scope => cases name <;> rfl
  | _ => rfl

/-- Wherever the node is resolved, the run is traced by a walk through the resolved node. -/
def Traces {form : Form} (x : Node form) : Prop :=
  ∀ (frame : Frame) (outer : List Frame) (table : ScopeTable),
    table.Shows (frame :: outer) → (∀ name ∈ declaredNames x.expects, name ∈ frame.names) →
      Traced (frame :: outer) table ((x.resolve table).1.walk false (frame :: outer))
        (⟨frame.id, declaredNames x.introduces ++ frame.names⟩ :: outer) (x.resolve table).2

section

variable {frame : Frame} {outer : List Frame} {table : ScopeTable}

/-- A part that declares nothing, but for names that are in the frame. -/
def Keeps (frame : Frame) (p : Part) : Prop :=
  p.node.introduces = [] ∧ ∀ name ∈ declaredNames p.node.expects, name ∈ frame.names

/-- Most forms declare nothing in the scope around. -/
theorem keeps_of_form {p : Part} (hintroduces : p.form.introduces = false)
    (hexpects : p.form.expects = false) : Keeps frame p := by
  refine ⟨introduces_eq_nil hintroduces _, ?_⟩
  rw [expects_eq_nil hexpects]
  simp

/-- A node that declares nothing in the scope around leaves the frames as they are. -/
theorem Traces.keeps {p : Part} (h : p.node.Traces) (hp : Keeps frame p)
    (hs : table.Shows (frame :: outer)) :
    Traced (frame :: outer) table ((p.node.resolve table).1.walk false (frame :: outer))
      (frame :: outer) (p.node.resolve table).2 := by
  have htraced := h _ _ _ hs hp.2
  rw [hp.1] at htraced
  exact htraced

/-- Parts that declare nothing, one after the other. -/
theorem traced_parts {parts : List Part} (h : ∀ p ∈ parts, p.node.Traces)
    (hparts : ∀ p ∈ parts, Keeps frame p) (hs : table.Shows (frame :: outer)) :
    Traced (frame :: outer) table
      ((Part.resolveAll parts table).1.flatMap fun p => p.node.walk false (frame :: outer))
      (frame :: outer) (Part.resolveAll parts table).2 := by
  induction parts generalizing table with
  | nil => exact .nil hs
  | cons p parts ih =>
    rw [List.forall_mem_cons] at h hparts
    have hfirst := h.1.keeps hparts.1 hs
    rw [Part.resolveAll_cons, List.flatMap_cons]
    exact hfirst.trans (ih h.2 hparts.2 hfirst.shows)

/-- The number of a name is one of those that a node has. -/
theorem mem_stamps {form : Form} {x : Node form} {role : NameRole} {id : Identifier}
    (h : (role, id) ∈ x.ownNames) : id.scope ∈ x.stamps := by
  cases x with
  | member span base name isOptional => cases name <;> simp_all [ownNames, stamps]
  | metaProperty span holder name =>
    simp only [ownNames, List.mem_cons, Prod.mk.injEq, List.not_mem_nil, or_false] at h
    rcases h with ⟨-, rfl⟩ | ⟨-, rfl⟩ <;> simp [stamps]
  | reference | shorthand | binding | identifierKey | labeled | breakFrom | continueWith
  | function | classDefinition => simp_all [ownNames, stamps]
  | _ => cases h

/-- The names of a node that is resolved plainly get the numbers that the frames say. -/
theorem stamp_ownNames {form : Form} {x : Node form} (h : Parsed x)
    (hx : x.isPlainlyResolved = true) (hs : table.Shows (frame :: outer)) {role : NameRole}
    {id : Identifier} (hid : (role, id) ∈ (x.resolve table).1.ownNames) :
    id.scope = role.stamp (frame :: outer) id.name := by
  rw [ownNames_resolve hx, List.mem_map] at hid
  obtain ⟨⟨role', id'⟩, hmem, heq⟩ := hid
  obtain ⟨rfl, rfl⟩ := Prod.mk.inj heq
  cases role' with
  | reference | binding => exact hs.lookup_eq id'.name
  | label | property => exact h.stamps_eq _ (mem_stamps hmem)

/-- A node that is resolved part by part is no declaration of a function or a class. -/
theorem isDeclaration_eq_false {form : Form} {x : Node form} (hx : x.isPlainlyResolved = true) :
    x.isDeclaration = false := by
  cases x with
  | functionDeclaration | classDeclaration => exact nomatch hx
  | _ => rfl

/-- A node that is resolved plainly. -/
theorem traced_of_parts {form : Form} {x : Node form} (h : Parsed x)
    (hx : x.isPlainlyResolved = true) (hparts : ∀ p ∈ x.parts, p.node.Traces)
    (hkeeps : ∀ p ∈ x.parts, Keeps frame p) (hs : table.Shows (frame :: outer)) :
    Traced (frame :: outer) table ((x.resolve table).1.walk false (frame :: outer))
      (frame :: outer) (x.resolve table).2 := by
  have hparse := parts_resolve hx table
  have hdeclaration : (x.resolve table).1.isDeclaration = false :=
    isDeclaration_eq_false (isPlainlyResolved_resolve hx table)
  rw [walk_eq, layout_eq (isPlainlyResolved_resolve hx table), hdeclaration, walkItems_append,
    walkItems_namesIn, walkItems_partsIn]
  have hnames := Traced.names hs fun role id => stamp_ownNames h hx hs
  have hbelow := traced_parts hparts hkeeps hs
  rw [hparse] at hbelow
  exact hnames.trans hbelow

/-- A run is traced by the layout of what it gives. -/
theorem traced_of_run {form : Form} {x y : Node form} {frames inner : List Frame}
    {later : ScopeTable} (hrun : x.resolve table = (y, later))
    (h : Traced frames table (walkItems y.isDeclaration (y.layout false frames)) inner later) :
    Traced frames table ((x.resolve table).1.walk false frames) inner (x.resolve table).2 := by
  rw [hrun]
  show Traced frames table (y.walk false frames) inner later
  rw [walk_eq]
  exact h

/-- A scope with names of its own and parts that declare nothing in it. -/
theorem traced_scope {region : Region} {ds : List Declaration}
    (names : List (NameRole × Identifier)) {parts parts' : List Part} {later : ScopeTable}
    (hs : table.Shows (frame :: outer))
    (hds : ∀ name, name ∈ declaredNames ds ↔ name ∈ region.names)
    (hnames : ∀ role id, (role, id) ∈ names →
      id.scope = role.stamp (⟨table.nextId, region.names⟩ :: frame :: outer) id.name)
    (hparts : ∀ p ∈ parts, p.node.Traces)
    (hkeeps : ∀ p ∈ parts, Keeps ⟨table.nextId, region.names⟩ p)
    (hrun : Part.resolveAll parts ((table.push region.kind).declareAll ds) = (parts', later)) :
    Traced (frame :: outer) table
      (.opens table.nextId region (frame :: outer) ::
        (namesIn (⟨table.nextId, region.names⟩ :: frame :: outer) names ++
          parts'.flatMap fun p =>
            p.node.walk false (⟨table.nextId, region.names⟩ :: frame :: outer)))
      (frame :: outer) later.pop := by
  have hdeclared := Traced.declares (hs.push region.kind) ds
  have hinner := hdeclared.congr region.names (by simpa using hds)
  have hown := Traced.names hinner.shows hnames
  have hbelow := traced_parts hparts hkeeps hown.shows
  rw [hrun] at hbelow
  exact .scope region hs (hinner.trans (hown.trans hbelow))

/-- A scope with no names of its own. -/
theorem traced_scopeIn {region : Region} {ds : List Declaration} {parts parts' : List Part}
    {later : ScopeTable} (hs : table.Shows (frame :: outer))
    (hds : declaredNames ds = region.names) (hparts : ∀ p ∈ parts, p.node.Traces)
    (hkeeps : ∀ p ∈ parts, Keeps ⟨table.nextId, region.names⟩ p)
    (hrun : Part.resolveAll parts ((table.push region.kind).declareAll ds) = (parts', later)) :
    Traced (frame :: outer) table
      (walkItems false (scopeIn (frame :: outer) table.nextId region parts')) (frame :: outer)
      later.pop := by
  rw [scopeIn, walkItems_opens, walkItems_partsIn]
  exact traced_scope [] hs (fun name => by rw [hds]) (by simp) hparts hkeeps hrun

/-- The statements of a list are resolved where the list has put their names. -/
theorem keeps_statements {id : Nat} {names : List String} {body : List Statement}
    (h : ∀ name ∈ declaredNames (body.flatMap lexical), name ∈ names) :
    ∀ p ∈ body.map (⟨.complete, ·⟩ : Statement → Part), Keeps ⟨id, names⟩ p := by
  rw [List.forall_mem_map]
  intro s hs
  refine ⟨introduces_eq_nil rfl s, fun name hname => h name ?_⟩
  rw [expects_statement] at hname
  obtain ⟨d, hd, rfl⟩ := mem_declaredNames.mp hname
  exact mem_declaredNames.mpr ⟨d, List.mem_flatMap.mpr ⟨s, hs, hd⟩, rfl⟩

/-- A list of statements in a scope of its own, into which their names are put first. -/
theorem traced_statements (region : List Statement → Region) {ds : List Declaration}
    {body body' : List Statement} {later : ScopeTable} (hs : table.Shows (frame :: outer))
    (hds : declaredNames ds = (region body').names)
    (hlexical : ∀ name ∈ declaredNames (body.flatMap lexical), name ∈ (region body').names)
    (hbody : ∀ s ∈ body, s.Traces)
    (hrun : resolveStatements body ((table.push (region body').kind).declareAll ds) =
      (body', later)) :
    Traced (frame :: outer) table
      (walkItems false (scopeIn (frame :: outer) table.nextId (region body')
        (body'.map (⟨.complete, ·⟩)))) (frame :: outer) later.pop := by
  have hparts := Part.resolveAll_map .complete body
    ((table.push (region body').kind).declareAll ds)
  rw [← resolveStatements_eq, hrun] at hparts
  exact traced_scopeIn hs hds (List.forall_mem_map.mpr hbody) (keeps_statements hlexical) hparts

/-- Statements are the same after a run, but for their numbers. -/
theorem erase_resolveStatements {body : List Statement} (h : ∀ s ∈ body, Parsed s)
    (table : ScopeTable) : (resolveStatements body table).1.map erase = body := by
  rw [resolveStatements_eq]
  exact erase_mapM' (fun s hs => (h s hs).erase_resolve) table

/-- A run over a block is traced when those over its statements are. -/
theorem traces_block {span : Span} {body : List Statement} {scope : ScopeId}
    (h : Parsed (.block span body scope)) (hbody : ∀ s ∈ body, s.Traces) :
    (Node.block span body scope).Traces := by
  intro frame outer table hs _
  have hparts := h.of_mem_parts
  simp only [parts, List.forall_mem_map] at hparts
  let run := resolveStatements body ((table.push .block).declareAll (body.flatMap lexical))
  have hnames : (Region.block run.1).names = declaredNames (body.flatMap lexical) :=
    declaredNames_lexical (erase_resolveStatements hparts _)
  have htraced := traced_statements .block hs hnames.symm
    (fun name hname => hnames ▸ hname) hbody rfl
  exact traced_of_run (y := .block span run.1 table.nextId) rfl htraced

/-- A run over a static block is traced when those over its statements are. -/
theorem traces_staticBlock {span : Span} {body : List Statement} {scope : ScopeId}
    (h : Parsed (.staticBlock span body scope)) (hbody : ∀ s ∈ body, s.Traces) :
    (Node.staticBlock span body scope).Traces := by
  intro frame outer table hs _
  have hparts := h.of_mem_parts
  simp only [parts, List.forall_mem_map] at hparts
  let run := resolveStatements body
    ((table.push .function).declareAll (hoistedAll body ++ body.flatMap lexical))
  have herase : run.1.map erase = body := erase_resolveStatements hparts _
  have hnames : (Region.staticBlock run.1).names =
      declaredNames (hoistedAll body ++ body.flatMap lexical) := by
    simp only [Region.names, Region.declarations, declaredNames_append,
      declaredNames_lexical herase, declaredNames_hoistedAll herase]
  have hlexical : ∀ name ∈ declaredNames (body.flatMap lexical),
      name ∈ (Region.staticBlock run.1).names := by
    intro name hname
    rw [hnames, declaredNames_append]
    exact List.mem_append_right _ hname
  have htraced := traced_statements .staticBlock hs hnames.symm
    hlexical hbody rfl
  have hrun : (Node.staticBlock span body scope).resolve table =
      (.staticBlock span run.1 table.nextId, run.2.pop) := by
    simp only [run, ScopeTable.declareAll, List.foldl_append]
    rfl
  exact traced_of_run hrun htraced

/-- A run over a catch clause is traced when those over its parts are. -/
theorem traces_catchClause {span : Span} {param : Option Pattern} {body : Node .block}
    {scope : ScopeId} (h : Parsed (.catchClause span param body scope))
    (hparts : ∀ p ∈ (Node.catchClause span param body scope).parts, p.node.Traces) :
    (Node.catchClause span param body scope).Traces := by
  intro frame outer table hs _
  let ids := (param.map boundNames).getD []
  let target := resolvePattern? param ((table.push .catchClause).declareAll
    (ids.map (·, .catchParameter)))
  let block := body.resolve target.2
  have hbound : (target.1.toList.flatMap boundNames).map (·.name) = ids.map (·.name) := by
    cases param with
    | none => rfl
    | some p =>
      have herase := (h.of_mem_parts ⟨.complete, p⟩ (by simp [parts])).erase_resolve
      show (boundNames (p.resolve _).1 ++ []).map Identifier.name = (boundNames p).map _
      rw [List.append_nil, names_boundNames (herase _)]
  have hnames : declaredNames (ids.map (·, .catchParameter)) =
      (Region.handler target.1).names := by
    rw [Region.names, Region.declarations, declaredNames_map, declaredNames_map, hbound]
  have hrun : Part.resolveAll (param.toList.map (⟨.complete, ·⟩) ++ [⟨.complete, body⟩])
      ((table.push .catchClause).declareAll (ids.map (·, .catchParameter))) =
        (target.1.toList.map (⟨.complete, ·⟩) ++ [⟨.complete, block.1⟩], block.2) := by
    rw [Part.resolveAll_append, Part.resolveAll_toList, ← resolvePattern?_eq]
    rfl
  have hkeeps : ∀ p ∈ param.toList.map (⟨.complete, ·⟩ : Pattern → Part) ++ [⟨.complete, body⟩],
      Keeps ⟨table.nextId, (Region.handler target.1).names⟩ p := by
    simp only [List.forall_mem_append, List.forall_mem_map, List.forall_mem_singleton]
    exact ⟨fun p _ => keeps_of_form rfl rfl, keeps_of_form rfl rfl⟩
  exact traced_of_run (y := .catchClause span target.1 block.1 table.nextId) rfl
    (traced_scopeIn hs hnames hparts hkeeps hrun)

/-- A run over a switch is traced when those over its parts are. -/
theorem traces_switch {span : Span} {discriminant : Expression}
    {cases : List (Node .switchCase)} {scope : ScopeId}
    (h : Parsed (.switch span discriminant cases scope)) (hdiscriminant : discriminant.Traces)
    (hcases : ∀ c ∈ cases, c.Traces) : (Node.switch span discriminant cases scope).Traces := by
  intro frame outer table hs _
  have hfirst := Traces.keeps (p := ⟨.complete, discriminant⟩) hdiscriminant
    (keeps_of_form rfl rfl) hs
  let first := discriminant.resolve table
  let run := resolveCases cases ((first.2.push .block).declareAll (lexicalInCases cases))
  have herase : run.1.map erase = cases := by
    simp only [run, resolveCases_eq]
    refine erase_mapM' (fun c hc => ?_) _
    exact (h.of_mem_parts ⟨.complete, c⟩ (by simpa [parts] using hc)).erase_resolve
  have hnames : declaredNames (lexicalInCases cases) = (Region.switch run.1).names :=
    (declaredNames_lexicalInCases herase).symm
  have hrun : Part.resolveAll (cases.map (⟨.complete, ·⟩))
      ((first.2.push .block).declareAll (lexicalInCases cases)) =
        (run.1.map (⟨.complete, ·⟩), run.2) := by
    rw [Part.resolveAll_map, ← resolveCases_eq]
  have hkeeps : ∀ p ∈ cases.map (⟨.complete, ·⟩ : Node .switchCase → Part),
      Keeps ⟨first.2.nextId, (Region.switch run.1).names⟩ p := by
    rw [List.forall_mem_map, ← hnames]
    intro c hc
    refine ⟨introduces_eq_nil rfl c, fun name hname => ?_⟩
    obtain ⟨d, hd, rfl⟩ := mem_declaredNames.mp hname
    cases c with
    | switchCase span test consequent =>
      exact mem_declaredNames.mpr ⟨d, List.mem_flatMap.mpr ⟨_, hc, hd⟩, rfl⟩
  have hscope := traced_scopeIn hfirst.shows hnames (List.forall_mem_map.mpr hcases) hkeeps hrun
  exact traced_of_run (y := .switch span first.1 run.1 first.2.nextId) rfl (hfirst.trans hscope)

/-- The own name of a function or a class gets the number that the frames say. -/
theorem stamp_identifier? {frames : List Frame} (hs : table.Shows frames)
    (name : Option Identifier) : ∀ role id,
      (role, id) ∈ (identifier? name table).1.toList.map (NameRole.binding, ·) →
        id.scope = role.stamp frames id.name := by
  intro role id hid
  cases name with
  | none => exact nomatch hid
  | some name =>
    obtain ⟨rfl, rfl⟩ := Prod.mk.inj (List.mem_singleton.mp hid)
    exact hs.lookup_eq name.name

/-- A name keeps its spelling when its scope is looked up. -/
theorem names_identifier? (name : Option Identifier) (table : ScopeTable) :
    (identifier? name table).1.toList.map (·.name) = name.toList.map (·.name) := by
  cases name <;> rfl

/-- The scope of a class, into which its name is put. -/
theorem traced_class {span bodySpan : Span} {name name' : Option Identifier}
    {superClass : Option Expression} {elements : List (Node .classElement)} {scope : ScopeId}
    (names : List (NameRole × Identifier))
    (hparts : ∀ p ∈ (Node.classDefinition span name superClass bodySpan elements scope).parts,
      p.node.Traces) (hs : table.Shows (frame :: outer))
    (hname : name'.toList.map (·.name) = name.toList.map (·.name))
    (hnames : ∀ role id, (role, id) ∈ names → id.scope =
      role.stamp (⟨table.nextId, (Region.classBody name').names⟩ :: frame :: outer) id.name) :
    let base := resolveExpression? superClass
      ((table.push .classBody).declareAll (name.toList.map (·, .classBinding)))
    let run := resolveClassElements elements base.2
    Traced (frame :: outer) table
      (.opens table.nextId (.classBody name') (frame :: outer) ::
        (namesIn (⟨table.nextId, (Region.classBody name').names⟩ :: frame :: outer) names ++
          (Node.classDefinition span name' base.1 bodySpan run.1 table.nextId).parts.flatMap
            fun p => p.node.walk false
              (⟨table.nextId, (Region.classBody name').names⟩ :: frame :: outer)))
      (frame :: outer) run.2.pop := by
  intro base run
  have hds : declaredNames (name.toList.map (·, .classBinding)) =
    (Region.classBody name').names := by
    rw [Region.names, Region.declarations, declaredNames_map, declaredNames_map, hname]
  have hrun : Part.resolveAll (superClass.toList.map (⟨.heritage, ·⟩) ++
      elements.map (⟨.complete, ·⟩))
      ((table.push .classBody).declareAll (name.toList.map (·, .classBinding))) =
        (base.1.toList.map (⟨.heritage, ·⟩) ++ run.1.map (⟨.complete, ·⟩), run.2) := by
    rw [Part.resolveAll_append, Part.resolveAll_toList, Part.resolveAll_map,
      ← resolveExpression?_eq, ← resolveClassElements_eq]
  refine traced_scope names hs (fun name => by rw [hds]) hnames hparts ?_ hrun
  simp only [parts, List.forall_mem_append, List.forall_mem_map]
  exact ⟨fun e _ => keeps_of_form rfl rfl, fun e _ => keeps_of_form rfl rfl⟩

/-- How a class is resolved: with its name declared in a scope of its own. -/
theorem resolve_classDefinition (span bodySpan : Span) (name : Option Identifier)
    (superClass : Option Expression) (elements : List (Node .classElement)) (scope : ScopeId)
    (table : ScopeTable) :
    let inner := (table.push .classBody).declareAll (name.toList.map (·, .classBinding))
    let base := resolveExpression? superClass inner
    let run := resolveClassElements elements base.2
    (Node.classDefinition span name superClass bodySpan elements scope).resolve table =
      (.classDefinition span (identifier? name inner).1 base.1 bodySpan run.1 table.nextId,
        run.2.pop) := by
  cases name <;> rfl

/-- A run over a class is traced when those over its parts are. -/
theorem traces_classDefinition {span bodySpan : Span} {name : Option Identifier}
    {superClass : Option Expression} {elements : List (Node .classElement)} {scope : ScopeId}
    (hparts : ∀ p ∈ (Node.classDefinition span name superClass bodySpan elements scope).parts,
      p.node.Traces) :
    (Node.classDefinition span name superClass bodySpan elements scope).Traces := by
  intro frame outer table hs _
  let inner := (table.push .classBody).declareAll (name.toList.map (·, .classBinding))
  let own := (identifier? name inner).1
  have hname : own.toList.map (·.name) = name.toList.map (·.name) := names_identifier? name inner
  have hinner : inner.Shows (⟨table.nextId, (Region.classBody own).names⟩ :: frame :: outer) := by
    refine ((hs.push .classBody).declareAll _).1.congr fun name => ?_
    simp only [Region.names, Region.declarations, declaredNames_map, hname, List.append_nil]
  have htraced := traced_class _ hparts hs hname (stamp_identifier? hinner name)
  refine traced_of_run (resolve_classDefinition ..) ?_
  show Traced _ _ (walkItems false (classIn false _ _ own _)) _ _
  rw [walkItems_classExpression]
  exact htraced

/-- How a declared class is resolved: its name in the scope around. -/
theorem resolve_classDeclaration (span bodySpan : Span) (name : Option Identifier)
    (superClass : Option Expression) (elements : List (Node .classElement)) (scope : ScopeId)
    (table : ScopeTable) :
    let around := table.declareAll (name.toList.map (·, .classBinding))
    let inner := (around.push .classBody).declareAll (name.toList.map (·, .classBinding))
    let base := resolveExpression? superClass inner
    let run := resolveClassElements elements base.2
    (Node.classDeclaration (.classDefinition span name superClass bodySpan elements scope)).resolve
        table =
      (.classDeclaration (.classDefinition span (identifier? name around).1 base.1 bodySpan run.1
        around.nextId), run.2.pop) := by
  cases name <;> rfl

/-- A run over a declared class is traced when those over its parts are. -/
theorem traces_classDeclaration {definition : Node .classDefinition}
    (hparts : ∀ p ∈ definition.parts, p.node.Traces) :
    (Node.classDeclaration definition).Traces := by
  intro frame outer table hs hexpects
  cases definition with
  | classDefinition span name superClass bodySpan elements scope =>
    let ds : List Declaration := name.toList.map (·, .classBinding)
    let around := table.declareAll ds
    let own := (identifier? name around).1
    -- The list that the class stands in has put the name there before.
    have haround : Traced (frame :: outer) table [] (frame :: outer) around := by
      refine (Traced.declares hs ds).congr _ fun name => ?_
      rw [List.mem_append]
      exact ⟨fun h => h.elim (hexpects name) id, Or.inr⟩
    have hnames := Traced.names haround.shows (stamp_identifier? haround.shows name)
    have hscope := traced_class [] hparts haround.shows
      (names_identifier? name around) (by simp)
    refine traced_of_run (resolve_classDeclaration ..) ?_
    show Traced _ _ (walkItems true [.part _ ⟨.declared, .classDefinition span own _ _ _ _⟩]) _ _
    rw [walkItems_part, walkItems_nil, List.append_nil, walk_eq]
    show Traced _ _ (walkItems false (classIn true _ _ own _)) _ _
    rw [walkItems_classDeclaration]
    exact haround.trans (hnames.trans hscope)

/-- The scope of a function: its own name, its parameters, and the variables and functions of
its body are put there one after the other. -/
theorem traced_function (own : Option Identifier) (ds hoisted : List Declaration)
    (names : List (NameRole × Identifier)) {params params' : Node .parameters} {form : Form}
    {body body' : Node form} (block : Option (Node .block)) {middle later : ScopeTable}
    (hs : table.Shows (frame :: outer))
    (hown : declaredNames ds = own.toList.map (·.name))
    (hnames : ∀ role id, (role, id) ∈ names → id.scope =
      role.stamp (⟨table.nextId, own.toList.map (·.name)⟩ :: frame :: outer) id.name)
    (hparams : params.Traces) (hparsed : Parsed params)
    (hrun : params.resolve ((table.push .function).declareAll ds) = (params', middle))
    (hbody : body.Traces) (hkeeps : form.introduces = false ∧ form.expects = false)
    (hbodyRun : body.resolve (middle.declareAll hoisted) = (body', later))
    (hblock : declaredNames (block.toList.flatMap Node.hoisted) = declaredNames hoisted) :
    Traced (frame :: outer) table
      (.opens table.nextId (.function own params' block) (frame :: outer) ::
        (namesIn (⟨table.nextId, own.toList.map (·.name)⟩ :: frame :: outer) names ++
          (params'.walk false (⟨table.nextId, own.toList.map (·.name)⟩ :: frame :: outer) ++
            body'.walk false
              (⟨table.nextId, (Region.function own params' block).names⟩ :: frame :: outer))))
      (frame :: outer) later.pop := by
  have hparamNames : declaredNames params'.introduces = declaredNames params.introduces := by
    have herase := hparsed.erase_resolve ((table.push .function).declareAll ds)
    rw [hrun] at herase
    exact declaredNames_introduces herase
  have hstart := (Traced.declares (hs.push .function) ds).congr
    (own.toList.map (·.name)) (by simp [hown])
  have hnamed := Traced.names hstart.shows hnames
  have hmiddle := hparams _ _ _ hnamed.shows (by rw [expects_eq_nil rfl]; simp)
  rw [hrun] at hmiddle
  have hhoisted := (Traced.declares hmiddle.shows hoisted).congr
    (Region.function own params' block).names (fun name => by
      simp only [Region.names, Region.declarations, declaredNames_append, declaredNames_map,
        hparamNames, hblock, List.mem_append]
      tauto)
  have hend := Traces.keeps (p := ⟨.complete, body⟩) hbody (keeps_of_form hkeeps.1 hkeeps.2)
    hhoisted.shows
  rw [hbodyRun] at hend
  exact .scope _ hs (hstart.trans (hnamed.trans (hmiddle.trans (hhoisted.trans hend))))

/-- The scope of a function with a block. -/
theorem traced_blockFunction (own : Option Identifier) (ds : List Declaration)
    (names : List (NameRole × Identifier)) {params : Node .parameters} {body : Node .block}
    (hs : table.Shows (frame :: outer))
    (hown : declaredNames ds = own.toList.map (·.name))
    (hnames : ∀ role id, (role, id) ∈ names → id.scope =
      role.stamp (⟨table.nextId, own.toList.map (·.name)⟩ :: frame :: outer) id.name)
    (hparams : params.Traces) (hparsed : Parsed params) (hbody : body.Traces)
    (hblock : Parsed body) :
    let start := params.resolve ((table.push .function).declareAll ds)
    let run := body.resolve (start.2.declareAll body.hoisted)
    Traced (frame :: outer) table
      (.opens table.nextId (.function own start.1 (some run.1)) (frame :: outer) ::
        (namesIn (⟨table.nextId, own.toList.map (·.name)⟩ :: frame :: outer) names ++
          (start.1.walk false (⟨table.nextId, own.toList.map (·.name)⟩ :: frame :: outer) ++
            run.1.walk false
              (⟨table.nextId, (Region.function own start.1 (some run.1)).names⟩ ::
                frame :: outer))))
      (frame :: outer) run.2.pop := by
  intro start run
  refine traced_function own ds _ names _ hs hown hnames hparams hparsed rfl hbody ⟨rfl, rfl⟩ rfl ?_
  rw [Option.toList_some, List.flatMap_singleton]
  exact declaredNames_hoisted (hblock.erase_resolve _)

/-- A run over an arrow function is traced when those over its parts are. -/
theorem traces_arrow {span : Span} {params : Node .parameters} {body : Node .block}
    {isAsync : Bool} {scope : ScopeId} (h : Parsed (.arrow span params body isAsync scope))
    (hparams : params.Traces) (hbody : body.Traces) :
    (Node.arrow span params body isAsync scope).Traces := by
  intro frame outer table hs _
  have hparts := h.of_mem_parts
  simp only [parts, List.forall_mem_cons] at hparts
  let start := params.resolve (table.push .function)
  let run := body.resolve (start.2.declareAll body.hoisted)
  have htraced := traced_blockFunction none [] [] hs rfl (by simp)
    hparams hparts.1 hbody hparts.2.1
  refine traced_of_run (y := .arrow span start.1 run.1 isAsync table.nextId) rfl ?_
  show Traced _ _ (walkItems false (functionIn false _ _ none _ _ _)) _ _
  rw [walkItems_functionExpression]
  exact htraced

/-- A run over an arrow with an expression for its body is traced when those over its parts are. -/
theorem traces_conciseArrow {span : Span} {params : Node .parameters} {body : Expression}
    {isAsync : Bool} {scope : ScopeId}
    (h : Parsed (.conciseArrow span params body isAsync scope)) (hparams : params.Traces)
    (hbody : body.Traces) : (Node.conciseArrow span params body isAsync scope).Traces := by
  intro frame outer table hs _
  have hparts := h.of_mem_parts
  simp only [parts, List.forall_mem_cons] at hparts
  let start := params.resolve (table.push .function)
  let run := body.resolve start.2
  have htraced := traced_function none [] [] [] none hs rfl (by simp) hparams hparts.1 rfl hbody
    ⟨rfl, rfl⟩ rfl rfl
  refine traced_of_run (y := .conciseArrow span start.1 run.1 isAsync table.nextId) rfl ?_
  show Traced _ _ (walkItems false (functionIn false _ _ none _ _ _)) _ _
  rw [walkItems_functionExpression]
  exact htraced

/-- How a function is resolved: with its name, then its parameters, then its variables declared in
its scope. -/
theorem resolve_function (span : Span) (name : Option Identifier) (params : Node .parameters)
    (body : Node .block) (isGenerator isAsync : Bool) (scope : ScopeId) (table : ScopeTable) :
    let inner := (table.push .function).declareAll (name.toList.map (·, .function))
    let start := params.resolve inner
    let run := body.resolve (start.2.declareAll body.hoisted)
    (Node.function span name params body isGenerator isAsync scope).resolve table =
      (.function span (identifier? name inner).1 start.1 run.1 isGenerator isAsync table.nextId,
        run.2.pop) := by
  cases name <;> rfl

/-- A run over a function is traced when those over its parts are. -/
theorem traces_function {span : Span} {name : Option Identifier} {params : Node .parameters}
    {body : Node .block} {isGenerator isAsync : Bool} {scope : ScopeId}
    (h : Parsed (.function span name params body isGenerator isAsync scope))
    (hparams : params.Traces) (hbody : body.Traces) :
    (Node.function span name params body isGenerator isAsync scope).Traces := by
  intro frame outer table hs _
  have hparts := h.of_mem_parts
  simp only [parts, List.forall_mem_cons] at hparts
  let inner := (table.push .function).declareAll (name.toList.map (·, .function))
  let own := (identifier? name inner).1
  have hname : own.toList.map (·.name) = name.toList.map (·.name) := names_identifier? name inner
  have hinner : inner.Shows (⟨table.nextId, own.toList.map (·.name)⟩ :: frame :: outer) := by
    refine ((hs.push .function).declareAll _).1.congr fun name => ?_
    simp only [declaredNames_map, hname, List.append_nil]
  have htraced := traced_blockFunction own (name.toList.map (·, .function)) _ hs
    (by rw [declaredNames_map, hname]) (stamp_identifier? hinner name) hparams hparts.1 hbody
    hparts.2.1
  refine traced_of_run (resolve_function ..) ?_
  show Traced _ _ (walkItems false (functionIn false _ _ own _ _ _)) _ _
  rw [walkItems_functionExpression]
  exact htraced

/-- How a declared function is resolved: its name has been declared in the scope around. -/
theorem resolve_functionDeclaration (span : Span) (name : Option Identifier)
    (params : Node .parameters) (body : Node .block) (isGenerator isAsync : Bool)
    (scope : ScopeId) (table : ScopeTable) :
    let start := params.resolve (table.push .function)
    let run := body.resolve (start.2.declareAll body.hoisted)
    (Node.functionDeclaration (.function span name params body isGenerator isAsync scope)).resolve
        table =
      (.functionDeclaration (.function span (identifier? name table).1 start.1 run.1 isGenerator
        isAsync table.nextId), run.2.pop) := by
  cases name <;> rfl

/-- A run over a declared function is traced when those over its parts are. -/
theorem traces_functionDeclaration {definition : Node .function} (h : Parsed definition)
    (hparts : ∀ p ∈ definition.parts, p.node.Traces) :
    (Node.functionDeclaration definition).Traces := by
  intro frame outer table hs _
  cases definition with
  | function span name params body isGenerator isAsync scope =>
    have hparsed := h.of_mem_parts
    simp only [parts, List.forall_mem_cons] at hparsed hparts
    let own := (identifier? name table).1
    have hnames := Traced.names hs (stamp_identifier? hs name)
    have hscope := traced_blockFunction none [] [] hs rfl (by simp)
      hparts.1 hparsed.1 hparts.2.1 hparsed.2.1
    refine traced_of_run (resolve_functionDeclaration ..) ?_
    show Traced _ _ (walkItems true [.part _ ⟨.complete, .function span own _ _ _ _ _⟩]) _ _
    rw [walkItems_part, walkItems_nil, List.append_nil, walk_eq]
    show Traced _ _ (walkItems false (functionIn true _ _ own _ _ _)) _ _
    rw [walkItems_functionDeclaration]
    exact hnames.trans hscope

/-- A run over parameters is traced when those over its parts are. -/
theorem traces_parameters {span : Span} {params : List (Node .element)}
    {remainder : Option (Node .rest)} (h : Parsed (.parameters span params remainder))
    (hparts : ∀ p ∈ (Node.parameters span params remainder).parts, p.node.Traces) :
    (Node.parameters span params remainder).Traces := by
  intro frame outer table hs _
  let ds := (Node.parameters span params remainder).introduces
  let first := resolveElements params (table.declareAll ds)
  let last := resolveRest? remainder first.2
  have hnames : declaredNames (Node.parameters span first.1 last.1).introduces =
      declaredNames ds := declaredNames_introduces (h.erase_resolve table)
  have hrun : Part.resolveAll (Node.parameters span params remainder).parts
      (table.declareAll ds) = ((Node.parameters span first.1 last.1).parts, last.2) := by
    show Part.resolveAll (params.map (⟨.complete, ·⟩) ++
      remainder.toList.map (⟨.complete, ·⟩)) _ = _
    rw [Part.resolveAll_append, Part.resolveAll_map, Part.resolveAll_toList,
      ← resolveElements_eq, ← resolveRest?_eq]
    rfl
  have hdeclared := Traced.declares hs ds
  have hbelow := traced_parts hparts (by
    simp only [parts, List.forall_mem_append, List.forall_mem_map]
    exact ⟨fun e _ => keeps_of_form rfl rfl, fun e _ => keeps_of_form rfl rfl⟩) hdeclared.shows
  refine traced_of_run (y := .parameters span first.1 last.1) rfl ?_
  show Traced _ _ (walkItems false (partsIn (Frame.grow _ (frame :: outer)) _)) _ _
  rw [walkItems_partsIn, hnames]
  rw [hrun] at hbelow
  exact hdeclared.trans hbelow

/-- Declarators that are declared one by one. -/
theorem traced_declarators {kind : VariableKind} (hkind : kind.isLexical = true)
    {ds : List (Node .declarator)} (hds : ∀ d ∈ ds, d.Traces) (hparsed : ∀ d ∈ ds, Parsed d)
    (hs : table.Shows (frame :: outer)) :
    Traced (frame :: outer) table
      (walkItems false (declaratorsIn (frame :: outer) (resolveDeclarators kind ds table).1))
      (⟨frame.id, (declaratorNames ds).map (·.name) ++ frame.names⟩ :: outer)
      (resolveDeclarators kind ds table).2 := by
  induction ds generalizing frame table with
  | nil => exact .nil hs
  | cons d ds ih =>
    rw [List.forall_mem_cons] at hds hparsed
    let start := table.declareAll ((declaratorNames [d]).map (·, kind.bindingKind))
    let first := d.resolve start
    have hnames : (declaratorNames [first.1]).map (·.name) = (declaratorNames [d]).map (·.name) :=
      names_declaratorNames (congrArg (fun d => [d]) (hparsed.1.erase_resolve start))
    have hdeclared := Traced.declares hs ((declaratorNames [d]).map (·, kind.bindingKind))
    rw [declaredNames_map] at hdeclared
    have hfirst := Traces.keeps (p := ⟨.complete, d⟩) hds.1 (keeps_of_form rfl rfl)
      hdeclared.shows
    have hrest := ih hds.2 hparsed.2 hfirst.shows
    have hrun : resolveDeclarators kind (d :: ds) table =
        (first.1 :: (resolveDeclarators kind ds first.2).1,
          (resolveDeclarators kind ds first.2).2) := by
      rw [resolveDeclarators, hkind]
      rfl
    rw [hrun]
    show Traced _ _ (walkItems false (.part (Frame.grow _ _) _ :: declaratorsIn _ _)) _ _
    rw [walkItems_part, hnames]
    refine (hdeclared.trans (hfirst.trans hrest)).congr _ fun name => ?_
    rw [declaratorNames_cons d ds]
    simp only [List.map_append, List.mem_append]
    tauto

/-- A run over a declaration is traced when those over its declarators are. -/
theorem traces_declaration {span : Span} {kind : VariableKind} {ds : List (Node .declarator)}
    (h : Parsed (.declaration span kind ds)) (hds : ∀ d ∈ ds, d.Traces) :
    (Node.declaration span kind ds).Traces := by
  intro frame outer table hs _
  have hparsed := h.of_mem_parts
  simp only [parts, List.forall_mem_map] at hparsed
  refine traced_of_run (y := .declaration span kind (resolveDeclarators kind ds table).1) rfl ?_
  cases hkind : kind.isLexical with
  | true =>
    have hlayout : ∀ ds, (Node.declaration span kind ds).layout false (frame :: outer) =
        declaratorsIn (frame :: outer) ds := fun _ => if_pos hkind
    have hnames : declaredNames (Node.declaration span kind ds).introduces =
        (declaratorNames ds).map (·.name) := by
      rw [introduces, if_pos hkind, declaredNames_map]
    rw [hlayout, hnames]
    exact traced_declarators hkind hds hparsed hs
  | false =>
    have hlayout : ∀ ds, (Node.declaration span kind ds).layout false (frame :: outer) =
        partsIn (frame :: outer) (ds.map (⟨.complete, ·⟩)) := fun _ => if_neg (by simp [hkind])
    have hnames : (Node.declaration span kind ds).introduces = [] := if_neg (by simp [hkind])
    have hrun := Part.resolveAll_map .complete ds table
    rw [← resolveDeclarators_eq hkind] at hrun
    have hkeeps : ∀ p ∈ ds.map (⟨.complete, ·⟩ : Node .declarator → Part), Keeps frame p := by
      rw [List.forall_mem_map]
      exact fun d _ => keeps_of_form rfl rfl
    have htraced := traced_parts (List.forall_mem_map.mpr hds) hkeeps hs
    rw [hrun] at htraced
    rw [hlayout, hnames, walkItems_partsIn]
    exact htraced

/-- A loop whose head declares variables: they are put into a scope for it. -/
theorem traced_lexicalLoop {form : Form} {head head' : Node form} {others others' : List Part}
    {middle later : ScopeTable} (hlexical : head.declaresLexically = true) (hhead : head.Traces)
    (hparsed : Parsed head) (hform : form.expects = false)
    (hothers : ∀ p ∈ others, p.node.Traces) (hkeeps : ∀ frame, ∀ p ∈ others, Keeps frame p)
    (hs : table.Shows (frame :: outer)) (hrun : head.resolve (table.push .block) = (head', middle))
    (hrest : Part.resolveAll others middle = (others', later)) :
    Traced (frame :: outer) table
      (walkItems false (loopIn (frame :: outer) table.nextId head' others')) (frame :: outer)
      later.pop := by
  have herase := hparsed.erase_resolve (table.push .block)
  rw [hrun] at herase
  have hlexical' : head'.declaresLexically = true := by
    rw [← hlexical, ← herase, declaresLexically_erase]
  have hnames : (Region.loop head').names = declaredNames head.introduces := by
    rw [Region.names, Region.declarations, if_pos hlexical', declaredNames_introduces herase]
  have hfirst := hhead _ _ _ (hs.push .block) (by rw [expects_eq_nil hform]; simp)
  rw [hrun, List.append_nil, ← hnames] at hfirst
  have hbelow := traced_parts hothers (hkeeps _) hfirst.shows
  rw [hrest] at hbelow
  rw [loopIn, if_pos hlexical', walkItems_opens, walkItems_part, walkItems_partsIn]
  exact .scope (.loop head') hs (hfirst.trans hbelow)

/-- A head that declares no variables of its own puts nothing anywhere. -/
theorem introduces_of_not_declaresLexically {form : Form} {x : Node form}
    (hform : form = .forInit ∨ form = .forHead) (h : x.declaresLexically = false) :
    x.introduces = [] := by
  cases x with
  | declarationInit d | declarationHead d =>
    cases d
    exact if_neg (by simpa [declaresLexically] using h)
  | noInit | expressionInit | patternHead => rfl
  | _ => simp at hform

/-- A loop without a scope of its own. -/
theorem traced_plainLoop {form : Form} {head head' : Node form} {others others' : List Part}
    {middle later : ScopeTable} (hlexical : head.declaresLexically = false)
    (hhead : head.Traces) (hparsed : Parsed head) (hform : form = .forInit ∨ form = .forHead)
    (hothers : ∀ p ∈ others, p.node.Traces) (hkeeps : ∀ frame, ∀ p ∈ others, Keeps frame p)
    (hs : table.Shows (frame :: outer)) (hrun : head.resolve table = (head', middle))
    (hrest : Part.resolveAll others middle = (others', later)) (scope : ScopeId) :
    Traced (frame :: outer) table (walkItems false (loopIn (frame :: outer) scope head' others'))
      (frame :: outer) later := by
  have herase := hparsed.erase_resolve table
  rw [hrun] at herase
  have hlexical' : ¬head'.declaresLexically = true := by
    rw [← declaresLexically_erase, herase, hlexical]
    exact Bool.false_ne_true
  have hexpects : form.expects = false := by rcases hform with rfl | rfl <;> rfl
  have hfirst := Traces.keeps (p := ⟨.complete, head⟩) hhead
    ⟨introduces_of_not_declaresLexically hform hlexical, by simp [expects_eq_nil hexpects]⟩ hs
  rw [hrun] at hfirst
  have hbelow := traced_parts hothers (hkeeps _) hfirst.shows
  rw [hrest] at hbelow
  rw [loopIn, if_neg hlexical', walkItems_partsIn, List.flatMap_cons]
  exact hfirst.trans hbelow

/-- A statement that stands alone declares nothing for a list. -/
theorem keeps_substatement {form : Form} {x : Node form} (h : Parsed x) {s : Statement}
    (hs : s ∈ x.substatements) : Keeps frame ⟨.complete, s⟩ := by
  refine ⟨introduces_eq_nil rfl s, ?_⟩
  rw [expects_statement, h.lexical_eq s hs]
  simp

/-- A loop over values, whichever of the two it is. -/
theorem traces_loopOver {left : Node .forHead} {right : Expression} {body : Statement}
    {scope : ScopeId} (loop : Node .forHead → Expression → Statement → ScopeId → Statement)
    (hrun : ∀ table, (loop left right body scope).resolve table =
      inLoopScope left.declaresLexically scope (fun scope => do
        return loop (← left.resolve) (← right.resolve) (← body.resolve) scope) table)
    (hlayout : ∀ left right body scope frames,
      walkItems (loop left right body scope).isDeclaration
          ((loop left right body scope).layout false frames) =
        walkItems false (loopIn frames scope left [⟨.complete, right⟩, ⟨.complete, body⟩]))
    (hintroduces : (loop left right body scope).introduces = [])
    (hbody : ∀ frame, Keeps frame ⟨.complete, body⟩) (hleft : Parsed left)
    (hhead : left.Traces)
    (hothers : ∀ p ∈ [(⟨.complete, right⟩ : Part), ⟨.complete, body⟩], p.node.Traces) :
    (loop left right body scope).Traces := by
  intro frame outer table hs _
  rw [hintroduces]
  have hkeeps : ∀ frame, ∀ p ∈ [(⟨.complete, right⟩ : Part), ⟨.complete, body⟩],
      Keeps frame p := by
    simp only [List.forall_mem_cons]
    exact fun frame => ⟨keeps_of_form rfl rfl, hbody frame, by simp⟩
  cases hlexical : left.declaresLexically with
  | true =>
    let first := left.resolve (table.push .block)
    let second := right.resolve first.2
    let third := body.resolve second.2
    have hloop : (loop left right body scope).resolve table =
        (loop first.1 second.1 third.1 table.nextId, third.2.pop) := by
      rw [hrun, hlexical]
      rfl
    refine traced_of_run hloop ?_
    rw [hlayout]
    exact traced_lexicalLoop hlexical hhead hleft rfl hothers hkeeps hs rfl rfl
  | false =>
    let first := left.resolve table
    let second := right.resolve first.2
    let third := body.resolve second.2
    have hloop : (loop left right body scope).resolve table =
        (loop first.1 second.1 third.1 scope, third.2) := by
      rw [hrun, hlexical]
      rfl
    refine traced_of_run hloop ?_
    rw [hlayout]
    exact traced_plainLoop hlexical hhead hleft (Or.inr rfl) hothers hkeeps hs rfl rfl scope

/-- A run over a loop over keys is traced when those over its parts are. -/
theorem traces_forIn {span : Span} {left : Node .forHead} {right : Expression}
    {body : Statement} {scope : ScopeId} (h : Parsed (.forIn span left right body scope))
    (hparts : ∀ p ∈ (Node.forIn span left right body scope).parts, p.node.Traces) :
    (Node.forIn span left right body scope).Traces := by
  rw [parts, List.forall_mem_cons] at hparts
  exact traces_loopOver (.forIn span) (fun _ => rfl) (fun _ _ _ _ _ => rfl) rfl
    (fun _ => keeps_substatement h (by simp [substatements]))
    (h.of_mem_parts ⟨.complete, left⟩ (by simp [parts])) hparts.1 hparts.2

/-- A run over a loop over values is traced when those over its parts are. -/
theorem traces_forOf {span : Span} {isAwait : Bool} {left : Node .forHead} {right : Expression}
    {body : Statement} {scope : ScopeId} (h : Parsed (.forOf span isAwait left right body scope))
    (hparts : ∀ p ∈ (Node.forOf span isAwait left right body scope).parts, p.node.Traces) :
    (Node.forOf span isAwait left right body scope).Traces := by
  rw [parts, List.forall_mem_cons] at hparts
  exact traces_loopOver (.forOf span isAwait) (fun _ => rfl) (fun _ _ _ _ _ => rfl) rfl
    (fun _ => keeps_substatement h (by simp [substatements]))
    (h.of_mem_parts ⟨.complete, left⟩ (by simp [parts])) hparts.1 hparts.2

/-- A run over a loop on a condition is traced when those over its parts are. -/
theorem traces_forLoop {span : Span} {init : Node .forInit} {test step : Option Expression}
    {body : Statement} {scope : ScopeId} (h : Parsed (.forLoop span init test step body scope))
    (hparts : ∀ p ∈ (Node.forLoop span init test step body scope).parts, p.node.Traces) :
    (Node.forLoop span init test step body scope).Traces := by
  intro frame outer table hs _
  have hinit : Parsed init := h.of_mem_parts ⟨.complete, init⟩ (by simp [parts])
  have hkeeps : ∀ frame, ∀ p ∈ test.toList.map (⟨.complete, ·⟩ : Expression → Part) ++
      step.toList.map (⟨.complete, ·⟩) ++ [⟨.complete, body⟩], Keeps frame p := by
    simp only [List.forall_mem_append, List.forall_mem_map, List.forall_mem_singleton]
    exact fun _ => ⟨⟨fun e _ => keeps_of_form rfl rfl, fun e _ => keeps_of_form rfl rfl⟩,
      keeps_substatement h (by simp [substatements])⟩
  have hrest : ∀ table, Part.resolveAll (test.toList.map (⟨.complete, ·⟩ : Expression → Part) ++
      step.toList.map (⟨.complete, ·⟩) ++ [⟨.complete, body⟩]) table =
        let second := resolveExpression? test table
        let third := resolveExpression? step second.2
        let fourth := body.resolve third.2
        (second.1.toList.map (⟨.complete, ·⟩) ++ third.1.toList.map (⟨.complete, ·⟩) ++
          [⟨.complete, fourth.1⟩], fourth.2) := by
    intro table
    rw [Part.resolveAll_append, Part.resolveAll_append, Part.resolveAll_toList,
      Part.resolveAll_toList, ← resolveExpression?_eq, ← resolveExpression?_eq]
    rfl
  rw [show (Node.forLoop span init test step body scope).parts = ⟨.complete, init⟩ ::
    (test.toList.map (⟨.complete, ·⟩ : Expression → Part) ++ step.toList.map (⟨.complete, ·⟩) ++
      [⟨.complete, body⟩]) from rfl, List.forall_mem_cons] at hparts
  cases hlexical : init.declaresLexically with
  | true =>
    let first := init.resolve (table.push .block)
    let second := resolveExpression? test first.2
    let third := resolveExpression? step second.2
    let fourth := body.resolve third.2
    have hrun : (Node.forLoop span init test step body scope).resolve table =
        (.forLoop span first.1 second.1 third.1 fourth.1 table.nextId, fourth.2.pop) := by
      show inLoopScope init.declaresLexically scope _ table = _
      rw [hlexical]
      rfl
    exact traced_of_run hrun
      (traced_lexicalLoop hlexical hparts.1 hinit rfl hparts.2 hkeeps hs rfl (hrest _))
  | false =>
    let first := init.resolve table
    let second := resolveExpression? test first.2
    let third := resolveExpression? step second.2
    let fourth := body.resolve third.2
    have hrun : (Node.forLoop span init test step body scope).resolve table =
        (.forLoop span first.1 second.1 third.1 fourth.1 scope, fourth.2) := by
      show inLoopScope init.declaresLexically scope _ table = _
      rw [hlexical]
      rfl
    exact traced_of_run hrun
      (traced_plainLoop hlexical hparts.1 hinit (Or.inl rfl) hparts.2 hkeeps hs rfl (hrest _)
        scope)

/-- What a loop starts with is traced as the declaration in it. -/
theorem traces_declarationInit {d : Node .declaration} (hd : d.Traces) :
    (Node.declarationInit d).Traces := by
  intro frame outer table hs hexpects
  refine traced_of_run (y := .declarationInit (d.resolve table).1) rfl ?_
  show Traced _ _ (walkItems false [.part (frame :: outer) ⟨.complete, _⟩]) _ _
  rw [walkItems_part, walkItems_nil, List.append_nil]
  exact hd frame outer table hs (by rw [expects_eq_nil rfl]; simp)

/-- What a loop assigns to is traced as the declaration in it. -/
theorem traces_declarationHead {d : Node .declaration} (hd : d.Traces) :
    (Node.declarationHead d).Traces := by
  intro frame outer table hs hexpects
  refine traced_of_run (y := .declarationHead (d.resolve table).1) rfl ?_
  show Traced _ _ (walkItems false [.part (frame :: outer) ⟨.complete, _⟩]) _ _
  rw [walkItems_part, walkItems_nil, List.append_nil]
  exact hd frame outer table hs (by rw [expects_eq_nil rfl]; simp)

/-- A declaration in a list declares what the list has declared before. -/
theorem traces_variableStatement {d : Node .declaration} (hd : d.Traces) :
    (Node.variableStatement d).Traces := by
  intro frame outer table hs hexpects
  refine traced_of_run (y := .variableStatement (d.resolve table).1) rfl ?_
  show Traced _ _ (walkItems false [.part (frame :: outer) ⟨.complete, _⟩]) _ _
  rw [walkItems_part, walkItems_nil, List.append_nil]
  refine (hd frame outer table hs (by rw [expects_eq_nil rfl]; simp)).congr _ fun name => ?_
  rw [List.mem_append]
  exact ⟨fun h => h.elim (hexpects name) id, Or.inr⟩

/-- A run over a case is traced when those over its parts are. -/
theorem traces_switchCase {span : Span} {test : Option Expression} {consequent : List Statement}
    (h : Parsed (.switchCase span test consequent))
    (hparts : ∀ p ∈ (Node.switchCase span test consequent).parts, p.node.Traces) :
    (Node.switchCase span test consequent).Traces := by
  intro frame outer table hs hexpects
  have hkeeps : ∀ p ∈ (Node.switchCase span test consequent).parts, Keeps frame p := by
    simp only [parts, List.forall_mem_append]
    refine ⟨?_, keeps_statements hexpects⟩
    rw [List.forall_mem_map]
    exact fun e _ => keeps_of_form rfl rfl
  exact traced_of_parts h rfl hparts hkeeps hs

/-- Whether parts of a node that is resolved plainly declare names in the scope around. -/
def declaresByParts {form : Form} : Node form → Bool
  | .variableStatement _ | .declarationInit _ | .declarationHead _ | .switchCase .. => true
  | _ => false

/-- Otherwise the parts of such a node declare nothing there. -/
theorem keeps_parts {form : Form} {x : Node form} (h : Parsed x)
    (hx : x.isPlainlyResolved = true) (hd : x.declaresByParts = false) :
    ∀ p ∈ x.parts, Keeps frame p := by
  cases x with
  | arrow | conciseArrow | parameters | function | block | classDefinition | staticBlock
  | declaration | catchClause | forLoop | forIn | forOf | switch | functionDeclaration
  | classDeclaration => exact nomatch hx
  | variableStatement | declarationInit | declarationHead | switchCase => exact nomatch hd
  | ifThen | whileLoop | withObject =>
    simp only [parts, List.forall_mem_cons]
    exact ⟨keeps_of_form rfl rfl, keeps_substatement h (by simp [substatements]), by simp⟩
  | doWhile =>
    simp only [parts, List.forall_mem_cons]
    exact ⟨keeps_substatement h (by simp [substatements]), keeps_of_form rfl rfl, by simp⟩
  | labeled =>
    simp only [parts, List.forall_mem_cons]
    exact ⟨keeps_substatement h (by simp [substatements]), by simp⟩
  | ifElse =>
    simp only [parts, List.forall_mem_cons]
    exact ⟨keeps_of_form rfl rfl, keeps_substatement h (by simp [substatements]),
      keeps_substatement h (by simp [substatements]), by simp⟩
  | _ =>
    -- Every other part has a form that declares nothing around it.
    intro p hp
    have hform : p.form.introduces = false ∧ p.form.expects = false := by
      revert p
      simp only [parts, List.forall_mem_cons, List.forall_mem_append, List.forall_mem_map,
        List.not_mem_nil, Form.introduces, Form.expects, false_implies, implies_true, and_self]
    exact keeps_of_form hform.1 hform.2

end

end Node

open Node in
/-- Every parsed tree is resolved as its layout says. -/
theorem Parsed.traces {form : Form} {x : Node form} (h : Parsed x) : x.Traces := by
  induction x using induction_two with
  | node x below =>
    have hparsed := h.of_mem_parts
    have hparts : ∀ p ∈ x.parts, p.node.Traces := fun p hp => (below p hp).1 (hparsed p hp)
    cases x with
    | arrow span params body isAsync scope =>
      exact traces_arrow h (hparts ⟨.complete, params⟩ (by simp [parts]))
        (hparts ⟨.complete, body⟩ (by simp [parts]))
    | conciseArrow span params body isAsync scope =>
      exact traces_conciseArrow h (hparts ⟨.complete, params⟩ (by simp [parts]))
        (hparts ⟨.complete, body⟩ (by simp [parts]))
    | function span name params body isGenerator isAsync scope =>
      exact traces_function h (hparts ⟨.complete, params⟩ (by simp [parts]))
        (hparts ⟨.complete, body⟩ (by simp [parts]))
    | parameters => exact traces_parameters h hparts
    | block => exact traces_block h (by simpa [parts] using hparts)
    | staticBlock => exact traces_staticBlock h (by simpa [parts] using hparts)
    | classDefinition => exact traces_classDefinition hparts
    | declaration => exact traces_declaration h (by simpa [parts] using hparts)
    | catchClause => exact traces_catchClause h hparts
    | forLoop => exact traces_forLoop h hparts
    | forIn => exact traces_forIn h hparts
    | forOf => exact traces_forOf h hparts
    | switch span discriminant cases scope =>
      exact traces_switch h (hparts ⟨.complete, discriminant⟩ (by simp [parts]))
        fun c hc => hparts ⟨.complete, c⟩ (by simpa [parts] using hc)
    | functionDeclaration definition =>
      have hdefinition := hparsed ⟨.complete, definition⟩ (by simp [parts])
      exact traces_functionDeclaration hdefinition fun q hq =>
        (below ⟨.complete, definition⟩ (by simp [parts])).2 q hq (hdefinition.of_mem_parts q hq)
    | classDeclaration definition =>
      have hdefinition := hparsed ⟨.declared, definition⟩ (by simp [parts])
      exact traces_classDeclaration fun q hq =>
        (below ⟨.declared, definition⟩ (by simp [parts])).2 q hq (hdefinition.of_mem_parts q hq)
    | declarationInit d => exact traces_declarationInit (hparts ⟨.complete, d⟩ (by simp [parts]))
    | declarationHead d => exact traces_declarationHead (hparts ⟨.complete, d⟩ (by simp [parts]))
    | variableStatement d =>
      exact traces_variableStatement (hparts ⟨.complete, d⟩ (by simp [parts]))
    | switchCase => exact traces_switchCase h hparts
    | _ =>
      intro frame outer table hs _
      exact traced_of_parts h rfl hparts (keeps_parts h rfl rfl) hs

end EcmaScript
