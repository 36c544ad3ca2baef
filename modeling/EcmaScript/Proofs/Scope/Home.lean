import EcmaScript.Proofs.Scope.Declared
import EcmaScript.Proofs.Scope.Resolved

/-!
# Where names are at home

A name that a node declares in the scope around it is one of the names for which that scope was
opened. This goes down the tree from the statements of a script: a node may count on the list
of statements that it stands in, or on the loop or the function whose head it is.

As a consequence the identifiers that are declared by `let` and `const`, as classes, as
parameters and by `catch` are numbered with the scope that declares them, and not with one
further out.
-/

namespace EcmaScript

open Node

/-- What a node declares by itself, but for variables and functions: with `let` or `const`, as a
class, as parameters or with `catch`. -/
def Node.registers {form : Form} : Node form → List Declaration
  | .declaration _ kind ds =>
    if kind.isLexical then (declaratorNames ds).map (·, kind.bindingKind) else []
  | .classDeclaration (.classDefinition _ name ..) => name.toList.map (·, .classBinding)
  | .parameters _ params remainder =>
    (parameterNames params ++ restNames remainder).map (·, .parameter)
  | .catchClause _ param _ _ => (param.toList.flatMap boundNames).map (·, .catchParameter)
  | _ => []

/-- A name of declarators is bound by the target of one of them. -/
theorem Node.exists_of_mem_declaratorNames {ds : List (Node .declarator)} {id : Identifier}
    (h : id ∈ declaratorNames ds) :
    ∃ span target init, .declarator span target init ∈ ds ∧ id ∈ target.boundNames := by
  induction ds with
  | nil => exact nomatch h
  | cons d ds ih =>
    cases d with
    | declarator span target init =>
      rcases List.mem_append.mp h with h | h
      · exact ⟨span, target, init, List.mem_cons_self, h⟩
      · obtain ⟨place, other, value, hmem, hid⟩ := ih h
        exact ⟨place, other, value, List.mem_cons_of_mem _ hmem, hid⟩

namespace Program

/-- What the node declares in the scope around it has been declared there: the innermost frame
is that of a scope with these names. -/
def Home (program : Program) (frames : List Frame) {form : Form} (x : Node form) : Prop :=
  ∃ frame around region outer, frames = frame :: around ∧
    .opens frame.id region outer ∈ program.walk ∧
      (∀ d ∈ x.expects, d ∈ region.declarations ∧ d.1.name ∈ frame.names) ∧
        ∀ d ∈ x.introduces, d ∈ region.declarations

section

variable {program : Program} {p q : Part} {path above : List Part} {declared : Bool}
  {frames inner : List Frame}

/-- A part that declares no more than the node that it stands in, with the same frames. -/
theorem Home.mono {form form' : Form} {x : Node form} {y : Node form'} (h : program.Home frames x)
    (hexpects : ∀ d ∈ y.expects, d ∈ x.expects)
    (hintroduces : ∀ d ∈ y.introduces, d ∈ x.introduces ∨ d ∈ x.expects) :
    program.Home frames y := by
  obtain ⟨frame, around, region, outer, rfl, hopens, hx, hi⟩ := h
  refine ⟨frame, around, region, outer, rfl, hopens, fun d hd => hx d (hexpects d hd), ?_⟩
  intro d hd
  rcases hintroduces d hd with hd | hd
  · exact hi d hd
  · exact (hx d hd).1

/-- A part that declares only what the node opens a scope for. -/
theorem Home.of_opens {scope : ScopeId} {region : Region} {names : List String} {form : Form}
    {x : Node form} (hsite : program.Site (p :: above) declared frames)
    (hopens : .opens scope region frames ∈ p.node.layout declared frames)
    (hexpects : ∀ d ∈ x.expects, d ∈ region.declarations ∧ d.1.name ∈ names)
    (hintroduces : ∀ d ∈ x.introduces, d ∈ region.declarations) :
    program.Home (⟨scope, names⟩ :: frames) x :=
  ⟨⟨scope, names⟩, frames, region, frames, rfl,
    hsite.mem_walk (mem_walk_of_mem_layout hopens rfl), hexpects, hintroduces⟩

/-- A part that declares nothing. -/
theorem Home.of_nil {form : Form} {x : Node form} (h : program.Home frames x)
    (hsite : program.Site (p :: above) declared frames)
    (hq : .part inner q ∈ p.node.layout declared frames) (hexpects : q.node.expects = [])
    (hintroduces : q.node.introduces = []) : program.Home inner q.node := by
  obtain ⟨frame, around, region, outer, rfl, hopens, -, -⟩ := h
  have hids := ids_of_mem_layout hq
  cases inner with
  | nil => simp at hids
  | cons f rest =>
    have hopened : ∃ region outer, .opens f.id region outer ∈ program.walk := by
      cases hforce : p.node.inForce q with
      | none =>
        rw [hforce] at hids
        rw [(List.cons.inj hids).1]
        exact ⟨region, outer, hopens⟩
      | some scope =>
        rw [hforce] at hids
        rw [(List.cons.inj hids).1]
        obtain ⟨region, hregion⟩ := exists_opens_mem_layout (scope?_of_inForce hforce) declared
          (frame :: around)
        exact ⟨region, _, hsite.mem_walk (mem_walk_of_mem_layout hregion rfl)⟩
    obtain ⟨region, outer, hopens⟩ := hopened
    exact ⟨f, rest, region, outer, rfl, hopens, by simp [hexpects], by simp [hintroduces]⟩

/-- The statements of a list are at home in its scope. -/
theorem Home.of_statements {scope : ScopeId} {region : Region} {body : List Statement}
    {s : Statement} (hsite : program.Site (p :: above) declared frames)
    (hopens : .opens scope region frames ∈ p.node.layout declared frames)
    (hlexical : ∀ d ∈ body.flatMap lexical, d ∈ region.declarations) (hs : s ∈ body) :
    program.Home (⟨scope, region.names⟩ :: frames) s := by
  apply Home.of_opens hsite hopens
  · intro d hd
    rw [expects_statement] at hd
    have hmem := hlexical d (List.mem_flatMap.mpr ⟨s, hs, hd⟩)
    exact ⟨hmem, mem_declaredNames.mpr ⟨d, hmem, rfl⟩⟩
  · rw [introduces_eq_nil rfl]
    simp

/-- The head of a loop is at home in the scope of the loop, if it has one. -/
theorem Home.of_loop {form : Form} {head : Node form} {scope : ScopeId} {others : List Part}
    (hform : form = .forInit ∨ form = .forHead) (ih : program.Home frames p.node)
    (hsite : program.Site (p :: above) declared frames)
    (hlayout : p.node.layout declared frames = loopIn frames scope head others)
    (hq : .part inner ⟨.complete, head⟩ ∈ p.node.layout declared frames) :
    program.Home inner head := by
  have hexpects : head.expects = [] := by
    apply expects_eq_nil
    rcases hform with rfl | rfl <;> rfl
  cases hlexical : head.declaresLexically with
  | false => exact ih.of_nil hsite hq hexpects (introduces_of_not_declaresLexically hform hlexical)
  | true =>
    obtain ⟨names, rfl⟩ : ∃ names, inner = ⟨scope, names⟩ :: frames := by
      rw [hlayout, part_mem_loopIn hlexical] at hq
      rcases hq with ⟨-, rfl⟩ | ⟨-, rfl⟩
      · exact ⟨_, rfl⟩
      · exact ⟨_, rfl⟩
    have hopens : .opens scope (.loop head) frames ∈ p.node.layout declared frames := by
      rw [hlayout]
      exact opens_mem_loopIn hlexical
    apply Home.of_opens hsite hopens
    · simp [hexpects]
    · intro d hd
      rw [Region.declarations, if_pos hlexical]
      exact hd

/-- The parameters of a function are at home in its scope. -/
theorem Home.of_function {scope : ScopeId} {isDeclared : Bool} {name : Option Identifier}
    {params : Node .parameters} {body : Part} {block : Option (Node .block)}
    (hsite : program.Site (p :: above) declared frames)
    (hlayout : p.node.layout declared frames =
      functionIn isDeclared frames scope name params body block)
    (hq : .part inner ⟨.complete, params⟩ ∈ p.node.layout declared frames) :
    program.Home inner params := by
  obtain ⟨names, rfl⟩ : ∃ names, inner = ⟨scope, names⟩ :: frames := by
    rw [hlayout, part_mem_functionIn] at hq
    rcases hq with ⟨-, rfl⟩ | ⟨-, rfl⟩
    · exact ⟨_, rfl⟩
    · exact ⟨_, rfl⟩
  have hopens : .opens scope (.function (if isDeclared then none else name) params block) frames ∈
      p.node.layout declared frames := by
    rw [hlayout]
    exact opens_mem_functionIn
  apply Home.of_opens hsite hopens
  · rw [expects_eq_nil rfl]
    simp
  · intro d hd
    exact List.mem_append_left _ (List.mem_append_right _ hd)

/-- What a node declares is at home if that is so for the node above it. -/
theorem Home.part (ih : program.Home frames p.node) (hparsed : Parsed p.node.erase)
    (hsite : program.Site (p :: above) declared frames)
    (hq : .part inner q ∈ p.node.layout declared frames) : program.Home inner q.node := by
  by_cases hform : q.form.introduces = false ∧ q.form.expects = false
  · exact ih.of_nil hsite hq (expects_eq_nil hform.2 _) (introduces_eq_nil hform.1 _)
  have hpart := mem_parts_of_mem_layout hq
  have hplain : ∀ {parts : List Part}, q ∈ parts →
      ¬∀ q ∈ parts, q.form.introduces = false ∧ q.form.expects = false :=
    fun hmem hall => hform (hall q hmem)
  have halone : ∀ {s : Statement}, q = ⟨.complete, s⟩ → s ∈ p.node.substatements →
      program.Home inner q.node := by
    rintro s rfl hs
    apply ih.of_nil hsite hq
    · rw [expects_statement, hparsed.lexical_eq_of_erase hs]
    · exact introduces_eq_nil rfl s
  obtain ⟨role, x⟩ := p
  cases x with
  | block span body scope =>
    simp only [layout, scopeIn, List.mem_cons, reduceCtorEq, part_mem_partsIn, false_or,
      List.mem_map] at hq
    obtain ⟨⟨s, hs, rfl⟩, rfl⟩ := hq
    exact .of_statements hsite List.mem_cons_self (fun d hd => hd) hs
  | staticBlock span body scope =>
    simp only [layout, scopeIn, List.mem_cons, reduceCtorEq, part_mem_partsIn, false_or,
      List.mem_map] at hq
    obtain ⟨⟨s, hs, rfl⟩, rfl⟩ := hq
    exact .of_statements hsite List.mem_cons_self (fun d hd => List.mem_append_right _ hd) hs
  | switch span discriminant cases scope =>
    simp only [layout, scopeIn, List.mem_cons, Item.part.injEq, reduceCtorEq, part_mem_partsIn,
      false_or, List.mem_map] at hq
    rcases hq with ⟨rfl, rfl⟩ | ⟨⟨c, hc, rfl⟩, rfl⟩
    · exact absurd ⟨rfl, rfl⟩ hform
    · apply Home.of_opens hsite (List.mem_cons_of_mem _ List.mem_cons_self)
      · intro d hd
        cases c with
        | switchCase span test body =>
          have hmem : d ∈ lexicalInCases cases := List.mem_flatMap.mpr ⟨_, hc, hd⟩
          exact ⟨hmem, mem_declaredNames.mpr ⟨d, hmem, rfl⟩⟩
      · rw [introduces_eq_nil rfl]
        simp
  | variableStatement d =>
    simp only [layout, List.mem_append, part_not_mem_namesIn, part_mem_partsIn, false_or] at hq
    obtain ⟨hq, rfl⟩ := hq
    rw [List.mem_singleton.mp hq]
    apply ih.mono
    · rw [expects_eq_nil rfl]
      simp
    · exact fun e he => Or.inr he
  | declarationInit d | declarationHead d =>
    simp only [layout, List.mem_append, part_not_mem_namesIn, part_mem_partsIn, false_or] at hq
    obtain ⟨hq, rfl⟩ := hq
    rw [List.mem_singleton.mp hq]
    apply ih.mono
    · rw [expects_eq_nil rfl]
      simp
    · exact fun e he => Or.inl he
  | switchCase span test body =>
    simp only [layout, List.mem_append, part_not_mem_namesIn, part_mem_partsIn, false_or,
      Node.parts, List.mem_map] at hq
    obtain ⟨⟨e, -, rfl⟩ | ⟨s, hs, rfl⟩, rfl⟩ := hq
    · exact absurd ⟨rfl, rfl⟩ hform
    · apply ih.mono
      · intro d hd
        rw [expects_statement] at hd
        exact List.mem_flatMap.mpr ⟨s, hs, hd⟩
      · rw [introduces_eq_nil rfl]
        simp
  | arrow span params body | conciseArrow span params body | function span name params body =>
    simp only [Node.parts, List.mem_cons, List.not_mem_nil, or_false] at hpart
    rcases hpart with rfl | rfl
    · exact .of_function hsite rfl hq
    · exact absurd ⟨rfl, rfl⟩ hform
  | forLoop span init test step body scope =>
    simp only [Node.parts, List.mem_append, List.mem_cons, List.mem_map, List.not_mem_nil,
      or_false] at hpart
    rcases hpart with ((rfl | ⟨e, -, rfl⟩) | ⟨e, -, rfl⟩) | rfl
    · exact .of_loop (Or.inl rfl) ih hsite rfl hq
    · exact absurd ⟨rfl, rfl⟩ hform
    · exact absurd ⟨rfl, rfl⟩ hform
    · exact halone rfl List.mem_cons_self
  | forIn span left right body | forOf span isAwait left right body =>
    simp only [Node.parts, List.mem_cons, List.not_mem_nil, or_false] at hpart
    rcases hpart with rfl | rfl | rfl
    · exact .of_loop (Or.inr rfl) ih hsite rfl hq
    · exact absurd ⟨rfl, rfl⟩ hform
    · exact halone rfl List.mem_cons_self
  | ifThen span test body | whileLoop span test body | withObject span test body =>
    simp only [Node.parts, List.mem_cons, List.not_mem_nil, or_false] at hpart
    rcases hpart with rfl | rfl
    · exact absurd ⟨rfl, rfl⟩ hform
    · exact halone rfl List.mem_cons_self
  | doWhile span body test =>
    simp only [Node.parts, List.mem_cons, List.not_mem_nil, or_false] at hpart
    rcases hpart with rfl | rfl
    · exact halone rfl List.mem_cons_self
    · exact absurd ⟨rfl, rfl⟩ hform
  | labeled span label body => exact halone (List.mem_singleton.mp hpart) List.mem_cons_self
  | ifElse span test consequent alternate =>
    simp only [Node.parts, List.mem_cons, List.not_mem_nil, or_false] at hpart
    rcases hpart with rfl | rfl | rfl
    · exact absurd ⟨rfl, rfl⟩ hform
    · exact halone rfl List.mem_cons_self
    · exact halone rfl (List.mem_cons_of_mem _ List.mem_cons_self)
  | _ =>
    refine absurd ?_ (hplain hpart)
    simp only [Node.parts, List.forall_mem_cons, List.forall_mem_append, List.forall_mem_map,
      List.not_mem_nil, Form.introduces, Form.expects, false_implies, implies_true, and_self]

/-- The nodes of a tree that has been parsed and numbered since. -/
theorem Site.parsed (hbody : ∀ s ∈ program.body, Parsed s.erase)
    (h : program.Site (p :: above) declared frames) : Parsed p.node.erase := by
  generalize hpath : p :: above = path at h
  induction h generalizing p above with
  | statement hs =>
    cases hpath
    exact hbody _ hs
  | part _ hq ih =>
    cases hpath
    exact (ih rfl).of_mem_parts_erase (mem_parts_of_mem_layout hq)

/-- What the nodes of a script declare is at home. -/
theorem Site.home (hbody : ∀ s ∈ program.body, Parsed s.erase)
    (h : program.Site (p :: above) declared frames) : program.Home frames p.node := by
  generalize hpath : p :: above = path at h
  induction h generalizing p above with
  | @statement s hs =>
    cases hpath
    refine ⟨_, [], .script program.body, [], rfl, List.mem_cons_self, ?_, ?_⟩
    · intro d hd
      rw [expects_statement] at hd
      have hmem : d ∈ (Region.script program.body).declarations :=
        List.mem_append_right _ (List.mem_flatMap.mpr ⟨s, hs, hd⟩)
      exact ⟨hmem, mem_declaredNames.mpr ⟨d, hmem, rfl⟩⟩
    · rw [introduces_eq_nil rfl]
      simp
  | part hp hq ih =>
    cases hpath
    exact (ih rfl).part (hp.parsed hbody) hp hq

/-- The identifiers of a pattern stand in the frames of the pattern. -/
theorem Site.exists_stands_binding (h : program.Site (p :: above) declared frames)
    (hform : p.form ≠ .parameters) {id : Identifier} (hid : id ∈ p.node.boundNames) :
    ∃ path, program.Stands path (.name .binding id frames) := by
  obtain ⟨role, x⟩ := p
  induction x using Node.induction_parts generalizing role above declared with
  | @node form x ih =>
    have hplain : x.isPlainlyResolved = true := by
      have hpattern := isPattern_of_mem_boundNames hid
      cases x with
      | parameters => exact absurd rfl hform
      | binding | arrayPattern | objectPattern | memberTarget | patternProperty | element | rest =>
        rfl
      | _ => exact nomatch hpattern
    have hlayout := layout_eq hplain declared frames
    rcases own_or_part_of_mem_boundNames hid with hown | ⟨q, hq, hother, hmem⟩
    · have hname : (NameRole.binding, id) ∈ x.ownNames := by
        cases x with
        | binding own => exact List.mem_singleton.mpr (congrArg (NameRole.binding, ·) hown.symm)
        | _ => exact hown.elim
      refine ⟨_, ⟨role, x⟩, above, declared, frames, rfl, h, ?_⟩
      rw [hlayout]
      exact List.mem_append_left _ (name_mem_namesIn.mpr ⟨hname, rfl⟩)
    · have hpart : .part frames q ∈ x.layout declared frames := by
        rw [hlayout]
        exact List.mem_append_right _ (part_mem_partsIn.mpr ⟨hq, rfl⟩)
      exact ih q hq q.role (.part h hpart) hother hmem

/-- The identifier stands where the innermost scope that has its name was opened for it. -/
def Registered (program : Program) (id : Identifier) (kind : BindingKind) : Prop :=
  ∃ path frames region outer, program.Stands path (.name .binding id frames) ∧
    .opens (Frame.innermost frames id.name) region outer ∈ program.walk ∧
      (id, kind) ∈ region.declarations

/-- An identifier that stands where the innermost frame has its name. -/
theorem Registered.of_head {frame : Frame} {around outer : List Frame} {region : Region}
    {id : Identifier} {kind : BindingKind}
    (h : ∃ path, program.Stands path (.name .binding id (frame :: around)))
    (hname : id.name ∈ frame.names) (hopens : .opens frame.id region outer ∈ program.walk)
    (hd : (id, kind) ∈ region.declarations) : program.Registered id kind := by
  obtain ⟨path, hstands⟩ := h
  refine ⟨path, _, region, outer, hstands, ?_, hd⟩
  rw [Frame.innermost_head hname]
  exact hopens

/-- The variables that are declared with `let` or `const`. -/
theorem Registered.of_declaration {span : Span} {kind : VariableKind}
    {ds : List (Node .declarator)} {role : Role}
    (h : program.Site (⟨role, .declaration span kind ds⟩ :: above) declared frames)
    (home : program.Home frames (.declaration span kind ds)) {id : Identifier}
    (hkind : kind.isLexical = true) (hid : id ∈ declaratorNames ds) :
    program.Registered id kind.bindingKind := by
  obtain ⟨place, target, init, hdeclarator, hbound⟩ := exists_of_mem_declaratorNames hid
  let d : Node .declarator := .declarator place target init
  obtain ⟨inner, hinner⟩ := exists_part_mem_layout (x := .declaration span kind ds)
    (List.mem_map_of_mem hdeclarator : ⟨.complete, d⟩ ∈ _) declared frames
  have hgrown : .part inner ⟨.complete, d⟩ ∈ declaratorsIn frames ds := by
    rw [layout, if_pos hkind] at hinner
    exact hinner
  obtain ⟨e, -, heq, names, rfl, hnames, -⟩ := part_mem_declaratorsIn hgrown
  cases heq
  obtain ⟨frame, around, region, outer, rfl, hopens, -, hintroduces⟩ := home
  have htarget : .part (Frame.grow names (frame :: around)) ⟨.complete, target⟩ ∈
      d.layout false (Frame.grow names (frame :: around)) :=
    List.mem_append_right _ (part_mem_partsIn.mpr ⟨List.mem_cons_self, rfl⟩)
  have hstands := Site.exists_stands_binding (.part (.part h hinner) htarget) nofun hbound
  have hname : id.name ∈ names := hnames id (List.mem_append_left _ hbound)
  apply Registered.of_head hstands (List.mem_append_left _ hname) hopens
  apply hintroduces
  rw [introduces, if_pos hkind]
  exact List.mem_map_of_mem hid

/-- The identifiers that a node declares, but for variables and functions, are registered. -/
theorem Site.registered (hbody : ∀ s ∈ program.body, Parsed s.erase)
    (h : program.Site (p :: above) declared frames) {id : Identifier} {kind : BindingKind}
    (hd : (id, kind) ∈ p.node.registers) : program.Registered id kind := by
  have home := h.home hbody
  obtain ⟨role, x⟩ := p
  cases x with
  | declaration span k ds =>
    simp only [registers] at hd
    split at hd
    · rename_i hkind
      obtain ⟨other, hid, heq⟩ := List.mem_map.mp hd
      cases heq
      exact .of_declaration h home hkind hid
    · exact nomatch hd
  | classDeclaration definition =>
    cases definition with
    | classDefinition span name superClass bodySpan elements scope =>
      cases name with
      | none => exact nomatch hd
      | some name =>
        obtain ⟨frame, around, region, outer, rfl, hopens, hexpects, -⟩ := home
        obtain ⟨hmem, hname⟩ := hexpects (id, kind) hd
        cases List.mem_singleton.mp hd
        have hdefinition : .part (frame :: around) ⟨.declared,
            .classDefinition span (some id) superClass bodySpan elements scope⟩ ∈
              (Node.classDeclaration (.classDefinition span (some id) superClass bodySpan
                elements scope)).layout declared (frame :: around) :=
          List.mem_append_right _ (part_mem_partsIn.mpr ⟨List.mem_cons_self, rfl⟩)
        have hown : .name .binding id (frame :: around) ∈ (Node.classDefinition span (some id)
            superClass bodySpan elements scope).layout true (frame :: around) :=
          List.mem_append_left _ (List.mem_append_left _
            (name_mem_namesIn.mpr ⟨List.mem_cons_self, rfl⟩))
        exact .of_head ⟨_, _, _, _, _, rfl, .part h hdefinition, hown⟩ hname hopens hmem
  | parameters span params remainder =>
    obtain ⟨other, hid, heq⟩ := List.mem_map.mp hd
    cases heq
    rcases own_or_part_of_mem_boundNames
      (x := .parameters span params remainder) hid with hown | ⟨q, hq, hother, hmem⟩
    · exact hown.elim
    · obtain ⟨frame, around, region, outer, rfl, hopens, -, hintroduces⟩ := home
      have hstands := Site.exists_stands_binding
        (.part h (part_mem_partsIn.mpr ⟨hq, rfl⟩)) hother hmem
      apply Registered.of_head hstands _ hopens (hintroduces _ hd)
      exact List.mem_append_left _ (mem_declaredNames.mpr ⟨_, hd, rfl⟩)
  | catchClause span param body scope =>
    cases param with
    | none => exact nomatch hd
    | some param =>
      have hmem : (id, kind) ∈ (Region.handler (some param)).declarations := hd
      obtain ⟨other, hid, heq⟩ := List.mem_map.mp hd
      cases heq
      have hbound : id ∈ param.boundNames := by simpa using hid
      have hstands := Site.exists_stands_binding (.part h
        (List.mem_cons_of_mem _ (part_mem_partsIn.mpr ⟨List.mem_cons_self, rfl⟩))) nofun hbound
      have hopens := h.mem_walk (mem_walk_of_mem_layout List.mem_cons_self rfl)
      exact .of_head hstands (mem_declaredNames.mpr ⟨_, hmem, rfl⟩) hopens hmem
  | _ => exact nomatch hd

end

end Program

end EcmaScript
