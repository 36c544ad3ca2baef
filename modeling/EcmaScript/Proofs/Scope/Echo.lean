import EcmaScript.Proofs.Scope.Resolved
import EcmaScript.Proofs.Syntax.Renumber

/-!
# Two runs of the resolver side by side

A parsed tree is resolved twice, from two tables that go together, the second time with the numbers
of an earlier run still in it. Then the second run does what the first does, with other numbers.
For this the tables have to stay together while scopes are opened and closed and names are
declared, and have to give numbers of one another for every name.

The numbers that a tree has already are overwritten without being read, so they are arbitrary
here. Names that are declared while only the outermost scope is open are those that are allowed
there.
-/

namespace EcmaScript

open Resolution

/-- Tables that go together, with a change of numbers from one to the other. In the outermost scope
of the first one only some names are declared. -/
structure Pairing (f : Renumbering) (allowed : String → Prop)
    (tables : ScopeTable → ScopeTable → Prop) : Prop where
  /-- What has no number gets none. -/
  scope_zero : f.scope 0 = 0
  push : ∀ {t t' : ScopeTable}, tables t t' → ∀ kind, tables (t.push kind) (t'.push kind)
  nextId : ∀ {t t' : ScopeTable}, tables t t' → t'.nextId = f.scope t.nextId
  pop : ∀ {t t' : ScopeTable}, tables t t' → t.active.tail ≠ [] → tables t.pop t'.pop
  declare : ∀ {t t' : ScopeTable}, tables t t' → ∀ (id : Identifier) (kind : BindingKind),
    (t.active.tail = [] → allowed id.name) → tables (t.declare id kind) (t'.declare id kind)
  lookup : ∀ {t t' : ScopeTable}, tables t t' → t.active ≠ [] → ∀ id : Identifier,
    { id with scope := t'.lookup id.name } = f.name { id with scope := t.lookup id.name }

namespace Resolution

section

variable {α β γ δ : Type} {tables : ScopeTable → ScopeTable → Prop} {top : Prop}

/-- From tables that go together the second computation gives the image of what the first one
gives, and they end in tables that go together, with the same scopes open as before. If only
the outermost scope is open, this is so under a condition. -/
def Echoes (tables : ScopeTable → ScopeTable → Prop) (top : Prop) (image : α → β)
    (m : Resolution α) (m' : Resolution β) : Prop :=
  ∀ t t' : ScopeTable, tables t t' → t.active ≠ [] → (t.active.tail = [] → top) →
    (m' t').1 = image (m t).1 ∧ tables (m t).2 (m' t').2 ∧ (m t).2.active = t.active

namespace Echoes

/-- A result that is given at once echoes one of which it is the image. -/
theorem pure {image : α → β} {a : α} {b : β} (h : b = image a) :
    Echoes tables top image (pure a) (pure b) :=
  fun _ _ ht _ _ => ⟨h, ht, rfl⟩

/-- Computations one behind the other echo when each does. -/
theorem bind {image : α → β} {last : γ → δ} {m : Resolution α} {m' : Resolution β}
    {k : α → Resolution γ} {k' : β → Resolution δ} (h : Echoes tables top image m m')
    (hk : ∀ a, Echoes tables top last (k a) (k' (image a))) :
    Echoes tables top last (m >>= k) (m' >>= k') := by
  intro t t' ht hopen htop
  obtain ⟨hvalue, hlater, hactive⟩ := h t t' ht hopen htop
  obtain ⟨hlast, hend, hsame⟩ := hk (m t).1 (m t).2 (m' t').2 hlater (hactive ▸ hopen)
    (fun htail => htop (hactive ▸ htail))
  rw [← hvalue] at hlast hend
  exact ⟨hlast, hend, hsame.trans hactive⟩

/-- The condition at the outermost scope may be a stronger one. -/
theorem mono {image : α → β} {m : Resolution α} {m' : Resolution β} {top' : Prop}
    (h : Echoes tables top image m m') (himp : top' → top) : Echoes tables top' image m m' :=
  fun t t' ht hopen htop => h t t' ht hopen fun htail => himp (htop htail)

/-- What is done with each element of a list is echoed with the elements that it gives. -/
theorem list {g : α → Resolution α} {image : α → α} {gs : List α → Resolution (List α)}
    {images : List α → List α} (hgs : ∀ xs, gs xs = xs.mapM' g)
    (himages : ∀ xs, images xs = xs.map image) {xs : List α}
    (h : ∀ x ∈ xs, ∀ start, Echoes tables top image (g x) (g (g x start).1))
    (start : ScopeTable) : Echoes tables top images (gs xs) (gs (gs xs start).1) := by
  obtain rfl : gs = List.mapM' g := funext hgs
  obtain rfl : images = List.map image := funext himages
  induction xs generalizing start with
  | nil => exact pure rfl
  | cons x xs ih =>
    rw [List.forall_mem_cons] at h
    exact (h.1 start).bind fun _ => (ih h.2 (g x start).2).bind fun _ => pure rfl

/-- What may be missing echoes when it does where it is present. -/
theorem option {g : α → Resolution α} {image : α → α} {gs : Option α → Resolution (Option α)}
    {images : Option α → Option α} (hgs : ∀ x, gs x = x.mapM g)
    (himages : ∀ x, images x = x.map image) {x : Option α}
    (h : ∀ y ∈ x, ∀ start, Echoes tables top image (g y) (g (g y start).1)) (start : ScopeTable) :
    Echoes tables top images (gs x) (gs (gs x start).1) := by
  obtain rfl : gs = Option.mapM g := funext hgs
  obtain rfl : images = Option.map image := funext himages
  cases x with
  | none => exact pure rfl
  | some x =>
    show Echoes tables top _ (g x >>= fun y => Pure.pure (some y))
      (g (g x start).1 >>= fun y => Pure.pure (some y))
    exact (h x rfl start).bind fun _ => pure rfl

/-- The same for a list with holes. -/
theorem holes {g : α → Resolution α} {image : α → α}
    {gs : List (Option α) → Resolution (List (Option α))}
    {images : List (Option α) → List (Option α)} (hgs : ∀ xs, gs xs = xs.mapM' (Option.mapM g))
    (himages : ∀ xs, images xs = xs.map (Option.map image)) {xs : List (Option α)}
    (h : ∀ x ∈ xs.reduceOption, ∀ start, Echoes tables top image (g x) (g (g x start).1))
    (start : ScopeTable) : Echoes tables top images (gs xs) (gs (gs xs start).1) := by
  refine list hgs himages (fun x hx => option (fun _ => rfl) (fun _ => rfl) ?_) start
  rintro y rfl
  exact h y (List.reduceOption_mem_iff.mpr hx)

end Echoes

end

end Resolution

namespace ScopeTable

/-- Declarations are entered alike with other numbers on their names. -/
theorem declareAll_erase (ds : List Declaration) (t : ScopeTable) :
    t.declareAll (ds.map Node.eraseDeclared) = t.declareAll ds := by
  induction ds generalizing t with
  | nil => rfl
  | cons d ds ih => exact ih (t.declare d.1 d.2)

end ScopeTable

namespace Pairing

variable {α : Type} {f : Renumbering} {allowed : String → Prop}
  {tables : ScopeTable → ScopeTable → Prop} {top : Prop} (h : Pairing f allowed tables)
include h

/-- Tables that go together do so after some declarations, if these are allowed. -/
theorem declareAll {t t' : ScopeTable} (ht : tables t t') (ds : List Declaration)
    (hds : t.active.tail = [] → ∀ name ∈ declaredNames ds, allowed name) :
    tables (t.declareAll ds) (t'.declareAll ds) ∧ (t.declareAll ds).active = t.active := by
  induction ds generalizing t t' with
  | nil => exact ⟨ht, rfl⟩
  | cons d ds ih =>
    have hactive := (ScopeTable.Grows.declare t d.1 d.2).active
    have hfirst := h.declare ht d.1 d.2 fun htail => hds htail _ (by simp [declaredNames])
    obtain ⟨hrest, hsame⟩ := ih hfirst fun htail name hname =>
      hds (hactive ▸ htail) name (List.mem_cons_of_mem _ hname)
    exact ⟨hrest, hsame.trans hactive⟩

/-- Declarations of the same names are echoed, where these names are allowed. -/
theorem declares {ds ds' : List Declaration}
    (hds : ds'.map Node.eraseDeclared = ds.map Node.eraseDeclared)
    (hallowed : top → ∀ name ∈ declaredNames ds, allowed name) :
    Echoes tables top id (Resolution.declareAll ds) (Resolution.declareAll ds') := by
  intro t t' ht _ htop
  obtain ⟨hlater, hactive⟩ := h.declareAll ht ds fun htail => hallowed (htop htail)
  have hsame : t'.declareAll ds' = t'.declareAll ds := by
    rw [← ScopeTable.declareAll_erase, hds, ScopeTable.declareAll_erase]
  rw [← hsame] at hlater
  exact ⟨rfl, hlater, hactive⟩

/-- Declaring names once more echoes declaring them, if they are allowed. -/
theorem declaresAs {ids ids' : List Identifier} (kind : BindingKind)
    (hids : ids'.map Identifier.erase = ids.map Identifier.erase)
    (hallowed : top → ∀ name ∈ ids.map (·.name), allowed name) :
    Echoes tables top id (Resolution.declareAs kind ids) (Resolution.declareAs kind ids') := by
  refine h.declares ?_ fun htop => ?_
  · rw [← Node.map_declared_erase, ← Node.map_declared_erase, hids]
  · rw [declaredNames_map]
    exact hallowed htop

/-- Looking a name up once more, whatever its number, echoes looking it up. -/
theorem identifier (id : Identifier) (scope : ScopeId) :
    Echoes tables top f.name (Resolution.identifier id)
      (Resolution.identifier { id with scope }) :=
  fun _ _ ht hopen _ => ⟨h.lookup ht hopen id, ht, rfl⟩

/-- The same for a name that may be missing. -/
theorem identifier? (id : Option Identifier) (start : ScopeTable) :
    Echoes tables top (Option.map f.name) (Resolution.identifier? id)
      (Resolution.identifier? (Resolution.identifier? id start).1) := by
  cases id with
  | none => exact .pure rfl
  | some id => exact (h.identifier id _).bind fun _ => .pure rfl

/-- Inside of a scope of its own a computation is not where only the outermost scope is open. -/
theorem inScope {image : α → α} {kind : ScopeKind} {inner inner' : ScopeId → Resolution α}
    (hinner : ∀ id, Echoes tables False image (inner id) (inner' (f.scope id))) :
    Echoes tables top image (Resolution.inScope kind inner) (Resolution.inScope kind inner') := by
  intro t t' ht hopen _
  have htail : (t.push kind).active.tail ≠ [] := hopen
  obtain ⟨hvalue, hlater, hactive⟩ := hinner t.nextId (t.push kind) (t'.push kind)
    (h.push ht kind) (List.cons_ne_nil _ _) fun hnil => htail hnil
  rw [← h.nextId ht] at hvalue hlater
  refine ⟨hvalue, h.pop hlater ?_, ?_⟩
  · rw [hactive]
    exact htail
  · exact ScopeTable.active_pop hactive hopen

end Pairing

namespace Node

open Resolution

variable {f : Renumbering} {allowed : String → Prop} {tables : ScopeTable → ScopeTable → Prop}
  {top : Prop}

/-- Resolving the tree once more, with the numbers of any run in it, echoes resolving it. -/
def Echoed (f : Renumbering) (tables : ScopeTable → ScopeTable → Prop) (top : Prop) {form : Form}
    (x : Node form) : Prop :=
  ∀ start, Echoes tables top (renumber f) x.resolve (x.resolve start).1.resolve

/-- A node that is resolved part by part echoes when its parts do. -/
theorem echoed_of_plain (h : Pairing f allowed tables) {form : Form} {x : Node form}
    (hx : x.isPlainlyResolved = true) (hparts : ∀ p ∈ x.parts, Echoed f tables top p.node) :
    Echoed f tables top x := by
  intro start
  cases x with
  | arrow | conciseArrow | parameters | function | block | classDefinition | staticBlock
  | declaration | catchClause | forLoop | forIn | forOf | switch | functionDeclaration
  | classDeclaration => exact nomatch hx
  | reference id => exact (h.identifier id _).bind fun _ => .pure rfl
  | binding id => exact (h.identifier id _).bind fun _ => .pure rfl
  | template | functionExpression | classExpression | unary | update | optionalChain | spread
  | awaitValue | spreadMember | computedKey | memberTarget | rest | declarationInit
  | expressionInit | declarationHead | patternHead | blockStatement | expressionStatement
  | throwValue | variableStatement | labeled =>
    simp only [parts, List.forall_mem_cons] at hparts
    exact (hparts.1 _).bind fun _ => .pure rfl
  | member span base name isOptional =>
    simp only [parts, List.forall_mem_cons] at hparts
    exact (hparts.1 _).bind fun _ =>
      .pure (congrArg (member span _ · isOptional) (name.mapData_renumbering f).symm)
  | taggedTemplate | binary | assignment | ifThen | whileLoop | doWhile | tryFinally | withObject
  | index | property | patternProperty | method =>
    simp only [parts, List.forall_mem_cons] at hparts
    exact (hparts.1 _).bind fun _ => (hparts.2.1 _).bind fun _ => .pure rfl
  | conditional | ifElse =>
    simp only [parts, List.forall_mem_cons] at hparts
    exact (hparts.1 _).bind fun _ => (hparts.2.1 _).bind fun _ => (hparts.2.2.1 _).bind fun _ =>
      .pure rfl
  | array span elements =>
    simp only [parts, List.forall_mem_map] at hparts
    exact (Echoes.holes resolveOptionals_eq (mapOptionals_eq (.renumbering f)) hparts
      _).bind fun _ =>
      .pure rfl
  | object span members =>
    simp only [parts, List.forall_mem_map] at hparts
    exact (Echoes.list resolveMembers_eq (mapMembers_eq (.renumbering f)) hparts _).bind
      fun _ => .pure rfl
  | sequence =>
    simp only [parts, List.forall_mem_map] at hparts
    exact (Echoes.list resolveExpressions_eq (mapExpressions_eq (.renumbering f)) hparts _).bind
      fun _ => .pure rfl
  | templateLiteral span quasis expressions =>
    simp only [parts, List.forall_mem_map] at hparts
    exact (Echoes.list resolveExpressions_eq (mapExpressions_eq (.renumbering f)) hparts _).bind
      fun _ => .pure (congrArg (templateLiteral span · _) (TemplateElement.map_relocate_id
      quasis).symm)
  | call | construct =>
    simp only [parts, List.forall_mem_cons, List.forall_mem_map] at hparts
    exact (hparts.1 _).bind fun _ =>
      (Echoes.list resolveExpressions_eq (mapExpressions_eq (.renumbering f)) hparts.2
        _).bind fun _ =>
        .pure rfl
  | yieldValue | returnValue =>
    simp only [parts, List.forall_mem_map, Option.mem_toList] at hparts
    exact (Echoes.option resolveExpression?_eq (mapExpression?_eq (.renumbering f)) hparts
      _).bind fun _ =>
      .pure rfl
  | shorthand span name initializer =>
    simp only [parts, List.forall_mem_map, Option.mem_toList] at hparts
    exact (h.identifier name _).bind fun _ =>
      (Echoes.option resolveExpression?_eq (mapExpression?_eq (.renumbering f)) hparts
        _).bind fun _ =>
        .pure rfl
  | arrayPattern span elements remainder =>
    simp only [parts, List.forall_mem_append, List.forall_mem_map, Option.mem_toList] at hparts
    exact (Echoes.holes resolveOptionalElements_eq (mapOptionalElements_eq (.renumbering f))
      hparts.1 _).bind
      fun _ => (Echoes.option resolveRest?_eq (mapRest?_eq (.renumbering f)) hparts.2
      _).bind fun _ =>
        .pure rfl
  | objectPattern span properties remainder =>
    simp only [parts, List.forall_mem_append, List.forall_mem_map, Option.mem_toList] at hparts
    exact (Echoes.list resolveProperties_eq (mapProperties_eq (.renumbering f)) hparts.1 _).bind
      fun _ => (Echoes.option resolveRest?_eq (mapRest?_eq (.renumbering f)) hparts.2
      _).bind fun _ =>
        .pure rfl
  | element | declarator | field =>
    simp only [parts, List.forall_mem_cons, List.forall_mem_map, Option.mem_toList] at hparts
    exact (hparts.1 _).bind fun _ =>
      (Echoes.option resolveExpression?_eq (mapExpression?_eq (.renumbering f)) hparts.2
        _).bind fun _ =>
        .pure rfl
  | switchCase span test consequent =>
    simp only [parts, List.forall_mem_append, List.forall_mem_map, Option.mem_toList] at hparts
    exact (Echoes.option resolveExpression?_eq (mapExpression?_eq (.renumbering f)) hparts.1 _).bind
      fun _ => (Echoes.list resolveStatements_eq (mapStatements_eq (.renumbering f))
      hparts.2 _).bind
        fun _ => .pure rfl
  | tryCatch span body handler finalizer =>
    simp only [parts, List.forall_mem_cons, List.forall_mem_map, Option.mem_toList] at hparts
    exact (hparts.1 _).bind fun _ => (hparts.2.1 _).bind fun _ =>
      (Echoes.option resolveBlock?_eq (mapBlock?_eq (.renumbering f)) hparts.2.2 _).bind fun _ =>
        .pure rfl
  | breakFrom span label => exact .pure (congrArg (breakFrom span) Option.map_id_apply.symm)
  | continueWith span label =>
    exact .pure (congrArg (continueWith span) Option.map_id_apply.symm)
  | _ => exact .pure rfl

section

variable {form : Form} {start : ScopeTable}

/-- The names bound are the same after a run, but for their numbers. -/
theorem boundNames_again {x : Node form} (hx : Parsed x) (start : ScopeTable) :
    (x.resolve start).1.boundNames.map Identifier.erase = x.boundNames.map Identifier.erase := by
  rw [← boundNames_erase, ← boundNames_erase, hx.erase_resolve, hx.erase_eq]

/-- A head declares lexically after a run if it did before. -/
theorem declaresLexically_again {x : Node form} (hx : Parsed x) (start : ScopeTable) :
    (x.resolve start).1.declaresLexically = x.declaresLexically := by
  rw [← declaresLexically_erase, hx.erase_resolve]

/-- The variables are the same after a run, but for their numbers. -/
theorem hoisted_again {x : Node form} (hx : Parsed x) :
    (x.resolve start).1.hoisted.map eraseDeclared = x.hoisted.map eraseDeclared := by
  rw [← hoisted_erase, ← hoisted_erase, hx.erase_resolve, hx.erase_eq]

/-- What comes from the parser has no numbers yet. -/
theorem map_erase_eq {xs : List (Node form)} (hxs : ∀ x ∈ xs, Parsed x) : xs.map erase = xs := by
  conv_rhs => rw [← List.map_id xs]
  exact List.map_congr_left fun x hx => (hxs x hx).erase_eq

/-- Statements are the same after a run, but for their numbers. -/
theorem statements_again {body : List Statement} (hbody : ∀ s ∈ body, Parsed s) :
    (resolveStatements body start).1.map erase = body.map erase := by
  rw [erase_resolveStatements hbody, map_erase_eq hbody]

/-- Statements that differ in numbers only declare the same lexically. -/
theorem map_lexical_congr {xs ys : List Statement} (h : ys.map erase = xs.map erase) :
    (ys.flatMap lexical).map eraseDeclared = (xs.flatMap lexical).map eraseDeclared := by
  rw [← flatMap_map_congr (fun x _ => lexical_erase x), h,
    flatMap_map_congr (fun x _ => lexical_erase x)]

/-- Statements that differ in numbers only have the same variables. -/
theorem map_hoistedAll_congr {xs ys : List Statement} (h : ys.map erase = xs.map erase) :
    (hoistedAll ys).map eraseDeclared = (hoistedAll xs).map eraseDeclared := by
  rw [hoistedAll_eq, hoistedAll_eq, ← flatMap_map_congr (fun x _ => hoisted_erase x), h,
    flatMap_map_congr (fun x _ => hoisted_erase x)]

/-- A name that may be missing is the same after a run, but for its number. -/
theorem toList_identifier? (name : Option Identifier) :
    (Resolution.identifier? name start).1.toList.map Identifier.erase =
      name.toList.map Identifier.erase := by
  cases name <;> rfl

end

section

variable (h : Pairing f allowed tables)
include h

/-- A block echoes in its own scope when its statements do. -/
theorem echoed_block {span : Span} {body : List Statement}
    (hbody : ∀ s ∈ body, Echoed f tables False s) (hparsed : ∀ s ∈ body, Parsed s) :
    Echoed f tables top (.block span body 0) := by
  intro start
  exact h.inScope fun _ =>
    (h.declares (map_lexical_congr (statements_again hparsed)) False.elim).bind fun _ =>
      (Echoes.list resolveStatements_eq (mapStatements_eq (.renumbering f)) hbody _).bind
        fun _ => .pure rfl

/-- An arrow function echoes in its own scope when its parts do. -/
theorem echoed_arrow {span : Span} {params : Node .parameters} {body : Node .block}
    {isAsync : Bool} (hparams : Echoed f tables False params) (hbody : Echoed f tables False body)
    (hparsed : Parsed body) : Echoed f tables top (.arrow span params body isAsync 0) := by
  intro start
  exact h.inScope fun _ => (hparams _).bind fun _ =>
    (h.declares (hoisted_again hparsed) False.elim).bind fun _ => (hbody _).bind fun _ => .pure rfl

/-- An arrow with an expression for its body echoes when its parts do. -/
theorem echoed_conciseArrow {span : Span} {params : Node .parameters} {body : Expression}
    {isAsync : Bool} (hparams : Echoed f tables False params) (hbody : Echoed f tables False body) :
    Echoed f tables top (.conciseArrow span params body isAsync 0) := by
  intro start
  exact h.inScope fun _ => (hparams _).bind fun _ => (hbody _).bind fun _ => .pure rfl

/-- A function echoes in its own scope when its parts do. -/
theorem echoed_function {span : Span} {name : Option Identifier} {params : Node .parameters}
    {body : Node .block} {isGenerator isAsync : Bool} (hparams : Echoed f tables False params)
    (hbody : Echoed f tables False body) (hparsed : Parsed body) :
    Echoed f tables top (.function span name params body isGenerator isAsync 0) := by
  intro start
  exact h.inScope fun _ =>
    (h.declaresAs .function (toList_identifier? name) False.elim).bind fun _ =>
      (h.identifier? name _).bind fun _ => (hparams _).bind fun _ =>
        (h.declares (hoisted_again hparsed) False.elim).bind fun _ => (hbody _).bind fun _ =>
          .pure rfl

/-- The name of a declared function belongs to the scope around. -/
theorem echoed_functionDeclaration {span : Span} {name : Option Identifier}
    {params : Node .parameters} {body : Node .block} {isGenerator isAsync : Bool}
    (hparams : Echoed f tables False params) (hbody : Echoed f tables False body)
    (hparsed : Parsed body) :
    Echoed f tables top
      (.functionDeclaration (.function span name params body isGenerator isAsync 0)) := by
  intro start
  exact (h.identifier? name _).bind fun _ =>
    (h.inScope fun _ => (hparams _).bind fun _ =>
      (h.declares (hoisted_again hparsed) False.elim).bind fun _ => (hbody _).bind fun _ =>
        .pure rfl)

/-- A class echoes in its own scope when its parts do. -/
theorem echoed_classDefinition {span bodySpan : Span} {name : Option Identifier}
    {superClass : Option Expression} {elements : List (Node .classElement)}
    (hsuper : ∀ e ∈ superClass, Echoed f tables False e)
    (helements : ∀ e ∈ elements, Echoed f tables False e) :
    Echoed f tables top (.classDefinition span name superClass bodySpan elements 0) := by
  intro start
  exact h.inScope fun _ =>
    (h.declaresAs .classBinding (toList_identifier? name) False.elim).bind fun _ =>
      (h.identifier? name _).bind fun _ =>
        (Echoes.option resolveExpression?_eq (mapExpression?_eq (.renumbering f)) hsuper
          _).bind fun _ =>
          (Echoes.list resolveClassElements_eq (mapClassElements_eq (.renumbering f))
            helements _).bind
            fun _ => .pure rfl

/-- The name of a declared class is declared around the class and in it. -/
theorem echoed_classDeclaration {span bodySpan : Span} {name : Option Identifier}
    {superClass : Option Expression} {elements : List (Node .classElement)}
    (hsuper : ∀ e ∈ superClass, Echoed f tables False e)
    (helements : ∀ e ∈ elements, Echoed f tables False e)
    (hallowed : top → ∀ id ∈ name, allowed id.name) :
    Echoed f tables top
      (.classDeclaration (.classDefinition span name superClass bodySpan elements 0)) := by
  intro start
  have hname : top → ∀ n ∈ name.toList.map (·.name), allowed n := by
    intro htop n hn
    obtain ⟨id, hid, rfl⟩ := List.mem_map.mp hn
    exact hallowed htop id (Option.mem_toList.mp hid)
  exact (h.declaresAs .classBinding (toList_identifier? name) hname).bind fun _ =>
    (h.identifier? name _).bind fun _ =>
      (h.inScope fun _ =>
        (h.declaresAs .classBinding (toList_identifier? name) False.elim).bind fun _ =>
          (Echoes.option resolveExpression?_eq (mapExpression?_eq (.renumbering f)) hsuper
            _).bind fun _ =>
            (Echoes.list resolveClassElements_eq (mapClassElements_eq (.renumbering f))
              helements _).bind
              fun _ => .pure rfl)

/-- A static block echoes in its own scope when its statements do. -/
theorem echoed_staticBlock {span : Span} {body : List Statement}
    (hbody : ∀ s ∈ body, Echoed f tables False s) (hparsed : ∀ s ∈ body, Parsed s) :
    Echoed f tables top (.staticBlock span body 0) := by
  intro start
  exact h.inScope fun _ =>
    (h.declares (map_hoistedAll_congr (statements_again hparsed)) False.elim).bind fun _ =>
      (h.declares (map_lexical_congr (statements_again hparsed)) False.elim).bind fun _ =>
        (Echoes.list resolveStatements_eq (mapStatements_eq (.renumbering f)) hbody _).bind fun _ =>
          .pure rfl

/-- A catch clause echoes in its own scope when its parts do. -/
theorem echoed_catchClause {span : Span} {param : Option Pattern} {body : Node .block}
    (hparam : ∀ p ∈ param, Echoed f tables False p) (hbody : Echoed f tables False body)
    (hparsed : ∀ p ∈ param, Parsed p) :
    Echoed f tables top (.catchClause span param body 0) := by
  intro start
  have hids : ∀ start, (((resolvePattern? param start).1.map boundNames).getD []).map
      Identifier.erase = ((param.map boundNames).getD []).map Identifier.erase := by
    intro start
    cases param with
    | none => rfl
    | some p => exact boundNames_again (hparsed p rfl) start
  exact h.inScope fun _ =>
    (h.declaresAs .catchParameter (hids _) False.elim).bind fun _ =>
      (Echoes.option resolvePattern?_eq (mapPattern?_eq (.renumbering f)) hparam _).bind fun _ =>
        (hbody _).bind fun _ => .pure rfl

/-- A switch echoes: what it decides on outside of its scope, its cases inside. -/
theorem echoed_switch {span : Span} {discriminant : Expression} {cases : List (Node .switchCase)}
    (hdiscriminant : Echoed f tables top discriminant)
    (hcases : ∀ c ∈ cases, Echoed f tables False c) (hparsed : ∀ c ∈ cases, Parsed c) :
    Echoed f tables top (.switch span discriminant cases 0) := by
  intro start
  have hids : ∀ start, (lexicalInCases (resolveCases cases start).1).map eraseDeclared =
      (lexicalInCases cases).map eraseDeclared := by
    intro start
    rw [← lexicalInCases_erase, ← lexicalInCases_erase, map_erase_eq hparsed, resolveCases_eq,
      erase_mapM' fun c hc => (hparsed c hc).erase_resolve]
  exact (hdiscriminant _).bind fun _ =>
    (h.inScope fun _ => (h.declares (hids _) False.elim).bind fun _ =>
      (Echoes.list resolveCases_eq (mapCases_eq (.renumbering f)) hcases _).bind fun _ => .pure rfl)

/-- Parameters echo, if their names may be declared. -/
theorem echoed_parameters {span : Span} {params : List (Node .element)}
    {remainder : Option (Node .rest)} (hparsed : Parsed (.parameters span params remainder))
    (hparams : ∀ e ∈ params, Echoed f tables top e)
    (hremainder : ∀ r ∈ remainder, Echoed f tables top r)
    (hallowed : top → ∀ name ∈ declaredNames (parameters span params remainder).introduces,
      allowed name) :
    Echoed f tables top (.parameters span params remainder) := by
  intro start
  rw [introduces, declaredNames_map] at hallowed
  refine (h.declaresAs .parameter ?_ hallowed).bind fun _ =>
    (Echoes.list resolveElements_eq (mapElements_eq (.renumbering f)) hparams _).bind fun _ =>
      (Echoes.option resolveRest?_eq (mapRest?_eq (.renumbering f)) hremainder _).bind
        fun _ => .pure rfl
  exact boundNames_again hparsed start

/-- Declarators that are declared one by one. -/
theorem echoes_declarators {kind : VariableKind} (hkind : kind.isLexical = true)
    {ds : List (Node .declarator)} (hds : ∀ d ∈ ds, Echoed f tables top d)
    (hparsed : ∀ d ∈ ds, Parsed d)
    (hallowed : top → ∀ name ∈ (declaratorNames ds).map (·.name), allowed name)
    (start : ScopeTable) :
    Echoes tables top (mapDeclarators (.renumbering f)) (resolveDeclarators kind ds)
      (resolveDeclarators kind (resolveDeclarators kind ds start).1) := by
  have hcons : ∀ d more, resolveDeclarators kind (d :: more) =
      (Resolution.declareAs kind.bindingKind (declaratorNames [d]) >>= fun _ => d.resolve >>=
        fun d => resolveDeclarators kind more >>= fun more => Pure.pure (d :: more)) := by
    intro d more
    rw [resolveDeclarators, hkind]
    rfl
  induction ds generalizing start with
  | nil => exact .pure rfl
  | cons d ds ih =>
    rw [List.forall_mem_cons] at hds hparsed
    rw [declaratorNames_cons, List.map_append] at hallowed
    have hids : ∀ start, (declaratorNames [(d.resolve start).1]).map Identifier.erase =
        (declaratorNames [d]).map Identifier.erase := by
      intro start
      rw [← declaratorNames_erase, ← declaratorNames_erase, List.map_singleton,
        List.map_singleton, hparsed.1.erase_resolve, hparsed.1.erase_eq]
    have hrun : (resolveDeclarators kind (d :: ds) start).1 =
        (d.resolve ((Resolution.declareAs kind.bindingKind (declaratorNames [d])) start).2).1 ::
          (resolveDeclarators kind ds (d.resolve
            ((Resolution.declareAs kind.bindingKind (declaratorNames [d])) start).2).2).1 := by
      rw [hcons]
      rfl
    rw [hrun, hcons, hcons]
    exact (h.declaresAs kind.bindingKind (hids _)
        fun htop name hname => hallowed htop name (List.mem_append_left _ hname)).bind fun _ =>
      (hds.1 _).bind fun _ => (ih hds.2 hparsed.2
        (fun htop name hname => hallowed htop name (List.mem_append_right _ hname)) _).bind
          fun _ => .pure rfl

/-- A declaration echoes, if its names may be declared. -/
theorem echoed_declaration {span : Span} {kind : VariableKind} {ds : List (Node .declarator)}
    (hds : ∀ d ∈ ds, Echoed f tables top d) (hparsed : ∀ d ∈ ds, Parsed d)
    (hallowed : top → ∀ name ∈ declaredNames (declaration span kind ds).introduces,
      allowed name) : Echoed f tables top (.declaration span kind ds) := by
  intro start
  rw [introduces] at hallowed
  cases hkind : kind.isLexical with
  | true =>
    rw [if_pos hkind, declaredNames_map] at hallowed
    exact (echoes_declarators h hkind hds hparsed hallowed _).bind fun _ => .pure rfl
  | false =>
    exact (Echoes.list (resolveDeclarators_eq hkind) (mapDeclarators_eq (.renumbering f))
      hds _).bind
      fun _ => .pure rfl

/-- A loop over values, whichever of the two it is. Names of its head are declared inside of it,
if at all. -/
theorem echoed_loopOver {left : Node .forHead} {right : Expression} {body : Statement}
    (loop : Node .forHead → Expression → Statement → ScopeId → Statement)
    (hresolve : ∀ left right body scope, (loop left right body scope).resolve =
      Resolution.inLoopScope left.declaresLexically scope (fun scope => do
        return loop (← left.resolve) (← right.resolve) (← body.resolve) scope))
    (hrenumber : ∀ left right body scope, (loop left right body scope).renumber f =
      loop (left.renumber f) (right.renumber f) (body.renumber f) (f.scope scope))
    (hparsed : Parsed left) (hinside : Echoed f tables False left)
    (hleft : left.declaresLexically = false → Echoed f tables top left)
    (hright : ∀ top, Echoed f tables top right) (hbody : ∀ top, Echoed f tables top body) :
    Echoed f tables top (loop left right body 0) := by
  intro start
  cases hlexical : left.declaresLexically with
  | true =>
    have hrun : ∀ {left : Node .forHead} {right : Expression} {body : Statement} {scope : ScopeId},
        left.declaresLexically = true → (loop left right body scope).resolve =
          Resolution.inScope .block (fun scope => do
            return loop (← left.resolve) (← right.resolve) (← body.resolve) scope) := by
      intro left right body scope hleft
      rw [hresolve, hleft]
      rfl
    rw [hrun hlexical]
    show Echoes tables top (renumber f) _ (loop (left.resolve (start.push .block)).1
      (right.resolve _).1 (body.resolve _).1 start.nextId).resolve
    rw [hrun ((declaresLexically_again hparsed _).trans hlexical)]
    exact h.inScope fun _ => (hinside _).bind fun _ => (hright _ _).bind fun _ =>
      (hbody _ _).bind fun _ => .pure (hrenumber _ _ _ _).symm
  | false =>
    have hrun : ∀ {left : Node .forHead} {right : Expression} {body : Statement} {scope : ScopeId},
        left.declaresLexically = false → (loop left right body scope).resolve = do
          return loop (← left.resolve) (← right.resolve) (← body.resolve) scope := by
      intro left right body scope hleft
      rw [hresolve, hleft]
      rfl
    rw [hrun hlexical]
    show Echoes tables top (renumber f) _ (loop (left.resolve start).1
      (right.resolve _).1 (body.resolve _).1 0).resolve
    rw [hrun ((declaresLexically_again hparsed _).trans hlexical)]
    exact (hleft hlexical _).bind fun _ => (hright _ _).bind fun _ => (hbody _ _).bind fun _ =>
      .pure ((hrenumber _ _ _ _).trans (congrArg _ h.scope_zero)).symm

/-- A loop echoes in its own scope when its head declares lexically, and else in the one around. -/
theorem echoed_forLoop {span : Span} {init : Node .forInit} {test step : Option Expression}
    {body : Statement} (hparsed : Parsed init) (hinside : Echoed f tables False init)
    (hinit : init.declaresLexically = false → Echoed f tables top init)
    (htest : ∀ e ∈ test, ∀ top, Echoed f tables top e)
    (hstep : ∀ e ∈ step, ∀ top, Echoed f tables top e)
    (hbody : ∀ top, Echoed f tables top body) :
    Echoed f tables top (.forLoop span init test step body 0) := by
  intro start
  have hmiddle : ∀ (top : Prop) {x : Option Expression}, (∀ e ∈ x, ∀ top, Echoed f tables top e) →
      ∀ start, Echoes tables top (mapExpression? (.renumbering f)) (resolveExpression? x)
        (resolveExpression? (resolveExpression? x start).1) := fun top _ hx =>
    Echoes.option resolveExpression?_eq (mapExpression?_eq (.renumbering f)) fun e he => hx e he top
  cases hlexical : init.declaresLexically with
  | true =>
    have hrun : ∀ {init : Node .forInit} {test step : Option Expression} {body : Statement}
        {scope : ScopeId}, init.declaresLexically = true →
          (forLoop span init test step body scope).resolve =
            Resolution.inScope .block (fun scope => do
              return forLoop span (← init.resolve) (← resolveExpression? test)
                (← resolveExpression? step) (← body.resolve) scope) := by
      intro init test step body scope hinit
      show Resolution.inLoopScope init.declaresLexically scope _ = _
      rw [hinit]
      rfl
    rw [hrun hlexical]
    show Echoes tables top (renumber f) _ (forLoop span (init.resolve (start.push .block)).1
      (resolveExpression? test _).1 (resolveExpression? step _).1 (body.resolve _).1
        start.nextId).resolve
    rw [hrun ((declaresLexically_again hparsed _).trans hlexical)]
    exact h.inScope fun _ => (hinside _).bind fun _ => (hmiddle _ htest _).bind fun _ =>
      (hmiddle _ hstep _).bind fun _ => (hbody _ _).bind fun _ => .pure rfl
  | false =>
    have hrun : ∀ {init : Node .forInit} {test step : Option Expression} {body : Statement}
        {scope : ScopeId}, init.declaresLexically = false →
          (forLoop span init test step body scope).resolve = do
            return forLoop span (← init.resolve) (← resolveExpression? test)
              (← resolveExpression? step) (← body.resolve) scope := by
      intro init test step body scope hinit
      show Resolution.inLoopScope init.declaresLexically scope _ = _
      rw [hinit]
      rfl
    rw [hrun hlexical]
    show Echoes tables top (renumber f) _ (forLoop span (init.resolve start).1
      (resolveExpression? test _).1 (resolveExpression? step _).1 (body.resolve _).1 0).resolve
    rw [hrun ((declaresLexically_again hparsed _).trans hlexical)]
    exact (hinit hlexical _).bind fun _ => (hmiddle _ htest _).bind fun _ =>
      (hmiddle _ hstep _).bind fun _ => (hbody _ _).bind fun _ =>
        .pure (congrArg (forLoop span _ _ _ _) h.scope_zero).symm

end

/-- The names that a node declares in the scope around it are allowed there. -/
def MayDeclare (allowed : String → Prop) {form : Form} (x : Node form) : Prop :=
  ∀ name ∈ declaredNames (x.introduces ++ x.expects), allowed name

/-- A node that declares nothing before it is met. -/
theorem mayDeclare_iff {form : Form} (hform : form.expects = false) {x : Node form} :
    MayDeclare allowed x ↔ ∀ name ∈ declaredNames x.introduces, allowed name := by
  rw [MayDeclare, expects_eq_nil hform, List.append_nil]

/-- The head of a loop without variables of its own declares nothing. -/
theorem keeps_head {form : Form} {x : Node form} (hform : form = .forInit ∨ form = .forHead)
    (h : x.declaresLexically = false) : Keeps ⟨0, []⟩ ⟨.complete, x⟩ := by
  have hexpects : form.expects = false := by rcases hform with rfl | rfl <;> rfl
  refine ⟨introduces_of_not_declaresLexically hform h, fun name hname => ?_⟩
  rw [expects_eq_nil hexpects] at hname
  exact hname

/-- A part that declares nothing new may stand anywhere. -/
theorem mayDeclare_of_keeps {p : Part} (hp : Keeps ⟨0, []⟩ p) : MayDeclare allowed p.node := by
  intro name hname
  rw [hp.1, List.nil_append] at hname
  exact absurd (hp.2 name hname) List.not_mem_nil

end Node

open Node in
/-- Wherever a parsed tree is resolved again, the first run is echoed. -/
theorem Parsed.echoed {f : Renumbering} {allowed : String → Prop}
    {tables : ScopeTable → ScopeTable → Prop} (h : Pairing f allowed tables) {form : Form}
    {x : Node form} (hx : Parsed x) : Echoed f tables (MayDeclare allowed x) x := by
  induction x using induction_two with
  | node x below =>
    have hparsed := hx.of_mem_parts
    have hparts : ∀ p ∈ x.parts, Echoed f tables (MayDeclare allowed p.node) p.node :=
      fun p hp => (below p hp).1 (hparsed p hp)
    have hinside : ∀ p ∈ x.parts, Echoed f tables False p.node :=
      fun p hp start => (hparts p hp start).mono False.elim
    have hkept : ∀ p ∈ x.parts, Keeps ⟨0, []⟩ p → ∀ top, Echoed f tables top p.node :=
      fun p hp hkeeps _ start => (hparts p hp start).mono fun _ => mayDeclare_of_keeps hkeeps
    have hzero := hx.stamps_eq
    cases x with
    | arrow span params body isAsync scope =>
      obtain rfl : scope = 0 := hzero scope (by simp [stamps])
      exact echoed_arrow h (hinside ⟨.complete, params⟩ (by simp [parts]))
        (hinside ⟨.complete, body⟩ (by simp [parts])) (hparsed ⟨.complete, body⟩ (by simp [parts]))
    | conciseArrow span params body isAsync scope =>
      obtain rfl : scope = 0 := hzero scope (by simp [stamps])
      exact echoed_conciseArrow h (hinside ⟨.complete, params⟩ (by simp [parts]))
        (hinside ⟨.complete, body⟩ (by simp [parts]))
    | function span name params body isGenerator isAsync scope =>
      obtain rfl : scope = 0 := hzero scope (by simp [stamps])
      exact echoed_function h (hinside ⟨.complete, params⟩ (by simp [parts]))
        (hinside ⟨.complete, body⟩ (by simp [parts])) (hparsed ⟨.complete, body⟩ (by simp [parts]))
    | parameters span params remainder =>
      have hkeeps : ∀ p ∈ (parameters span params remainder).parts, Keeps ⟨0, []⟩ p := by
        simp only [parts, List.forall_mem_append, List.forall_mem_map]
        exact ⟨fun e _ => keeps_of_form rfl rfl, fun r _ => keeps_of_form rfl rfl⟩
      exact echoed_parameters h hx
        (fun e he => hkept ⟨.complete, e⟩ (by simp [parts, he]) (hkeeps _ (by simp [parts, he])) _)
        (fun r hr => hkept ⟨.complete, r⟩ (by simp [parts, Option.mem_def.mp hr])
          (hkeeps _ (by simp [parts, Option.mem_def.mp hr])) _)
        (mayDeclare_iff rfl).mp
    | block span body scope =>
      obtain rfl : scope = 0 := hzero scope (by simp [stamps])
      simp only [parts, List.forall_mem_map] at hinside hparsed
      exact echoed_block h hinside hparsed
    | staticBlock span body scope =>
      obtain rfl : scope = 0 := hzero scope (by simp [stamps])
      simp only [parts, List.forall_mem_map] at hinside hparsed
      exact echoed_staticBlock h hinside hparsed
    | classDefinition span name superClass bodySpan elements scope =>
      obtain rfl : scope = 0 := hzero scope (by simp [stamps])
      simp only [parts, List.forall_mem_append, List.forall_mem_map, Option.mem_toList] at hinside
      exact echoed_classDefinition h hinside.1 hinside.2
    | declaration span kind ds =>
      simp only [parts, List.forall_mem_map] at hparsed hkept
      exact echoed_declaration h (fun d hd => hkept d hd (keeps_of_form rfl rfl) _) hparsed
        (mayDeclare_iff rfl).mp
    | catchClause span param body scope =>
      obtain rfl : scope = 0 := hzero scope (by simp [stamps])
      simp only [parts, List.forall_mem_append, List.forall_mem_map, Option.mem_toList,
        List.forall_mem_singleton] at hinside hparsed
      exact echoed_catchClause h hinside.1 hinside.2 hparsed.1
    | switch span discriminant cases scope =>
      obtain rfl : scope = 0 := hzero scope (by simp [stamps])
      simp only [parts, List.forall_mem_cons, List.forall_mem_map] at hinside hparsed hkept
      exact echoed_switch h (hkept.1 (keeps_of_form rfl rfl) _) hinside.2 hparsed.2
    | forLoop span init test step body scope =>
      obtain rfl : scope = 0 := hzero scope (by simp [stamps])
      have hbody := hkept ⟨.complete, body⟩ (by simp [parts])
        (keeps_substatement hx (by simp [substatements]))
      exact echoed_forLoop h (hparsed ⟨.complete, init⟩ (by simp [parts]))
        (hinside ⟨.complete, init⟩ (by simp [parts]))
        (fun hlexical => hkept ⟨.complete, init⟩ (by simp [parts])
          (keeps_head (Or.inl rfl) hlexical) _)
        (fun e he => hkept ⟨.complete, e⟩ (by simp [parts, Option.mem_def.mp he])
          (keeps_of_form rfl rfl))
        (fun e he => hkept ⟨.complete, e⟩ (by simp [parts, Option.mem_def.mp he])
          (keeps_of_form rfl rfl)) hbody
    | forIn span left right body scope =>
      obtain rfl : scope = 0 := hzero scope (by simp [stamps])
      have hbody := hkept ⟨.complete, body⟩ (by simp [parts])
        (keeps_substatement hx (by simp [substatements]))
      exact echoed_loopOver h (.forIn span) (fun _ _ _ _ => rfl) (fun _ _ _ _ => rfl)
        (hparsed ⟨.complete, left⟩ (by simp [parts])) (hinside ⟨.complete, left⟩ (by simp [parts]))
        (fun hlexical => hkept ⟨.complete, left⟩ (by simp [parts])
          (keeps_head (Or.inr rfl) hlexical) _)
        (hkept ⟨.complete, right⟩ (by simp [parts]) (keeps_of_form rfl rfl)) hbody
    | forOf span isAwait left right body scope =>
      obtain rfl : scope = 0 := hzero scope (by simp [stamps])
      have hbody := hkept ⟨.complete, body⟩ (by simp [parts])
        (keeps_substatement hx (by simp [substatements]))
      exact echoed_loopOver h (.forOf span isAwait) (fun _ _ _ _ => rfl) (fun _ _ _ _ => rfl)
        (hparsed ⟨.complete, left⟩ (by simp [parts])) (hinside ⟨.complete, left⟩ (by simp [parts]))
        (fun hlexical => hkept ⟨.complete, left⟩ (by simp [parts])
          (keeps_head (Or.inr rfl) hlexical) _)
        (hkept ⟨.complete, right⟩ (by simp [parts]) (keeps_of_form rfl rfl)) hbody
    | functionDeclaration definition =>
      have hdefinition := hparsed ⟨.complete, definition⟩ (by simp [parts])
      have hbelow : ∀ q ∈ definition.parts, Echoed f tables False q.node := fun q hq start =>
        ((below ⟨.complete, definition⟩ (by simp [parts])).2 q hq (hdefinition.of_mem_parts q hq)
          start).mono False.elim
      cases definition with
      | function span name params body isGenerator isAsync scope =>
        obtain rfl : scope = 0 := hdefinition.stamps_eq scope (by simp [stamps])
        exact echoed_functionDeclaration h (hbelow ⟨.complete, params⟩ (by simp [parts]))
          (hbelow ⟨.complete, body⟩ (by simp [parts]))
          (hdefinition.of_mem_parts ⟨.complete, body⟩ (by simp [parts]))
    | classDeclaration definition =>
      have hdefinition := hparsed ⟨.declared, definition⟩ (by simp [parts])
      have hbelow : ∀ q ∈ definition.parts, Echoed f tables False q.node := fun q hq start =>
        ((below ⟨.declared, definition⟩ (by simp [parts])).2 q hq (hdefinition.of_mem_parts q hq)
          start).mono False.elim
      cases definition with
      | classDefinition span name superClass bodySpan elements scope =>
        obtain rfl : scope = 0 := hdefinition.stamps_eq scope (by simp [stamps])
        simp only [parts, List.forall_mem_append, List.forall_mem_map, Option.mem_toList] at hbelow
        refine echoed_classDeclaration h hbelow.1 hbelow.2 fun htop id hid => htop _ ?_
        rw [introduces_eq_nil rfl, expects, Option.mem_def.mp hid]
        simp [declaredNames]
    | declarationInit d =>
      refine echoed_of_plain h rfl ?_
      simp only [parts, List.forall_mem_singleton] at hparts ⊢
      exact fun start => (hparts start).mono fun htop =>
        (mayDeclare_iff rfl).mpr ((mayDeclare_iff (x := .declarationInit d) rfl).mp htop)
    | declarationHead d =>
      refine echoed_of_plain h rfl ?_
      simp only [parts, List.forall_mem_singleton] at hparts ⊢
      exact fun start => (hparts start).mono fun htop =>
        (mayDeclare_iff rfl).mpr ((mayDeclare_iff (x := .declarationHead d) rfl).mp htop)
    | variableStatement d =>
      refine echoed_of_plain h rfl ?_
      simp only [parts, List.forall_mem_singleton] at hparts ⊢
      exact fun start => (hparts start).mono fun htop => (mayDeclare_iff rfl).mpr htop
    | switchCase span test consequent =>
      refine echoed_of_plain h rfl ?_
      simp only [parts, List.forall_mem_append, List.forall_mem_map, Option.mem_toList]
        at hparts hkept ⊢
      refine ⟨fun e he => hkept.1 e he (keeps_of_form rfl rfl) _, fun s hs start =>
        (hparts.2 s hs start).mono fun htop name hname => htop name ?_⟩
      rw [introduces_eq_nil rfl, List.nil_append, expects_statement] at hname
      obtain ⟨d, hd, rfl⟩ := mem_declaredNames.mp hname
      exact mem_declaredNames.mpr ⟨d, List.mem_flatMap.mpr ⟨s, hs, hd⟩, rfl⟩
    | _ =>
      exact echoed_of_plain h rfl fun p hp => hkept p hp (keeps_parts hx rfl rfl p hp) _

end EcmaScript
