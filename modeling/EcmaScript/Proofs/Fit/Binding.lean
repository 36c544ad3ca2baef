import EcmaScript.Proofs.Fit.Context
import EcmaScript.Proofs.Fit.Cover
import EcmaScript.Proofs.Fit.Ends
import EcmaScript.Proofs.Parser.Binding
import EcmaScript.Proofs.Parser.Class

/-!
# Patterns and functions fit

Patterns that are declared, the parameters of functions and their bodies suit the surroundings
in which what the context of their parser says is true. A function is a boundary: its parts are
read in a context of their own, which knows of what stands around only the class and, in a
member, what `super` means.

The parsers one level further in are taken to leave what suits.

The members of a class suit surroundings that begin with the class. Only the constructor of a
class that extends another one is told that it may call `super`.
-/

namespace EcmaScript.Parser

/-- What is known of a statement that starts at the state: it is a loop if its first word says
so, and the labels in front of it are settled by what it is. -/
structure Stated (ctx : Context) (s : State) (a : Statement) : Prop where
  loop : startsLoop s.lexer.token.kind = true → a.isLoop = true
  suits : Suits (ctx.settle s.offset a.isLoop).Leads a

/-- What is known of what a new expression or an operand starts with: `super` comes only before
what is allowed to follow it. -/
def Heads (ctx : Context) (a : Expression) (s : State) : Prop :=
  a.isSuper = true → ctx.allowsSuper s.lexer.token.kind = true

/-- What is known of what an operand starts with in a calm run. -/
structure IsBase (P : Surroundings → Prop) (a : Expression) : Prop extends SuitsAsBase P a where
  unlinked : a.isLinked = false

/-- The parsers one level further in leave what suits the surroundings that their contexts are
about. -/
structure Nested.Fits (text : String) (g : Nested) : Prop where
  sound : g.Sound text
  statement : ∀ (ctx : Context) s, ctx.Placed s →
    Leaves text false (g.statement ctx) s (Stated ctx s)
  expressionStatement : ∀ (ctx : Context) s, Leaves text false (g.expressionStatement ctx) s
    fun a => a.isLoop = false ∧ Suits (ctx.Allows false) a
  bindingTarget : ∀ (calm : Bool) (ctx : Context) s, Leaves text calm (g.bindingTarget ctx) s
    fun a => Suits (ctx.Allows calm) a ∧ Declares a
  assignment : ∀ (calm : Bool) (ctx : Context) s,
    Leaves text calm (g.assignment ctx) s (Suits (ctx.Allows calm))
  binary : ∀ (calm : Bool) (ctx : Context) min s,
    Leaves text calm (g.binary ctx min) s (Suits (ctx.Allows calm))
  unary : ∀ (calm : Bool) (ctx : Context) s,
    Leaves text calm (g.unary ctx) s (Suits (ctx.Allows calm))
  newCallee : ∀ (calm : Bool) (ctx : Context) s, Ends text calm (g.newCallee ctx) s
    fun a s' => IsBase (ctx.Allows calm) a ∧ Heads ctx a s'

section

variable {text : String} {calm : Bool} {α : Type} {s : State} {g : Nested} {ctx : Context}

/-- A statement without a label directly in front of it. -/
theorem Stated.of_behind {a : Statement} (h : Stated ctx s a) (hb : ctx.Behind s) :
    Suits ctx.Leads a := by
  have hsuits := h.suits
  rwa [hb.settle_eq] at hsuits

/-- The statements of a list stand where the context says. -/
theorem Nested.Fits.statementsUntil (hg : g.Fits text) (close : TokenKind)
    (hb : ctx.Behind s) : Leaves text false (g.statementsUntil ctx close) s
      fun body => ∀ a ∈ body, Suits ctx.Leads a := by
  refine many_ends fun s₁ hl => .read rfl (.ite (fun _ => .none) fun _ => ?_)
  have hb₁ := hb.later hl.offset_le
  refine .read rfl (.refuse unexpected_ends fun _ => ?_)
  exact .firm (hg.statement ctx s₁ hb₁.placed) fun a _ _ ha => .some (ha.of_behind hb₁)

/-- The statements of a block stand where the block does. -/
theorem Nested.Fits.block (hg : g.Fits text) (hp : ctx.Placed s) :
    Leaves text false (g.block ctx) s (Suits ctx.Leads) := by
  refine .read rfl (.firm (expect_past (by simp)) fun _ s₁ _ hlt => ?_)
  refine .firm (hg.statementsUntil _ (hp.behind hlt)) fun body s₂ _ hbody => ?_
  refine .skip expect_ends fun _ _ _ => .read rfl (.pure (.of_parts rfl ?_))
  simpa [Node.parts] using hbody

/-- A value stands where the context allows. -/
theorem Nested.Fits.value (hg : g.Fits text) (ctx : Context) :
    Leaves text calm (g.value ctx) s (Suits (ctx.Allows calm)) :=
  closed_ends (hg.assignment calm ctx)

/-- Expressions between commas stand where the whole does. -/
theorem Nested.Fits.expressionOrCover (hg : g.Fits text) (ctx : Context) (s : State) :
    Leaves text calm (g.expressionOrCover ctx) s (Suits (ctx.Allows calm)) := by
  refine .read rfl (.bind (hg.assignment calm ctx _) fun first s₁ _ => .read rfl ?_)
  refine .ite (fun hk => ?_) fun _ => .pure id
  refine .bind (commaItems_ends (hg.assignment calm ctx)) fun more _ _ => ?_
  refine .read rfl (.pure fun hmore hfirst => .sequence ?_ ?_)
  · exact List.forall_mem_cons.mpr ⟨hfirst, hmore.2⟩
  · have hpos := List.length_pos_iff.mpr (hmore.1 (eq_of_beq hk))
    rw [List.length_cons]
    omega

/-- An expression stands where the context allows. -/
theorem Nested.Fits.expression (hg : g.Fits text) (ctx : Context) :
    Leaves text calm (g.expression ctx) s (Suits (ctx.Allows calm)) :=
  closed_ends (hg.expressionOrCover ctx)

/-- A computed key stands where the property does. -/
theorem propertyKey_leaves (hg : g.Fits text) (ctx : Context) (allowPrivate : Bool) :
    Leaves text calm (propertyKey g ctx allowPrivate) s (Suits (ctx.Allows calm)) := by
  refine .read rfl ?_
  split
  · exact .skip (takeAs_ends fun _ => trivial) fun _ _ _ => .pure (.leaf rfl rfl)
  · exact .skip (takeAs_ends fun _ => trivial) fun _ _ _ => .pure (.leaf rfl rfl)
  · exact .skip (takeAs_ends fun _ => trivial) fun _ _ _ => .pure (.leaf rfl rfl)
  · refine .skip advance_ends fun _ _ _ => .bind (hg.value ctx.allowIn) fun e _ _ => ?_
    refine .skip expect_ends fun _ _ _ => .pure fun he => .of_parts rfl ?_
    simpa [Node.parts] using he
  · refine .ite (fun _ => ?_) fun _ => unexpected_ends
    exact .skip (takeAs_ends fun _ => trivial) fun _ _ _ => .pure (.leaf rfl rfl)
  · refine .ite (fun _ => ?_) fun _ => unexpected_ends
    exact .skip (takeAs_ends fun _ => trivial) fun _ _ _ => .pure (.leaf rfl rfl)

/-- The name that is short for a property is its key. -/
theorem shorthandName_leaves (ctx : Context) (k : TokenKind) (place : Nat)
    (key : Node .propertyKey) :
    Leaves text calm (shorthandName ctx k place key) s fun id => key = .identifierKey id :=
  .of_meets (shorthandName_meets ctx k place key)

/-- A value behind a pattern stands where the pattern does. -/
theorem optionalInitializer_leaves (hg : g.Fits text) (ctx : Context) :
    Leaves text calm (optionalInitializer g ctx) s fun a => ∀ e ∈ a, Suits (ctx.Allows calm) e := by
  refine .eat (fun _ _ => .bind (hg.value ctx) fun e _ _ => .pure ?_) fun _ => .none
  rintro he _ ⟨⟩
  exact he

/-- An element of a declared pattern declares names. -/
theorem bindingElement_leaves (hg : g.Fits text) (ctx : Context) :
    Leaves text calm (bindingElement g ctx) s
      fun a => Suits (ctx.Allows calm) a ∧ Declares a := by
  refine .read rfl (.bind (hg.bindingTarget calm ctx _) fun target _ _ => ?_)
  refine .bind (optionalInitializer_leaves hg ctx.allowIn) fun init _ _ => .read rfl ?_
  exact .pure fun hinit htarget => ⟨.element htarget.1 hinit, .element htarget.2⟩

/-- The rest of a pattern stands where the pattern does. -/
theorem bindingRest_leaves {P : Surroundings → Prop} {argument : Parser Pattern}
    {close : TokenKind} {single : Bool}
    (hp : ∀ s, Leaves text calm argument s fun a =>
      Suits P a ∧ Declares a ∧ (single = true → a.isSingle = true)) :
    Leaves text calm (bindingRest argument close) s fun a =>
      Suits P a ∧ Declares a ∧ (single = true → a.restTarget.isSingle = true) := by
  refine .read rfl (.skip advance_ends fun _ _ _ => .bind (hp _) fun a _ _ => .read rfl ?_)
  refine .read rfl (.require failHere_ends fun _ => .pure fun ha => ?_)
  exact ⟨.rest ha.1, .rest ha.2.1, ha.2.2⟩

/-- The rest of a pattern may be missing. -/
theorem optionalRest_leaves {P : Node .rest → Prop} {rest : Parser (Node .rest)}
    (hp : ∀ s, Leaves text calm rest s P) :
    Leaves text calm (optionalRest rest) s fun a => ∀ e ∈ a, P e := by
  refine .read rfl (.ite (fun _ => .bind (hp _) fun a _ _ => .pure ?_) fun _ => .none)
  rintro ha _ ⟨⟩
  exact ha

/-- What holds of each item holds of those before the rest. -/
theorem itemsBeforeRest_leaves {close : TokenKind} {item : Parser α} {P : α → Prop}
    (hp : ∀ s, Leaves text calm item s P) :
    Leaves text calm (itemsBeforeRest close item) s fun as => ∀ a ∈ as, P a := by
  refine many_ends fun s₁ _ => .read rfl (.read rfl (.ite (fun _ => .none) fun _ => ?_))
  refine .bind (hp _) fun a _ _ => .read rfl (.unless expect_ends fun _ _ _ => .pure ?_)
  rintro ha _ ⟨⟩
  exact ha

/-- The elements of a declared array pattern declare names. -/
theorem bindingElements_leaves (hg : g.Fits text) (ctx : Context) :
    Leaves text calm (bindingElements g ctx) s
      fun as => ∀ e, some e ∈ as → Suits (ctx.Allows calm) e ∧ Declares e := by
  refine (many_ends (R := fun a => ∀ e ∈ a, Suits (ctx.Allows calm) e ∧ Declares e)
    fun s₁ _ => .read rfl ?_).imp fun as _ h e he => h _ he e rfl
  split
  · exact .none
  · exact .none
  · exact .skip advance_ends fun _ _ _ => .some (by simp)
  · refine .bind (bindingElement_leaves hg ctx) fun el _ _ => .read rfl ?_
    refine .unless expect_ends fun _ _ _ => .pure ?_
    rintro hel _ ⟨⟩ _ ⟨⟩
    exact hel

/-- A declared array pattern declares names only. -/
theorem arrayBinding_leaves (hg : g.Fits text) (ctx : Context) :
    Leaves text calm (arrayBinding g ctx) s
      fun a => Suits (ctx.Allows calm) a ∧ Declares a := by
  refine .read rfl (.skip expect_ends fun _ _ _ => .bind (bindingElements_leaves hg ctx)
    fun elements _ _ => ?_)
  have htarget : ∀ s, Leaves text calm (g.bindingTarget ctx) s fun a =>
      Suits (ctx.Allows calm) a ∧ Declares a ∧ (false = true → a.isSingle = true) := fun s =>
    (hg.bindingTarget calm ctx s).imp fun _ _ h => ⟨h.1, h.2, by simp⟩
  refine .bind (optionalRest_leaves fun s => bindingRest_leaves htarget) fun rest _ _ => ?_
  refine .skip expect_ends fun _ _ _ => .read rfl (.pure fun hrest helements => ?_)
  exact ⟨.arrayPattern (fun e he => (helements e he).1) fun r hr => (hrest r hr).1,
    .arrayPattern (fun e he => (helements e he).2) fun r hr => (hrest r hr).2.1⟩

/-- A property of a declared pattern declares names, and a short one is its own key. -/
theorem bindingProperty_leaves (hg : g.Fits text) (ctx : Context) :
    Leaves text calm (bindingProperty g ctx) s
      fun a => Suits (ctx.Allows calm) a ∧ Declares a := by
  refine .read rfl (.bind (propertyKey_leaves hg ctx false) fun key _ _ => ?_)
  refine .eat (fun _ _ => ?_) fun _ => ?_
  · refine .bind (bindingElement_leaves hg ctx) fun el _ _ => .read rfl (.pure fun hel hkey => ?_)
    exact ⟨.patternProperty hkey hel.1 (by simp), .patternProperty hel.2⟩
  · refine .bind (shorthandName_leaves ctx _ _ key) fun name _ _ => ?_
    refine .bind (optionalInitializer_leaves hg ctx.allowIn) fun init _ _ => .read rfl ?_
    refine .pure fun hinit hname _ => ⟨?_, .patternProperty (.element .binding)⟩
    rw [hname]
    exact .shorthandProperty hinit

/-- A declared object pattern declares names only, and its rest is a single one. -/
theorem objectBinding_leaves (hg : g.Fits text) (ctx : Context) :
    Leaves text calm (objectBinding g ctx) s
      fun a => Suits (ctx.Allows calm) a ∧ Declares a := by
  refine .read rfl (.skip expect_ends fun _ _ _ => .bind (itemsBeforeRest_leaves fun s =>
    bindingProperty_leaves hg ctx) fun properties _ _ => ?_)
  have hname : ∀ s, Leaves text calm (do return .binding (← identifier ctx)) s fun a : Pattern =>
      Suits (ctx.Allows calm) a ∧ Declares a ∧ (true = true → a.isSingle = true) := fun s =>
    .skip (identifier_ends ctx) fun id _ _ => .pure ⟨.binding, .binding, fun _ => rfl⟩
  refine .bind (optionalRest_leaves fun s => bindingRest_leaves hname)
    fun rest _ _ => .skip expect_ends fun _ _ _ => .read rfl (.pure fun hrest hproperties => ?_)
  exact ⟨.objectPattern (fun p hp => (hproperties p hp).1) fun r hr =>
    ⟨(hrest r hr).1, (hrest r hr).2.2 rfl⟩,
    .objectPattern (fun p hp => (hproperties p hp).2) fun r hr => (hrest r hr).2.1⟩

/-- A declared pattern declares names only. -/
theorem bindingTarget_leaves (hg : g.Fits text) (ctx : Context) :
    Leaves text calm (bindingTarget g ctx) s
      fun a => Suits (ctx.Allows calm) a ∧ Declares a := by
  refine .read rfl ?_
  split
  · exact arrayBinding_leaves hg ctx
  · exact objectBinding_leaves hg ctx
  · exact .skip (identifier_ends ctx) fun id _ _ => .pure ⟨.binding, .binding⟩

/-- A rest parameter declares names only. -/
theorem restParameter_leaves (hg : g.Fits text) (ctx : Context) :
    Leaves text calm (restParameter g ctx) s
      fun a => Suits (ctx.Allows calm) a ∧ Declares a := by
  refine .read rfl (.skip advance_ends fun _ _ _ => ?_)
  refine .bind (hg.bindingTarget calm ctx _) fun a _ _ => .read rfl ?_
  split
  · exact .read rfl (.pure fun ha => ⟨.rest ha.1, .rest ha.2⟩)
  · exact failHere_ends
  · exact failHere_ends
  · exact unexpected_ends

/-- Parameters stand in a context of their own. -/
theorem formalParameters_leaves (hg : g.Fits text) (ctx : Context) :
    Leaves text calm (formalParameters g ctx) s (Suits (ctx.parameters.Allows calm)) := by
  refine .read rfl (.skip expect_ends fun _ _ _ => .bind (itemsBeforeRest_leaves fun s =>
    bindingElement_leaves hg ctx.parameters) fun params _ _ => ?_)
  refine .bind (optionalRest_leaves fun s => restParameter_leaves hg ctx.parameters)
    fun rest _ _ => .skip expect_ends fun _ _ _ => .read rfl (.pure fun hrest hparams => ?_)
  exact .parameters hparams hrest

/-- The parameters and the body of a function, whose context has no labels. -/
theorem parametersAndBody_leaves (hg : g.Fits text) (hlabels : ctx.labels = [])
    (accessor : PropertyKind) : Leaves text calm (parametersAndBody g ctx accessor) s fun a =>
      Suits (ctx.parameters.Allows false) a.1 ∧ Suits ctx.Leads a.2 := by
  refine ownSuspensions_ends fun s => ?_
  refine .firm (formalParameters_leaves hg ctx) fun params _ _ hparams => ?_
  refine .skip (.of_check (checkAccessorParameters_meets accessor params)) fun _ s₂ _ => ?_
  refine .firm (hg.block (s := s₂) fun l hl => ?_) fun body _ _ hbody => .pure ⟨hparams, hbody⟩
  rw [hlabels] at hl
  exact nomatch hl

/-- A function stands where its parameters may, and its body opens a context. -/
theorem suits_function {span : Span} {name : Option Identifier} {params : Node .parameters}
    {body : Node .block} {isGenerator isAsync : Bool}
    (hparams : Suits (ctx.parameters.Allows false) params) (hbody : Suits ctx.Leads body) :
    Suits (ctx.Opens isAsync isGenerator)
      (.function span name params body isGenerator isAsync 0) := by
  refine .of_within rfl (fun _ _ => ⟨trivial, trivial, trivial⟩) trivial ?_
  simp only [Node.parts, List.forall_mem_cons]
  exact ⟨hparams.inner fun _ hσ => hσ.parameters, hbody.inner fun _ hσ => hσ.body, by simp⟩

/-- The name of a function stands anywhere. -/
theorem functionName_leaves (ctx : Context) (isAsync isGenerator isDeclaration : Bool) :
    Leaves text calm (functionName ctx isAsync isGenerator isDeclaration) s fun _ => True := by
  refine .read rfl (.ite (fun _ => ?_) fun _ => .ite (fun _ => .pure trivial) fun _ => ?_)
  · exact .skip (identifier_ends _) fun _ _ _ => .pure trivial
  · exact .skip (identifier_ends _) fun _ _ _ => .pure trivial

/-- A function may stand in any expression. -/
theorem functionDefinition_leaves (hg : g.Fits text) (ctx : Context) (start : Nat)
    (isAsync isDeclaration : Bool) :
    Leaves text calm (functionDefinition g ctx start isAsync isDeclaration) s
      (Suits (ctx.Allows calm)) := by
  rw [functionDefinition_eq]
  refine .skip expect_ends fun _ _ _ => .skip eat_ends fun isGenerator _ _ => ?_
  refine .skip (functionName_leaves ctx _ _ _) fun name _ _ => ?_
  refine .bind (parametersAndBody_leaves hg rfl _) fun r _ _ => .read rfl (.pure fun hr => ?_)
  exact (suits_function hr.1 hr.2).mono fun _ hσ => hσ.opens_function isAsync isGenerator

/-- A method knows whether `super` can be called in it. -/
theorem methodFunction_leaves (hg : g.Fits text) (ctx : Context) (isAsync isGenerator : Bool)
    (accessor : PropertyKind) (superCall : Bool) :
    Leaves text calm (methodFunction g ctx isAsync isGenerator accessor superCall) s
      (Suits ((ctx.method isAsync isGenerator superCall).Opens isAsync isGenerator)) := by
  refine .read rfl (.bind (parametersAndBody_leaves hg rfl _) fun r _ _ => .read rfl ?_)
  exact .pure fun hr => suits_function hr.1 hr.2

/-- In the body of an arrow function there are the rules of the function around it. -/
theorem arrowFunction_leaves (hg : g.Fits text) (ctx : Context) (start : Nat)
    (params : Node .parameters) (isAsync : Bool) :
    Leaves text calm (arrowFunction g ctx start params isAsync) s fun a =>
      Suits (ctx.Allows true) params → a.isArrow = true ∧ Suits (ctx.Allows calm) a := by
  have hinner : Suits (ctx.Allows true) params →
      Suits (fun τ => ∃ σ, ctx.Allows calm σ ∧ .arrowParameters :: σ = τ) params :=
    fun hparams => hparams.inner fun _ hσ => hσ.arrowParameters
  refine .skip expect_ends fun _ _ _ => .read rfl (.ite (fun _ => ?_) fun _ => ?_)
  · refine .bind (ownSuspensions_ends fun s => hg.block nofun)
      fun body _ _ => .read rfl (.pure fun hbody hparams => ⟨rfl, ?_⟩)
    refine .of_within rfl (fun _ _ => ⟨trivial, trivial, trivial⟩) trivial ?_
    simp only [Node.parts, List.forall_mem_cons]
    exact ⟨hinner hparams, hbody.inner fun _ hσ => (hσ.leads_arrow isAsync).allowIn, by simp⟩
  · refine .bind (ownSuspensions_ends fun s => hg.value (ctx.arrow isAsync))
      fun body _ _ => .read rfl (.pure fun hbody hparams => ⟨rfl, ?_⟩)
    refine .of_within rfl (fun _ _ => ⟨trivial, trivial, trivial⟩) trivial ?_
    simp only [Node.parts, List.forall_mem_cons]
    exact ⟨hinner hparams, hbody.inner fun _ hσ => (hσ.leads_arrow isAsync).allows, by simp⟩

/-- A single name may be a parameter anywhere. -/
theorem suits_singleParameter (P : Surroundings → Prop) (id : Identifier) :
    Suits P (singleParameter id) :=
  .parameters (by simpa using ⟨.element .binding (by simp), .element .binding⟩) (by simp)

end

/-- The parsers that a construct is made of leave what suits. -/
structure Grammar.Fits (text : String) (calm : Bool) (g : Grammar) : Prop where
  nested : g.toNested.Fits text
  heritage : ∀ (ctx : Context) s,
    Leaves text calm (g.heritage ctx) s (Suits (ctx.Allows calm))

/-- The surroundings of the members of a class, given their context. -/
def Context.AllowsMembers (ctx : Context) (calm derived : Bool) (σ : Surroundings) : Prop :=
  ctx.Allows calm σ ∧ .classBody derived ∈ σ.head?

section

variable {text : String} {calm : Bool} {s : State} {g : Nested} {ctx : Context}

/-- A modifier leaves nothing that has to fit. -/
theorem eatModifier_ends (ends : TokenKind → Bool) (w : Keyword) :
    Leaves text calm (eatModifier ends w) s fun _ => True := by
  refine .read rfl (.ite (fun _ => .read rfl (.ite (fun _ => ?_) fun _ => ?_)) fun _ => ?_)
  · exact .skip advance_ends fun _ _ _ => .pure trivial
  · exact .pure trivial
  · exact .pure trivial

/-- Modifiers leave nothing that has to fit. -/
theorem modifiers_ends (ends : TokenKind → Bool) :
    Leaves text calm (modifiers ends) s fun _ => True := by
  refine .skip (eatModifier_ends ends _) fun isAsync _ _ => .skip eat_ends fun isGenerator _ _ => ?_
  refine .ite (fun _ => .pure trivial) fun _ => .skip (eatModifier_ends ends _) fun _ _ _ => ?_
  refine .ite (fun _ => .pure trivial) fun _ => .skip (eatModifier_ends ends _) fun _ _ _ => ?_
  exact .ite (fun _ => .pure trivial) fun _ => .pure trivial

/-- The value of a field stands in a context of its own. -/
theorem fieldInitializer_leaves (hg : g.Fits text) (ctx : Context) :
    Leaves text calm (fieldInitializer g ctx) s (Suits (ctx.classInit.Allows false)) :=
  ownSuspensions_ends fun _ => hg.value _

/-- A static block stands in a context of its own. -/
theorem staticBlock_leaves (hg : g.Fits text) (ctx : Context) :
    Leaves text calm (staticBlock g ctx) s (Suits (ctx.Allows calm)) := by
  refine .read rfl (.skip advance_ends fun _ _ _ => .skip expect_ends fun _ _ _ => ?_)
  refine .bind (P := fun body _ => ∀ a ∈ body, Suits ctx.classInit.Leads a)
    (ownSuspensions_ends fun s => ?_) fun body _ _ => .read rfl (.pure fun hbody => ?_)
  · refine .firm (hg.statementsUntil _ nofun) fun body _ _ hbody => ?_
    exact .skip expect_ends fun _ _ _ => .pure hbody
  · refine .of_within rfl (fun _ _ => ⟨trivial, trivial, trivial⟩) trivial ?_
    simp only [Node.parts, List.forall_mem_map]
    exact fun a ha => (hbody a ha).inner fun _ hσ =>
      Context.Allows.leads_classInit (Or.inr rfl) hσ

/-- A constructor is no accessor. -/
theorem checkConstructor_ends (isConstructor hasConstructor : Bool) (m : Modifiers)
    (place : Nat) : Leaves text calm (checkConstructor isConstructor hasConstructor m place) s
      fun _ => isConstructor = true → m.accessor = .init := by
  unfold checkConstructor
  refine .ite (fun _ => ?_) fun hc => .pure fun h => absurd h hc
  cases haccessor : m.accessor with
  | init =>
    cases constructorFlaw? m with
    | some flaw => exact .cut fail_ends
    | none => exact .ite (fun _ => fail_ends) fun _ => .pure fun _ => rfl
  | getter =>
    rw [constructorFlaw?, haccessor]
    exact .cut fail_ends
  | setter =>
    rw [constructorFlaw?, haccessor]
    exact .cut fail_ends

/-- A method that is the constructor of a derived class may call `super`. -/
theorem methodMember_leaves (hg : g.Fits text) (ctx : Context) (start : Nat)
    (derived isStatic : Bool) (m : Modifiers) (key : Node .propertyKey) {isConstructor : Bool}
    (hinit : isConstructor = true → m.accessor = .init) :
    Leaves text calm (methodMember g ctx start derived isStatic m key isConstructor) s fun a =>
      Suits (ctx.Allows calm) key → Suits (ctx.AllowsMembers calm derived) a.1 := by
  refine .bind (methodFunction_leaves hg _ _ _ _ _) fun f _ _ => .read rfl (.pure fun hf hkey => ?_)
  refine .of_within rfl (fun _ _ => ⟨trivial, trivial, trivial⟩) trivial ?_
  simp only [Node.parts, List.forall_mem_cons]
  refine ⟨hkey.inner fun _ hσ => hσ.1, hf.inner fun σ hσ => ?_, by simp⟩
  have hwithin : ctx.Allows calm (.method (methodKindOf m isConstructor) :: σ) := hσ.1.cons rfl
  refine hwithin.opens_method _ _ (Or.inr ⟨_, rfl⟩) fun hcall => ?_
  obtain ⟨hconstructor, rfl⟩ := Bool.and_eq_true_iff.mp hcall
  obtain ⟨outer, rfl⟩ := List.head?_eq_some_iff.mp hσ.2
  refine ⟨outer, ?_⟩
  rw [methodKindOf, hinit hconstructor, if_pos hconstructor]

/-- A field stands in its class, and its value in a context of its own. -/
theorem fieldMember_leaves (hg : g.Fits text) (ctx : Context) (start : Nat) (isStatic : Bool)
    (key : Node .propertyKey) :
    Leaves text calm (fieldMember g ctx start isStatic key) s fun a =>
      Suits (ctx.Allows calm) key → Suits (ctx.Allows calm) a.1 := by
  have hfinish : ∀ (value : Option Expression) (s : State), Leaves text calm (do
      semicolon
      return (Node.field (← spanFrom start) key isStatic value, false)) s fun a =>
        (∀ e ∈ value, Suits (ctx.classInit.Allows false) e) → Suits (ctx.Allows calm) key →
          Suits (ctx.Allows calm) a.1 := by
    intro value s
    refine .skip semicolon_ends fun _ _ _ => .read rfl (.pure fun hvalue hkey => ?_)
    refine .of_within rfl (fun _ _ => ⟨trivial, trivial, trivial⟩) trivial ?_
    simp only [Node.parts, List.forall_mem_cons, List.forall_mem_map, Option.mem_toList]
    refine ⟨hkey.inner fun _ hσ => hσ, fun e he => (hvalue e he).inner fun σ hσ => ?_⟩
    exact (Context.Allows.leads_classInit (Or.inl rfl) hσ).allows
  refine .eat (fun _ _ => ?_) fun _ => .read rfl ((hfinish none _).imp fun _ _ h => h (by simp))
  refine .bind (fieldInitializer_leaves hg ctx) fun value _ _ => .read rfl ?_
  exact (hfinish (some value) _).imp fun _ _ h hvalue => h (by simpa using hvalue)

/-- A member stands where the members of its class may. -/
theorem methodOrField_leaves (hg : g.Fits text) (ctx : Context) (start : Nat)
    (derived isStatic hasConstructor : Bool) :
    Leaves text calm (methodOrField g ctx start derived isStatic hasConstructor) s fun a =>
      Suits (ctx.AllowsMembers calm derived) a.1 := by
  rw [methodOrField_eq]
  refine .skip (modifiers_ends _) fun m _ _ => .read rfl ?_
  refine .bind (propertyKey_leaves hg ctx true) fun key _ _ => ?_
  refine .skip (.of_check (checkMemberKey_meets isStatic _ key)) fun _ _ _ => ?_
  refine .read rfl (.ite (fun _ => ?_) fun _ => ?_)
  · refine .firm (checkConstructor_ends _ _ m _) fun _ _ _ hinit => ?_
    exact methodMember_leaves hg ctx start derived isStatic m key hinit
  · refine .skip (.of_check (checkField_meets m _ key)) fun _ _ _ => ?_
    exact (fieldMember_leaves hg ctx start isStatic key).imp fun _ _ h hkey =>
      (h hkey).mono fun _ hσ => hσ.1

/-- A member of any kind stands where the members of its class may. -/
theorem classElement_leaves (hg : g.Fits text) (ctx : Context) (derived hasConstructor : Bool) :
    Leaves text calm (classElement g ctx derived hasConstructor) s fun a =>
      Suits (ctx.AllowsMembers calm derived) a.1 := by
  refine .read rfl (.read rfl (.read rfl (.ite (fun _ => ?_) fun _ => ?_)))
  · exact .bind (staticBlock_leaves hg ctx) fun a _ _ => .pure fun ha => ha.mono fun _ hσ => hσ.1
  · refine .skip (eatModifier_ends _ _) fun isStatic _ _ => ?_
    exact methodOrField_leaves hg ctx _ derived isStatic hasConstructor

/-- All members stand where those of the class may. -/
theorem classElements_leaves (hg : g.Fits text) (ctx : Context) (derived : Bool) :
    Leaves text calm (classElements g ctx derived) s fun as =>
      ∀ a ∈ as, Suits (ctx.AllowsMembers calm derived) a := by
  refine (iterate_ends (I := fun (x : List (Node .classElement) × Bool) _ =>
    ∀ a ∈ x.1, Suits (ctx.AllowsMembers calm derived) a) ?_ ([], false)).imp
    fun _ _ h => h (by simp)
  rintro ⟨found, hasConstructor⟩ s₁ -
  refine .read rfl (.ite (fun _ => .pure fun hfound a ha => hfound a (by simpa using ha))
    fun _ => ?_)
  refine .eat (fun _ _ => .pure id) fun _ => ?_
  refine .bind (classElement_leaves hg ctx derived hasConstructor) fun x _ _ => .pure ?_
  exact fun hx hfound => List.forall_mem_cons.mpr ⟨hx, hfound⟩

/-- The name of a class stands anywhere. -/
theorem className_ends (ctx : Context) (isDeclaration : Bool) :
    Leaves text calm (className ctx isDeclaration) s fun _ => True := by
  refine .read rfl (.ite (fun _ => ?_) fun _ => .ite (fun _ => unexpected_ends) fun _ =>
    .pure trivial)
  exact .skip (identifier_ends ctx) fun _ _ _ => .pure trivial

/-- The heritage of a class stands where the class does. -/
theorem superClass_leaves {g : Grammar} (hg : g.Fits text calm) (ctx : Context) :
    Leaves text calm (superClass g ctx) s fun a => ∀ e ∈ a, Suits (ctx.Allows calm) e := by
  refine .eat (fun _ _ => .bind (hg.heritage ctx _) fun e _ _ => .pure ?_) fun _ => .none
  rintro he _ ⟨⟩
  exact he

/-- A class may stand in any expression. -/
theorem classDefinition_leaves {g : Grammar} (hg : g.Fits text calm) (ctx : Context)
    (isDeclaration : Bool) :
    Leaves text calm (classDefinition g ctx isDeclaration) s (Suits (ctx.Allows calm)) := by
  rw [classDefinition_eq]
  refine .read rfl (.skip expect_ends fun _ _ _ => ?_)
  refine .skip (className_ends ctx isDeclaration) fun name _ _ => ?_
  refine .bind (superClass_leaves hg ctx) fun superClass _ _ => .read rfl ?_
  refine .skip expect_ends fun _ _ _ => .bind (classElements_leaves hg.nested _ _)
    fun elements _ _ => .skip expect_ends fun _ _ _ => .read rfl (.read rfl ?_)
  refine .pure fun helements hsuper => ?_
  refine .of_within rfl (fun _ _ => ⟨trivial, trivial, trivial⟩) trivial ?_
  simp only [Node.parts, List.mem_append, or_imp, forall_and, List.forall_mem_map,
    Option.mem_toList]
  exact ⟨fun e he => (hsuper e he).inner fun _ hσ => hσ, fun a ha => (helements a ha).inner
    fun _ hσ => ⟨hσ.classBody superClass.isSome, rfl⟩⟩

end

end EcmaScript.Parser
