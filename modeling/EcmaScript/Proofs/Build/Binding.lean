import EcmaScript.Proofs.Build.Gives
import EcmaScript.Proofs.Parser.Binding

/-!
# Building declared patterns and functions

The parsers one level further in are taken to build with one level less. Most constructs then
only enclose what these give. An expression that a pattern may still claim is built up to the
defaults that are unclaimed in the state behind it.

What is given can stand anywhere, but for operands that need something behind them. A private
name is read as an operand only if `in` comes next and is an operator there, and the word `super`
only if it is called or has a property. The parameters of an accessor are those that it should
have.
-/

namespace EcmaScript.Parser

open Budget

/-- A node in which nothing is left open. -/
abbrev Settled (b : Budget) {form : Form} (x : Node form) : Prop := WellBuilt b true x

/-- A node in which defaults may be left as long as the state has one that is unclaimed. -/
abbrev Open (b : Budget) {form : Form} (x : Node form) (s : State) : Prop :=
  WellBuilt b s.coverInit.isNone x

/-- Defaults that are unclaimed now are so later on. -/
theorem Open.later {b : Budget} {form : Form} (x : Node form) (s s' : State) (hl : Later s s')
    (h : Open b x s) : Open b x s' := by
  refine h.mono le_rfl fun hn => ?_
  rw [Option.isNone_iff_eq_none] at hn ⊢
  exact hl hn

/-- Whether the next words declare names for the list of statements that they stand in. -/
def State.startsLexical (s : State) : Bool :=
  match s.lexer.token.kind with
  | .word .constKw | .word .classKw => true
  | .word .letKw =>
    let next := s.lexer.scan.token.kind
    next.isIdentifierLike || next == .mark .openBracket || next == .mark .openBrace
  | _ => false

/-- Whether a token attaches something to the word `super` before it. -/
def followsSuper : TokenKind → Bool
  | .mark .openParen | .mark .dot | .mark .openBracket => true
  | _ => false

/-- A whole operand. A private name has an operator `in` behind it. -/
structure IsTerm (ctx : Context) (b : Budget) (e : Expression) (s : State) : Prop where
  built : Built b s.coverInit.isNone false e
  regular : Regular e
  unlinked : e.isLinked = false
  unsuper : e.isSuper = false
  hidden : e.isPrivate = true → ctx.noIn = false ∧ s.lexer.token.kind = .word .inKw

/-- An operand before anything is attached to it. The word `super` has something behind it that
will be. -/
structure IsTermStart (ctx : Context) (b : Budget) (e : Expression) (s : State) : Prop where
  built : Built b s.coverInit.isNone false e
  regular : Regular e
  unlinked : e.isLinked = false
  super : e.isSuper = true → followsSuper s.lexer.token.kind = true
  hidden : e.isPrivate = true → ctx.noIn = false ∧ s.lexer.token.kind = .word .inKw

/-- An operand with all operators that bind more tightly than the least. A private name is left
only where `in` binds too loosely. -/
structure IsBinary (min : Precedence) (b : Budget) (e : Expression) (s : State) : Prop where
  built : Built b s.coverInit.isNone false e
  regular : Regular e
  unlinked : e.isLinked = false
  unsuper : e.isSuper = false
  hidden : e.isPrivate = true → ¬min < BinaryOperator.isIn.precedence

/-- The parsers one level further in build with so many levels, and a statement needs a list of
statements around it only if its first words say so. -/
structure Nested.Builds (text : String) (n : Nat) (g : Nested) : Prop where
  sound : g.Sound text
  statement : ∀ ctx s, Gives text (g.statement ctx) s fun a _ =>
    Settled (level n) a ∧ (s.startsLexical = false → a.needsBlock = false)
  expressionStatement : ∀ ctx s, Gives text (g.expressionStatement ctx) s fun a _ =>
    Settled (level n) a ∧ a.needsBlock = false
  bindingTarget : ∀ ctx s, Gives text (g.bindingTarget ctx) s fun a _ => Settled (level n) a
  assignment : ∀ ctx s, Gives text (g.assignment ctx) s fun a s' => Open (level n) a s'
  binary : ∀ ctx min s, Gives text (g.binary ctx min) s (IsBinary min (level n))
  unary : ∀ ctx s, Gives text (g.unary ctx) s (IsTerm ctx (level n))
  newCallee : ∀ ctx s, Gives text (g.newCallee ctx) s (IsTermStart ctx (level n))

section

variable {b c : Budget} {e : Expression} {s : State} {ctx : Context}

/-- What can stand anywhere is a whole operand. -/
theorem IsTerm.of_open (h : Open b e s) : IsTerm ctx b e s := by
  have hfree := Node.isFree_iff.mp h.proper.free
  exact ⟨h.built, h.proper.regular, hfree.1, hfree.2.1, fun hp => absurd hp (by simp [hfree.2.2])⟩

/-- What can stand anywhere is an operand to which more may be attached. -/
theorem IsTermStart.of_open (h : Open b e s) : IsTermStart ctx b e s := by
  have hfree := Node.isFree_iff.mp h.proper.free
  exact ⟨h.built, h.proper.regular, hfree.1, fun hs => absurd hs (by simp [hfree.2.1]),
    fun hp => absurd hp (by simp [hfree.2.2])⟩

/-- What can stand anywhere is an operand of every operator. -/
theorem IsBinary.of_open {min : Precedence} (h : Open b e s) : IsBinary min b e s := by
  have hfree := Node.isFree_iff.mp h.proper.free
  exact ⟨h.built, h.proper.regular, hfree.1, hfree.2.1, fun hp => absurd hp (by simp [hfree.2.2])⟩

/-- An operand that is no private name can stand anywhere. -/
theorem IsTerm.open (h : IsTerm ctx b e s) (he : e.isPrivate = false) : Open b e s :=
  ⟨h.built, h.regular, Node.isFree_iff.mpr ⟨h.unlinked, h.unsuper, he⟩⟩

/-- An operand of an operator that is no private name can stand anywhere. -/
theorem IsBinary.open {min : Precedence} (h : IsBinary min b e s) (he : e.isPrivate = false) :
    Open b e s := ⟨h.built, h.regular, Node.isFree_iff.mpr ⟨h.unlinked, h.unsuper, he⟩⟩

/-- A whole operand may be built with more. -/
theorem IsTerm.le (h : IsTerm ctx b e s) (hb : b ≤ c) : IsTerm ctx c e s :=
  { h with built := h.built.le hb }

/-- The start of an operand may be built with more. -/
theorem IsTermStart.le (h : IsTermStart ctx b e s) (hb : b ≤ c) : IsTermStart ctx c e s :=
  { h with built := h.built.le hb }

/-- An operand of an operator may be built with more. -/
theorem IsBinary.le {min : Precedence} (h : IsBinary min b e s) (hb : b ≤ c) :
    IsBinary min c e s := { h with built := h.built.le hb }

end

section

variable {text : String} {α : Type} {s : State} {g : Nested} {n : Nat} {b : Budget}

/-- What holds of a node goes on to hold. -/
theorem settled_later {P : α → Prop} (a : α) (s s' : State) (_ : Later s s') (h : P a) : P a := h

/-- A value is settled, since a default that is left in it is refused. -/
theorem Nested.Builds.value (hg : g.Builds text n) (ctx : Context) :
    Gives text (g.value ctx) s fun a _ => Settled (level n) a :=
  closed_gives (P := fun a t => WellBuilt (level n) t a) (hg.assignment ctx)

/-- Expressions with commas between them are open if one of them is. -/
theorem Nested.Builds.expressionOrCover (hg : g.Builds text n) (ctx : Context) (s : State) :
    Gives text (g.expressionOrCover ctx) s fun a s' => Open (level n) a s' := by
  refine .read rfl (.bind (hg.assignment ctx s) fun first s₁ _ h₁ => .read rfl ?_)
  refine .ite (fun _ => ?_) fun _ => .pure h₁
  refine .bind (many_gives (P := Open (level n)) Open.later fun s => ?_) fun more s₂ hl h₂ => ?_
  · refine .eat (fun s₁ _ => ?_) (.pure (by simp))
    refine .bind (hg.assignment ctx s₁) fun a s₂ _ ha => .pure ?_
    rintro _ ⟨⟩
    exact ha
  · refine .read rfl (.pure (.of_plain rfl (.unruled rfl) (by simp [Node.kind?]) ?_))
    simpa [Node.parts, Node.kind?] using ⟨h₁.later _ _ _ hl, h₂⟩

/-- An expression is settled, since a default that is left in it is refused. -/
theorem Nested.Builds.expression (hg : g.Builds text n) (ctx : Context) :
    Gives text (g.expression ctx) s fun a _ => Settled (level n) a :=
  closed_gives (P := fun a t => WellBuilt (level n) t a) (hg.expressionOrCover ctx)

/-- The statements of a list are settled. -/
theorem Nested.Builds.statementsUntil (hg : g.Builds text n) (ctx : Context)
    (close : TokenKind) :
    Gives text (g.statementsUntil ctx close) s fun body _ => ∀ a ∈ body, Settled (level n) a := by
  refine many_gives (P := fun a _ => Settled (level n) a) settled_later fun s => ?_
  refine .read rfl (.ite (fun _ => .pure (by simp)) fun _ => .read rfl ?_)
  refine .refuse unexpected_gives fun _ => .bind (hg.statement ctx s) fun a s₁ _ ha => .pure ?_
  rintro _ ⟨⟩
  exact ha.1

/-- A block is settled. -/
theorem Nested.Builds.block (hg : g.Builds text n) (ctx : Context) :
    Gives text (g.block ctx) s fun a _ => Settled (level n) a := by
  refine .read rfl (.skip expect_gives fun _ s₁ _ => ?_)
  refine .bind (hg.statementsUntil ctx _) fun body s₂ _ h₂ => .skip expect_gives fun _ s₃ _ => ?_
  refine .read rfl (.pure (.wrapped rfl ⟨rfl, trivial, by simp [Node.stamps], rfl⟩ rfl ?_))
  simpa [Node.parts] using h₂

/-- The key of a property is settled. -/
theorem propertyKey_gives (hg : g.Builds text n) (ctx : Context) (allowPrivate : Bool) :
    Gives text (propertyKey g ctx allowPrivate) s fun a _ => Settled (level n) a := by
  have hleaf : ∀ {β : Type} {make : Token → β} {key : β → Node .propertyKey},
      (∀ x, Settled (level n) (key x)) →
      Gives text ((take >>= fun t => pure (make t)) >>= fun x => pure (key x)) s
        fun a _ => Settled (level n) a :=
    fun hkey => .skip takeAs_gives fun x _ _ => .pure (hkey x)
  refine .read rfl ?_
  split
  · exact hleaf fun _ => .unruled rfl (by simp [Node.parts])
  · exact hleaf fun _ => .unruled rfl (by simp [Node.parts])
  · exact hleaf fun _ => .unruled rfl (by simp [Node.parts])
  · refine .skip advance_gives fun _ s₁ _ => .bind (hg.value _) fun e s₂ _ he => ?_
    exact .skip expect_gives fun _ s₃ _ => .pure (.unruled rfl (by simpa [Node.parts] using he))
  · refine .ite (fun _ => ?_) fun _ => unexpected_gives
    exact hleaf fun _ => .unruled rfl (by simp [Node.parts])
  · refine .ite (fun _ => ?_) fun _ => unexpected_gives
    refine .bind takeIdentifier_gives fun id s₁ _ hid => .pure ?_
    exact .wrapped rfl (.identifierKey hid) rfl (by simp [Node.parts])

/-- A name alone is the key that has been read. -/
theorem shorthandName_gives (ctx : Context) (k : TokenKind) (place : Nat)
    {key : Node .propertyKey} (hkey : Settled b key) :
    Gives text (shorthandName ctx k place key) s fun id _ => id.scope = 0 := by
  refine Gives.imp (.of_meets (shorthandName_meets ctx k place key)) ?_
  rintro id _ rfl
  exact hkey.scope_eq (List.mem_singleton.mpr rfl)

/-- An initializer is settled. -/
theorem optionalInitializer_gives (hg : g.Builds text n) (ctx : Context) :
    Gives text (optionalInitializer g ctx) s fun a _ => ∀ e, a = some e → Settled (level n) e := by
  refine .eat (fun s₁ _ => ?_) (.pure (by simp))
  refine .bind (hg.value ctx) fun e s₂ _ he => .pure ?_
  rintro _ ⟨⟩
  exact he

/-- An element of a pattern is settled. -/
theorem bindingElement_gives (hg : g.Builds text n) (ctx : Context) :
    Gives text (bindingElement g ctx) s fun a _ => Settled (level n) a := by
  refine .read rfl (.bind (hg.bindingTarget ctx s) fun target s₁ _ h₁ => ?_)
  refine .bind (optionalInitializer_gives hg _) fun init s₂ _ h₂ => .read rfl (.pure ?_)
  exact .unruled rfl (by simpa [Node.parts] using ⟨h₁, h₂⟩)

/-- The rest of a pattern is settled if its target is. -/
theorem bindingRest_gives {argument : Parser Pattern} {close : TokenKind}
    (hp : ∀ s, Gives text argument s fun a _ => Settled b a) :
    Gives text (bindingRest argument close) s fun a _ => Settled b a := by
  refine .read rfl (.skip advance_gives fun _ s₁ _ => .bind (hp s₁) fun a s₂ _ ha => .read rfl ?_)
  refine .read rfl (.require failHere_gives fun _ => .pure ?_)
  exact .unruled rfl (by simpa [Node.parts] using ha)

/-- A rest that may be missing is settled if it is there. -/
theorem optionalRest_gives {rest : Parser (Node .rest)}
    (hp : ∀ s, Gives text rest s fun a _ => Settled b a) :
    Gives text (optionalRest rest) s fun a _ => ∀ e, a = some e → Settled b e := by
  refine .read rfl (.ite (fun _ => .bind (hp s) fun a s₁ _ ha => .pure ?_) fun _ => .pure (by simp))
  rintro _ ⟨⟩
  exact ha

/-- What holds of every item holds of those in front of a rest. -/
theorem itemsBeforeRest_gives {close : TokenKind} {item : Parser α} {P : α → Prop}
    (hp : ∀ s, Gives text item s fun a _ => P a) :
    Gives text (itemsBeforeRest close item) s fun as _ => ∀ a ∈ as, P a := by
  refine many_gives (P := fun a _ => P a) settled_later fun s => .read rfl (.read rfl ?_)
  refine .ite (fun _ => .pure (by simp)) fun _ => .bind (hp s) fun a s₁ _ ha => .read rfl ?_
  have hsome : ∀ x, some a = some x → P x := by
    rintro _ ⟨⟩
    exact ha
  exact .ite (fun _ => .pure hsome) fun _ => .skip expect_gives fun _ _ _ => .pure hsome

/-- The elements of a pattern are settled, holes left out. -/
theorem bindingElements_gives (hg : g.Builds text n) (ctx : Context) :
    Gives text (bindingElements g ctx) s fun as _ => ∀ e, some e ∈ as → Settled (level n) e := by
  refine (many_gives (P := fun a _ => ∀ e, a = some e → Settled (level n) e) settled_later
    fun s => .read rfl ?_).imp fun as _ h e he => h _ he e rfl
  split
  · exact .pure (by simp)
  · exact .pure (by simp)
  · exact .skip advance_gives fun _ _ _ => .pure (by simp)
  · refine .bind (bindingElement_gives hg ctx) fun el s₁ _ h₁ => .read rfl ?_
    have hsome : ∀ x, some (some el) = some x → ∀ e, x = some e → Settled (level n) e := by
      rintro _ ⟨⟩ _ ⟨⟩
      exact h₁
    exact .ite (fun _ => .pure hsome) fun _ => .skip expect_gives fun _ _ _ => .pure hsome

/-- A pattern for an array encloses its elements. -/
theorem arrayBinding_gives (hg : g.Builds text n) (ctx : Context) :
    Gives text (arrayBinding g ctx) s fun a _ => Encloses n a := by
  refine .read rfl (.skip expect_gives fun _ s₁ _ => ?_)
  refine .bind (bindingElements_gives hg ctx) fun elements s₂ _ h₂ => ?_
  refine .bind (optionalRest_gives fun s => bindingRest_gives (hg.bindingTarget ctx))
    fun rest s₃ _ h₃ => .skip expect_gives fun _ s₄ _ => .read rfl (.pure ⟨rfl, .unruled rfl, ?_⟩)
  simpa [Node.parts, or_imp, forall_and, List.reduceOption_mem_iff] using ⟨h₂, h₃⟩

/-- A property of a pattern is settled, with a name of its own or without. -/
theorem bindingProperty_gives (hg : g.Builds text n) (ctx : Context) :
    Gives text (bindingProperty g ctx) s fun a _ => Settled (level n) a := by
  refine .read rfl (.bind (propertyKey_gives hg ctx false) fun key s₁ _ h₁ => ?_)
  refine .eat (fun s₂ _ => ?_) ?_
  · refine .bind (bindingElement_gives hg ctx) fun el s₃ _ h₃ => .read rfl (.pure ?_)
    exact .unruled rfl (by simpa [Node.parts] using ⟨h₁, h₃⟩)
  · refine .bind (shorthandName_gives ctx _ _ h₁) fun name s₂ _ hname => ?_
    refine .bind (optionalInitializer_gives hg _) fun init s₃ _ h₃ => .read rfl (.pure ?_)
    have htarget : Settled (level n) (.binding name) := .binding hname
    have hel : Settled (level n)
        (Node.element (.ofOffsets s.lexer.token.start.offset s₃.consumed) (.binding name) init) :=
      .unruled rfl (by simpa [Node.parts] using ⟨htarget, h₃⟩)
    exact .unruled rfl (by simpa [Node.parts] using ⟨h₁, hel⟩)

/-- A name that is declared is settled. -/
theorem bindingName_gives (ctx : Context) :
    Gives text (do return Node.binding (← identifier ctx)) s fun a _ => Settled b a :=
  .bind (identifier_gives ctx) fun _ _ _ hid => .pure (.binding hid)

/-- A pattern for an object encloses its properties. -/
theorem objectBinding_gives (hg : g.Builds text n) (ctx : Context) :
    Gives text (objectBinding g ctx) s fun a _ => Encloses n a := by
  refine .read rfl (.skip expect_gives fun _ s₁ _ => ?_)
  refine .bind (itemsBeforeRest_gives fun s => bindingProperty_gives hg ctx)
    fun properties s₂ _ h₂ => ?_
  refine .bind (optionalRest_gives (b := level n) fun s => bindingRest_gives fun s =>
    bindingName_gives ctx) fun rest s₃ _ h₃ => .skip expect_gives fun _ s₄ _ => .read rfl ?_
  refine .pure ⟨rfl, .unruled rfl, ?_⟩
  simpa [Node.parts, or_imp, forall_and] using ⟨h₂, h₃⟩

/-- A level is spent on an array or an object, not on a name. -/
theorem bindingTarget_gives (hg : g.Builds text n) (ctx : Context) :
    Gives text (bindingTarget g ctx) s fun a _ => Settled (level (n + 1)) a := by
  have hup : ∀ (a : Pattern) (s : State), Encloses n a → Settled (level (n + 1)) a :=
    fun a _ h => .enclosing h (level_mono (Nat.le_succ n)) fun _ _ => Nat.lt_succ_self n
  refine .read rfl ?_
  split
  · exact (arrayBinding_gives hg ctx).imp hup
  · exact (objectBinding_gives hg ctx).imp hup
  · exact bindingName_gives ctx

/-- A rest parameter is settled. -/
theorem restParameter_gives (hg : g.Builds text n) (ctx : Context) :
    Gives text (restParameter g ctx) s fun a _ => Settled (level n) a := by
  refine .read rfl (.skip advance_gives fun _ s₁ _ => ?_)
  refine .bind (hg.bindingTarget ctx s₁) fun a s₂ _ ha => .read rfl ?_
  split
  · exact .read rfl (.pure (.unruled rfl (by simpa [Node.parts] using ha)))
  · exact failHere_gives
  · exact failHere_gives
  · exact unexpected_gives

/-- A list of parameters is settled. -/
theorem formalParameters_gives (hg : g.Builds text n) (ctx : Context) :
    Gives text (formalParameters g ctx) s fun a _ => Settled (level n) a := by
  refine .read rfl (.skip expect_gives fun _ s₁ _ => ?_)
  refine .bind (itemsBeforeRest_gives fun s => bindingElement_gives hg _) fun params s₂ _ h₂ => ?_
  refine .bind (optionalRest_gives fun s => restParameter_gives hg _) fun rest s₃ _ h₃ => ?_
  refine .skip expect_gives fun _ s₄ _ => .read rfl (.pure (.unruled rfl ?_))
  simpa [Node.parts, or_imp, forall_and] using ⟨h₂, h₃⟩

/-- Parameters that are not refused are those that an accessor should have. -/
theorem checkAccessorParameters_gives (accessor : PropertyKind) (params : Node .parameters) :
    Gives text (checkAccessorParameters accessor params) s
      fun _ _ => params.SuitsAccessor accessor := by
  cases params with
  | parameters span items remainder =>
    cases accessor with
    | init => exact .pure trivial
    | getter =>
      refine .ite (fun _ => fail_gives) fun hcount => .pure ?_
      simp only [Node.parameterCount, bne_iff_ne, ne_eq, not_not] at hcount
      cases remainder with
      | none => exact ⟨List.eq_nil_of_length_eq_zero hcount, rfl⟩
      | some r => exact absurd hcount (by simp)
    | setter =>
      unfold checkAccessorParameters
      refine .refuse fail_gives fun hrest => .ite (fun _ => fail_gives) fun hcount => .pure ?_
      simp only [Node.parameterCount, bne_iff_ne, ne_eq, not_not] at hcount
      cases remainder with
      | none => exact ⟨hcount, rfl⟩
      | some r => exact absurd rfl hrest

/-- The parameters and the body of a function, settled, and as the accessor asks for. -/
structure Bodied (n : Nat) (accessor : PropertyKind) (a : Node .parameters × Node .block) :
    Prop where
  params : Settled (level n) a.1
  suits : a.1.SuitsAccessor accessor
  body : Settled (level n) a.2

/-- Parameters and body of a function are settled. -/
theorem parametersAndBody_gives (hg : g.Builds text n) (ctx : Context)
    (accessor : PropertyKind) :
    Gives text (parametersAndBody g ctx accessor) s fun a _ => Bodied n accessor a := by
  refine ownSuspensions_gives (P := Bodied n accessor) fun s => ?_
  refine .bind (formalParameters_gives hg ctx) fun params s₁ _ h₁ => ?_
  refine .bind (checkAccessorParameters_gives accessor params) fun _ s₂ _ h₂ => ?_
  exact .bind (hg.block ctx) fun body s₃ _ h₃ => .pure ⟨h₁, h₂, h₃⟩

/-- A function encloses its parameters and its body. -/
theorem Bodied.function {accessor : PropertyKind} {a : Node .parameters × Node .block}
    (h : Bodied n accessor a) {span : Span} {name : Option Identifier} {isGenerator isAsync : Bool}
    (hname : ∀ id, name = some id → id.scope = 0) :
    Encloses n (.function span name a.1 a.2 isGenerator isAsync 0) :=
  ⟨rfl, ⟨rfl, trivial, by simpa [Node.stamps] using hname, rfl⟩,
    by simpa [Node.parts] using ⟨h.params, h.body⟩⟩

/-- The name of a function has no scope yet. -/
theorem functionName_gives (ctx : Context) (isAsync isGenerator isDeclaration : Bool) :
    Gives text (functionName ctx isAsync isGenerator isDeclaration) s
      fun name _ => ∀ id, name = some id → id.scope = 0 := by
  have hsome : ∀ (ctx : Context) (s : State), Gives text (do return some (← identifier ctx)) s
      fun name _ => ∀ id, name = some id → id.scope = 0 := by
    intro ctx s
    refine .bind (identifier_gives ctx) fun id s₁ _ hid => .pure ?_
    rintro _ ⟨⟩
    exact hid
  exact .ite (fun _ => hsome _ s) fun _ => .ite (fun _ => .pure (by simp)) fun _ => hsome _ s

/-- A function from the word `function` on encloses its parameters and its body. -/
theorem functionDefinition_gives (hg : g.Builds text n) (ctx : Context) (start : Nat)
    (isAsync isDeclaration : Bool) :
    Gives text (functionDefinition g ctx start isAsync isDeclaration) s
      fun a _ => Encloses n a := by
  rw [functionDefinition_eq]
  refine .skip expect_gives fun _ s₁ _ => .skip eat_gives fun isGenerator s₂ _ => ?_
  refine .bind (functionName_gives ctx isAsync isGenerator isDeclaration) fun name s₃ _ hname => ?_
  exact .bind (parametersAndBody_gives hg _ _) fun a s₄ _ h₄ =>
    .read rfl (.pure (h₄.function hname))

/-- The function of a method has the parameters of an accessor, if it is one, and is plain if no
modifier says otherwise. -/
theorem methodFunction_gives (hg : g.Builds text n) (ctx : Context) (isAsync isGenerator : Bool)
    (accessor : PropertyKind) (superCall : Bool) :
    Gives text (methodFunction g ctx isAsync isGenerator accessor superCall) s
      fun a _ => Encloses n a ∧ a.IsAccessor accessor ∧
        a.isPlainFunction = (!isGenerator && !isAsync) := by
  refine .read rfl (.bind (parametersAndBody_gives hg _ _) fun a s₁ _ h₁ => .read rfl (.pure ?_))
  exact ⟨h₁.function (by simp), h₁.suits, rfl⟩

/-- An arrow function reaches from its start up to the token taken last. -/
theorem arrowFunction_gives (hg : g.Builds text n) (ctx : Context) (start : Nat)
    {params : Node .parameters} (isAsync : Bool) (hp : Settled (level n) params) :
    Gives text (arrowFunction g ctx start params isAsync) s fun a s' =>
      Encloses n a ∧ a.kind? = some .arrow ∧ a.span = .ofOffsets start s'.consumed := by
  refine .skip expect_gives fun _ s₁ _ => .read rfl (.ite (fun _ => ?_) fun _ => ?_)
  · refine .bind (ownSuspensions_gives (P := fun a => Settled (level n) a) fun s => hg.block _)
      fun body s₂ _ h₂ => .read rfl (.pure ⟨⟨rfl, ⟨rfl, trivial, ?_, rfl⟩, ?_⟩, rfl, rfl⟩)
    · simp [Node.stamps]
    · simpa [Node.parts] using ⟨hp, h₂⟩
  · refine .bind (ownSuspensions_gives (P := fun a => Settled (level n) a) fun s => hg.value _)
      fun body s₂ _ h₂ => .read rfl (.pure ⟨⟨rfl, ⟨rfl, trivial, ?_, rfl⟩, ?_⟩, rfl, rfl⟩)
    · simp [Node.stamps]
    · simpa [Node.parts] using ⟨hp, h₂⟩

/-- A name as the only parameter is settled. -/
theorem settled_singleParameter {id : Identifier} (h : id.scope = 0) :
    Settled b (singleParameter id) := by
  have htarget : Settled b (.binding id) := .binding h
  have hel : Settled b (Node.element id.span (.binding id) none) :=
    .unruled rfl (by simpa [Node.parts] using htarget)
  exact .unruled rfl (by simpa [singleParameter, Node.parts] using hel)

end

end EcmaScript.Parser
