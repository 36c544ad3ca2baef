import EcmaScript.Parser.Function
import EcmaScript.Proofs.Parser.Grammar

/-!
# Declared patterns and functions make nodes

The keys of properties, the patterns of declarations, and the parameters and bodies of
functions.
-/

namespace EcmaScript.Parser

open Sketch

section

variable {text : String} {α : Type} {s : State} {g : Nested}

/-- A key that is a name is all that was taken. -/
theorem propertyKey_meets (hg : g.Sound text) (ctx : Context) (allowPrivate : Bool)
    (hs : s.Sound text) :
    Meets text (propertyKey g ctx allowPrivate) s fun key s' =>
      Made text Node.sketch s key s' ∧
        ∀ id, key = .identifierKey id → id.span = .ofOffsets s.offset s'.consumed := by
  refine .step rfl ?_
  split
  · rename_i hk
    exact .bind (takeString_meets hs hk) fun _ _ h => .pure ⟨h, nofun⟩
  · rename_i hk
    exact .bind (takeNumber_meets hs hk) fun _ _ h => .pure ⟨h, nofun⟩
  · rename_i hk
    exact .bind (takeBigInt_meets hs hk) fun _ _ h => .pure ⟨h, nofun⟩
  · rename_i hk
    refine .bind (advance_meets hs (by rw [hk]; rfl)) fun _ s₁ h₁ => ?_
    refine .bind (hg.value_makes _ s₁ h₁.1.sound) fun e s₂ h₂ => ?_
    refine .expect h₂.1.sound rfl fun s₃ h₃ => .pure ⟨?_, nofun⟩
    exact (h₂.from h₁.1.toOnto).upTo h₃.kept
  · rename_i hk
    split
    · exact .bind (takePrivateName_meets hs hk) fun _ _ h => .pure ⟨h, nofun⟩
    · exact unexpected_meets hs
  · split
    · rename_i hk
      refine .bind (takeIdentifier_meets hs hk) fun id s₁ h => .pure ⟨h.1, ?_⟩
      rintro _ ⟨⟩
      exact h.2
    · exact unexpected_meets hs

/-- A key is a token, or an expression in brackets. -/
theorem propertyKey_makes (hg : g.Sound text) (ctx : Context) (allowPrivate : Bool) :
    Makes text Node.sketch (propertyKey g ctx allowPrivate) :=
  fun _ hs => (propertyKey_meets hg ctx allowPrivate hs).imp fun _ _ h => h.1

/-- A shorthand is the name that the key is. -/
theorem shorthandName_meets (ctx : Context) (k : TokenKind) (place : Nat) (key : Node .propertyKey)
    (hs : s.Sound text) : Meets text (shorthandName ctx k place key) s fun id s' =>
      s' = s ∧ key = .identifierKey id := by
  unfold shorthandName
  split
  · split
    · exact .bind (checkName_meets ctx k place hs) fun _ _ h => .pure ⟨h, rfl⟩
    · split
      · exact fail_meets hs _ rfl
      · exact unexpected_meets hs
  · exact unexpected_meets hs

/-- A value may stand behind a pattern, and if there is none nothing is taken. -/
theorem optionalInitializer_meets (hg : g.Sound text) (ctx : Context) (hs : s.Sound text) :
    Meets text (optionalInitializer g ctx) s fun e s' =>
      (Kept text s s' ∧ AllPlaced text s.offset s'.front (Node.sketchExpression? e)) ∧
        (e = none → s' = s) := by
  refine .eat hs rfl (fun s₁ h₁ _ => ?_) (.pure ⟨⟨.refl hs, allPlaced_nil⟩, fun _ => rfl⟩)
  refine .bind (hg.value_makes ctx s₁ h₁.sound) fun e s₂ h₂ => .pure ?_
  exact ⟨⟨h₁.kept.trans h₂.1.kept, placed_from h₁.toOnto h₂.2⟩, nofun⟩

/-- A target and its value lie between the ends of the element. -/
theorem bindingElement_makes (hg : g.Sound text) (ctx : Context) :
    Makes text Node.sketch (bindingElement g ctx) := by
  intro s hs
  refine .step rfl (.bind (hg.bindingTarget ctx s hs) fun target s₁ h₁ => ?_)
  obtain ⟨h₁, hspan⟩ := h₁
  refine .bind (optionalInitializer_meets hg _ h₁.1.sound) fun init s₂ h₂ => .step rfl (.pure ?_)
  obtain ⟨h₂, hnone⟩ := h₂
  have ht := h₁.1.trans h₂.1
  refine ⟨ht, ht.owing (fun hn => ?_) (placed_append h₁.1.offset_le h₂.1.toOnto h₁.2 h₂.2)⟩
  rw [hspan, hnone hn]
  rfl

/-- The last part of a pattern, from its three dots on. -/
theorem bindingRest_meets {argument : Parser Pattern} (close : TokenKind)
    (ha : Makes text Node.sketch argument) (hs : s.Sound text)
    (hk : s.lexer.token.kind = .mark .ellipsis) :
    Meets text (bindingRest argument close) s (Made text Node.sketch s) := by
  refine .step rfl (.bind (advance_meets hs (by rw [hk]; rfl)) fun _ s₁ h₁ => ?_)
  refine .bind (ha s₁ h₁.1.sound) fun pattern s₂ h₂ => .step rfl (.step rfl ?_)
  refine .require (failHere_meets h₂.1.sound rfl) fun _ => .pure ?_
  have ht := h₁.1.trans h₂.1.kept
  exact ⟨ht, ht.node (placed_from h₁.1.toOnto h₂.2)⟩

/-- The rest of a pattern may be missing. -/
theorem optionalRest_meets {rest : Parser (Node .rest)}
    (hr : ∀ s, s.Sound text → s.lexer.token.kind = .mark .ellipsis →
      Meets text rest s (Made text Node.sketch s)) (hs : s.Sound text) :
    Meets text (optionalRest rest) s fun r s' =>
      Kept text s s' ∧ AllPlaced text s.offset s'.front (Node.sketchRest? r) := by
  refine .step rfl ?_
  split
  · rename_i hk
    exact .bind (hr s hs (eq_of_beq hk)) fun _ _ h => .pure ⟨h.1.kept, h.2⟩
  · exact .pure ⟨.refl hs, allPlaced_nil⟩

/-- The items before the rest of a pattern are in order. -/
theorem itemsBeforeRest_meets {f : α → List Sketch} {item : Parser α} (close : TokenKind)
    (hp : Makes text f item) (hs : s.Sound text) :
    Meets text (itemsBeforeRest close item) s fun as s' =>
      Kept text s s' ∧ InOrder text f s.offset s'.front as := by
  refine many_meets (fun s₁ h₁ => .step rfl (.step rfl ?_)) hs
  split
  · exact .pure (.refl h₁)
  · refine .bind (hp s₁ h₁) fun a s₂ h₂ => .step rfl ?_
    split
    · exact .pure h₂
    · exact .expect h₂.1.sound rfl fun s₃ h₃ => .pure (h₂.upTo h₃.kept)

/-- The elements of an array pattern lie behind its bracket. -/
theorem bindingElements_meets (hg : g.Sound text) (ctx : Context) (hs : s.Sound text) :
    Meets text (bindingElements g ctx) s fun elements s' => Kept text s s' ∧
      AllPlaced text s.offset s'.front (Node.sketchOptionalElements elements) := by
  unfold bindingElements
  refine (many_meets (f := fun x : Option (Node .element) => x.elim [] Node.sketch)
    (fun s hs => .step rfl ?_) hs).imp fun elements s' h => ⟨h.1, ?_⟩
  · split
    · exact .pure (.refl hs)
    · exact .pure (.refl hs)
    · rename_i hk
      refine .bind (advance_meets hs (by rw [hk]; rfl)) fun _ s₁ h₁ => .pure ⟨h₁.1, allPlaced_nil⟩
    · refine .bind (bindingElement_makes hg ctx s hs) fun element s₁ h₁ => .step rfl ?_
      split
      · exact .pure h₁
      · exact .expect h₁.1.sound rfl fun s₂ h₂ => .pure (h₁.upTo h₂.kept)
  · rw [Node.sketchOptionalElements_eq]
    exact h.2.placed

/-- An array pattern is all that is between its brackets, and these. -/
theorem arrayBinding_makesWhole (hg : g.Sound text) (ctx : Context) :
    MakesWhole text Node.sketch Node.span (arrayBinding g ctx) := by
  intro s hs
  refine .step rfl (.expect hs rfl fun s₁ h₁ => ?_)
  refine .bind (bindingElements_meets hg ctx h₁.sound) fun elements s₂ h₂ => ?_
  refine .bind (optionalRest_meets (fun s hs hk =>
    bindingRest_meets _ (hg.bindingTarget ctx).makes hs hk) h₂.1.sound) fun rest s₃ h₃ => ?_
  refine .expect h₃.1.sound rfl fun s₄ h₄ => .step rfl (.pure ?_)
  have ht := h₁.trans (h₂.1.trans (h₃.1.trans h₄.kept))
  have hparts := placed_append h₂.1.offset_le h₃.1.toOnto h₂.2 h₃.2
  exact ⟨⟨ht, ht.node (placed_from h₁.toOnto (placed_upTo h₄.toOnto hparts))⟩, rfl⟩

/-- A key and a target lie between the ends of the property. -/
theorem bindingProperty_makes (hg : g.Sound text) (ctx : Context) :
    Makes text Node.sketch (bindingProperty g ctx) := by
  intro s hs
  refine .step rfl (.bind (propertyKey_meets hg ctx false hs) fun key s₁ h₁ => ?_)
  obtain ⟨h₁, hspan⟩ := h₁
  refine .eat h₁.1.sound rfl (fun s₂ h₂ _ => ?_) ?_
  · refine .bind (bindingElement_makes hg ctx s₂ h₂.sound) fun value s₃ h₃ => .step rfl (.pure ?_)
    have ht := h₁.1.trans (h₂.kept.trans h₃.1.kept)
    have hvalue := placed_from h₂.toOnto h₃.2
    exact ⟨ht, ht.node (placed_append h₁.1.offset_le (h₂.trans h₃.1.kept).toOnto h₁.2 hvalue)⟩
  · refine .bind (shorthandName_meets ctx _ _ key h₁.1.sound) fun name s₂ h₂ => ?_
    obtain ⟨rfl, rfl⟩ := h₂
    refine .bind (optionalInitializer_meets hg _ h₁.1.sound) fun init s₃ h₃ => .step rfl (.pure ?_)
    obtain ⟨h₃, hnone⟩ := h₃
    have ht := h₁.1.trans h₃.1
    -- The key and the target are the same name, so they do not stand one behind the other.
    have hkey := placed_upTo h₃.1.toOnto h₁.2
    have hvalue : AllPlaced text s.offset s₃.front
        (Node.element (.ofOffsets s.offset s₃.consumed) (.binding name) init).sketch := by
      refine ht.owing (fun hn => ?_) (placed_append h₁.1.offset_le h₃.1.toOnto h₁.2 h₃.2)
      rw [hnone hn]
      exact (hspan name rfl).symm
    exact ⟨ht, ht.spanning trivial .nil (eachPlaced_append.mpr ⟨hkey.each, hvalue.each⟩)⟩

/-- An object pattern is all that is between its braces, and these. -/
theorem objectBinding_makesWhole (hg : g.Sound text) (ctx : Context) :
    MakesWhole text Node.sketch Node.span (objectBinding g ctx) := by
  intro s hs
  refine .step rfl (.expect hs rfl fun s₁ h₁ => ?_)
  refine .bind (itemsBeforeRest_meets _ (bindingProperty_makes hg ctx) h₁.sound)
    fun properties s₂ h₂ => ?_
  have hname : Makes text Node.sketch (do return .binding (← identifier ctx) : Parser Pattern) :=
    fun s hs => .bind (identifier_makes ctx s hs) fun _ _ h => .pure h
  refine .bind (optionalRest_meets (fun s hs hk => bindingRest_meets _ hname hs hk) h₂.1.sound)
    fun rest s₃ h₃ => ?_
  refine .expect h₃.1.sound rfl fun s₄ h₄ => .step rfl (.pure ?_)
  have ht := h₁.trans (h₂.1.trans (h₃.1.trans h₄.kept))
  have hproperties : AllPlaced text s₁.offset s₂.front (Node.sketchProperties properties) := by
    rw [Node.sketchProperties_eq]
    exact h₂.2.placed
  have hparts := placed_append h₂.1.offset_le h₃.1.toOnto hproperties h₃.2
  exact ⟨⟨ht, ht.node (placed_from h₁.toOnto (placed_upTo h₄.toOnto hparts))⟩, rfl⟩

/-- A declared pattern is all of its tokens. -/
theorem bindingTarget_makesWhole (hg : g.Sound text) (ctx : Context) :
    MakesWhole text Node.sketch Node.span (bindingTarget g ctx) := by
  intro s hs
  refine .step rfl ?_
  split
  · exact arrayBinding_makesWhole hg ctx s hs
  · exact objectBinding_makesWhole hg ctx s hs
  · exact .bind (identifier_makesWhole ctx s hs) fun _ _ h => .pure h

/-- A rest parameter lies behind its mark. -/
theorem restParameter_meets (hg : g.Sound text) (ctx : Context) (hs : s.Sound text)
    (hk : s.lexer.token.kind = .mark .ellipsis) :
    Meets text (restParameter g ctx) s (Made text Node.sketch s) := by
  refine .step rfl (.bind (advance_meets hs (by rw [hk]; rfl)) fun _ s₁ h₁ => ?_)
  refine .bind ((hg.bindingTarget ctx).makes s₁ h₁.1.sound) fun argument s₂ h₂ => .step rfl ?_
  split
  · refine .step rfl (.pure ?_)
    have ht := h₁.1.trans h₂.1.kept
    exact ⟨ht, ht.node (placed_from h₁.1.toOnto h₂.2)⟩
  · exact failHere_meets h₂.1.sound rfl
  · exact failHere_meets h₂.1.sound rfl
  · exact unexpected_meets h₂.1.sound

/-- Parameters lie between their parentheses. -/
theorem formalParameters_makes (hg : g.Sound text) (ctx : Context) :
    Makes text Node.sketch (formalParameters g ctx) := by
  intro s hs
  refine .step rfl (.expect hs rfl fun s₁ h₁ => ?_)
  refine .bind (itemsBeforeRest_meets _ (bindingElement_makes hg _) h₁.sound) fun params s₂ h₂ => ?_
  refine .bind (optionalRest_meets (fun s hs hk => restParameter_meets hg _ hs hk) h₂.1.sound)
    fun rest s₃ h₃ => ?_
  refine .expect h₃.1.sound rfl fun s₄ h₄ => .step rfl (.pure ?_)
  have ht := h₁.trans (h₂.1.trans (h₃.1.trans h₄.kept))
  have hparams : AllPlaced text s₁.offset s₂.front (Node.sketchElements params) := by
    rw [Node.sketchElements_eq]
    exact h₂.2.placed
  have hparts := placed_append h₂.1.offset_le h₃.1.toOnto hparams h₃.2
  exact ⟨ht, ht.node (placed_from h₁.toOnto (placed_upTo h₄.toOnto hparts))⟩

/-- Looking at the parameters of an accessor takes no token. -/
theorem checkAccessorParameters_meets (accessor : PropertyKind) (params : Node .parameters)
    (hs : s.Sound text) :
    Meets text (checkAccessorParameters accessor params) s fun _ s' => s' = s := by
  cases params with
  | parameters span items rest =>
    cases accessor with
    | init => exact .pure rfl
    | getter => exact .ite (fun _ => fail_meets hs _ rfl) fun _ => .pure rfl
    | setter =>
      unfold checkAccessorParameters
      refine .refuse (p := fail _ .setterRest) (fail_meets hs _ rfl) fun _ => ?_
      exact .ite (fun _ => fail_meets hs _ rfl) fun _ => .pure rfl

/-- The body of a function lies behind its parameters. -/
theorem parametersAndBody_makes (hg : g.Sound text) (ctx : Context) (accessor : PropertyKind) :
    Makes text (fun r => r.1.sketch ++ r.2.sketch) (parametersAndBody g ctx accessor) := by
  refine ownSuspensions_makes fun s hs => ?_
  refine .bind (formalParameters_makes hg ctx s hs) fun params s₁ h₁ => ?_
  refine .bind (checkAccessorParameters_meets accessor params h₁.1.sound) fun _ s₂ h₂ => ?_
  subst h₂
  refine .bind (hg.block_makes ctx _ h₁.1.sound) fun body s₃ h₃ => .pure ?_
  exact ⟨h₁.1.trans h₃.1.kept, placed_append h₁.1.offset_le h₃.1.toOnto h₁.2 h₃.2⟩

/-- The name of a function; that of an expression is optional and belongs to the function. -/
def functionName (ctx : Context) (isAsync isGenerator isDeclaration : Bool) :
    Parser (Option Identifier) := do
  let unnamed ← isAt (.mark .openParen)
  if isDeclaration then return some (← identifier ctx)
  else if unnamed then return none
  else return some (← identifier { ctx with canYield := isGenerator, canAwait := isAsync })

/-- A function in parts. -/
theorem functionDefinition_eq (g : Nested) (ctx : Context) (start : Nat)
    (isAsync isDeclaration : Bool) :
    functionDefinition g ctx start isAsync isDeclaration = (do
      expect (.word .functionKw)
      let isGenerator ← eat (.mark .times)
      let name ← functionName ctx isAsync isGenerator isDeclaration
      let r ← parametersAndBody g (ctx.function isAsync isGenerator) .init
      return .function (← spanFrom start) name r.1 r.2 isGenerator isAsync 0) := by
  simp only [functionDefinition, functionName, bind_assoc, pure_bind, ite_bind]

/-- The name of a function is one token, if it has a name. -/
theorem functionName_meets (ctx : Context) (isAsync isGenerator isDeclaration : Bool)
    (hs : s.Sound text) :
    Meets text (functionName ctx isAsync isGenerator isDeclaration) s fun name s' =>
      Kept text s s' ∧
        AllPlaced text s.offset s'.front (name.toList.flatMap Identifier.sketch) := by
  have hname : ∀ ctx, Meets text (do return some (← identifier ctx)) s fun name s' =>
      Kept text s s' ∧
        AllPlaced text s.offset s'.front (name.toList.flatMap Identifier.sketch) := by
    intro ctx
    refine .bind (identifier_makes ctx s hs) fun id s₁ h₁ => .pure ⟨h₁.1.kept, ?_⟩
    rw [Option.toList_some, List.flatMap_singleton]
    exact h₁.2
  refine .step rfl (.ite (fun _ => hname _) fun _ => .ite (fun _ => ?_) fun _ => hname _)
  exact .pure ⟨.refl hs, allPlaced_nil⟩

/-- A function starts with the words before it. -/
theorem functionDefinition_meets (hg : g.Sound text) (ctx : Context) (isAsync isDeclaration : Bool)
    {s₀ : State} (h₀ : Onto text s₀ s) :
    Meets text (functionDefinition g ctx s₀.offset isAsync isDeclaration) s
      (Made text Node.sketch s₀) := by
  rw [functionDefinition_eq]
  refine .expect h₀.sound rfl fun s₁ h₁ => ?_
  refine .bind (eat_meets h₁.sound rfl) fun isGenerator s₂ h₂ => ?_
  refine .bind (functionName_meets ctx isAsync isGenerator isDeclaration h₂.sound)
    fun name s₃ h₃ => ?_
  refine .bind (parametersAndBody_makes hg _ _ s₃ h₃.1.sound) fun r s₄ h₄ => .step rfl (.pure ?_)
  have ht₂ := h₀.took (h₁.trans h₂)
  have ht₃ := ht₂.trans h₃.1
  have ht := ht₃.trans h₄.1.kept
  have hname := placed_from ht₂.toOnto h₃.2
  exact ⟨ht, ht.node (placed_append ht₃.offset_le h₄.1.toOnto hname h₄.2)⟩

/-- A method lies between its first parenthesis and its last brace. -/
theorem methodFunction_makes (hg : g.Sound text) (ctx : Context) (isAsync isGenerator : Bool)
    (accessor : PropertyKind) (superCall : Bool) :
    Makes text Node.sketch (methodFunction g ctx isAsync isGenerator accessor superCall) := by
  intro s hs
  refine .step rfl (.bind (parametersAndBody_makes hg _ _ s hs) fun r s₁ h₁ => .step rfl (.pure ?_))
  exact ⟨h₁.1, h₁.1.node h₁.2⟩

/-- An arrow function starts with its parameters. -/
theorem arrowFunction_meets (hg : g.Sound text) (ctx : Context) {params : Node .parameters}
    (isAsync : Bool) {s₀ : State} (h₀ : Onto text s₀ s)
    (hp : AllPlaced text s₀.offset s.front params.sketch) :
    Meets text (arrowFunction g ctx s₀.offset params isAsync) s (Made text Node.sketch s₀) := by
  refine .expect h₀.sound rfl fun s₁ h₁ => .step rfl ?_
  have ht₁ := h₀.took h₁
  have hfinish : ∀ {sketches : List Sketch} {s₂ : State}, Took text s₁ s₂ →
      AllPlaced text s₁.offset s₂.front sketches → Took text s₀ s₂ ∧
      AllPlaced text s₀.offset s₂.front
        (node (.ofOffsets s₀.offset s₂.consumed) (params.sketch ++ sketches)) := by
    intro sketches s₂ h₂ ho
    have ht := ht₁.trans h₂.kept
    exact ⟨ht, ht.node (placed_append h₀.offset_le (h₁.trans h₂.kept).toOnto hp
      (placed_from h₁.toOnto ho))⟩
  split
  · refine .bind (ownSuspensions_makes (hg.block_makes _) s₁ h₁.sound) fun body s₂ h₂ => ?_
    exact .step rfl (.pure (hfinish h₂.1 h₂.2))
  · refine .bind (ownSuspensions_makes (hg.value_makes _) s₁ h₁.sound) fun body s₂ h₂ => ?_
    exact .step rfl (.pure (hfinish h₂.1 h₂.2))

/-- A name as the only parameter lies where the name lies. -/
theorem placed_singleParameter {id : Identifier} {lo : Nat} {hi : Front}
    (h : AllPlaced text lo hi id.sketch) :
    AllPlaced text lo hi (singleParameter id).sketch := by
  obtain ⟨start, stop, hs, h1, h2, h3, h4, h5, h6, -⟩ := AllPlaced.of_owing h
  have hid : AllPlaced text start (hi.upTo stop) id.sketch := by
    rw [Identifier.sketch, hs]
    exact allPlaced_owing (Nat.le_refl _) h2 (Nat.le_refl _) h4 h5 h6 allPlaced_nil
  have hel : AllPlaced text start (hi.upTo stop)
      (Node.element id.span (.binding id) none).sketch := by
    show AllPlaced text start _ (owing id.span _ (id.sketch ++ []))
    have hn : AllPlaced text start (hi.upTo stop) (node (.ofOffsets start stop) id.sketch) :=
      allPlaced_node (Nat.le_refl _) h2 (Nat.le_refl _) h4 h5 hid
    rw [← hs] at hn
    rw [List.append_nil]
    exact hn.fact fun _ => rfl
  show AllPlaced text lo hi (node id.span (((Node.element id.span (.binding id) none).sketch ++
    []) ++ []))
  rw [List.append_nil, List.append_nil]
  have hparams := allPlaced_node h1 h2 h3 h4 h5 hel
  rw [← hs] at hparams
  exact hparams

end

end EcmaScript.Parser
