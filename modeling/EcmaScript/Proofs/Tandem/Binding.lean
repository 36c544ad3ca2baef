import EcmaScript.Proofs.Parser.Binding
import EcmaScript.Proofs.Tandem.Rereads
import EcmaScript.Proofs.Tandem.Tokens

/-!
# Declared patterns and functions in step

The parsers one level further in are taken to be followed. Lists that end at a closing token
look at it, so the stretch may not end right behind them.
-/

namespace EcmaScript.Parser

open Place

/-- Behind an expression that is no arrow function, the stretch may not end before a token that
still belongs to what the expression is part of. -/
def ends (belongs : TokenKind → Bool) (e : Expression) (s : State) : Prop :=
  e.isArrow = true ∨ belongs s.lexer.token.kind = false

/-- Whether a token is the operator `in`. A private name is always followed by it. -/
def isInOperator (ctx : Context) (k : TokenKind) : Bool := k == .word .inKw && !ctx.noIn

/-- Whether a token goes on with an operand, or with a private name. -/
def continues (ctx : Context) (k : TokenKind) : Bool := isSubscript k || isInOperator ctx k

/-- The parsers one level further in are followed on the other text. Where the word `let` is a
label, its colon is taken too. -/
structure Nested.Keeps (w : Tandem) (g : Nested) : Prop where
  sound : g.Sound w.text
  rereads : g.Rereads
  statement : ∀ {K : Prop} ctx s t, Concludes w K 1 (resting w) (Node.relocate w.relocation)
    (g.statement (ctx.widen w.base)) (g.statement (w.context ctx)) s t
  letLabel : ∀ {K : Prop} ctx s t, s.lexer.token.kind = .word .letKw →
    s.lexer.scan.token.kind = .mark .colon →
    Concludes w K 2 (resting w) (Node.relocate w.relocation)
      (g.statement (ctx.widen w.base)) (g.statement (w.context ctx)) s t
  expressionStatement : ∀ {K : Prop} ctx s t,
    Concludes w K 1 (resting w) (Node.relocate w.relocation)
    (g.expressionStatement (ctx.widen w.base)) (g.expressionStatement (w.context ctx)) s t
  bindingTarget : ∀ {K : Prop} ctx s t, Follows w K 1 anywhere (Node.relocate w.relocation)
    (g.bindingTarget (ctx.widen w.base)) (g.bindingTarget (w.context ctx)) s t
  assignment : ∀ {K : Prop} ctx s t, Follows w K 1 anywhere (Node.relocate w.relocation)
    (g.assignment (ctx.widen w.base)) (g.assignment (w.context ctx)) s t
  binary : ∀ {K : Prop} ctx min s t, Follows w K 1 (ends (isInOperator ctx))
    (Node.relocate w.relocation)
    (g.binary (ctx.widen w.base) min) (g.binary (w.context ctx) min) s t
  unary : ∀ {K : Prop} ctx s t, Follows w K 1 (ends (isInOperator ctx)) (Node.relocate w.relocation)
    (g.unary (ctx.widen w.base)) (g.unary (w.context ctx)) s t
  newCallee : ∀ {K : Prop} ctx s t, Follows w K 1 (ends (continues ctx))
    (Node.relocate w.relocation)
    (g.newCallee (ctx.widen w.base)) (g.newCallee (w.context ctx)) s t

section

variable {w : Tandem} {K : Prop} {α γ : Type} {φ : α → γ} {s t : State} {g : Nested}
  {close : TokenKind}

/-- A name that may stand in the first text may stand in the other. -/
theorem checkName_follows (ctx : Context) (k : TokenKind) {k' : TokenKind} (place place' : Nat)
    (hk : K → k' = k) : Follows w K 0 anywhere id (checkName (ctx.widen w.base) k place)
      (checkName (w.context ctx) k' place') s t := by
  refine .congr (r := checkName (w.context ctx) k place') ?_ fun h _ => by rw [hk h]
  unfold checkName
  exact .ite Iff.rfl (fun _ => .error fail_fails) fun _ => .pure rfl

/-- A name is the same one in both texts, elsewhere. -/
theorem identifier_follows (ctx : Context) : Follows w K 1 anywhere (Identifier.relocate w.span)
    (identifier (ctx.widen w.base)) (identifier (w.context ctx)) s t := by
  refine .read rfl rfl (.alike (.refuse failHere_fails (fun hk _ => ?_) fun _ => ?_))
  · rw [hk.2.twin.kind]
    exact id
  · refine .require unexpected_fails (fun hk _ h => ?_) fun hlike => ?_
    · rw [hk.2.twin.kind]
      exact h
    · refine .bind (checkName_follows ctx _ _ _ fun hk => hk.2.twin.kind) fun _ s₁ t₁ h₁ => ?_
      have hs₁ := ((checkName_meets _ _ _ h₁.before).ok h₁.run)
      refine takeIdentifier_follows ?_
      rw [hs₁]
      exact ne_endOfFile_of_isOrdinary (isOrdinary_of_isIdentifierLike hlike)

/-- Checking a name implies nothing. -/
theorem checkName_mute {ctx : Context} {k : TokenKind} {place : Nat} :
    Mute (checkName ctx k place) s := .ite (.of_fails fail_fails) .pure

/-- Reading a name implies nothing. -/
theorem identifier_mute {ctx : Context} : Mute (identifier ctx) s := by
  refine .bind (fun _ _ hrun => by cases hrun; rfl) fun _ _ _ => ?_
  refine .ite (.of_fails failHere_fails.bind) (.ite ?_ (.of_fails unexpected_fails.bind))
  exact .bind checkName_mute fun _ _ _ => takeIdentifier_mute

/-- Values are read in step. -/
theorem Nested.Keeps.value (hg : g.Keeps w) (ctx : Context) :
    Follows w K 1 anywhere (Node.relocate w.relocation) (g.value (ctx.widen w.base))
    (g.value (w.context ctx)) s t :=
  closed_follows fun _ s t => hg.assignment ctx s t

/-- One more item, if a comma announces it. -/
theorem commaItem_follows {item : Parser α} {item' : Parser γ}
    (h : ∀ (K : Prop) s t, Follows w K 1 anywhere φ item item' s t) (s t : State) :
    Follows w K 0 anywhere (Option.map φ)
      (do if ← eat (.mark .comma) then return some (← item) else return none)
      (do if ← eat (.mark .comma) then return some (← item') else return none) s t :=
  .eat rfl (fun s₁ t₁ _ _ _ => .map (h _ s₁ t₁) (fun _ => rfl) fun _ _ => id) fun _ => .pure rfl

/-- Expressions that may become patterns are read in step. -/
theorem Nested.Keeps.expressionOrCover (hg : g.Keeps w) (ctx : Context) (s t : State) :
    Follows w K 1 anywhere (Node.relocate w.relocation) (g.expressionOrCover (ctx.widen w.base))
      (g.expressionOrCover (w.context ctx)) s t := by
  refine .offset fun start _ => .andThen (hg.assignment ctx s t) fun first s₁ t₁ _ hb => ?_
  refine .isAt rfl (fun hk => ?_) fun _ => .pure rfl
  have hitem := fun (K : Prop) s t => hg.assignment (K := K) ctx s t
  refine .first (many_follows_taken (φ := Node.relocate w.relocation) (N := True) ?_
    (commaItem_follows hitem))
    fun more s₂ t₂ h₂ => .node (h₂.begun hb) fun span => ?_
  · refine .eat_taken rfl (fun s₂ t₂ _ _ _ => ?_) fun hne => absurd hk hne
    exact .map (hitem _ s₂ t₂) (fun _ => rfl) fun _ _ => id
  · show Node.sequence _ (List.map (Node.relocate w.relocation) (first :: more)) = _
    rw [← Node.mapExpressions_eq]
    rfl

/-- Expressions are read in step. -/
theorem Nested.Keeps.expression (hg : g.Keeps w) (ctx : Context) :
    Follows w K 1 anywhere (Node.relocate w.relocation) (g.expression (ctx.widen w.base))
      (g.expression (w.context ctx)) s t :=
  closed_follows fun _ s t => hg.expressionOrCover ctx s t

/-- Statements up to a closing token are read in step, and end where it stands. -/
theorem Nested.Keeps.statementsUntil (hg : g.Keeps w) (ctx : Context)
    (hclose : isFirm close = true ∨ close = .endOfFile) :
    Tracks w .behind .behind K 0 nowhere (List.map (Node.relocate w.relocation))
      (g.statementsUntil (ctx.widen w.base) close) (g.statementsUntil (w.context ctx)
      close) s t := by
  refine many_follows fun s t => .of_reread ?_ fun s => .isAt_nowhere (fun _ => .pure rfl)
    fun _ => .isAt_nowhere (fun _ => .error unexpected_fails.bind) fun _ => ?_
  · exact .isAt hclose (.isAt (Or.inr rfl) (.bind (hg.rereads.statement _)))
  · exact .map (hg.statement ctx s t) (fun _ => rfl) fun _ _ => False.elim

/-- Blocks are read in step. -/
theorem Nested.Keeps.block (hg : g.Keeps w) (ctx : Context) :
    Follows w K 1 anywhere (Node.relocate w.relocation) (g.block (ctx.widen w.base))
    (g.block (w.context ctx)) s t := by
  refine .offset fun start _ => .expect rfl fun s₁ t₁ _ _ => ?_
  refine .before (hg.statementsUntil ctx (Or.inl rfl)).starts fun body s₂ t₂ _ =>
    .expect_behind rfl fun s₃ t₃ _ hb => ?_
  exact .node hb fun span => by rw [← Node.mapStatements_eq]; rfl

/-- A list of items with commas up to a closing token. -/
theorem commaList_follows {item : Parser α} {item' : Parser γ}
    (h : ∀ (K : Prop) s t, Follows w K 1 nowhere φ item item' s t) :
    Follows w K 0 nowhere (List.map φ) (commaList close item) (commaList close item') s t := by
  refine many_follows fun s t => .isAt_nowhere (fun _ => .pure rfl) fun _ => ?_
  refine .within (h _ s t) fun a s₁ t₁ _ => .isAt_nowhere (fun _ => .pure rfl) fun _ => ?_
  exact .expect rfl fun s₂ t₂ _ _ => .pure rfl

/-- Keys of properties are read in step. -/
theorem propertyKey_follows (hg : g.Keeps w) (ctx : Context) (allowPrivate : Bool) :
    Follows w K 1 anywhere (Node.relocate w.relocation)
    (propertyKey g (ctx.widen w.base) allowPrivate)
      (propertyKey g (w.context ctx) allowPrivate) s t := by
  refine .kind ?_
  split
  · rename_i hk
    exact .map (takeString_follows (by simp [hk])) (fun _ => rfl) fun _ _ => id
  · rename_i hk
    exact .map (takeNumber_follows (by simp [hk])) (fun _ => rfl) fun _ _ => id
  · rename_i hk
    exact .map (takeBigInt_follows (by simp [hk])) (fun _ => rfl) fun _ _ => id
  · rename_i hk
    refine .andThen (advance_follows (by simp [hk])) fun _ s₁ t₁ _ _ => ?_
    refine .bind (hg.value ctx.allowIn) fun e s₂ t₂ _ => .expect rfl fun s₃ t₃ _ _ => .pure rfl
  · rename_i hk
    refine .ite Iff.rfl (fun _ => ?_) fun _ => .error unexpected_fails
    exact .map (takePrivateName_follows (by simp [hk])) (fun _ => rfl) fun _ _ => id
  · refine .ite Iff.rfl (fun hk => ?_) fun _ => .error unexpected_fails
    have hne := ne_endOfFile_of_isOrdinary (isOrdinary_of_isIdentifierName hk)
    exact .map (takeIdentifier_follows hne) (fun _ => rfl) fun _ _ => id

/-- The name that a key is when nothing follows it. -/
theorem shorthandName_follows (ctx : Context) {k k' : TokenKind} (place place' : Nat)
    (key : Node .propertyKey) (hk : K → k' = k) :
    Follows w K 0 anywhere (Identifier.relocate w.span)
    (shorthandName (ctx.widen w.base) k place key)
      (shorthandName (w.context ctx) k' place' (key.relocate w.relocation)) s t := by
  refine .congr (r := shorthandName (w.context ctx) k place' (key.relocate w.relocation)) ?_
    fun h _ => by rw [hk h]
  cases key with
  | identifierKey id =>
    refine .ite Iff.rfl (fun _ => ?_) fun _ => .ite Iff.rfl (fun _ => .error fail_fails) fun _ =>
      .error unexpected_fails
    exact .bind (checkName_follows ctx k _ _ fun _ => rfl) fun _ _ _ _ => .pure rfl
  | _ => exact .error unexpected_fails

/-- Initializers are read in step, and are missing in both texts or in none. -/
theorem optionalInitializer_follows (hg : g.Keeps w) (ctx : Context) :
    Follows w K 0 anywhere (Option.map (Node.relocate w.relocation))
      (optionalInitializer g (ctx.widen w.base)) (optionalInitializer g (w.context ctx)) s t :=
  .eat rfl (fun _ _ _ _ _ => .map (hg.value ctx) (fun _ => rfl) fun _ _ => id) fun _ => .pure rfl

/-- Elements of patterns are read in step. -/
theorem bindingElement_follows (hg : g.Keeps w) (ctx : Context) :
    Follows w K 1 anywhere (Node.relocate w.relocation) (bindingElement g (ctx.widen w.base))
      (bindingElement g (w.context ctx)) s t := by
  refine .offset fun start _ => .andThen (hg.bindingTarget ctx s t) fun target s₁ t₁ _ hb => ?_
  refine .bind (optionalInitializer_follows hg ctx.allowIn) fun init s₂ t₂ h₂ =>
    .node (h₂.begun hb) fun span => ?_
  rw [← Node.mapExpression?_eq]
  rfl

/-- The last part of a pattern, which looks at the closing token. -/
theorem bindingRest_follows {argument argument' : Parser Pattern}
    (hk : s.lexer.token.kind ≠ .endOfFile)
    (h : ∀ (K : Prop) s t, Follows w K 1 anywhere (Node.relocate w.relocation) argument
    argument' s t) :
    Follows w K 1 nowhere (Node.relocate w.relocation) (bindingRest argument close)
      (bindingRest argument' close) s t := by
  refine .offset fun start _ => .andThen (advance_follows hk) fun _ s₁ t₁ _ hb => ?_
  refine .bind (h _ s₁ t₁) fun a s₂ t₂ h₂ =>
    .span (h₂.begun hb) (.isAt_nowhere (fun _ => .pure rfl) fun _ => ?_)
  exact .error failHere_fails.bind

/-- A rest is read in step if there is one, and is missing in both texts else. -/
theorem optionalRest_follows {rest rest' : Parser (Node .rest)}
    (h : ∀ (K : Prop) s t, s.lexer.token.kind ≠ .endOfFile →
      Follows w K 1 nowhere (Node.relocate w.relocation) rest rest' s t) :
    Follows w K 0 nowhere (Option.map (Node.relocate w.relocation)) (optionalRest rest)
      (optionalRest rest') s t :=
  .isAt_nowhere (fun hk => .map (h _ s t (by simp [hk])) (fun _ => rfl) fun _ _ => id) fun _ =>
    .pure rfl

/-- Items that are read in step are so as a list in front of a rest. -/
theorem itemsBeforeRest_follows {item : Parser α} {item' : Parser γ}
    (h : ∀ (K : Prop) s t, Follows w K 1 anywhere φ item item' s t) :
    Follows w K 0 nowhere (List.map φ) (itemsBeforeRest close item)
      (itemsBeforeRest close item') s t := by
  refine many_follows fun s t => .isAt_nowhere (fun hk => ?_) fun hk => ?_
  · exact .isAt_nowhere (fun _ => .pure rfl) fun _ => .pure rfl
  · refine .isAt_nowhere (fun _ => .pure rfl) fun _ => .bind (h _ s t) fun a s₁ t₁ _ => ?_
    refine .isAt_nowhere (fun _ => .pure rfl) fun _ => .expect rfl fun s₂ t₂ _ _ => .pure rfl

/-- All elements of a pattern are read in step, holes among them. -/
theorem bindingElements_follows (hg : g.Keeps w) (ctx : Context) :
    Follows w K 0 nowhere (List.map (Option.map (Node.relocate w.relocation)))
      (bindingElements g (ctx.widen w.base)) (bindingElements g (w.context ctx)) s t := by
  refine many_follows fun s t => .kind_nowhere ?_
  split
  · exact .pure rfl
  · exact .pure rfl
  · rename_i hk
    exact .andThen (advance_follows (by simp [hk])) fun _ _ _ _ _ => .pure rfl
  · refine .bind (bindingElement_follows hg ctx) fun e s₁ t₁ _ => ?_
    refine .isAt_nowhere (fun _ => .pure rfl) fun _ => .expect rfl fun s₂ t₂ _ _ => .pure rfl

/-- Patterns for arrays are read in step. -/
theorem arrayBinding_follows (hg : g.Keeps w) (ctx : Context) :
    Follows w K 1 anywhere (Node.relocate w.relocation) (arrayBinding g (ctx.widen w.base))
      (arrayBinding g (w.context ctx)) s t := by
  refine .offset fun start _ => .expect rfl fun s₁ t₁ _ _ => ?_
  refine .before (bindingElements_follows hg ctx) fun elements s₂ t₂ _ => ?_
  refine .before (optionalRest_follows fun _ _ _ hk => bindingRest_follows hk fun _ s t =>
    hg.bindingTarget ctx s t) fun rest s₃ t₃ _ =>
      .expect rfl fun s₄ t₄ _ hb => .node hb fun span => ?_
  rw [← Node.mapOptionalElements_eq, ← Node.mapRest?_eq]
  rfl

/-- A property of an object pattern whose first token has the given kind and offset. -/
def bindingPropertyFrom (g : Nested) (ctx : Context) (k : TokenKind) (start : Nat) :
    Parser (Node .patternProperty) := do
  let key ← propertyKey g ctx false
  if ← eat (.mark .colon) then
    let value ← bindingElement g ctx
    return .patternProperty (← spanFrom start) key value false
  else
    let name ← shorthandName ctx k start key
    let initializer ← optionalInitializer g ctx.allowIn
    let span ← spanFrom start
    return .patternProperty span key (.element span (.binding name) initializer) true

/-- Properties of patterns are read in step. -/
theorem bindingProperty_follows (hg : g.Keeps w) (ctx : Context) :
    Follows w K 1 anywhere (Node.relocate w.relocation) (bindingProperty g (ctx.widen w.base))
      (bindingProperty g (w.context ctx)) s t := by
  refine .first_token (f := bindingPropertyFrom g (ctx.widen w.base)) (r := bindingPropertyFrom g
    (w.context ctx))
    (fun start _ => .andThen (propertyKey_follows hg ctx false) fun key s₁ t₁ _ hb => ?_) rfl rfl
  refine .eat rfl (fun s₂ t₂ _ _ hb₂ => ?_) fun _ => ?_
  · exact .bind (bindingElement_follows hg ctx) fun value s₃ t₃ h₃ =>
      .node (h₃.begun hb₂) fun _ => rfl
  · refine .bind (shorthandName_follows ctx _ _ key fun _ => rfl) fun name s₂ t₂ h₂ => ?_
    refine .bind (optionalInitializer_follows hg ctx.allowIn) fun init s₃ t₃ h₃ =>
      .span (h₃.begun (h₂.begun hb)) (.pure ?_)
    rw [← Node.mapExpression?_eq]
    rfl

/-- Patterns for objects are read in step. -/
theorem objectBinding_follows (hg : g.Keeps w) (ctx : Context) :
    Follows w K 1 anywhere (Node.relocate w.relocation) (objectBinding g (ctx.widen w.base))
      (objectBinding g (w.context ctx)) s t := by
  refine .offset fun start _ => .expect rfl fun s₁ t₁ _ _ => ?_
  refine .before (itemsBeforeRest_follows fun _ _ _ => bindingProperty_follows hg ctx)
    fun properties s₂ t₂ _ => ?_
  refine .before (optionalRest_follows fun _ _ _ hk => bindingRest_follows hk fun _ s t => ?_)
    fun rest s₃ t₃ _ => .expect rfl fun s₄ t₄ _ hb => .node hb fun span => ?_
  · exact .map (identifier_follows ctx) (fun _ => rfl) fun _ _ => id
  · rw [← Node.mapProperties_eq, ← Node.mapRest?_eq]
    rfl

/-- Names and patterns are read in step. -/
theorem bindingTarget_follows (hg : g.Keeps w) (ctx : Context) :
    Follows w K 1 anywhere (Node.relocate w.relocation) (bindingTarget g (ctx.widen w.base))
      (bindingTarget g (w.context ctx)) s t := by
  refine .kind ?_
  split
  · exact arrayBinding_follows hg ctx
  · exact objectBinding_follows hg ctx
  · exact .map (identifier_follows ctx) (fun _ => rfl) fun _ _ => id

/-- Rest parameters are read in step. -/
theorem restParameter_follows (hg : g.Keeps w) (ctx : Context)
    (hk : s.lexer.token.kind ≠ .endOfFile) :
    Follows w K 1 nowhere (Node.relocate w.relocation) (restParameter g (ctx.widen w.base))
      (restParameter g (w.context ctx)) s t := by
  refine .offset fun start _ => .andThen (advance_follows hk) fun _ s₁ t₁ _ hb => ?_
  refine .bind (hg.bindingTarget ctx s₁ t₁) fun argument s₂ t₂ h₂ => .kind_nowhere ?_
  split
  · exact .node (h₂.begun hb) fun _ => rfl
  · exact .error failHere_fails
  · exact .error failHere_fails
  · exact .error unexpected_fails

/-- Lists of parameters are read in step. -/
theorem formalParameters_follows (hg : g.Keeps w) (ctx : Context) :
    Follows w K 1 anywhere (Node.relocate w.relocation) (formalParameters g (ctx.widen w.base))
      (formalParameters g (w.context ctx)) s t := by
  let inner : Context := { ctx.allowIn with inParameters := true }
  refine .offset fun start _ => .expect rfl fun s₁ t₁ _ _ => ?_
  refine .before (itemsBeforeRest_follows fun _ _ _ => bindingElement_follows hg inner)
    fun params s₂ t₂ _ => ?_
  refine .before (optionalRest_follows fun _ _ _ hk => restParameter_follows hg inner hk)
    fun rest s₃ t₃ _ => .expect rfl fun s₄ t₄ _ hb => .node hb fun span => ?_
  rw [← Node.mapElements_eq, ← Node.mapRest?_eq]
  rfl

/-- There are as many parameters wherever they stand. -/
theorem parameterCount_relocate (f : Relocation) (params : Node .parameters) :
    (params.relocate f).parameterCount = params.parameterCount := by
  cases params with
  | parameters span params rest =>
    show (Node.parameters _ (Node.mapElements (.relocating f) params)
      (Node.mapRest? (.relocating f) rest)).parameterCount = _
    rw [Node.mapElements_eq, Node.mapRest?_eq]
    simp [Node.parameterCount]

/-- The number of parameters of an accessor is right in both texts or in none. -/
theorem checkAccessorParameters_follows (accessor : PropertyKind) (params : Node .parameters) :
    Follows w K 0 anywhere id (checkAccessorParameters accessor params)
      (checkAccessorParameters accessor (params.relocate w.relocation)) s t := by
  have hcount := parameterCount_relocate w.relocation params
  cases params with
  | parameters span params rest =>
    have hrest : (Node.mapRest? (.relocating w.relocation) rest).isSome = rest.isSome := by
      rw [Node.mapRest?_eq, Option.isSome_map]
    cases accessor with
    | init => exact .pure rfl
    | getter => exact .ite (by rw [hcount]) (fun _ => .error fail_fails) fun _ => .pure rfl
    | setter =>
      unfold checkAccessorParameters
      refine .refuse (r := fail _ .setterRest) fail_fails (fun _ _ h => ?_) fun _ => ?_
      · rwa [← hrest]
      · exact .ite (by rw [hcount]) (fun _ => .error fail_fails) fun _ => .pure rfl

/-- Parameters and body are read in step. -/
theorem parametersAndBody_follows (hg : g.Keeps w) (ctx : Context) (accessor : PropertyKind) :
    Follows w K 1 anywhere (fun r => (r.1.relocate w.relocation, r.2.relocate w.relocation))
      (parametersAndBody g (ctx.widen w.base) accessor) (parametersAndBody g (w.context ctx)
      accessor) s t := by
  refine ownSuspensions_follows fun _ s t => ?_
  refine .andThen (formalParameters_follows hg ctx) fun params s₁ t₁ _ _ => ?_
  refine .bind (checkAccessorParameters_follows accessor params) fun _ s₂ t₂ _ => ?_
  exact .map (hg.block ctx) (fun _ => rfl) fun _ _ => id

/-- The name of a function is read in step, if it has one. -/
theorem functionName_follows (ctx : Context) (isAsync isGenerator isDeclaration : Bool) :
    Follows w K 0 nowhere (Option.map (Identifier.relocate w.span))
      (functionName (ctx.widen w.base) isAsync isGenerator isDeclaration)
      (functionName (w.context ctx) isAsync isGenerator isDeclaration) s t := by
  have hname : ∀ ctx : Context, Follows w K 0 nowhere (Option.map (Identifier.relocate w.span))
      (do return some (← identifier (ctx.widen w.base)))
      (do return some (← identifier (w.context ctx))) s t :=
    fun ctx => .map (identifier_follows ctx) (fun _ => rfl) fun _ _ => False.elim
  have hchoice : ∀ unnamed : Bool, Follows w K 0 nowhere (Option.map (Identifier.relocate w.span))
      (if isDeclaration then do return some (← identifier (ctx.widen w.base))
        else if unnamed then return none
        else do
          return some
            (← identifier { ctx.widen w.base with canYield := isGenerator, canAwait := isAsync }))
      (if isDeclaration then do return some (← identifier (w.context ctx))
        else if unnamed then return none
        else do
          return some
            (← identifier { w.context ctx with canYield := isGenerator, canAwait := isAsync }))
      s t :=
    fun unnamed =>
      .ite Iff.rfl (fun _ => hname ctx) fun _ => .ite Iff.rfl (fun _ => .pure rfl) fun _ =>
      hname { ctx with canYield := isGenerator, canAwait := isAsync }
  exact .isAt_nowhere (fun _ => hchoice true) fun _ => hchoice false

/-- A function starts with the words before it. -/
theorem functionDefinition_follows (hg : g.Keeps w) (ctx : Context) (start : Nat)
    (isAsync isDeclaration : Bool) : Follows w K 1 anywhere (Node.relocate w.relocation)
      (functionDefinition g (ctx.widen w.base) start isAsync isDeclaration)
      (functionDefinition g (w.context ctx) (w.start start) isAsync isDeclaration) s t := by
  rw [functionDefinition_eq, functionDefinition_eq]
  refine .expect rfl fun s₁ t₁ _ _ => .bind (eat_follows rfl) fun isGenerator s₂ t₂ _ => ?_
  refine .before (functionName_follows ctx isAsync isGenerator isDeclaration) fun name s₃ t₃ _ => ?_
  refine .andThen (parametersAndBody_follows hg (ctx.function isAsync isGenerator) .init)
    fun r s₄ t₄ _ hb => .node hb fun _ => rfl

/-- Methods are read in step. -/
theorem methodFunction_follows (hg : g.Keeps w) (ctx : Context) (isAsync isGenerator : Bool)
    (accessor : PropertyKind) (superCall : Bool) : Follows w K 1 anywhere
    (Node.relocate w.relocation)
      (methodFunction g (ctx.widen w.base) isAsync isGenerator accessor superCall)
      (methodFunction g (w.context ctx) isAsync isGenerator accessor superCall) s t := by
  refine .offset fun start _ => ?_
  exact .andThen (parametersAndBody_follows hg (ctx.method isAsync isGenerator superCall) accessor)
    fun _ s₁ t₁ _ hb => .node hb fun _ => rfl

/-- An arrow function starts with its parameters. -/
theorem arrowFunction_follows (hg : g.Keeps w) (ctx : Context) (start : Nat)
    (params : Node .parameters) (isAsync : Bool) : Follows w K 1 anywhere
    (Node.relocate w.relocation)
      (arrowFunction g (ctx.widen w.base) start params isAsync)
      (arrowFunction g (w.context ctx) (w.start start) (params.relocate w.relocation)
      isAsync) s t := by
  refine .expect rfl fun s₁ t₁ _ hb => .isAt rfl (fun _ => ?_) fun _ => ?_
  · refine .first (ownSuspensions_follows fun _ _ _ => hg.block (ctx.arrow isAsync).allowIn)
      fun body s₂ t₂ h₂ => .node (h₂.begun hb) fun _ => rfl
  · refine .bind (ownSuspensions_follows fun _ _ _ => hg.value (ctx.arrow isAsync))
      fun body s₂ t₂ h₂ => .node (h₂.begun hb) fun _ => rfl

end

end EcmaScript.Parser
