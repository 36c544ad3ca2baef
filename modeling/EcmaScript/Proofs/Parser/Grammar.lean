import EcmaScript.Proofs.Parser.Makes

/-!
# Nested constructs make nodes

The parsers one level further in are taken to make nodes. From this follows that those of
names, of plain expressions and of statements in braces do.
-/

namespace EcmaScript.Parser

open Sketch

/-- The parsers one level further in make what they are for. -/
structure Nested.Sound (text : String) (g : Nested) : Prop where
  statement : ∀ ctx, Makes text Node.sketch (g.statement ctx)
  expressionStatement : ∀ ctx, Makes text Node.sketch (g.expressionStatement ctx)
  bindingTarget : ∀ ctx, MakesWhole text Node.sketch Node.span (g.bindingTarget ctx)
  assignment : ∀ ctx, Makes text Node.sketch (g.assignment ctx)
  binary : ∀ ctx min, Makes text Node.sketch (g.binary ctx min)
  unary : ∀ ctx, Makes text Node.sketch (g.unary ctx)
  newCallee : ∀ ctx, Makes text Node.sketch (g.newCallee ctx)

/-- The parsers that a construct is made of make what they are for. -/
structure Grammar.Sound (text : String) (g : Grammar) :
    Prop extends Nested.Sound text g.toNested where
  heritage : ∀ ctx, Makes text Node.sketch (g.heritage ctx)

section

variable {text : String} {α : Type} {s : State}

/-- A token as a node of its own. -/
theorem takeAs_meets {make : Token → α} {f : α → List Sketch} {is : α → Token → Prop}
    (hf : ∀ t, f (make t) = leaf t.span (is (make t))) (hs : s.Sound text)
    (hk : isOrdinary s.lexer.token.kind = true) (ht : is (make s.lexer.token) s.lexer.token) :
    Meets text (take >>= fun t => pure (make t)) s (Made text f s) := by
  refine .bind (take_meets hs hk) fun t s₁ h => .pure ?_
  obtain ⟨rfl, h, hc, hm⟩ := h
  refine ⟨h, ?_⟩
  rw [hf, Token.span, ← hc]
  exact h.owing ⟨_, hm, ht⟩ allPlaced_nil

/-- A word that is taken is all of a name. -/
theorem takeIdentifier_meets (hs : s.Sound text)
    (hk : s.lexer.token.kind.isIdentifierName = true) :
    Meets text takeIdentifier s fun id s' =>
      Made text Identifier.sketch s id s' ∧ id.span = .ofOffsets s.offset s'.consumed := by
  have h : Meets text takeIdentifier s (Made text Identifier.sketch s) :=
    takeAs_meets (fun _ => rfl) hs (isOrdinary_of_isIdentifierName hk) ⟨hk, rfl, rfl⟩
  exact .of_ok rfl ⟨h, rfl⟩

/-- A private name that is taken is that token. -/
theorem takePrivateName_meets (hs : s.Sound text) (hk : s.lexer.token.kind = .privateName) :
    Meets text takePrivateName s (Made text (fun name => leaf name.span name.IsToken) s) :=
  takeAs_meets (fun _ => rfl) hs (by rw [hk]; rfl) ⟨hk, rfl, rfl⟩

/-- A number that is taken is that token. -/
theorem takeNumber_meets (hs : s.Sound text) (hk : s.lexer.token.kind = .number) :
    Meets text takeNumber s (Made text (fun literal => leaf literal.span literal.IsToken) s) :=
  takeAs_meets (fun _ => rfl) hs (by rw [hk]; rfl) ⟨hk, rfl, rfl, rfl⟩

/-- A big integer that is taken is that token. -/
theorem takeBigInt_meets (hs : s.Sound text) (hk : s.lexer.token.kind = .bigInt) :
    Meets text takeBigInt s (Made text (fun literal => leaf literal.span literal.IsToken) s) :=
  takeAs_meets (fun _ => rfl) hs (by rw [hk]; rfl) ⟨hk, rfl, rfl⟩

/-- A string that is taken is that token. -/
theorem takeString_meets (hs : s.Sound text) (hk : s.lexer.token.kind = .string) :
    Meets text takeString s (Made text (fun literal => leaf literal.span literal.IsToken) s) :=
  takeAs_meets (fun _ => rfl) hs (by rw [hk]; rfl) ⟨hk, rfl, rfl, rfl⟩

/-- A regular expression that is taken is that token. -/
theorem takeRegex_meets (hs : s.Sound text) (hk : s.lexer.token.kind = .regex) :
    Meets text takeRegex s (Made text (fun literal => leaf literal.span literal.IsToken) s) :=
  takeAs_meets (fun _ => rfl) hs (by rw [hk]; rfl) ⟨hk, rfl, rfl, rfl⟩

/-- Looking at a name takes no token. -/
theorem checkName_meets (ctx : Context) (k : TokenKind) (place : Nat) (hs : s.Sound text) :
    Meets text (checkName ctx k place) s fun _ s' => s' = s := by
  unfold checkName
  extract_lets reserved
  split
  · exact fail_meets hs _ rfl
  · exact .pure rfl

/-- A name is all of its token. -/
theorem identifier_makesWhole (ctx : Context) :
    MakesWhole text Identifier.sketch Identifier.span (identifier ctx) := by
  intro s hs
  refine .step rfl (.refuse (failHere_meets hs rfl) fun _ => ?_)
  refine .require (unexpected_meets hs) fun hk => ?_
  refine .bind (checkName_meets ctx _ _ hs) fun _ s₁ h₁ => ?_
  subst h₁
  exact takeIdentifier_meets hs (isIdentifierName_of_isIdentifierLike hk)

/-- A name lies between the ends of its token. -/
theorem identifier_makes (ctx : Context) : Makes text Identifier.sketch (identifier ctx) :=
  (identifier_makesWhole ctx).makes

/-- A value lies between its ends. -/
theorem Nested.Sound.value_makes {g : Nested} (hg : g.Sound text) (ctx : Context) :
    Makes text Node.sketch (g.value ctx) :=
  closed_makes (hg.assignment ctx)

/-- Expressions between commas lie between the ends of all of them. -/
theorem Nested.Sound.expressionOrCover_makes {g : Nested} (hg : g.Sound text) (ctx : Context) :
    Makes text Node.sketch (g.expressionOrCover ctx) := by
  intro s hs
  refine .step rfl (.bind (hg.assignment ctx s hs) fun first s₁ h₁ => .step rfl ?_)
  split
  · refine .bind (many_meets (commaItem_meets (hg.assignment ctx)) h₁.1.sound)
      fun more s₂ h₂ => .step rfl (.pure ?_)
    have ht := h₁.1.trans h₂.1
    refine ⟨ht, ht.node (placed_append h₁.1.offset_le h₂.1.toOnto h₁.2 ?_)⟩
    rw [Node.sketchExpressions_eq]
    exact h₂.2.placed
  · exact .pure h₁

/-- An expression lies between its ends. -/
theorem Nested.Sound.expression_makes {g : Nested} (hg : g.Sound text) (ctx : Context) :
    Makes text Node.sketch (g.expression ctx) :=
  closed_makes (hg.expressionOrCover_makes ctx)

/-- Statements follow each other up to the closing token. -/
theorem Nested.Sound.statementsUntil_meets {g : Nested} (hg : g.Sound text) (ctx : Context)
    (close : TokenKind) (hs : s.Sound text) :
    Meets text (g.statementsUntil ctx close) s fun body s' =>
      (Kept text s s' ∧ InOrder text Node.sketch s.offset s'.front body) ∧
        s'.lexer.token.kind = close := by
  refine many_meets_until (N := fun s' => s'.lexer.token.kind = close) (fun s hs => .step rfl ?_) hs
  split
  · rename_i hk
    exact .pure ⟨.refl hs, fun _ => eq_of_beq hk⟩
  · refine .step rfl ?_
    split
    · exact .cut (unexpected_meets hs)
    · exact .bind (hg.statement ctx s hs) fun _ _ h => .pure ⟨h, fun hn => absurd hn (by simp)⟩

/-- The statements of a block lie between its braces. -/
theorem Nested.Sound.block_makes {g : Nested} (hg : g.Sound text) (ctx : Context) :
    Makes text Node.sketch (g.block ctx) := by
  intro s hs
  refine .step rfl (.expect hs rfl fun s₁ h₁ => ?_)
  refine .bind (hg.statementsUntil_meets ctx _ h₁.sound) fun body s₂ h₂ => ?_
  refine .expect h₂.1.1.sound rfl fun s₃ h₃ => .step rfl (.pure ?_)
  have ht := h₁.trans (h₂.1.1.trans h₃.kept)
  refine ⟨ht, ht.node ?_⟩
  rw [Node.sketchStatements_eq]
  exact placed_from h₁.toOnto (placed_upTo h₃.toOnto h₂.1.2.placed)

end

end EcmaScript.Parser
