import EcmaScript.Parser.Loop
import EcmaScript.Proofs.Parser.Expression

/-!
# Statements make nodes

Declarations, jumps, loops and all other statements. A statement reaches from its first
token to its last, which may be its semicolon.
-/

namespace EcmaScript.Parser

open Sketch

section

variable {text : String} {s s₀ : State} {g : Nested}

/-- Looking at the value of a declaration takes no token. -/
theorem checkInitializer_meets (variableKind : VariableKind) (d : Node .declarator)
    (hs : s.Sound text) :
    Meets text (checkInitializer variableKind d) s fun _ s' => s' = s := by
  cases d with
  | declarator span target init =>
    unfold checkInitializer
    refine .ite (fun _ => ?_) fun _ => .pure rfl
    cases target with
    | binding id => exact .ite (fun _ => fail_meets hs _ rfl) fun _ => .pure rfl
    | _ => exact fail_meets hs _ rfl

/-- Checks that a declared name can be declared by the word before it. -/
def checkBoundNames (variableKind : VariableKind) (target : Pattern) : Parser Unit := do
  if variableKind.isLexical then
    if let some id := target.boundNames.find? (·.name == "let") then
      fail (Position.offset id.span.start) .letAsBoundName

/-- A declared pattern in parts. -/
theorem declarator_eq (g : Nested) (ctx : Context) (variableKind : VariableKind) :
    declarator g ctx variableKind = (do
      let start ← offset
      let target ← g.bindingTarget ctx
      checkBoundNames variableKind target
      let init ← optionalInitializer g ctx
      return .declarator (← spanFrom start) target init) := by
  unfold declarator
  congr 1
  funext start
  congr 1
  funext target
  cases hfind : target.boundNames.find? (·.name == "let") <;>
    simp only [checkBoundNames, hfind, ite_bind, pure_bind]

/-- Looking at declared names takes no token. -/
theorem checkBoundNames_meets (variableKind : VariableKind) (target : Pattern)
    (hs : s.Sound text) :
    Meets text (checkBoundNames variableKind target) s fun _ s' => s' = s := by
  unfold checkBoundNames
  refine .ite (fun _ => ?_) fun _ => .pure rfl
  cases target.boundNames.find? (·.name == "let") with
  | none => exact .pure rfl
  | some id => exact fail_meets hs _ rfl

/-- A declared pattern and its value lie between their ends. -/
theorem declarator_makes (hg : g.Sound text) (ctx : Context) (variableKind : VariableKind) :
    Makes text Node.sketch (declarator g ctx variableKind) := by
  intro s hs
  rw [declarator_eq]
  refine .step rfl (.bind ((hg.bindingTarget ctx).makes s hs) fun target s₁ h₁ => ?_)
  refine .bind (checkBoundNames_meets variableKind target h₁.1.sound) fun _ s₂ h₂ => ?_
  subst h₂
  refine .bind (optionalInitializer_meets hg ctx h₁.1.sound) fun init s₃ h₃ => .step rfl (.pure ?_)
  replace h₃ := h₃.1
  have ht := h₁.1.trans h₃.1
  exact ⟨ht, ht.node (placed_append h₁.1.offset_le h₃.1.toOnto h₁.2 h₃.2)⟩

/-- Declarations lie behind their word. -/
theorem declarators_meets (hg : g.Sound text) (ctx : Context) (variableKind : VariableKind)
    {check : Node .declarator → Parser Unit}
    (hcheck : ∀ d s, s.Sound text → Meets text (check d) s fun _ s' => s' = s)
    (hs : s.Sound text) (hk : isOrdinary s.lexer.token.kind = true) :
    Meets text (declarators g ctx variableKind check) s (Made text Node.sketchDeclarators s) := by
  have hchecked : Makes text Node.sketch (do
      let d ← declarator g ctx variableKind
      check d
      return d) := by
    intro s hs
    refine .bind (declarator_makes hg ctx variableKind s hs) fun d s₁ h₁ => ?_
    refine .bind (hcheck d s₁ h₁.1.sound) fun _ s₂ h₂ => ?_
    subst h₂
    exact .pure h₁
  refine .bind (advance_meets hs hk) fun _ s₁ h₁ => ?_
  refine .bind (hchecked s₁ h₁.1.sound) fun first s₂ h₂ => ?_
  refine .bind (many_meets (commaItem_meets hchecked) h₂.1.sound) fun more s₃ h₃ => .pure ?_
  have ht₂ := h₁.1.trans h₂.1.kept
  have hmore : AllPlaced text s₂.offset s₃.front (Node.sketchDeclarators more) := by
    rw [Node.sketchDeclarators_eq]
    exact h₃.2.placed
  refine ⟨ht₂.trans h₃.1, placed_from h₁.1.toOnto ?_⟩
  exact placed_append h₂.1.offset_le h₃.1.toOnto h₂.2 hmore

/-- A declaration and its semicolon lie between the ends of the statement. -/
theorem variableStatement_meets (hg : g.Sound text) (ctx : Context) (variableKind : VariableKind)
    (hs : s.Sound text) (hk : isOrdinary s.lexer.token.kind = true) :
    Meets text (variableStatement g ctx variableKind) s (Made text Node.sketch s) := by
  refine .step rfl (.bind (declarators_meets hg _ variableKind
    (fun d s hs => checkInitializer_meets variableKind d hs) hs hk) fun ds s₁ h₁ => ?_)
  exact .bind (semicolon_meets h₁.1.sound) fun _ s₂ h₂ => .step rfl (.pure (h₁.1.ended h₂ h₁.2))

/-- A declaration in the head of a loop lies between its ends. -/
theorem headDeclaration_meets (hg : g.Sound text) (ctx : Context) (variableKind : VariableKind)
    (hs : s.Sound text) (hk : isOrdinary s.lexer.token.kind = true) :
    Meets text (headDeclaration g ctx variableKind) s (Made text Node.sketch s) := by
  refine .step rfl (.bind (declarators_meets hg _ variableKind (fun _ _ _ => .pure rfl) hs hk)
    fun ds s₁ h₁ => .step rfl (.pure ?_))
  exact ⟨h₁.1, h₁.1.node h₁.2⟩

/-- A condition lies between its parentheses. -/
theorem condition_makes (hg : g.Sound text) (ctx : Context) :
    Makes text Node.sketch (condition g ctx) := by
  intro s hs
  refine .expect hs rfl fun s₁ h₁ => ?_
  refine .bind (hg.expression_makes _ s₁ h₁.sound) fun test s₂ h₂ => ?_
  exact .expect h₂.1.sound rfl fun s₃ h₃ => .pure ((h₂.from h₁.toOnto).upTo h₃.kept)

/-- A statement in another one lies between its ends. -/
theorem substatement_makes (hg : g.Sound text) (ctx : Context) :
    Makes text Node.sketch (substatement g ctx) := by
  intro s hs
  refine .step rfl ?_
  split
  · exact unexpected_meets hs
  · exact unexpected_meets hs
  · refine .step rfl (.refuse (unexpected_meets hs) fun _ => ?_)
    exact .ite (fun _ => hg.statement ctx s hs) fun _ => hg.expressionStatement ctx s hs
  · exact hg.statement ctx s hs

/-- The body of a loop lies between its ends. -/
theorem loopBody_makes (hg : g.Sound text) (ctx : Context) :
    Makes text Node.sketch (loopBody g ctx) := substatement_makes hg _

/-- An expression and its semicolon lie between the ends of the statement. -/
theorem expressionStatement_makes (hg : g.Sound text) (ctx : Context) :
    Makes text Node.sketch (expressionStatement g ctx) := by
  intro s hs
  refine .step rfl (.bind (hg.expression_makes _ s hs) fun e s₁ h₁ => ?_)
  exact .bind (semicolon_meets h₁.1.sound) fun _ s₂ h₂ => .step rfl (.pure (h₁.1.ended h₂ h₁.2))

/-- The condition and the statements lie between the ends of the whole. -/
theorem ifStatement_meets (hg : g.Sound text) (ctx : Context) (hs : s.Sound text)
    (hk : isOrdinary s.lexer.token.kind = true) :
    Meets text (ifStatement g ctx) s (Made text Node.sketch s) := by
  refine .step rfl (.bind (advance_meets hs hk) fun _ s₁ h₁ => ?_)
  refine .bind (condition_makes hg ctx s₁ h₁.1.sound) fun test s₂ h₂ => ?_
  refine .bind (substatement_makes hg ctx s₂ h₂.1.sound) fun consequent s₃ h₃ => ?_
  have ht₂ := h₁.1.trans h₂.1.kept
  have htest := placed_from h₁.1.toOnto h₂.2
  refine .eat h₃.1.sound rfl (fun s₄ h₄ _ => ?_) (.step rfl (.pure ?_))
  · refine .bind (substatement_makes hg ctx s₄ h₄.sound) fun alternate s₅ h₅ => .step rfl (.pure ?_)
    have hlast := h₄.trans h₅.1.kept
    exact ht₂.attached htest (h₃.1.trans hlast.kept)
      (placed_append h₃.1.offset_le hlast.toOnto h₃.2 (placed_from h₄.toOnto h₅.2))
  · exact ht₂.attached htest h₃.1 h₃.2

/-- The condition and the body lie between the ends of the loop. -/
theorem whileStatement_meets (hg : g.Sound text) (ctx : Context) (hs : s.Sound text)
    (hk : isOrdinary s.lexer.token.kind = true) :
    Meets text (whileStatement g ctx) s (Made text Node.sketch s) := by
  refine .step rfl (.bind (advance_meets hs hk) fun _ s₁ h₁ => ?_)
  refine .bind (condition_makes hg ctx s₁ h₁.1.sound) fun test s₂ h₂ => ?_
  refine .bind (loopBody_makes hg ctx s₂ h₂.1.sound) fun body s₃ h₃ => .step rfl (.pure ?_)
  exact (h₁.1.trans h₂.1.kept).attached (placed_from h₁.1.toOnto h₂.2) h₃.1 h₃.2

/-- The body and the condition lie between the ends of the loop. -/
theorem doStatement_meets (hg : g.Sound text) (ctx : Context) (hs : s.Sound text)
    (hk : isOrdinary s.lexer.token.kind = true) :
    Meets text (doStatement g ctx) s (Made text Node.sketch s) := by
  refine .step rfl (.bind (advance_meets hs hk) fun _ s₁ h₁ => ?_)
  refine .bind (loopBody_makes hg ctx s₁ h₁.1.sound) fun body s₂ h₂ => ?_
  refine .expect h₂.1.sound rfl fun s₃ h₃ => ?_
  refine .bind (condition_makes hg ctx s₃ h₃.sound) fun test s₄ h₄ => ?_
  refine .bind (optionalSemicolon_meets h₄.1.sound) fun _ s₅ h₅ => .step rfl (.pure ?_)
  have ht := h₃.trans h₄.1.kept
  have hparts := placed_append h₂.1.offset_le ht.toOnto h₂.2 (placed_from h₃.toOnto h₄.2)
  exact ((h₁.1.trans h₂.1.kept).trans ht.kept).ended h₅ (placed_from h₁.1.toOnto hparts)

/-- The object and the body lie between the ends of the statement. -/
theorem withStatement_meets (hg : g.Sound text) (ctx : Context) (hs : s.Sound text)
    (hk : isOrdinary s.lexer.token.kind = true) :
    Meets text (withStatement g ctx) s (Made text Node.sketch s) := by
  refine .step rfl (.bind (advance_meets hs hk) fun _ s₁ h₁ => ?_)
  refine .bind (condition_makes hg ctx s₁ h₁.1.sound) fun object s₂ h₂ => ?_
  refine .bind (substatement_makes hg ctx s₂ h₂.1.sound) fun body s₃ h₃ => .step rfl (.pure ?_)
  exact (h₁.1.trans h₂.1.kept).attached (placed_from h₁.1.toOnto h₂.2) h₃.1 h₃.2

/-- What a statement ends with: its semicolon, which may be implied. -/
theorem semicolon_finish {f : Span → Statement} {parts : List Sketch} (h₀ : Took text s₀ s)
    (hf : ∀ span, (f span).sketch = Sketch.owing span .ending parts)
    (hp : AllPlaced text s₀.offset s.front parts) :
    Meets text (do
      semicolon
      return f (← spanFrom s₀.offset)) s (Made text Node.sketch s₀) := by
  refine .bind (semicolon_meets h₀.sound) fun _ s₁ h₁ => .step rfl (.pure ?_)
  have ht := h₀.ended h₁ hp
  rwa [← hf] at ht

/-- What is returned lies behind its word, if there is anything. -/
theorem returnStatement_meets (hg : g.Sound text) (ctx : Context) (hs : s.Sound text)
    (hk : isOrdinary s.lexer.token.kind = true) :
    Meets text (returnStatement g ctx) s (Made text Node.sketch s) := by
  refine .step rfl (.require (failHere_meets hs rfl) fun _ => ?_)
  refine .bind (advance_meets hs hk) fun _ s₁ h₁ =>
    .step rfl (.step rfl (.ite (fun _ => ?_) fun _ => ?_))
  · exact .step rfl (semicolon_finish (f := (.returnValue · none)) h₁.1 (fun _ => rfl)
      allPlaced_nil)
  · refine .bind (hg.expression_makes _ s₁ h₁.1.sound) fun e s₂ h₂ => .step rfl ?_
    exact semicolon_finish (f := (.returnValue · (some e))) (h₁.1.trans h₂.1.kept) (fun _ => rfl)
      (placed_from h₁.1.toOnto h₂.2)

/-- The label of a jump is one token, if there is one. -/
theorem jumpLabel_meets (ctx : Context) (hs : s.Sound text) :
    Meets text (jumpLabel ctx) s fun label s' => Kept text s s' ∧
      AllPlaced text s.offset s'.front (label.toList.flatMap Identifier.sketch) := by
  refine .step rfl (.step rfl (.ite (fun _ => .pure ⟨.refl hs, allPlaced_nil⟩) fun _ => ?_))
  refine .bind (identifier_makes ctx s hs) fun id s₁ h₁ => .pure ⟨h₁.1.kept, ?_⟩
  rw [Option.toList_some, List.flatMap_singleton]
  exact h₁.2

/-- Checks that there is something to break from. -/
def checkBreak (ctx : Context) (start : Nat) (label : Option Identifier) : Parser Unit := do
  match label with
  | some id =>
    if (ctx.label? id.name).isNone then
      fail (Position.offset id.span.start) (.undefinedLabel id.name)
  | none => unless ctx.inBreakable do fail start .illegalBreak

/-- A jump behind a statement in parts. -/
theorem breakStatement_eq (ctx : Context) : breakStatement ctx = (do
    let start ← offset
    advance
    let label ← jumpLabel ctx
    checkBreak ctx start label
    semicolon
    return .breakFrom (← spanFrom start) label) := by
  unfold breakStatement
  congr 1
  funext start
  congr 1
  funext _
  congr 1
  funext label
  cases label <;> simp only [checkBreak, ite_bind, pure_bind]

/-- Checks that there is a loop to continue. -/
def checkContinue (ctx : Context) (start : Nat) (label : Option Identifier) : Parser Unit := do
  match label with
  | some id =>
    match ctx.label? id.name with
    | none => fail (Position.offset id.span.start) (.undefinedLabel id.name)
    | some target => unless target.isLoop do fail start .illegalContinue
  | none => unless ctx.inLoop do fail start .illegalContinue

/-- A jump to the next round of a loop in parts. -/
theorem continueStatement_eq (ctx : Context) : continueStatement ctx = (do
    let start ← offset
    advance
    let label ← jumpLabel ctx
    checkContinue ctx start label
    semicolon
    return .continueWith (← spanFrom start) label) := by
  unfold continueStatement
  congr 1
  funext start
  congr 1
  funext _
  congr 1
  funext label
  cases label with
  | none => simp only [checkContinue, ite_bind, pure_bind]
  | some id =>
    cases hl : ctx.label? id.name <;> simp only [checkContinue, hl, ite_bind, pure_bind]

/-- Looking at a jump takes no token. -/
theorem checkBreak_meets (ctx : Context) (start : Nat) (label : Option Identifier)
    (hs : s.Sound text) : Meets text (checkBreak ctx start label) s fun _ s' => s' = s := by
  unfold checkBreak
  cases label with
  | some id => exact .ite (fun _ => fail_meets hs _ rfl) fun _ => .pure rfl
  | none => exact .ite (fun _ => .pure rfl) fun _ => fail_meets hs _ rfl

/-- Looking at a jump that continues a loop takes no token. -/
theorem checkContinue_meets (ctx : Context) (start : Nat) (label : Option Identifier)
    (hs : s.Sound text) : Meets text (checkContinue ctx start label) s fun _ s' => s' = s := by
  unfold checkContinue
  cases label with
  | some id =>
    cases hl : ctx.label? id.name with
    | none =>
      simp only [hl]
      exact fail_meets hs _ rfl
    | some target =>
      simp only [hl]
      exact .ite (fun _ => .pure rfl) fun _ => fail_meets hs _ rfl
  | none => exact .ite (fun _ => .pure rfl) fun _ => fail_meets hs _ rfl

/-- A jump, its label and its semicolon lie between the ends of the statement. -/
theorem breakStatement_meets (ctx : Context) (hs : s.Sound text)
    (hk : isOrdinary s.lexer.token.kind = true) :
    Meets text (breakStatement ctx) s (Made text Node.sketch s) := by
  rw [breakStatement_eq]
  refine .step rfl (.bind (advance_meets hs hk) fun _ s₁ h₁ => ?_)
  refine .bind (jumpLabel_meets ctx h₁.1.sound) fun label s₂ h₂ => ?_
  refine .bind (checkBreak_meets ctx _ label h₂.1.sound) fun _ s₃ h₃ => ?_
  subst h₃
  exact semicolon_finish (f := (.breakFrom · label)) (h₁.1.trans h₂.1) (fun _ => rfl)
    (placed_from h₁.1.toOnto h₂.2)

/-- A jump that continues a loop lies between its ends. -/
theorem continueStatement_meets (ctx : Context) (hs : s.Sound text)
    (hk : isOrdinary s.lexer.token.kind = true) :
    Meets text (continueStatement ctx) s (Made text Node.sketch s) := by
  rw [continueStatement_eq]
  refine .step rfl (.bind (advance_meets hs hk) fun _ s₁ h₁ => ?_)
  refine .bind (jumpLabel_meets ctx h₁.1.sound) fun label s₂ h₂ => ?_
  refine .bind (checkContinue_meets ctx _ label h₂.1.sound) fun _ s₃ h₃ => ?_
  subst h₃
  exact semicolon_finish (f := (.continueWith · label)) (h₁.1.trans h₂.1) (fun _ => rfl)
    (placed_from h₁.1.toOnto h₂.2)

/-- What is thrown lies behind its word. -/
theorem throwStatement_meets (hg : g.Sound text) (ctx : Context) (hs : s.Sound text)
    (hk : isOrdinary s.lexer.token.kind = true) :
    Meets text (throwStatement g ctx) s (Made text Node.sketch s) := by
  refine .step rfl (.bind (advance_meets hs hk) fun _ s₁ h₁ => .step rfl ?_)
  refine .refuse (fail_meets h₁.1.sound _ rfl) fun _ => ?_
  refine .bind (hg.expression_makes _ s₁ h₁.1.sound) fun e s₂ h₂ => ?_
  exact semicolon_finish (f := (.throwValue · e)) (h₁.1.trans h₂.1.kept) (fun _ => rfl)
    (placed_from h₁.1.toOnto h₂.2)

/-- What a handler binds, if it binds something. -/
def catchParameter (g : Nested) (ctx : Context) : Parser (Option Pattern) := do
  if ← eat (.mark .openParen) then
    let target ← g.bindingTarget ctx
    expect (.mark .closeParen)
    return some target
  else return none

/-- A handler in parts. -/
theorem catchClause_eq (g : Nested) (ctx : Context) : catchClause g ctx = (do
    let start ← offset
    advance
    let param ← catchParameter g ctx
    let body ← g.block ctx
    return .catchClause (← spanFrom start) param body 0) := by
  simp only [catchClause, catchParameter, ite_bind, pure_bind, bind_assoc]

/-- What is caught may be bound to a pattern in parentheses. -/
theorem catchParameter_meets (hg : g.Sound text) (ctx : Context) (hs : s.Sound text) :
    Meets text (catchParameter g ctx) s fun p s' => Kept text s s' ∧
      AllPlaced text s.offset s'.front (Node.sketchPattern? p) := by
  refine .eat hs rfl (fun s₁ h₁ _ => ?_) (.pure ⟨.refl hs, allPlaced_nil⟩)
  refine .bind ((hg.bindingTarget ctx).makes s₁ h₁.sound) fun target s₂ h₂ => ?_
  refine .expect h₂.1.sound rfl fun s₃ h₃ => .pure ?_
  have hm := (h₂.from h₁.toOnto).upTo h₃.kept
  exact ⟨hm.1.kept, hm.2⟩

/-- A handler lies between its word and its closing brace. -/
theorem catchClause_meets (hg : g.Sound text) (ctx : Context) (hs : s.Sound text)
    (hk : isOrdinary s.lexer.token.kind = true) :
    Meets text (catchClause g ctx) s (Made text Node.sketch s) := by
  rw [catchClause_eq]
  refine .step rfl (.bind (advance_meets hs hk) fun _ s₁ h₁ => ?_)
  refine .bind (catchParameter_meets hg ctx h₁.1.sound) fun param s₂ h₂ => ?_
  refine .bind (hg.block_makes ctx s₂ h₂.1.sound) fun body s₃ h₃ => .step rfl (.pure ?_)
  exact (h₁.1.trans h₂.1).attached (placed_from h₁.1.toOnto h₂.2) h₃.1 h₃.2

/-- The handler of a block, if it has one. -/
def tryHandler (g : Nested) (ctx : Context) : Parser (Option (Node .catchClause)) := do
  if ← isAt (.word .catchKw) then return some (← catchClause g ctx) else return none

/-- The block that is always executed, if there is one. -/
def tryFinalizer (g : Nested) (ctx : Context) : Parser (Option (Node .block)) := do
  if ← eat (.word .finallyKw) then return some (← g.block ctx) else return none

/-- A guarded block in parts. -/
theorem tryStatement_eq (g : Nested) (ctx : Context) : tryStatement g ctx = (do
    let start ← offset
    advance
    let body ← g.block ctx
    let handler ← tryHandler g ctx
    let finalizer ← tryFinalizer g ctx
    match handler, finalizer with
    | some handler, _ => return .tryCatch (← spanFrom start) body handler finalizer
    | none, some finalizer => return .tryFinally (← spanFrom start) body finalizer
    | none, none => failHere .tryAlone) := by
  simp only [tryStatement, tryHandler, tryFinalizer, ite_bind, pure_bind, bind_assoc]

/-- A block, its handler and its end lie between the ends of the statement. -/
theorem tryStatement_meets (hg : g.Sound text) (ctx : Context) (hs : s.Sound text)
    (hk : isOrdinary s.lexer.token.kind = true) :
    Meets text (tryStatement g ctx) s (Made text Node.sketch s) := by
  rw [tryStatement_eq]
  refine .step rfl (.bind (advance_meets hs hk) fun _ s₁ h₁ => ?_)
  refine .bind (hg.block_makes ctx s₁ h₁.1.sound) fun body s₂ h₂ => ?_
  refine .bind (P := fun handler s' => Kept text s₂ s' ∧ ∀ h, handler = some h →
    Made text Node.sketch s₂ h s') ?_ fun handler s₃ h₃ => ?_
  · refine .step rfl (.ite (fun hk => ?_) fun _ => .pure ⟨.refl h₂.1.sound, by simp⟩)
    refine .bind (catchClause_meets hg ctx h₂.1.sound (by rw [eq_of_beq hk]; rfl)) fun h s' hm => ?_
    exact .pure ⟨hm.1.kept, fun _ he => Option.some.inj he ▸ hm⟩
  refine .bind (P := fun finalizer s' => Kept text s₃ s' ∧
    AllPlaced text s₃.offset s'.front (Node.sketchBlock? finalizer) ∧
    (finalizer.isSome → Took text s₃ s')) ?_ fun finalizer s₄ h₄ => ?_
  · refine .eat h₃.1.sound rfl (fun s' h' _ => ?_)
      (.pure ⟨.refl h₃.1.sound, allPlaced_nil, fun h => absurd h (by simp)⟩)
    refine .bind (hg.block_makes ctx s' h'.sound) fun b s'' h'' => .pure ?_
    have hm := h''.from h'.toOnto
    exact ⟨hm.1.kept, hm.2, fun _ => hm.1⟩
  have ht₂ := h₁.1.trans h₂.1.kept
  have hbody := placed_from h₁.1.toOnto h₂.2
  cases handler with
  | some handler =>
    obtain ⟨hk₃, hm₃⟩ := h₃
    refine .step rfl (.pure ?_)
    obtain ⟨ht₃, hhandler⟩ := hm₃ handler rfl
    exact ht₂.attached hbody (ht₃.trans h₄.1)
      (placed_append ht₃.offset_le h₄.1.toOnto hhandler h₄.2.1)
  | none =>
    cases finalizer with
    | some finalizer =>
      refine .step rfl (.pure ?_)
      exact ht₂.attached hbody (h₃.1.toOnto.took (h₄.2.2 rfl)) (placed_from h₃.1.toOnto h₄.2.1)
    | none => exact failHere_meets h₄.1.sound rfl

/-- The statements of a case lie behind its colon. -/
theorem caseBody_meets (hg : g.Sound text) (ctx : Context) (hs : s.Sound text) :
    Meets text (caseBody g ctx) s fun body s' => Kept text s s' ∧
      AllPlaced text s.offset s'.front (Node.sketchStatements body) := by
  refine (many_meets (f := Node.sketch) (fun s hs => .step rfl ?_) hs).imp
    fun body s' h => ⟨h.1, ?_⟩
  · split
    · exact .pure (.refl hs)
    · exact .pure (.refl hs)
    · exact .pure (.refl hs)
    · exact unexpected_meets hs
    · exact .bind (hg.statement ctx s hs) fun _ _ h => .pure h
  · rw [Node.sketchStatements_eq]
    exact h.2.placed

/-- The value of a case lies behind its word, if it is no default. -/
theorem caseTest_meets (hg : g.Sound text) (ctx : Context) (seenDefault : Bool)
    (hs : s.Sound text) :
    Meets text (caseTest g ctx seenDefault) s (Made text Node.sketchExpression? s) := by
  refine .step rfl ?_
  split
  · rename_i hk
    refine .bind (advance_meets hs (by rw [hk]; rfl)) fun _ s₁ h₁ => ?_
    exact .bind (hg.expression_makes _ s₁ h₁.1.sound) fun e s₂ h₂ => .pure (h₂.from h₁.1.toOnto)
  · rename_i hk
    refine .refuse (failHere_meets hs rfl) fun _ => ?_
    exact .bind (advance_meets hs (by rw [hk]; rfl)) fun _ _ h => .pure ⟨h.1, allPlaced_nil⟩
  · exact unexpected_meets hs

/-- The cases of a switch lie behind its brace. -/
theorem switchCases_meets (hg : g.Sound text) (ctx : Context) (hs : s.Sound text) :
    Meets text (switchCases g ctx) s fun cases s' => Kept text s s' ∧
      AllPlaced text s.offset s'.front (Node.sketchCases cases) := by
  refine iterate_meets (I := fun a s₁ => Kept text s s₁ ∧
    InOrder text Node.sketch s.offset s₁.front a.1.reverse)
    (fun _ _ h => h.1.sound) ?_ ⟨.refl hs, .nil⟩
  rintro ⟨found, seenDefault⟩ s₁ ⟨hk, hfound⟩
  refine .step rfl (.ite (fun _ => .pure ⟨hk, ?_⟩) fun _ => .step rfl ?_)
  · rw [Node.sketchCases_eq]
    exact hfound.placed
  · refine .bind (caseTest_meets hg ctx seenDefault hk.sound) fun test s₂ h₂ => ?_
    refine .expect h₂.1.sound rfl fun s₃ h₃ => ?_
    refine .bind (caseBody_meets hg ctx h₃.sound) fun body s₄ h₄ => .step rfl (.pure ?_)
    have hcase := h₂.1.attached h₂.2 (h₃.trans h₄.1) (placed_from h₃.toOnto h₄.2)
    refine ⟨hk.trans hcase.1.kept, ?_⟩
    rw [List.reverse_cons]
    exact hfound.append_made hk.toOnto.offset_le hcase

/-- A value and the cases lie between the ends of the switch. -/
theorem switchStatement_meets (hg : g.Sound text) (ctx : Context) (hs : s.Sound text)
    (hk : isOrdinary s.lexer.token.kind = true) :
    Meets text (switchStatement g ctx) s (Made text Node.sketch s) := by
  refine .step rfl (.bind (advance_meets hs hk) fun _ s₁ h₁ => ?_)
  refine .bind (condition_makes hg ctx s₁ h₁.1.sound) fun discriminant s₂ h₂ => ?_
  refine .expect h₂.1.sound rfl fun s₃ h₃ => ?_
  refine .bind (switchCases_meets hg _ h₃.sound) fun cases s₄ h₄ => ?_
  refine .expect h₄.1.sound rfl fun s₅ h₅ => .step rfl (.pure ?_)
  refine (h₁.1.trans h₂.1.kept).attached (placed_from h₁.1.toOnto h₂.2)
    (h₃.trans (h₄.1.trans h₅.kept)) ?_
  exact placed_from h₃.toOnto (placed_upTo h₅.toOnto h₄.2)

/-- A label and its statement lie between the ends of the whole. -/
theorem labeledStatement_makes (hg : g.Sound text) (ctx : Context) :
    Makes text Node.sketch (labeledStatement g ctx) := by
  intro s hs
  refine .step rfl (.bind (identifier_makes ctx s hs) fun id s₁ h₁ => ?_)
  refine .expect h₁.1.sound rfl fun s₂ h₂ => ?_
  refine .refuse (fail_meets h₂.sound _ rfl) fun _ => .step rfl ?_
  refine .bind (substatement_makes hg _ s₂ h₂.sound) fun body s₃ h₃ => .step rfl (.pure ?_)
  exact h₁.1.attached h₁.2 (h₂.trans h₃.1.kept) (placed_from h₂.toOnto h₃.2)

/-- A declared function lies between its first word and its last brace. -/
theorem functionDeclaration_meets (hg : g.Sound text) (ctx : Context) (isAsync : Bool)
    (hs : s.Sound text) (hk : isOrdinary s.lexer.token.kind = true) :
    Meets text (functionDeclaration g ctx isAsync) s (Made text Node.sketch s) := by
  refine .step rfl (.ite (fun _ => ?_) fun _ => ?_)
  · refine .bind (advance_meets hs hk) fun _ s₁ h₁ => ?_
    exact .bind (functionDefinition_meets hg ctx isAsync true h₁.1.toOnto) fun _ _ h => .pure h
  · exact .bind (functionDefinition_meets hg ctx isAsync true (Kept.refl hs).toOnto)
      fun _ _ h => .pure h

end

end EcmaScript.Parser
