import EcmaScript.Parser.Basic
import EcmaScript.Proofs.Parser.Statement

/-!
# Loops and whole statements make nodes

The loops with `for`, statements of every kind, and the levels of nesting: on every level
the parsers make nodes, since beyond the last level they only refuse.
-/

namespace EcmaScript.Parser

open Sketch

section

variable {text : String} {s s₀ : State} {g : Nested}

/-- Looking at a declaration in the head of a loop takes no token. -/
theorem checkHeadDeclaration_meets (loop : LoopKind) (d : Node .declaration) (hs : s.Sound text) :
    Meets text (checkHeadDeclaration loop d) s fun _ s' => s' = s := by
  cases d with
  | declaration span variableKind ds =>
    unfold checkHeadDeclaration
    cases ds with
    | nil => exact (fail_meets hs _ rfl : Meets text (fail _ (.loopSingleBinding loop)) s _)
    | cons first more =>
      cases first
      cases more with
      | nil =>
        exact .ite (p := fail _ (.loopInitializer loop)) (fun _ => fail_meets hs _ rfl)
          fun _ => .pure rfl
      | cons _ _ => exact (fail_meets hs _ rfl : Meets text (fail _ (.loopSingleBinding loop)) s _)

/-- The value that a loop takes its values from. -/
def loopSource (g : Nested) (ctx : Context) : LoopKind → Parser Expression
  | .forOf => g.value ctx.allowIn
  | .forIn => g.expression ctx.allowIn

/-- A loop over many values as a node. -/
def loopNode (loop : LoopKind) (isAwait : Bool) (head : Node .forHead) (right : Expression)
    (body : Statement) (span : Span) : Statement :=
  match loop with
  | .forOf => .forOf span isAwait head right body 0
  | .forIn => .forIn span head right body 0

/-- A loop over many values in parts. -/
theorem loopOverValues_eq (g : Nested) (ctx : Context) (start : Nat) (isAwait : Bool)
    (loop : LoopKind) (head : Node .forHead) :
    loopOverValues g ctx start isAwait loop head = (do
      if isAwait && loop != .forOf then unexpected
      advance
      let right ← loopSource g ctx loop
      expect (.mark .closeParen)
      let body ← loopBody g ctx
      return loopNode loop isAwait head right body (← spanFrom start)) := by
  cases loop <;> rfl

/-- The values and the body lie behind the head that has been read. -/
theorem loopOverValues_meets (hg : g.Sound text) (ctx : Context) (isAwait : Bool)
    (loop : LoopKind) {head : Node .forHead} (h₀ : Took text s₀ s)
    (hh : AllPlaced text s₀.offset s.front head.sketch)
    (hk : isOrdinary s.lexer.token.kind = true) :
    Meets text (loopOverValues g ctx s₀.offset isAwait loop head) s (Made text Node.sketch s₀) := by
  have hsource : Makes text Node.sketch (loopSource g ctx loop) := by
    cases loop with
    | forOf => exact hg.value_makes _
    | forIn => exact hg.expression_makes _
  rw [loopOverValues_eq]
  refine .refuse (unexpected_meets h₀.sound) fun _ => ?_
  refine .bind (advance_meets h₀.sound hk) fun _ s₁ h₁ => ?_
  refine .bind (hsource s₁ h₁.1.sound) fun right s₂ h₂ => ?_
  refine .expect h₂.1.sound rfl fun s₃ h₃ => ?_
  refine .bind (loopBody_makes hg ctx s₃ h₃.sound) fun body s₄ h₄ => .step rfl (.pure ?_)
  have hlast := h₃.trans h₄.1.kept
  have hparts : AllPlaced text s.offset s₄.front (right.sketch ++ body.sketch) := by
    refine placed_from h₁.1.toOnto ?_
    exact placed_append h₂.1.offset_le hlast.toOnto h₂.2 (placed_from h₃.toOnto h₄.2)
  have hnode := h₀.attached hh (h₁.1.trans (h₂.1.trans hlast.kept).kept) hparts
  cases loop with
  | forOf => exact hnode
  | forIn => exact hnode

/-- An expression in the head of a loop may be missing. -/
theorem optionalExpression_meets (hg : g.Sound text) (ctx : Context) (close : TokenKind)
    (hs : s.Sound text) :
    Meets text (optionalExpression g ctx close) s fun e s' => Kept text s s' ∧
      AllPlaced text s.offset s'.front (Node.sketchExpression? e) := by
  refine .step rfl (.ite (fun _ => .pure ⟨.refl hs, allPlaced_nil⟩) fun _ => ?_)
  exact .bind (hg.expression_makes _ s hs) fun e s₁ h₁ => .pure ⟨h₁.1.kept, h₁.2⟩

/-- The conditions and the body lie behind what the loop starts with. -/
theorem loopOnCondition_meets (hg : g.Sound text) (ctx : Context) (isAwait : Bool)
    {init : Node .forInit} (h₀ : Took text s₀ s)
    (hi : AllPlaced text s₀.offset s.front init.sketch) :
    Meets text (loopOnCondition g ctx s₀.offset isAwait init) s (Made text Node.sketch s₀) := by
  unfold loopOnCondition
  refine .refuse (unexpected_meets h₀.sound) fun _ => ?_
  refine .expect h₀.sound rfl fun s₁ h₁ => ?_
  refine .bind (optionalExpression_meets hg ctx _ h₁.sound) fun test s₂ h₂ => ?_
  refine .expect h₂.1.sound rfl fun s₃ h₃ => ?_
  refine .bind (optionalExpression_meets hg ctx _ h₃.sound) fun update s₄ h₄ => ?_
  refine .expect h₄.1.sound rfl fun s₅ h₅ => ?_
  refine .bind (loopBody_makes hg ctx s₅ h₅.sound) fun body s₆ h₆ => .step rfl (.pure ?_)
  have h₅₆ := h₅.trans h₆.1.kept
  have h₃₆ := h₃.trans (h₄.1.trans h₅₆.kept)
  have hupdate := placed_append h₄.1.offset_le h₅₆.toOnto h₄.2 (placed_from h₅.toOnto h₆.2)
  have htest := placed_append h₂.1.offset_le h₃₆.toOnto h₂.2 (placed_from h₃.toOnto hupdate)
  exact h₀.attached hi (h₁.trans (h₂.1.trans h₃₆.kept)) (placed_from h₁.toOnto htest)

/-- Looking at declarations takes no token. -/
theorem checkInitializers_meets (variableKind : VariableKind) (ds : List (Node .declarator))
    (hs : s.Sound text) :
    Meets text (ds.forM (checkInitializer variableKind)) s fun _ s' => s' = s := by
  induction ds with
  | nil => exact .pure rfl
  | cons d ds ih =>
    refine .bind (checkInitializer_meets variableKind d hs) fun _ s₁ h₁ => ?_
    subst h₁
    exact ih

/-- The loop that a word behind a head makes. -/
def loopKindOf : TokenKind → Option LoopKind
  | .word .inKw => some .forIn
  | .word .ofKw => some .forOf
  | _ => none

/-- The kind of a loop is told by the current token. -/
theorem loopKind_run (s : State) :
    loopKind? s = .ok (loopKindOf s.lexer.token.kind, s) := by
  have h : ∀ k, (match k with
      | .word .inKw => pure (some LoopKind.forIn)
      | .word .ofKw => pure (some LoopKind.forOf)
      | _ => pure none : Parser (Option LoopKind)) s = .ok (loopKindOf k, s) := by
    intro k
    unfold loopKindOf
    split <;> rfl
  exact h s.lexer.token.kind

/-- The kind of the declaration that a word makes, given the kind of the token behind it. -/
def declarationKindOf (next : TokenKind) : TokenKind → Option VariableKind
  | .word .varKw => some .varKind
  | .word .constKw => some .constKind
  | .word .letKw =>
    if next.isIdentifierLike || next == .mark .openBracket || next == .mark .openBrace then
      some .letKind
    else none
  | _ => none

/-- The kind of a declaration is told by the current token and the next one. -/
theorem declarationKind_run (s : State) : declarationKind? s =
    .ok (declarationKindOf s.lexer.scan.token.kind s.lexer.token.kind, s) := by
  have h : ∀ k, (match k with
      | .word .varKw => pure (some VariableKind.varKind)
      | .word .constKw => pure (some VariableKind.constKind)
      | .word .letKw => do if ← atLetDeclaration then pure (some .letKind) else pure none
      | _ => pure none : Parser (Option VariableKind)) s =
        .ok (declarationKindOf s.lexer.scan.token.kind k, s) := by
    intro k
    unfold declarationKindOf
    split
    · rfl
    · rfl
    · show (if _ then pure (some VariableKind.letKind) else pure none : Parser _) s = _
      split <;> rfl
    · rfl
  exact h s.lexer.token.kind

/-- What a declaration starts with is ordinary. -/
theorem isOrdinary_of_declarationKind {next k : TokenKind} {variableKind : VariableKind}
    (h : declarationKindOf next k = some variableKind) : isOrdinary k = true :=
  isOrdinary_of_eq_some rfl rfl rfl h

/-- The declaration and what follows lie behind the start of the loop. -/
theorem declarationLoop_meets (hg : g.Sound text) (ctx : Context) (isAwait : Bool)
    (variableKind : VariableKind) (h₀ : Took text s₀ s)
    (hk : isOrdinary s.lexer.token.kind = true) :
    Meets text (declarationLoop g ctx s₀.offset isAwait variableKind) s
      (Made text Node.sketch s₀) := by
  refine .bind (headDeclaration_meets hg ctx variableKind h₀.sound hk) fun d s₁ h₁ => ?_
  have ht := h₀.trans h₁.1.kept
  have hd := placed_from h₀.toOnto h₁.2
  refine .step (loopKind_run s₁) ?_
  cases hl : loopKindOf s₁.lexer.token.kind with
  | some loop =>
    refine .bind (checkHeadDeclaration_meets loop d h₁.1.sound) fun _ s₂ h₂ => ?_
    subst h₂
    exact loopOverValues_meets hg ctx isAwait loop ht hd (isOrdinary_of_eq_some rfl rfl rfl hl)
  | none =>
    cases d with
    | declaration span kind ds =>
      refine .bind (checkInitializers_meets variableKind ds h₁.1.sound) fun _ s₂ h₂ => ?_
      subst h₂
      exact loopOnCondition_meets hg ctx isAwait ht hd

/-- The expression and what follows lie behind the start of the loop. -/
theorem expressionLoop_meets (hg : g.Sound text) (ctx : Context) (isAwait : Bool)
    (h₀ : Took text s₀ s) :
    Meets text (expressionLoop g ctx s₀.offset isAwait) s (Made text Node.sketch s₀) := by
  refine .bind (takeCoverInit_meets h₀.sound) fun outer s₁ h₁ => ?_
  refine .bind (hg.expressionOrCover_makes _ s₁ h₁.sound) fun e s₂ h₂ => ?_
  have h₀₁ := h₀.trans h₁.kept
  have ht := h₀₁.trans h₂.1.kept
  have he := placed_from h₀₁.toOnto h₂.2
  refine .step (loopKind_run s₂) ?_
  cases hl : loopKindOf s₂.lexer.token.kind with
  | some loop =>
    have hk := isOrdinary_of_eq_some rfl rfl rfl hl
    refine .bind (setCoverInit_meets outer h₂.1.sound) fun _ s₃ h₃ => .step rfl ?_
    replace he := placed_upTo h₃.kept.toOnto he
    refine .bind (orFail_meets h₃.sound (Cover.toTarget_yields _ e rfl he)) fun target s₄ h₄ => ?_
    obtain ⟨htarget, rfl⟩ := h₄
    rw [← h₃.lexer_eq] at hk
    exact loopOverValues_meets hg ctx isAwait loop (ht.trans h₃.kept) htarget hk
  | none =>
    refine .bind (checkCoverInit_meets h₂.1.sound) fun _ s₃ h₃ => ?_
    refine .bind (setCoverInit_meets outer h₃.sound) fun _ s₄ h₄ => ?_
    have hlast := h₃.kept.trans h₄.kept
    exact loopOnCondition_meets hg ctx isAwait (ht.trans hlast) (placed_upTo hlast.toOnto he)

/-- The head of a loop with `for` from its parenthesis on. -/
def forHead (g : Nested) (ctx : Context) (start : Nat) (isAwait : Bool) : Parser Statement := do
  expect (.mark .openParen)
  match ← declarationKind? with
  | some variableKind => declarationLoop g ctx start isAwait variableKind
  | none =>
    if ← isAt (.mark .semicolon) then loopOnCondition g ctx start isAwait .noInit
    else expressionLoop g ctx start isAwait

/-- A loop with `for` in parts. -/
theorem forStatement_eq (g : Nested) (ctx : Context) : forStatement g ctx = (do
    let start ← offset
    advance
    let isAwait := (← isAt (.word .awaitKw)) && ctx.canAwait
    if isAwait then advance
    forHead g ctx start isAwait) := rfl

/-- What a loop starts with lies behind the start of the loop. -/
theorem forHead_meets (hg : g.Sound text) (ctx : Context) (isAwait : Bool) (h₀ : Took text s₀ s) :
    Meets text (forHead g ctx s₀.offset isAwait) s (Made text Node.sketch s₀) := by
  refine .expect h₀.sound rfl fun s₁ h₁ => .step (declarationKind_run s₁) ?_
  have ht := h₀.trans h₁.kept
  cases hd : declarationKindOf s₁.lexer.scan.token.kind s₁.lexer.token.kind with
  | some variableKind =>
    exact declarationLoop_meets hg ctx isAwait variableKind ht (isOrdinary_of_declarationKind hd)
  | none =>
    refine .step rfl (.ite (fun _ => ?_) fun _ => ?_)
    · exact loopOnCondition_meets hg ctx isAwait ht allPlaced_nil
    · exact expressionLoop_meets hg ctx isAwait ht

/-- A loop lies between its word and the end of its body. -/
theorem forStatement_meets (hg : g.Sound text) (ctx : Context) (hs : s.Sound text)
    (hk : isOrdinary s.lexer.token.kind = true) :
    Meets text (forStatement g ctx) s (Made text Node.sketch s) := by
  rw [forStatement_eq]
  refine .step rfl (.bind (advance_meets hs hk) fun _ s₁ h₁ =>
    .step rfl (.ite (fun hw => ?_) fun _ => ?_))
  · have hk₁ : isOrdinary s₁.lexer.token.kind = true := by
      rw [eq_of_beq (Bool.and_eq_true_iff.mp hw).1]
      rfl
    refine .bind (advance_meets h₁.1.sound hk₁) fun _ s₂ h₂ => ?_
    exact forHead_meets hg ctx _ (h₁.1.trans h₂.1.kept)
  · exact forHead_meets hg ctx _ h₁.1

/-- A label or an expression lies between the ends of the statement. -/
theorem plainStatement_makes (hg : g.Sound text) (ctx : Context) :
    Makes text Node.sketch (plainStatement g ctx) := fun s hs =>
  .step rfl (.step rfl (.ite (fun _ => labeledStatement_makes hg ctx s hs)
    fun _ => expressionStatement_makes hg ctx s hs))

/-- A statement of any kind lies between its ends. -/
theorem statement_makes {g : Grammar} (hg : g.Sound text) (ctx : Context) :
    Makes text Node.sketch (statement g ctx) := by
  intro s hs
  have hn := hg.toSound
  refine .step rfl (.step rfl ?_)
  split
  · exact .bind (hn.block_makes ctx s hs) fun _ _ h => .pure h
  · rename_i hk
    refine .bind (advance_meets hs (by rw [hk]; rfl)) fun _ s₁ h₁ => .step rfl (.pure ?_)
    exact ⟨h₁.1, h₁.1.node allPlaced_nil⟩
  · rename_i hk
    exact variableStatement_meets hn ctx _ hs (by rw [hk]; rfl)
  · rename_i hk
    exact variableStatement_meets hn ctx _ hs (by rw [hk]; rfl)
  · rename_i hk
    refine .step rfl (.ite (fun _ => ?_) fun _ => plainStatement_makes hn ctx s hs)
    exact variableStatement_meets hn ctx _ hs (by rw [hk]; rfl)
  · rename_i hk
    exact functionDeclaration_meets hn ctx _ hs (by rw [hk]; rfl)
  · rename_i hk
    refine .step rfl (.ite (fun _ => ?_) fun _ => plainStatement_makes hn ctx s hs)
    exact functionDeclaration_meets hn ctx _ hs (by rw [hk]; rfl)
  · exact .bind (classDefinition_makes hg ctx true s hs) fun _ _ h => .pure h
  · rename_i hk
    exact ifStatement_meets hn ctx hs (by rw [hk]; rfl)
  · rename_i hk
    exact forStatement_meets hn ctx hs (by rw [hk]; rfl)
  · rename_i hk
    exact whileStatement_meets hn ctx hs (by rw [hk]; rfl)
  · rename_i hk
    exact doStatement_meets hn ctx hs (by rw [hk]; rfl)
  · rename_i hk
    exact returnStatement_meets hn ctx hs (by rw [hk]; rfl)
  · rename_i hk
    exact breakStatement_meets ctx hs (by rw [hk]; rfl)
  · rename_i hk
    exact continueStatement_meets ctx hs (by rw [hk]; rfl)
  · rename_i hk
    exact throwStatement_meets hn ctx hs (by rw [hk]; rfl)
  · rename_i hk
    exact tryStatement_meets hn ctx hs (by rw [hk]; rfl)
  · rename_i hk
    exact switchStatement_meets hn ctx hs (by rw [hk]; rfl)
  · rename_i hk
    exact withStatement_meets hn ctx hs (by rw [hk]; rfl)
  · rename_i hk
    refine .bind (advance_meets hs (by rw [hk]; rfl)) fun _ s₁ h₁ => ?_
    exact semicolon_finish (f := .debugger) h₁.1 (fun _ => rfl) allPlaced_nil
  · exact plainStatement_makes hn ctx s hs

/-- Beyond the last level of nesting parsing ends in an honest way. -/
theorem Nested.tooDeep_sound : Nested.tooDeep.Sound text where
  statement _ _ hs := failHere_meets hs rfl
  expressionStatement _ _ hs := failHere_meets hs rfl
  bindingTarget _ _ hs := failHere_meets hs rfl
  assignment _ _ hs := failHere_meets hs rfl
  binary _ _ _ hs := failHere_meets hs rfl
  unary _ _ hs := failHere_meets hs rfl
  newCallee _ _ hs := failHere_meets hs rfl

/-- If the parsers one level further in make what they are for, so do those of a level. -/
theorem Nested.Sound.around (hg : g.Sound text) : g.around.Sound text where
  statement := statement_makes hg.grammar
  expressionStatement := expressionStatement_makes hg
  bindingTarget := bindingTarget_makesWhole hg
  assignment := assignmentExpression_makes hg.grammar
  binary := binaryExpression_makes hg.grammar
  unary := unaryExpression_makes hg.grammar
  newCallee := operandBase_makes hg.grammar

/-- On every level of nesting the parsers make nodes that lie between their ends. -/
theorem Nested.ofDepth_sound (n : Nat) : (Nested.ofDepth n).Sound text := by
  induction n with
  | zero => exact tooDeep_sound
  | succ n ih => exact ih.around

end

end EcmaScript.Parser
