import EcmaScript.Proofs.Build.Statement

/-!
# Building loops and all statements

The values in the head of a loop are checked only when it is known what the loop is. A head that
is given the values of a loop claims the defaults in it.

A declared function or class stands at the level of its statement. What is open in the heritage
of a declared class stays open: no pattern can claim it, and nobody asks for it. With this, every
level of the grammar builds with one level more than the one further in.
-/

namespace EcmaScript.Parser

open Budget

section

variable {text : String} {s : State} {g : Nested} {n : Nat}

/-- What is not refused as the head of a loop is one. -/
theorem checkHeadDeclaration_gives (loop : LoopKind) (d : Node .declaration) :
    Gives text (checkHeadDeclaration loop d) s
      fun _ _ => (Node.declarationHead d).IsHeadOf loop := by
  cases d with
  | declaration span kind ds =>
    cases ds with
    | nil => exact fail_gives
    | cons d ds =>
      cases d with
      | declarator span' target init =>
        cases ds with
        | cons d ds => exact fail_gives
        | nil =>
          refine .ite (fun _ => fail_gives) fun hexempt => .pure ?_
          refine ⟨span', target, init, rfl, fun hinit => ?_⟩
          rw [hinit, Bool.true_and, Bool.not_eq_true, Bool.not_eq_false'] at hexempt
          split at hexempt
          · exact ⟨rfl, rfl, rfl⟩
          · cases hexempt

/-- A loop over values encloses its head, and its body stands alone in it. -/
theorem loopOverValues_gives (hg : g.Builds text n) (ctx : Context) (start : Nat) (isAwait : Bool)
    (loop : LoopKind) {head : Node .forHead} (hh : Settled (level n) head)
    (hrules : head.IsHeadOf loop) :
    Gives text (loopOverValues g ctx start isAwait loop head) s fun a _ => Standalone n a := by
  have hsource : ∀ s, Gives text (loopSource g ctx loop) s fun a _ => Settled (level n) a := by
    intro s
    cases loop with
    | forOf => exact hg.value _
    | forIn => exact hg.expression _
  rw [loopOverValues_eq]
  refine .refuse unexpected_gives fun _ => .skip advance_gives fun _ s₁ _ => ?_
  refine .bind (hsource s₁) fun right s₂ _ h₂ => .skip expect_gives fun _ s₃ _ => ?_
  refine .bind (loopBody_gives hg ctx) fun body s₄ _ h₄ => .read rfl (.pure ?_)
  cases loop with
  | forOf =>
    refine .ruled rfl ⟨hrules, h₄.alone⟩ (by simp [loopNode, Node.stamps]) rfl ?_
    simpa [loopNode, Node.parts] using ⟨hh, h₂, h₄.settled⟩
  | forIn =>
    refine .ruled rfl ⟨hrules, h₄.alone⟩ (by simp [loopNode, Node.stamps]) rfl ?_
    simpa [loopNode, Node.parts] using ⟨hh, h₂, h₄.settled⟩

/-- An expression that may be missing is settled if it is there. -/
theorem optionalExpression_gives (hg : g.Builds text n) (ctx : Context) (close : TokenKind) :
    Gives text (optionalExpression g ctx close) s fun a _ =>
      ∀ e, a = some e → Settled (level n) e := by
  refine .read rfl (.ite (fun _ => .pure (by simp)) fun _ => ?_)
  refine .bind (hg.expression _) fun e s₁ _ h₁ => .pure ?_
  rintro _ ⟨⟩
  exact h₁

/-- A loop on a condition encloses what it starts with, and its body stands alone in it. -/
theorem loopOnCondition_gives (hg : g.Builds text n) (ctx : Context) (start : Nat)
    (isAwait : Bool) {init : Node .forInit} (hi : Settled (level n) init)
    (hrules : init.StartsLoop) :
    Gives text (loopOnCondition g ctx start isAwait init) s fun a _ => Standalone n a := by
  unfold loopOnCondition
  refine .refuse unexpected_gives fun _ => .skip expect_gives fun _ s₁ _ => ?_
  refine .bind (optionalExpression_gives hg ctx _) fun test s₂ _ h₂ => ?_
  refine .skip expect_gives fun _ s₃ _ => ?_
  refine .bind (optionalExpression_gives hg ctx _) fun step s₄ _ h₄ => ?_
  refine .skip expect_gives fun _ s₅ _ => ?_
  refine .bind (loopBody_gives hg ctx) fun body s₆ _ h₆ => .read rfl (.pure ?_)
  refine .ruled rfl ⟨hrules, h₆.alone⟩ (by simp [Node.stamps]) rfl ?_
  simpa [Node.parts, or_imp, forall_and] using ⟨hi, h₂, h₄, h₆.settled⟩

/-- A loop whose head declares has the values that it needs. -/
theorem declarationLoop_gives (hg : g.Builds text n) (ctx : Context) (start : Nat)
    (isAwait : Bool) (kind : VariableKind) :
    Gives text (declarationLoop g ctx start isAwait kind) s fun a _ => Standalone n a := by
  refine .bind (headDeclaration_gives hg ctx kind) fun d s₁ _ h₁ => .read (loopKind_run s₁) ?_
  obtain ⟨hd, span, ds, rfl⟩ := h₁
  split
  · refine .bind (checkHeadDeclaration_gives _ _) fun _ s₂ _ hrules => ?_
    refine loopOverValues_gives hg ctx start isAwait _ (.unruled rfl ?_) hrules
    simpa [Node.parts] using hd
  · refine .bind (checkInitializers_gives kind ds) fun _ s₂ _ hvalues => ?_
    refine loopOnCondition_gives hg ctx start isAwait (.unruled rfl ?_) hvalues
    simpa [Node.parts] using hd

/-- A head that is given the values of a loop claims the defaults in it. -/
theorem expressionLoop_gives (hg : g.Builds text n) (ctx : Context) (start : Nat)
    (isAwait : Bool) :
    Gives text (expressionLoop g ctx start isAwait) s fun a _ => Standalone n a := by
  refine Runs.step rfl (State.Sound.remember rfl rfl rfl rfl) ?_
  refine Runs.bind (hg.expressionOrCover _ _) fun e s₁ h₁ => Runs.read (loopKind_run s₁) ?_
  split
  · refine Runs.step rfl (State.Sound.remember rfl rfl rfl rfl) (Runs.read rfl ?_)
    refine Runs.bind (orFail_gives (Cover.toTarget_wellBuilt _ _ h₁.2)) fun target s₂ h₂ => ?_
    obtain ⟨-, htarget, rfl⟩ := h₂
    refine loopOverValues_gives hg ctx start isAwait _ (.unruled rfl ?_) trivial
    simpa [Node.parts] using htarget
  · refine Runs.bind checkCoverInit_gives fun _ s₂ h₂ => ?_
    obtain ⟨-, rfl, hnone⟩ := h₂
    have he : WellBuilt (level n) s₂.coverInit.isNone e := h₁.2
    rw [hnone] at he
    refine Runs.step rfl (State.Sound.remember rfl rfl rfl rfl) ?_
    refine loopOnCondition_gives hg ctx start isAwait (.unruled rfl ?_) trivial
    simpa [Node.parts] using he

/-- Every loop with `for` stands alone. -/
theorem forStatement_gives (hg : g.Builds text n) (ctx : Context) :
    Gives text (forStatement g ctx) s fun a _ => Standalone n a := by
  have hhead : ∀ (start : Nat) (isAwait : Bool) (s : State),
      Gives text (forHead g ctx start isAwait) s fun a _ => Standalone n a := by
    intro start isAwait s
    refine .skip expect_gives fun _ s₁ _ => .read (declarationKind_run s₁) ?_
    split
    · exact declarationLoop_gives hg ctx start isAwait _
    · refine .read rfl (.ite (fun _ => ?_) fun _ => expressionLoop_gives hg ctx start isAwait)
      exact loopOnCondition_gives hg ctx start isAwait (.unruled rfl (by simp [Node.parts])) trivial
  rw [forStatement_eq]
  refine .read rfl (.skip advance_gives fun _ s₁ _ => .read rfl ?_)
  exact .ite (fun _ => .skip advance_gives fun _ s₂ _ => hhead _ _ s₂) fun _ => hhead _ _ s₁

/-- What is nested in a statement is a level further in. -/
theorem settled_statement {a : Statement} (h : Encloses n a) :
    Settled (level (n + 1)) a :=
  .enclosing h (level_mono (Nat.le_succ n)) fun _ _ => Nat.lt_succ_self n

/-- A declared function stands at the level of its statement. -/
theorem functionDeclaration_gives (hg : g.Builds text n) (ctx : Context) (isAsync : Bool) :
    Gives text (functionDeclaration g ctx isAsync) s fun a _ =>
      Settled (level (n + 1)) a ∧ a.needsBlock = false := by
  have hb : Affords n ((level (n + 1)).spend (some .statement)) := by
    refine ⟨level_le_spend (level_mono (Nat.le_succ n)) fun _ _ => Nat.lt_succ_self n, ?_⟩
    rw [spend_of_ne _ (by simp)]
    exact Nat.lt_succ_self n
  have hdefinition : ∀ (start : Nat) (s : State), Gives text (do
      return .functionDeclaration (← functionDefinition g ctx start isAsync true)) s
      fun a _ => Settled (level (n + 1)) a ∧ a.needsBlock = false := by
    intro start s
    refine .bind (functionDefinition_gives hg ctx _ _ _) fun f s₁ _ h₁ => .pure ⟨?_, rfl⟩
    refine .of_plain rfl (.unruled rfl) (by simp) ?_
    simpa [Node.parts, Node.kind?] using hb.settled h₁
  refine .read rfl (.ite (fun _ => ?_) fun _ => hdefinition _ s)
  exact .skip advance_gives fun _ s₁ _ => hdefinition _ s₁

/-- A declared class stands at the level of its statement, with what its heritage leaves open. -/
theorem classDeclaration_gives {g : Grammar} (hg : g.Builds text n) (ctx : Context) :
    Gives text (do return .classDeclaration (← classDefinition g ctx true)) s
      fun a _ => Settled (level (n + 1)) a := by
  have hb : simple n ≤ (level (n + 1)).spend (some .statement) := by
    intro k
    simp only [simple, spend, level_apply, Option.some.injEq]
    grind
  refine .bind (classDefinition_gives hg hb ctx true) fun d s₁ _ h₁ => .pure ?_
  have hd : WellBuilt ((level (n + 1)).spend (some .statement)) false d := h₁.mono le_rfl (by simp)
  refine .of_plain rfl (.unruled rfl) (by simp) ?_
  simpa [Node.parts, Node.kind?] using hd

/-- A statement needs a list of statements around it only if its first words say so. -/
theorem statement_gives {g : Grammar} (hg : g.Builds text n) (ctx : Context) :
    Gives text (statement g ctx) s fun a _ =>
      Settled (level (n + 1)) a ∧ (s.startsLexical = false → a.needsBlock = false) := by
  have hn := hg.nested
  have hup : ∀ (a : Statement) (s₁ : State), Standalone n a →
      Settled (level (n + 1)) a ∧ (s.startsLexical = false → a.needsBlock = false) :=
    fun a _ h => ⟨settled_statement h.toEncloses, fun _ => h.alone⟩
  have hfunction : ∀ isAsync, Gives text (functionDeclaration g.toNested ctx isAsync) s fun a _ =>
      Settled (level (n + 1)) a ∧ (s.startsLexical = false → a.needsBlock = false) :=
    fun isAsync => (functionDeclaration_gives hn ctx isAsync).imp fun _ _ h => ⟨h.1, fun _ => h.2⟩
  have hplain := (plainStatement_gives hn ctx (s := s)).imp hup
  refine .read rfl (.read rfl ?_)
  split
  · refine .bind (hn.block ctx) fun body s₁ _ h₁ => .pure (hup _ s₁ (.unruled rfl rfl ?_))
    simpa [Node.parts] using h₁
  · refine .skip advance_gives fun _ s₁ _ => .read rfl (.pure (hup _ s₁ ?_))
    exact .unruled rfl rfl (by simp [Node.parts])
  · exact (variableStatement_gives hn ctx _).imp fun _ _ h =>
      ⟨settled_statement h.1, fun _ => h.2⟩
  · rename_i hk
    refine (variableStatement_gives hn ctx _).imp fun _ _ h =>
      ⟨settled_statement h.1, fun hstart => ?_⟩
    simp [State.startsLexical, hk] at hstart
  · rename_i hk
    have hlet : atLetDeclaration s = .ok (s.startsLexical, s) := by
      simp only [State.startsLexical, hk]
      rfl
    refine .read hlet (.ite (fun hstart => ?_) fun _ => hplain)
    refine (variableStatement_gives hn ctx _).imp fun _ _ h =>
      ⟨settled_statement h.1, fun hnot => ?_⟩
    rw [hstart] at hnot
    cases hnot
  · exact hfunction _
  · exact .read rfl (.ite (fun _ => hfunction _) fun _ => hplain)
  · rename_i hk
    refine (classDeclaration_gives hg ctx).imp fun _ _ h => ⟨h, fun hstart => ?_⟩
    simp [State.startsLexical, hk] at hstart
  · exact (ifStatement_gives hn ctx).imp hup
  · exact (forStatement_gives hn ctx).imp hup
  · exact (whileStatement_gives hn ctx).imp hup
  · exact (doStatement_gives hn ctx).imp hup
  · exact (returnStatement_gives hn ctx).imp hup
  · exact (breakStatement_gives ctx).imp hup
  · exact (continueStatement_gives ctx).imp hup
  · exact (throwStatement_gives hn ctx).imp hup
  · exact (tryStatement_gives hn ctx).imp hup
  · exact (switchStatement_gives hn ctx).imp hup
  · exact (withStatement_gives hn ctx).imp hup
  · refine .skip advance_gives fun _ s₁ _ => .skip semicolon_gives fun _ s₂ _ => .read rfl ?_
    exact .pure (hup _ s₂ (.unruled rfl rfl (by simp [Node.parts])))
  · exact hplain

/-- Where nothing may be nested any more, nothing is built. -/
theorem Nested.tooDeep_builds : Nested.tooDeep.Builds text 0 where
  sound := tooDeep_sound
  statement _ _ := failHere_gives
  expressionStatement _ _ := failHere_gives
  bindingTarget _ _ := failHere_gives
  assignment _ _ := failHere_gives
  binary _ _ _ := failHere_gives
  unary _ _ := failHere_gives
  newCallee _ _ := failHere_gives

/-- If the parsers one level further in build with so many levels, those of a level build with
one more. -/
theorem Nested.Builds.around (hg : g.Builds text n) : g.around.Builds text (n + 1) where
  sound := hg.sound.around
  statement ctx _ := statement_gives hg.grammar ctx
  expressionStatement ctx _ := (expressionStatement_gives hg ctx).imp fun _ _ h =>
    ⟨settled_statement h.toEncloses, h.alone⟩
  bindingTarget ctx _ := bindingTarget_gives hg ctx
  assignment ctx _ := assignmentExpression_gives hg.grammar ctx
  binary ctx min _ := (binaryExpression_gives hg.grammar ctx min).imp fun _ _ h =>
    h.1.le (simple_le_level n)
  unary ctx _ := (unaryExpression_gives hg.grammar ctx).imp fun _ _ h => h.1.le (simple_le_level n)
  newCallee ctx _ := (operandBase_gives hg.grammar ctx).imp fun _ _ h => h.1.le (simple_le_level n)

/-- The parsers of a script build with as many levels as they may nest. -/
theorem Nested.ofDepth_builds (n : Nat) : (Nested.ofDepth n).Builds text n := by
  induction n with
  | zero => exact tooDeep_builds
  | succ n ih => exact ih.around

end

end EcmaScript.Parser
