import EcmaScript.Proofs.Parser.Loop
import EcmaScript.Proofs.Tandem.Follows

/-!
# The extent of statements

The span of a statement goes from the start of its first token to the end of the last token
that its parser has taken. So the stretch that a statement stands on holds the tokens of the
statement and nothing else.
-/

namespace EcmaScript.Parser

/-- A run that does not end early gives a node that goes from an offset to the end of the token
that was taken last. -/
def Extends {form : Form} (start : Nat) (p : Parser (Node form)) (s : State) : Prop :=
  ∀ node s', p s = .ok (node, s') → node.span = .ofOffsets start s'.consumed

section

variable {α : Type} {form inner : Form} {start : Nat} {s : State}

/-- What comes last tells the span. -/
theorem Extends.bind {p : Parser α} {f : α → Parser (Node form)}
    (h : ∀ a s₁, Extends start (f a) s₁) : Extends start (p >>= f) s := by
  intro node s' hrun
  obtain ⟨a, s₁, -, hrun⟩ := bind_eq_ok hrun
  exact h a s₁ node s' hrun

/-- A step that only looks at the state. -/
theorem Extends.read {p : Parser α} {f : α → Parser (Node form)} {a : α}
    (hp : p s = .ok (a, s)) (h : Extends start (f a) s) : Extends start (p >>= f) s := by
  intro node s' hrun
  rw [bind_run hp] at hrun
  exact h node s' hrun

/-- The extent is measured from the offset that is looked at first. -/
theorem Extends.offset {f : Nat → Parser (Node form)} (h : Extends s.offset (f s.offset) s) :
    Extends s.offset (Parser.offset >>= f) s :=
  .read rfl h

/-- The node that is made last has the span from the start. -/
theorem Extends.node {make : Span → Node form} (h : ∀ span, (make span).span = span) :
    Extends start (do return make (← spanFrom start)) s := by
  intro node s' hrun
  cases hrun
  exact h _

/-- A node that stands for another one. -/
theorem Extends.wrap {p : Parser (Node inner)} {make : Node inner → Node form}
    (h : Extends start p s) (hmake : ∀ node, (make node).span = node.span) :
    Extends start (do return make (← p)) s := by
  intro node s' hrun
  obtain ⟨a, s₁, hp, hrun⟩ := bind_eq_ok hrun
  cases hrun
  exact (hmake a).trans (h a s' hp)

/-- A parser that only fails. -/
theorem Extends.error {p : Parser (Node form)} (h : Fails p s) : Extends start p s :=
  fun node s' hrun => absurd hrun (h (node, s'))

/-- A choice between two parsers. -/
theorem Extends.ite {c : Prop} [Decidable c] {p q : Parser (Node form)}
    (hp : Extends start p s) (hq : Extends start q s) :
    Extends start (if c then p else q) s := by
  split
  · exact hp
  · exact hq

end

section

variable {start : Nat} {s : State} {g : Nested}

theorem block_extends (ctx : Context) : Extends s.offset (g.block ctx) s :=
  .offset (.bind fun _ _ => .bind fun _ _ => .bind fun _ _ => .node fun _ => rfl)

theorem functionDefinition_extends (ctx : Context) (isAsync isDeclaration : Bool) :
    Extends start (functionDefinition g ctx start isAsync isDeclaration) s := by
  rw [functionDefinition_eq]
  exact .bind fun _ _ => .bind fun _ _ => .bind fun _ _ => .bind fun _ _ => .node fun _ => rfl

theorem classDefinition_extends {g : Grammar} (ctx : Context) (isDeclaration : Bool) :
    Extends s.offset (classDefinition g ctx isDeclaration) s := by
  rw [classDefinition_eq]
  exact .offset (.bind fun _ _ => .bind fun _ _ => .bind fun _ _ => .bind fun _ _ =>
    .bind fun _ _ => .bind fun _ _ => .bind fun _ _ => .bind fun _ _ => .node fun _ => rfl)

/-- What a statement ends with. -/
theorem finish_extends {make : Span → Statement} (h : ∀ span, (make span).span = span) :
    Extends start (do
      semicolon
      return make (← spanFrom start)) s :=
  .bind fun _ _ => .node h

theorem variableStatement_extends (ctx : Context) (variableKind : VariableKind) :
    Extends s.offset (variableStatement g ctx variableKind) s :=
  .offset (.bind fun _ _ => finish_extends fun _ => rfl)

theorem functionDeclaration_extends (ctx : Context) (isAsync : Bool) :
    Extends s.offset (functionDeclaration g ctx isAsync) s := by
  refine .offset (.ite (.bind fun _ _ => ?_) ?_)
  · exact .wrap (functionDefinition_extends ctx isAsync true) fun _ => rfl
  · exact .wrap (functionDefinition_extends ctx isAsync true) fun _ => rfl

/-- An expression with its semicolon. -/
theorem expressionStatement_extends (ctx : Context) :
    Extends s.offset (expressionStatement g ctx) s :=
  .offset (.bind fun _ _ => finish_extends fun _ => rfl)

/-- A statement with its label in front. -/
theorem labeledStatement_extends (ctx : Context) : Extends s.offset (labeledStatement g ctx) s := by
  refine .offset (.bind fun _ _ => .bind fun _ _ => .ite (.error fail_fails.bind) ?_)
  exact .bind fun _ _ => .bind fun _ _ => .node fun _ => rfl

/-- What is no compound statement. -/
theorem plainStatement_extends (ctx : Context) : Extends s.offset (plainStatement g ctx) s :=
  .read rfl (.read rfl (.ite (labeledStatement_extends ctx) (expressionStatement_extends ctx)))

theorem ifStatement_extends (ctx : Context) : Extends s.offset (ifStatement g ctx) s := by
  refine .offset (.bind fun _ _ => .bind fun _ _ => .bind fun _ _ => .bind fun _ _ => .ite ?_ ?_)
  · exact .bind fun _ _ => .node fun _ => rfl
  · exact .node fun _ => rfl

theorem whileStatement_extends (ctx : Context) : Extends s.offset (whileStatement g ctx) s :=
  .offset (.bind fun _ _ => .bind fun _ _ => .bind fun _ _ => .node fun _ => rfl)

theorem doStatement_extends (ctx : Context) : Extends s.offset (doStatement g ctx) s :=
  .offset (.bind fun _ _ => .bind fun _ _ => .bind fun _ _ => .bind fun _ _ => .bind fun _ _ =>
    .node fun _ => rfl)

theorem withStatement_extends (ctx : Context) : Extends s.offset (withStatement g ctx) s :=
  .offset (.bind fun _ _ => .bind fun _ _ => .bind fun _ _ => .node fun _ => rfl)

theorem switchStatement_extends (ctx : Context) : Extends s.offset (switchStatement g ctx) s :=
  .offset (.bind fun _ _ => .bind fun _ _ => .bind fun _ _ => .bind fun _ _ => .bind fun _ _ =>
    .node fun _ => rfl)

theorem throwStatement_extends (ctx : Context) : Extends s.offset (throwStatement g ctx) s := by
  refine .offset (.bind fun _ _ => .bind fun _ _ => .ite (.error fail_fails.bind) ?_)
  exact .bind fun _ _ => finish_extends fun _ => rfl

theorem returnStatement_extends (ctx : Context) : Extends s.offset (returnStatement g ctx) s := by
  refine .offset (.ite ?_ (.error failHere_fails.bind))
  refine .bind fun _ _ => .bind fun _ _ => .bind fun _ _ => .ite ?_ ?_
  · exact .bind fun _ _ => finish_extends fun _ => rfl
  · exact .bind fun _ _ => .bind fun _ _ => finish_extends fun _ => rfl

theorem breakStatement_extends (ctx : Context) : Extends s.offset (breakStatement ctx) s := by
  rw [breakStatement_eq]
  exact .offset (.bind fun _ _ => .bind fun _ _ => .bind fun _ _ => finish_extends fun _ => rfl)

theorem continueStatement_extends (ctx : Context) :
    Extends s.offset (continueStatement ctx) s := by
  rw [continueStatement_eq]
  exact .offset (.bind fun _ _ => .bind fun _ _ => .bind fun _ _ => finish_extends fun _ => rfl)

theorem tryStatement_extends (ctx : Context) : Extends s.offset (tryStatement g ctx) s := by
  rw [tryStatement_eq]
  refine .offset (.bind fun _ _ => .bind fun _ _ => .bind fun handler _ =>
    .bind fun finalizer _ => ?_)
  cases handler with
  | some _ => exact .node fun _ => rfl
  | none =>
    cases finalizer with
    | some _ => exact .node fun _ => rfl
    | none => exact .error failHere_fails

/-- A loop over values, from its start on. -/
theorem loopOverValues_extends (ctx : Context) (isAwait : Bool) (loop : LoopKind)
    (head : Node .forHead) : Extends start (loopOverValues g ctx start isAwait loop head) s := by
  rw [loopOverValues_eq]
  refine .ite (.error unexpected_fails.bind) ?_
  refine .bind fun _ _ => .bind fun _ _ => .bind fun _ _ => .bind fun _ _ => .node fun _ => ?_
  cases loop with
  | forOf => rfl
  | forIn => rfl

/-- A loop on a condition, from its start on. -/
theorem loopOnCondition_extends (ctx : Context) (isAwait : Bool) (init : Node .forInit) :
    Extends start (loopOnCondition g ctx start isAwait init) s :=
  .ite (.error unexpected_fails.bind) (.bind fun _ _ => .bind fun _ _ => .bind fun _ _ =>
    .bind fun _ _ => .bind fun _ _ => .bind fun _ _ => .node fun _ => rfl)

/-- A loop whose head declares. -/
theorem declarationLoop_extends (ctx : Context) (isAwait : Bool) (variableKind : VariableKind) :
    Extends start (declarationLoop g ctx start isAwait variableKind) s := by
  refine .bind fun declaration _ => .bind fun loop _ => ?_
  cases loop with
  | some loop => exact .bind fun _ _ => loopOverValues_extends ctx isAwait loop _
  | none =>
    cases declaration
    exact .bind fun _ _ => loopOnCondition_extends ctx isAwait _

/-- A loop whose head does not declare. -/
theorem expressionLoop_extends (ctx : Context) (isAwait : Bool) :
    Extends start (expressionLoop g ctx start isAwait) s := by
  refine .bind fun _ _ => .bind fun _ _ => .bind fun loop _ => ?_
  cases loop with
  | some loop =>
    exact .bind fun _ _ => .bind fun _ _ => .bind fun _ _ => loopOverValues_extends ctx
      isAwait loop _
  | none => exact .bind fun _ _ => .bind fun _ _ => loopOnCondition_extends ctx isAwait _

/-- All that may come behind the opening parenthesis of a loop. -/
theorem forHead_extends (ctx : Context) (isAwait : Bool) :
    Extends start (forHead g ctx start isAwait) s := by
  refine .bind fun _ _ => .bind fun variableKind _ => ?_
  cases variableKind with
  | some variableKind => exact declarationLoop_extends ctx isAwait variableKind
  | none =>
    exact .bind fun _ _ => .ite (loopOnCondition_extends ctx isAwait _)
      (expressionLoop_extends ctx isAwait)

theorem forStatement_extends (ctx : Context) : Extends s.offset (forStatement g ctx) s := by
  rw [forStatement_eq]
  refine .offset (.bind fun _ _ => .bind fun _ _ => .ite (.bind fun _ _ => ?_) ?_)
  · exact forHead_extends ctx _
  · exact forHead_extends ctx _

/-- A statement goes from its first token to the last one that is taken. -/
theorem statement_extends {g : Grammar} (ctx : Context) : Extends s.offset (statement g ctx) s := by
  refine .offset (.read rfl ?_)
  split
  · exact .wrap (block_extends ctx) fun _ => rfl
  · exact .bind fun _ _ => .node fun _ => rfl
  · exact variableStatement_extends ctx _
  · exact variableStatement_extends ctx _
  · exact .read rfl (.ite (variableStatement_extends ctx _) (plainStatement_extends ctx))
  · exact functionDeclaration_extends ctx _
  · exact .read rfl (.ite (functionDeclaration_extends ctx _) (plainStatement_extends ctx))
  · exact .wrap (classDefinition_extends ctx true) fun _ => rfl
  · exact ifStatement_extends ctx
  · exact forStatement_extends ctx
  · exact whileStatement_extends ctx
  · exact doStatement_extends ctx
  · exact returnStatement_extends ctx
  · exact breakStatement_extends ctx
  · exact continueStatement_extends ctx
  · exact throwStatement_extends ctx
  · exact tryStatement_extends ctx
  · exact switchStatement_extends ctx
  · exact withStatement_extends ctx
  · exact .bind fun _ _ => finish_extends fun _ => rfl
  · exact plainStatement_extends ctx

end

end EcmaScript.Parser
