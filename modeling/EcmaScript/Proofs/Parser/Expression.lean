import EcmaScript.Parser.Expression
import EcmaScript.Proofs.Parser.Operand

/-!
# Expressions with operators make nodes

A node with an operator starts where its first operand or the operator does, whichever comes
first. The target of an assignment keeps the places of the expression that it was read as.
-/

namespace EcmaScript.Parser

open Sketch

/-- A token that stands for something can be taken and is no dot, if these stand for nothing. -/
theorem isOrdinary_of_eq_some {α : Type} {f : TokenKind → Option α} {k : TokenKind} {a : α}
    (he : f .endOfFile = none) (hd : f (.mark .dot) = none) (hq : f (.mark .questionDot) = none)
    (h : f k = some a) : isOrdinary k = true := by
  unfold isOrdinary
  split
  · rw [he] at h
    cases h
  · rw [hd] at h
    cases h
  · rw [hq] at h
    cases h
  · rfl

section

variable {text : String} {s s₀ : State} {g : Grammar}

/-- Looking for a power takes no token. -/
theorem rejectPower_meets (hs : s.Sound text) :
    Meets text rejectPower s fun _ s' => s' = s :=
  .step rfl (.ite (fun _ => failHere_meets hs rfl) fun _ => .pure rfl)

/-- An operator behind an operand may be taken. -/
theorem postfixExpression_makes (hg : g.Sound text) (ctx : Context) :
    Makes text Node.sketch (postfixExpression g ctx) := by
  intro s hs
  refine .step rfl (.bind (operand_makes hg ctx s hs) fun e s₁ h₁ => .step rfl ?_)
  cases hop : UpdateOperator.ofKind? s₁.lexer.token.kind with
  | none => exact .pure h₁
  | some operator =>
    have hk := isOrdinary_of_eq_some rfl rfl rfl hop
    refine .step rfl (.completeArrow fun b => .ite (fun _ => .pure h₁) fun _ => ?_)
    refine .require (fail_meets h₁.1.sound _ rfl) fun _ => ?_
    refine .bind (advance_meets h₁.1.sound hk) fun _ s₂ h₂ => .step rfl (.pure ?_)
    have ht := h₁.1.trans h₂.1.kept
    exact ⟨ht, ht.node (placed_upTo h₂.1.toOnto h₁.2)⟩

/-- An operator in front of what it is applied to. -/
theorem Took.leading {s₁ s₂ : State} {parts : List Sketch} (h₁ : Took text s s₁)
    (h₂ : Took text s₁ s₂) (hp : AllPlaced text s₁.offset s₂.front parts) :
    Took text s s₂ ∧ AllPlaced text s.offset s₂.front
      (Sketch.node (.ofOffsets s.offset s₂.consumed) parts) := by
  have ht := h₁.trans h₂.kept
  exact ⟨ht, ht.node (placed_from h₁.toOnto hp)⟩

/-- An operand lies behind the operator that changes it. -/
theorem prefixUpdate_meets (hg : g.Sound text) (ctx : Context) (operator : UpdateOperator)
    (hs : s.Sound text) (hk : isOrdinary s.lexer.token.kind = true) :
    Meets text (prefixUpdate g ctx operator) s (Made text Node.sketch s) := by
  refine .step rfl (.bind (advance_meets hs hk) fun _ s₁ h₁ => .step rfl ?_)
  refine .bind (hg.unary ctx s₁ h₁.1.sound) fun argument s₂ h₂ => ?_
  refine .require (fail_meets h₂.1.sound _ rfl) fun _ => .step rfl (.pure ?_)
  exact h₁.1.leading h₂.1 h₂.2

/-- An operand lies behind its operator. -/
theorem unaryOperation_meets (hg : g.Sound text) (ctx : Context) (operator : UnaryOperator)
    (hs : s.Sound text) (hk : isOrdinary s.lexer.token.kind = true) :
    Meets text (unaryOperation g ctx operator) s (Made text Node.sketch s) := by
  refine .step rfl (.bind (advance_meets hs hk) fun _ s₁ h₁ => ?_)
  refine .bind (hg.unary ctx s₁ h₁.1.sound) fun argument s₂ h₂ => ?_
  refine .bind (rejectPower_meets h₂.1.sound) fun _ s₃ h₃ => ?_
  subst h₃
  exact .step rfl (.pure (h₁.1.leading h₂.1 h₂.2))

/-- What is waited for lies behind its word. -/
theorem awaitOperation_meets (hg : g.Sound text) (ctx : Context) (hs : s.Sound text)
    (hk : isOrdinary s.lexer.token.kind = true) :
    Meets text (awaitOperation g ctx) s (Made text Node.sketch s) := by
  unfold awaitOperation
  refine .refuse (failHere_meets hs rfl) fun _ => .step rfl ?_
  refine .bind (noteSuspension_meets rfl hs) fun _ s₁ h₁ => ?_
  refine .bind (advance_meets h₁.sound (by rw [h₁.lexer_eq]; exact hk)) fun _ s₂ h₂ => ?_
  refine .bind (hg.unary ctx s₂ h₂.1.sound) fun argument s₃ h₃ => ?_
  refine .bind (rejectPower_meets h₃.1.sound) fun _ s₄ h₄ => ?_
  subst h₄
  exact .step rfl (.pure ((h₁.kept.toOnto.took h₂.1).leading h₃.1 h₃.2))

/-- Operators with one operand and the operand lie between their ends. -/
theorem unaryExpression_makes (hg : g.Sound text) (ctx : Context) :
    Makes text Node.sketch (unaryExpression g ctx) := by
  intro s hs
  refine .step rfl ?_
  cases hu : UnaryOperator.ofKind? s.lexer.token.kind with
  | some operator =>
    exact unaryOperation_meets hg ctx operator hs (isOrdinary_of_eq_some rfl rfl rfl hu)
  | none =>
    cases hop : UpdateOperator.ofKind? s.lexer.token.kind with
    | some operator =>
      exact prefixUpdate_meets hg ctx operator hs (isOrdinary_of_eq_some rfl rfl rfl hop)
    | none =>
      refine .ite (fun hk => ?_) fun _ => postfixExpression_makes hg ctx s hs
      refine awaitOperation_meets hg ctx hs ?_
      rw [eq_of_beq (Bool.and_eq_true_iff.mp hk).1]
      rfl

/-- The right operand lies behind the operator, and the left one before it. -/
theorem binaryOperation_meets (hg : g.Sound text) (ctx : Context) (min : Precedence)
    {left : Expression} {operator : BinaryOperator} (hl : Made text Node.sketch s₀ left s)
    (hk : isOrdinary s.lexer.token.kind = true) :
    Meets text (binaryOperation g ctx min s₀.offset left operator) s
      (Made text Node.sketch s₀) := by
  have hs := hl.1.sound
  unfold binaryOperation
  refine .refuse (unexpected_meets hs) fun _ => .refuse (unexpected_meets hs) fun _ => ?_
  refine .bind (advance_meets hs hk) fun _ s₁ h₁ => .step rfl ?_
  refine .bind (hg.binary ctx _ s₁ h₁.1.sound) fun right s₂ h₂ => ?_
  refine .refuse (fail_meets h₂.1.sound _ rfl) fun _ => .step rfl (.pure ?_)
  exact hl.1.attached hl.2 (h₁.1.trans h₂.1.kept) (placed_from h₁.1.toOnto h₂.2)

/-- Operands and operators lie between their ends. -/
theorem binaryExpression_makes (hg : g.Sound text) (ctx : Context) (min : Precedence) :
    Makes text Node.sketch (binaryExpression g ctx min) := by
  intro s hs
  refine .step rfl (.bind (unaryExpression_makes hg ctx s hs) fun left s₁ h₁ => ?_)
  refine .completeArrow fun b => .ite (fun _ => .pure h₁) fun _ => ?_
  refine iterate_meets (I := Made text Node.sketch s) (fun _ _ h => h.1.sound) ?_ h₁
  intro left s₂ h₂
  refine .step rfl ?_
  cases hop : (BinaryOperator.ofKind? s₂.lexer.token.kind).filter fun operator =>
      !(operator == .isIn && ctx.noIn) && min < operator.precedence with
  | none => exact .pure h₂
  | some operator =>
    have hk := isOrdinary_of_eq_some rfl rfl rfl (Option.filter_eq_some_iff.mp hop).1
    exact .bind (binaryOperation_meets hg ctx min h₂ hk) fun _ _ h => .pure h

/-- A condition and its two values lie between their ends. -/
theorem conditionalExpression_makes (hg : g.Sound text) (ctx : Context) :
    Makes text Node.sketch (conditionalExpression g ctx) := by
  intro s hs
  refine .step rfl (.bind (binaryExpression_makes hg ctx 0 s hs) fun test s₁ h₁ => .step rfl ?_)
  refine .completeArrow fun b => .ite (fun _ => .pure h₁) fun hk => ?_
  have hk : isOrdinary s₁.lexer.token.kind = true := by
    simp only [Bool.or_eq_true, Bool.not_eq_true', not_or, Bool.not_eq_false] at hk
    rw [eq_of_beq hk.1]
    rfl
  refine .bind (advance_meets h₁.1.sound hk) fun _ s₂ h₂ => ?_
  refine .bind (hg.value_makes _ s₂ h₂.1.sound) fun consequent s₃ h₃ => ?_
  refine .expect h₃.1.sound rfl fun s₄ h₄ => ?_
  refine .bind (hg.value_makes _ s₄ h₄.sound) fun alternate s₅ h₅ => .step rfl (.pure ?_)
  have halternate := placed_from h₄.toOnto h₅.2
  have hvalues := placed_append h₃.1.offset_le (h₄.trans h₅.1.kept).toOnto h₃.2 halternate
  exact h₁.1.attached h₁.2 (h₂.1.trans (h₃.1.trans (h₄.trans h₅.1.kept).kept).kept)
    (placed_from h₂.1.toOnto hvalues)

/-- What is yielded lies behind its word, if there is anything. -/
theorem yieldExpression_meets (hg : g.Sound text) (ctx : Context) (hs : s.Sound text)
    (hk : isOrdinary s.lexer.token.kind = true) :
    Meets text (yieldExpression g ctx) s (Made text Node.sketch s) := by
  unfold yieldExpression
  refine .refuse (failHere_meets hs rfl) fun _ => .step rfl ?_
  refine .bind (noteSuspension_meets rfl hs) fun _ s₁ h₁ => ?_
  refine .bind (advance_meets h₁.sound (by rw [h₁.lexer_eq]; exact hk)) fun _ s₂ h₂ => .step rfl ?_
  have ht₂ := h₁.kept.toOnto.took h₂.1
  refine .ite (fun _ => .step rfl (.pure ⟨ht₂, ht₂.node allPlaced_nil⟩)) fun _ => ?_
  refine .bind (eat_meets h₂.1.sound rfl) fun delegate s₃ h₃ => .step rfl ?_
  have ht₃ := ht₂.trans h₃
  refine .ite (fun _ => ?_) fun _ => .step rfl (.step rfl (.pure ⟨ht₃, ht₃.node allPlaced_nil⟩))
  refine .bind (hg.value_makes _ s₃ h₃.sound) fun argument s₄ h₄ => .step rfl (.step rfl (.pure ?_))
  exact ht₃.leading h₄.1 h₄.2

/-- A target lies where the expression does that it is made of. -/
theorem assignmentTarget_meets (operator : AssignmentOperator) (outer : Option Nat)
    {left : Expression} {lo : Nat} (hs : s.Sound text)
    (hl : AllPlaced text lo s.front left.sketch) :
    Meets text (assignmentTarget operator outer left) s fun target s' =>
      Same text s s' ∧ AllPlaced text lo s'.front target.sketch := by
  unfold assignmentTarget
  refine .ite (fun _ => ?_) fun _ => ?_
  · refine .bind (setCoverInit_meets outer hs) fun _ s₁ h₁ => .step rfl ?_
    replace hl := placed_upTo h₁.kept.toOnto hl
    refine (orFail_meets h₁.sound (Cover.toTarget_yields _ left rfl hl)).imp fun target s₂ h₂ => ?_
    obtain ⟨ht, rfl⟩ := h₂
    exact ⟨h₁, ht⟩
  · refine .bind (mergeCoverInit_meets outer hs) fun _ s₁ h₁ => ?_
    replace hl := placed_upTo h₁.kept.toOnto hl
    refine (orFail_meets h₁.sound (Cover.toSimpleTarget_yields left hl)).imp fun target s₂ h₂ => ?_
    obtain ⟨ht, rfl⟩ := h₂
    exact ⟨h₁, ht⟩

/-- A target and its value lie between their ends. -/
theorem assignmentExpression_makes (hg : g.Sound text) (ctx : Context) :
    Makes text Node.sketch (assignmentExpression g ctx) := by
  intro s hs
  refine .step rfl (.ite (fun hk => ?_) fun _ => .step rfl ?_)
  · refine yieldExpression_meets hg ctx hs ?_
    rw [eq_of_beq (Bool.and_eq_true_iff.mp hk).1]
    rfl
  · refine .bind (takeCoverInit_meets hs) fun outer s₁ h₁ => ?_
    refine .bind (conditionalExpression_makes hg ctx s₁ h₁.sound) fun left s₂ h₂ => ?_
    have hl := h₂.from h₁.kept.toOnto
    refine .completeArrow fun complete => .step rfl ?_
    cases hop : (AssignmentOperator.ofKind? s₂.lexer.token.kind).filter fun _ => !complete with
    | none =>
      refine .bind (mergeCoverInit_meets outer h₂.1.sound) fun _ s₃ h₃ => .pure ?_
      exact hl.upTo h₃.kept
    | some operator =>
      have hk := isOrdinary_of_eq_some rfl rfl rfl (Option.filter_eq_some_iff.mp hop).1
      refine .bind (assignmentTarget_meets operator outer h₂.1.sound hl.2) fun target s₃ h₃ => ?_
      rw [← h₃.1.lexer_eq] at hk
      refine .bind (advance_meets h₃.1.sound hk) fun _ s₄ h₄ => ?_
      refine .bind (hg.value_makes _ s₄ h₄.1.sound) fun value s₅ h₅ => .step rfl (.pure ?_)
      exact (hl.1.trans h₃.1.kept).attached h₃.2 (h₄.1.trans h₅.1.kept)
        (placed_from h₄.1.toOnto h₅.2)

end

end EcmaScript.Parser
