import EcmaScript.Proofs.Build.Operand
import EcmaScript.Proofs.Parser.Expression

/-!
# Building expressions with operators

The operand of a unary operator and the right operand of a binary one are a level further in.
The left operand of a binary operator is not, and neither is the test of a conditional, but
there is no conditional in that test that is not a level further in. An arrow function without
parentheses is neither of the two. A plain assignment claims the defaults in its target.

A private name that is read as an operand has `in` behind it. So it becomes the left operand of
that operator, unless an operator in front of it binds more tightly: a unary operator and `await`
take it for their operand. A binary operator does not, it refuses a private name on its right.
The operand of a conditional or an assignment is bound by nothing, so it can stand anywhere.
-/

namespace EcmaScript.Parser

open Budget

section

variable {text : String} {s : State} {g : Grammar} {n : Nat} {b : Budget} {ctx : Context}

/-- The power operator is refused, or there is none. -/
theorem rejectPower_gives : Gives text rejectPower s fun _ s' => s' = s :=
  .read rfl (.ite (fun _ => failHere_gives) fun _ => .pure rfl)

/-- A unary operation can stand anywhere, even if its operand cannot. -/
theorem unary_proper {span : Span} {operator : UnaryOperator} {argument : Expression}
    (hargument : IsTerm ctx b argument s) : Proper (.unary span operator argument) := by
  refine ⟨.node ⟨?_, ?_, trivial, trivial, by simp [Node.stamps]⟩ ?_, rfl⟩
  · simpa [Node.PlacesLinks, Node.parts] using hargument.unlinked
  · simpa [Node.PlacesSuper, Node.parts] using hargument.unsuper
  · simpa [Node.parts] using hargument.regular

/-- What is waited for can stand anywhere, even if the operand cannot. -/
theorem await_proper {span : Span} {argument : Expression} (hargument : IsTerm ctx b argument s) :
    Proper (.awaitValue span argument) := by
  refine ⟨.node ⟨?_, ?_, trivial, trivial, by simp [Node.stamps]⟩ ?_, rfl⟩
  · simpa [Node.PlacesLinks, Node.parts] using hargument.unlinked
  · simpa [Node.PlacesSuper, Node.parts] using hargument.unsuper
  · simpa [Node.parts] using hargument.regular

/-- What is updated is a name or a property, so it can stand anywhere. -/
theorem IsTerm.update {e : Expression} (h : IsTerm ctx b e s) (htarget : e.isSimpleTarget = true)
    {span : Span}
    {operator : UpdateOperator} {leading : Bool} :
    Open b (.update span operator leading e) s := by
  have hfree := Node.isFree_of_isSimpleTarget htarget h.unlinked
  have hopen : Open b e s := ⟨h.built, h.regular, hfree⟩
  refine .of_plain rfl (.unruled rfl) (by simp [Node.kind?]) ?_
  simpa [Node.parts, Node.kind?] using hopen

/-- An operand with an update operator behind it can stand anywhere. -/
theorem postfixExpression_gives (hg : g.Builds text n) (ctx : Context) :
    Gives text (postfixExpression g ctx) s fun a s' =>
      IsTerm ctx (simple n) a s' ∧ Finished s a s' := by
  refine .read rfl (.bind (operand_gives hg ctx) fun e s₁ _ h₁ => .read rfl ?_)
  split
  · exact .pure h₁
  · refine .read rfl (.read (isCompleteArrow_eq e s₁) (.ite (fun _ => .pure h₁) fun _ => ?_))
    refine .require fail_gives fun htarget => .skip advance_gives fun _ s₂ hl => .read rfl ?_
    exact .pure ⟨.of_open ((h₁.1.update htarget).later _ _ _ hl), nofun⟩

/-- An operand with an update operator in front of it can stand anywhere. -/
theorem prefixUpdate_gives (hg : g.Builds text n) (ctx : Context) (operator : UpdateOperator) :
    Gives text (prefixUpdate g ctx operator) s fun a s' =>
      Open (simple n) a s' ∧ Finished s a s' := by
  refine .read rfl (.skip advance_gives fun _ s₁ _ => .read rfl ?_)
  refine .bind (hg.nested.unary ctx s₁) fun e s₂ _ h₂ => .require fail_gives fun htarget => ?_
  exact .read rfl (.pure ⟨(h₂.le (level_le_simple n)).update htarget, nofun⟩)

/-- The operand of a unary operator is a level further in. -/
theorem unaryOperation_gives (hg : g.Builds text n) (ctx : Context) (operator : UnaryOperator) :
    Gives text (unaryOperation g ctx operator) s fun a s' =>
      Open (simple n) a s' ∧ Finished s a s' := by
  refine .read rfl (.skip advance_gives fun _ s₁ _ => ?_)
  refine .bind (hg.nested.unary ctx s₁) fun e s₂ _ h₂ => .bind rejectPower_gives fun _ s₃ _ h₃ => ?_
  subst h₃
  refine .read rfl (.pure ⟨⟨.nested (n := n) rfl (level_le_simple n) ?_ ?_,
    unary_proper h₂⟩, nofun⟩)
  · rintro _ ⟨⟩
    exact lt_simple n (by simp) (by simp)
  · simpa [Node.parts] using h₂.built

/-- A suspension that is noted leaves nothing to be built. -/
theorem noteSuspension_gives {problem : Problem} (hp : problem.category = .syntactic) :
    Gives text (noteSuspension problem) s fun _ _ => True := by
  intro hs a s' hrun
  have hsame := (noteSuspension_meets hp hs).ok hrun
  cases hrun
  exact ⟨hsame.sound, id, trivial⟩

/-- What is waited for is a level further in. -/
theorem awaitOperation_gives (hg : g.Builds text n) (ctx : Context) :
    Gives text (awaitOperation g ctx) s fun a s' => Open (simple n) a s' ∧ Finished s a s' := by
  unfold awaitOperation
  refine .refuse failHere_gives fun _ => .read rfl ?_
  refine .skip (noteSuspension_gives rfl) fun _ s₁ _ => .skip advance_gives fun _ s₂ _ => ?_
  refine .bind (hg.nested.unary ctx s₂) fun e s₃ _ h₃ => .bind rejectPower_gives fun _ s₄ _ h₄ => ?_
  subst h₄
  refine .read rfl (.pure ⟨⟨.nested (n := n) rfl (level_le_simple n) ?_ ?_,
    await_proper h₃⟩, nofun⟩)
  · rintro _ ⟨⟩
    exact lt_simple n (by simp) (by simp)
  · simpa [Node.parts] using h₃.built

/-- An expression without binary operators is a whole operand. -/
theorem unaryExpression_gives (hg : g.Builds text n) (ctx : Context) :
    Gives text (unaryExpression g ctx) s fun a s' =>
      IsTerm ctx (simple n) a s' ∧ Finished s a s' := by
  refine .read rfl ?_
  split
  · exact (unaryOperation_gives hg ctx _).imp fun _ _ h => ⟨.of_open h.1, h.2⟩
  · exact (prefixUpdate_gives hg ctx _).imp fun _ _ h => ⟨.of_open h.1, h.2⟩
  · refine .ite (fun _ => ?_) fun _ => postfixExpression_gives hg ctx
    exact (awaitOperation_gives hg ctx).imp fun _ _ h => ⟨.of_open h.1, h.2⟩

/-- A private name is told by its form. -/
theorem isPrivateName_eq (e : Expression) : isPrivateName e = e.isPrivate := by
  cases e <;> rfl

/-- A private name can only be the left operand of `in`. -/
theorem binary_proper {min : Precedence} {span : Span} {operator : BinaryOperator}
    {left right : Expression} {c : Budget} {s₀ : State} (hleft : IsTerm ctx b left s)
    (hright : IsBinary min c right s₀) (hin : left.isPrivate = true → operator = .isIn)
    (hprivate : right.isPrivate = false) : Proper (.binary span operator left right) := by
  refine ⟨.node ⟨?_, ?_, ⟨hin, hprivate⟩, trivial, by simp [Node.stamps]⟩ ?_, rfl⟩
  · simpa [Node.PlacesLinks, Node.parts] using ⟨hleft.unlinked, hright.unlinked⟩
  · simpa [Node.PlacesSuper, Node.parts] using ⟨hleft.unsuper, hright.unsuper⟩
  · simpa [Node.parts] using ⟨hleft.regular, hright.regular⟩

/-- The right operand of a binary operator is a level further in, the left one is not. -/
theorem binaryOperation_gives (hg : g.Builds text n) (ctx : Context) (min : Precedence)
    {start : Nat} {left : Expression} (operator : BinaryOperator)
    (hleft : IsTerm ctx (simple n) left s) (ha : Attachable start false left) :
    Gives text (binaryOperation g ctx min start left operator) s fun a s' =>
      Open (simple n) a s' ∧ a.isArrow = false := by
  unfold binaryOperation
  refine .refuse unexpected_gives fun hin => .refuse unexpected_gives fun _ => ?_
  refine .skip advance_gives fun _ s₁ hl₁ => .read rfl ?_
  refine .bind (hg.nested.binary ctx _ s₁) fun right s₂ hl₂ h₂ => ?_
  refine .refuse fail_gives fun hprivate => .read rfl (.pure ⟨⟨?_, ?_⟩, rfl⟩)
  · have hlater : Built (simple n) s₂.coverInit.isNone false left := by
      refine hleft.built.mono le_rfl (fun hn => ?_) id
      rw [Option.isNone_iff_eq_none] at hn ⊢
      exact hl₁ (hl₂ hn)
    refine built_attached rfl rfl rfl rfl (Or.inr rfl) ha ?_
    simpa [Node.parts] using ⟨hlater, (h₂.le (level_le_simple n)).built⟩
  · rw [isPrivateName_eq] at hprivate
    refine binary_proper hleft h₂ ?_ (eq_false_of_ne_true hprivate)
    simpa [isPrivateName_eq] using hin

/-- Where `in` is an operator, comes next, and binds tightly enough, there is an operator. -/
theorem not_lt_of_filter_eq_none {min : Precedence} (hin : ctx.noIn = false)
    (hk : s.lexer.token.kind = .word .inKw)
    (h : ((BinaryOperator.ofKind? s.lexer.token.kind).filter fun operator =>
      !(operator == .isIn && ctx.noIn) && min < operator.precedence) = none) :
    ¬min < BinaryOperator.isIn.precedence := by
  simp only [hk, BinaryOperator.ofKind?, hin, Option.filter_eq_none_iff] at h
  simpa using h

/-- An expression with those operators that bind more tightly than the least. -/
theorem binaryExpression_gives (hg : g.Builds text n) (ctx : Context) (min : Precedence) :
    Gives text (binaryExpression g ctx min) s fun a s' =>
      IsBinary min (simple n) a s' ∧ Finished s a s' := by
  refine .read rfl (.bind (unaryExpression_gives hg ctx) fun left s₁ _ h₁ => ?_)
  refine .read (isCompleteArrow_eq left s₁) (.ite (fun hc => .pure ⟨?_, h₁.2⟩) fun hc => ?_)
  · have hfree := isFree_of_isArrow (Bool.and_eq_true _ _ ▸ hc).1
    exact .of_open (h₁.1.open (Node.isFree_iff.mp hfree).2.2)
  rw [Bool.not_eq_true] at hc
  refine iterate_gives (I := fun e s₂ => IsTerm ctx (simple n) e s₂ ∧ Attachable s.offset false e)
    (fun e s₂ h₂ => .read rfl ?_) ⟨h₁.1, h₁.2.attachable hc⟩
  split
  · rename_i hnone
    refine .pure ⟨⟨h₂.1.built, h₂.1.regular, h₂.1.unlinked, h₂.1.unsuper, fun hp => ?_⟩,
      fun ha hs => absurd hs (h₂.2 rfl ha)⟩
    exact not_lt_of_filter_eq_none (h₂.1.hidden hp).1 (h₂.1.hidden hp).2 hnone
  · refine .bind (binaryOperation_gives hg ctx min _ h₂.1 h₂.2) fun x s₃ _ h₃ => ?_
    exact .pure ⟨.of_open h₃.1, attachable_of_isArrow h₃.2⟩

/-- A conditional is a level of its own, but for its test. -/
theorem conditionalExpression_gives (hg : g.Builds text n) (ctx : Context) :
    Gives text (conditionalExpression g ctx) s fun a s' => Open (level (n + 1)) a s' := by
  refine .read rfl (.bind (binaryExpression_gives hg ctx 0) fun test s₁ _ h₁ => .read rfl ?_)
  -- A private name has `in` behind it, which binds.
  have hopen : Open (simple n) test s₁ :=
    h₁.1.open (eq_false_of_ne_true fun hp => h₁.1.hidden hp (by decide))
  refine .read (isCompleteArrow_eq test s₁) (.ite (fun _ => ?_) fun hc => ?_)
  · exact .pure (hopen.le (simple_le_level n))
  · simp only [Bool.or_eq_true, not_or, Bool.not_eq_true] at hc
    refine .skip advance_gives fun _ s₂ hl₂ => ?_
    refine .bind (hg.nested.value _) fun consequent s₃ hl₃ h₃ => ?_
    refine .skip expect_gives fun _ s₄ hl₄ => ?_
    refine .bind (hg.nested.value _) fun alternate s₅ hl₅ h₅ => .read rfl (.pure ?_)
    have htest := hopen.later _ _ _ (hl₂.trans (hl₃.trans (hl₄.trans hl₅)))
    have hsimple : simple n ≤ (level (n + 1)).spend (some .conditional) := by
      intro k
      simp only [simple, spend, level_apply, Option.some.injEq]
      grind
    have hlevel : level n ≤ (level (n + 1)).spend (some .conditional) :=
      (level_le_simple n).trans hsimple
    refine ⟨.node (by simp) (by simp [Node.isUnclaimed]) (fun ho => ?_) ?_, ?_⟩
    · obtain ⟨e, he, harrow, hstart⟩ := ho
      cases he
      exact absurd hstart (h₁.2.attachable hc.2 rfl harrow)
    · simpa [Node.parts, Node.kind?] using
        ⟨htest.built.le hsimple, h₃.built.le hlevel, h₅.built.le hlevel⟩
    · refine (Node.Orderly.unruled rfl).proper ?_
      simpa [Node.parts] using ⟨htest.proper, h₃.proper, h₅.proper⟩

/-- What a generator hands out is settled. -/
theorem yieldExpression_gives (hg : g.Builds text n) (ctx : Context) :
    Gives text (yieldExpression g ctx) s fun a s' => Open (level (n + 1)) a s' := by
  have hnode : ∀ {argument : Option Expression} {delegate : Bool} {span : Span} {s' : State},
      (∀ e, argument = some e → Settled (level n) e) →
      Open (level (n + 1)) (.yieldValue span argument delegate) s' := by
    intro argument delegate span s' h
    refine .unruled rfl ?_
    simpa [Node.parts] using fun e he => (h e he).le (level_mono (Nat.le_succ n))
  unfold yieldExpression
  refine .refuse failHere_gives fun _ => .read rfl ?_
  refine .skip (noteSuspension_gives rfl) fun _ s₁ _ => .skip advance_gives fun _ s₂ _ => ?_
  refine .read rfl (.ite (fun _ => .read rfl (.pure (hnode (by simp)))) fun _ => ?_)
  refine .skip eat_gives fun delegate s₃ _ => .read rfl (.ite (fun _ => ?_) fun _ => ?_)
  · refine .bind (hg.nested.value _) fun e s₄ _ h₄ => .read rfl (.read rfl (.pure (hnode ?_)))
    rintro _ ⟨⟩
    exact h₄
  · exact .read rfl (.read rfl (.pure (hnode (by simp))))

/-- A target is settled, and the default from before it is not forgotten. -/
theorem assignmentTarget_runs (operator : AssignmentOperator) (outer : Option Nat) {t : Bool}
    {left : Expression} (hl : WellBuilt b t left) :
    Runs text (assignmentTarget operator outer left) s fun target s' =>
      Settled b target ∧ (s'.coverInit = none → outer = none) := by
  unfold assignmentTarget
  refine Runs.ite (fun _ => ?_) fun _ => ?_
  · refine Runs.step rfl (State.Sound.remember rfl rfl rfl rfl) (Runs.read rfl ?_)
    refine Runs.imp (orFail_gives (Cover.toTarget_wellBuilt _ _ hl)) fun target s' h => ⟨h.2.1, ?_⟩
    rw [h.2.2]
    exact id
  · refine Runs.step rfl (State.Sound.remember rfl rfl rfl rfl) ?_
    refine Runs.imp (orFail_gives (Cover.toSimpleTarget_wellBuilt hl)) fun target s' h =>
      ⟨h.2.1, ?_⟩
    rw [h.2.2]
    exact fun hn => (Option.or_eq_none_iff.mp hn).1

/-- An assignment claims the defaults in its target. -/
theorem assignmentExpression_gives (hg : g.Builds text n) (ctx : Context) :
    Gives text (assignmentExpression g ctx) s fun a s' => Open (level (n + 1)) a s' := by
  refine .read rfl (.ite (fun _ => yieldExpression_gives hg ctx) fun _ => ?_)
  refine Runs.read rfl (Runs.step rfl (State.Sound.remember rfl rfl rfl rfl) ?_)
  refine Runs.bind (conditionalExpression_gives hg ctx) fun left s₁ h₁ => ?_
  refine Runs.read (isCompleteArrow_eq left s₁) (Runs.read rfl ?_)
  split
  · refine Runs.step rfl (State.Sound.remember rfl rfl rfl rfl) (Runs.pure ⟨fun hn => ?_, ?_⟩)
    · exact (Option.or_eq_none_iff.mp hn).1
    · exact h₁.2.mono le_rfl isNone_of_merge
  · refine Runs.bind (assignmentTarget_runs _ _ h₁.2) fun target s₂ h₂ => ?_
    refine Runs.bind advance_gives fun _ s₃ h₃ => ?_
    refine Runs.bind (hg.nested.value _) fun value s₄ h₄ =>
      Runs.read rfl (Runs.pure ⟨fun hn => ?_, ?_⟩)
    · exact h₂.2 (h₃.1 (h₄.1 hn))
    · refine .unruled rfl ?_
      simpa [Node.parts] using ⟨h₂.1, h₄.2.le (level_mono (Nat.le_succ n))⟩

end

end EcmaScript.Parser
