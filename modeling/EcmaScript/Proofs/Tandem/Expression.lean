import EcmaScript.Proofs.Parser.Expression
import EcmaScript.Proofs.Tandem.Operand

/-!
# Expressions with operators in step

An operator is known by its token, and so is its absence. Up to the binary operators, the stretch
may not end behind a private name; the operator `in` then is taken with it, and from there on the
stretch may end behind any expression.
-/

namespace EcmaScript.Parser

open Place

section

variable {w : Tandem} {K K₀ : Prop} {m n : Nat} {s t : State} {g g' : Grammar}
  {belongs : TokenKind → Bool}

/-- An operand followed by what makes a node of it, without taking a token. -/
theorem Tracks.bind_last {p q : Parser Expression} {f f' : Expression → Parser Expression}
    (h : Follows w K m (ends belongs) (Node.relocate w.relocation) p q s t)
    (hf : ∀ a s₁ t₁, Passed w .inside p s a s₁ → Follows w (K ∧ InStep w s t) 0 anywhere
      (Node.relocate w.relocation) (f a) (f' (a.relocate w.relocation)) s₁ t₁)
    (hlast : ∀ a s₁ e s₂, f a s₁ = .ok (e, s₂) → e.isArrow = false ∧ s₂ = s₁)
    [Fewer n m] :
    Follows w K n (ends belongs) (Node.relocate w.relocation) (p >>= f) (q >>= f') s t := by
  refine .bind_or h (fun a s₁ t₁ hpass => Or.inr ⟨(hf a s₁ t₁ hpass).freely, ?_⟩)
  intro e s₂ hrun hends
  obtain ⟨harrow, rfl⟩ := hlast a s₁ e s₂ hrun
  rw [ends, harrow] at hends
  exact Or.inr (hends.resolve_left Bool.false_ne_true)

/-- A power is refused in step. -/
theorem rejectPower_follows : Follows w K 0 anywhere id rejectPower rejectPower s t :=
  .isAt rfl (fun _ => .error failHere_fails) fun _ => .pure rfl

/-- A run that goes on behind the check leaves the state as it is. -/
theorem rejectPower_run {s' : State} (h : rejectPower s = .ok ((), s')) : s' = s := by
  obtain ⟨isPower, s₁, hat, h⟩ := bind_eq_ok h
  cases hat
  split at h
  · exact absurd h (failHere_fails _)
  · cases h
    rfl

/-- An operand that may have an update operator behind it. -/
def postfixFrom (start : Nat) (e : Expression) : Parser Expression := do
  match UpdateOperator.ofKind? (← kind) with
  | none => return e
  | some operator =>
    if (← afterLineBreak) || (← isCompleteArrow e) then return e
    unless e.isSimpleTarget do fail start .postfixTarget
    advance
    return .update (← spanFrom start) operator false e

/-- Whether the current token is no update operator for an operand. -/
def hasNoUpdate (e : Expression) (s : State) : Bool :=
  (UpdateOperator.ofKind? s.lexer.token.kind).isNone ||
    (s.lexer.token.afterLineBreak || completesAt s.consumed e)

/-- Where nothing is counted up or down the operand stays as it is. -/
theorem postfixFrom_run {start : Nat} {e : Expression} (h : hasNoUpdate e s = true) :
    postfixFrom start e s = .ok (e, s) := by
  refine (bind_run (a := s.lexer.token.kind) rfl).trans ?_
  cases hop : UpdateOperator.ofKind? s.lexer.token.kind with
  | none => rfl
  | some operator =>
    rw [hasNoUpdate, hop, Option.isNone_some, Bool.false_or] at h
    refine (bind_run (a := s.lexer.token.afterLineBreak) rfl).trans ?_
    refine (bind_run (isCompleteArrow_completesAt e s)).trans ?_
    rw [h]
    rfl

/-- Whether something is counted up or down is told alike from the same token. -/
theorem InStep.hasNoUpdate_eq (hin : InStep w s t) (halike : Alike w s t) (hb : Begun w s)
    (e : Expression) : hasNoUpdate (e.relocate w.relocation) t = hasNoUpdate e s := by
  rw [hasNoUpdate, hasNoUpdate, halike.twin.kind, halike.lineBreak hb.base_lt,
    hin.completesAt_eq hb]

/-- An operator behind an operand is read in step, unless the stretch ends in front of it. -/
theorem postfixFrom_goesOn (start : Nat) (e : Expression) (s t : State) (hb : Begun w s) :
    GoesOn w .inside K (ends belongs e s) (ends belongs) (Node.relocate w.relocation)
      (postfixFrom start e) (postfixFrom (w.start start) (e.relocate w.relocation)) s t := by
  cases hno : hasNoUpdate e s with
  | true =>
    refine Or.inr ⟨.of_base fun _ hs => .congr_run (r := pure e) (.congr (.pure rfl)
      fun _ hin => ?_)
      (postfixFrom_run hno), fun e' s' hrun hends => ?_⟩
    · refine postfixFrom_run ?_
      rcases InStep.cases hin hs with ha | hend
      · rw [InStep.hasNoUpdate_eq hin ha hb]
        exact hno
      · rw [hasNoUpdate]
        exact hend.of_kind (motive := fun k => ((UpdateOperator.ofKind? k).isNone || _) = true)
          rfl rfl
    · rw [postfixFrom_run hno] at hrun
      cases hrun
      exact hends
  | false =>
    obtain ⟨hop, hgo⟩ := Bool.or_eq_false_iff.mp hno
    obtain ⟨operator, hop⟩ := Option.isSome_iff_exists.mp (Option.isNone_eq_false_iff.mp hop)
    refine Or.inl (.freely (.kind ?_))
    rw [hop]
    refine .read (a := s.lexer.token.afterLineBreak) (c := t.lexer.token.afterLineBreak) rfl rfl ?_
    refine .isCompleteArrow e hb (.branch (m := 1) (fun h => ?_) (fun _ => ?_) (fun h => ?_)
      (fun h hs _ ha hin _ => ?_) (Nat.le_refl 1))
    · exact absurd h (Bool.eq_false_iff.mp hgo)
    · rw [Node.isSimpleTarget_relocate]
      refine .require fail_fails (fun _ _ => id) fun _ => ?_
      have hne := ne_endOfFile_of_isOrdinary (isOrdinary_of_eq_some rfl rfl rfl hop)
      exact .andThen (advance_follows hne) fun _ _ _ _ hb => .node hb fun _ => rfl
    · exact absurd h (Bool.eq_false_iff.mp hgo)
    · rwa [(InStep.alike hin hs ha).lineBreak hb.base_lt]

/-- Operands with an operator behind them are read in step. -/
theorem postfixExpression_follows (hg : g.Keeps w K₀ g') (hK : K → K₀) (ctx : Context) :
    Follows w K 1 (ends (isInOperator ctx)) (Node.relocate w.relocation)
      (postfixExpression g (ctx.widen w.base)) (postfixExpression g' (w.context ctx)) s t :=
  .offset fun start _ => .bind_or (operand_follows hg hK ctx) fun e s₁ t₁ h₁ =>
    postfixFrom_goesOn start e s₁ t₁ ((operand_follows (t := t) hg hK ctx).begun h₁)

/-- Counting up or down before the use is read in step. -/
theorem prefixUpdate_follows (hg : g.Keeps w K₀ g') (ctx : Context) (operator : UpdateOperator)
    (hk : s.lexer.token.kind ≠ .endOfFile) :
    Follows w K 1 (ends (isInOperator ctx)) (Node.relocate w.relocation)
      (prefixUpdate g (ctx.widen w.base) operator) (prefixUpdate g' (w.context ctx)
      operator) s t := by
  unfold prefixUpdate
  rw [hg.toNested_eq]
  refine .offset fun start _ => .bind (advance_follows hk) fun _ s₁ t₁ _ =>
    .offset fun place _ => ?_
  refine .bind_last (hg.nested.unary ctx s₁ t₁) (fun argument s₂ t₂ h₂ => ?_)
    fun argument s₂ e s₃ hrun => ?_
  · have hb := (hg.nested.unary (K := True) ctx s₁ t₁).begun h₂
    rw [Node.isSimpleTarget_relocate]
    exact .require fail_fails (fun _ _ => id) fun _ => .node hb fun _ => rfl
  · split at hrun
    · cases hrun
      exact ⟨rfl, rfl⟩
    · exact absurd hrun (fail_fails.bind _)

/-- The operand of an operator that stands before it, and no power operator behind. -/
theorem leading_follows (hg : g.Keeps w K₀ g') (ctx : Context) (start : Nat)
    {make : Span → Expression → Expression}
    (hmake : ∀ span e, make (w.span span) (e.relocate w.relocation) = (make span e).relocate
    w.relocation)
    (harrow : ∀ span e, (make span e).isArrow = false) :
    Follows w K 1 (ends (isInOperator ctx)) (Node.relocate w.relocation)
      (do
        let argument ← g.unary (ctx.widen w.base)
        rejectPower
        return make (← spanFrom start) argument)
      (do
        let argument ← g'.unary (w.context ctx)
        rejectPower
        return make (← spanFrom (w.start start)) argument) s t := by
  rw [hg.toNested_eq]
  refine .bind_last (hg.nested.unary ctx s t) (fun argument s₁ t₁ h₁ => ?_)
    fun argument s₁ e s₂ hrun => ?_
  · have hb := (hg.nested.unary (K := True) ctx s t).begun h₁
    exact .bind rejectPower_follows fun _ _ _ h₂ =>
      .node (h₂.begun hb) fun span => hmake span argument
  · obtain ⟨_, s₃, hpower, hrun⟩ := bind_eq_ok hrun
    rw [rejectPower_run hpower] at hrun
    cases hrun
    exact ⟨harrow _ _, rfl⟩

/-- Prefixed operators are read in step with their operands. -/
theorem unaryOperation_follows (hg : g.Keeps w K₀ g') (ctx : Context) (operator : UnaryOperator)
    (hk : s.lexer.token.kind ≠ .endOfFile) :
    Follows w K 1 (ends (isInOperator ctx)) (Node.relocate w.relocation)
      (unaryOperation g (ctx.widen w.base) operator) (unaryOperation g' (w.context ctx)
      operator) s t :=
  .offset fun start _ => .bind (advance_follows hk) fun _ _ _ _ =>
    leading_follows hg ctx start (fun _ _ => rfl) fun _ _ => rfl

/-- An operator that suspends the function is remembered in both texts. -/
theorem Tracks.noteSuspension {β δ : Type} {ψ : β → δ} {Q : β → State → Prop} {problem : Problem}
    {f : Unit → Parser β} {f' : Unit → Parser δ} (hp : problem.category = .syntactic)
    (h : ∀ s₁ t₁, s₁.lexer = s.lexer → Follows w (K ∧ InStep w s t) n Q ψ (f ()) (f' ()) s₁ t₁) :
    Follows w K n Q ψ (Parser.noteSuspension problem >>= f)
    (Parser.noteSuspension problem >>= f') s t :=
  .step rfl rfl rfl (fun hs => (noteSuspension_meets hp hs).ok rfl)
    (fun _ hin => { hin with suspension := fun hnone => by simp at hnone }) (h _ _ rfl)

/-- Waiting is read in step. -/
theorem awaitOperation_follows (hg : g.Keeps w K₀ g') (ctx : Context)
    (hk : s.lexer.token.kind ≠ .endOfFile) :
    Follows w K 1 (ends (isInOperator ctx)) (Node.relocate w.relocation)
      (awaitOperation g (ctx.widen w.base)) (awaitOperation g' (w.context ctx)) s t := by
  unfold awaitOperation
  refine .refuse failHere_fails (fun _ _ => id) fun _ => .offset fun start _ => ?_
  refine .noteSuspension rfl fun s₁ t₁ hlexer => ?_
  refine .bind (advance_follows (by rw [hlexer]; exact hk)) fun _ s₂ t₂ _ => ?_
  exact leading_follows hg ctx start (fun _ _ => rfl) fun _ _ => rfl

/-- Operators in front of an operand are read in step. -/
theorem unaryExpression_follows (hg : g.Keeps w K₀ g') (hK : K → K₀) (ctx : Context) :
    Follows w K 1 (ends (isInOperator ctx)) (Node.relocate w.relocation)
      (unaryExpression g (ctx.widen w.base)) (unaryExpression g' (w.context ctx)) s t := by
  refine .kind ?_
  cases hu : UnaryOperator.ofKind? s.lexer.token.kind with
  | some operator =>
    refine unaryOperation_follows hg ctx operator ?_
    exact ne_endOfFile_of_isOrdinary (isOrdinary_of_eq_some rfl rfl rfl hu)
  | none =>
    cases hop : UpdateOperator.ofKind? s.lexer.token.kind with
    | some operator =>
      refine prefixUpdate_follows hg ctx operator ?_
      exact ne_endOfFile_of_isOrdinary (isOrdinary_of_eq_some rfl rfl rfl hop)
    | none =>
      refine .ite Iff.rfl (fun hk => ?_) fun _ => postfixExpression_follows hg hK ctx
      refine awaitOperation_follows hg ctx ?_
      rw [eq_of_beq (Bool.and_eq_true_iff.mp hk).1]
      simp

@[simp] theorem isPrivateName_relocate (f : Relocation) (e : Expression) :
    isPrivateName (e.relocate f) = isPrivateName e := by
  cases e <;> rfl

/-- An expression does not start before the offset that it lies behind. -/
theorem le_start_of_allPlaced {text : String} {lo : Nat} {hi : Front} {e : Expression}
    (h : Sketch.AllPlaced text lo hi e.sketch) : lo ≤ Position.offset e.span.start := by
  obtain ⟨debt, row, parts, hparts⟩ := Node.sketch_expression e
  rw [hparts] at h
  obtain ⟨start, stop, hspan, hle, -⟩ := h.each.of_mk
  rw [hspan]
  exact hle

/-- The operand starts behind the base, so it is told apart from parentheses before it. -/
theorem mixesCoalesce_relocate {w : Shift} {operator : BinaryOperator} {min : Precedence}
    {start : Nat} {left : Expression} (hs : w.base ≤ start)
    (hl : w.base ≤ Position.offset left.span.start) :
    mixesCoalesce operator min (w.start start) (left.relocate w.relocation) =
      mixesCoalesce operator min start left := by
  have hopen : isOpenLogical (w.start start) (left.relocate w.relocation) =
      isOpenLogical start left := by
    cases left with
    | binary span op a b =>
      have hl : w.base ≤ Position.offset span.start := hl
      show (_ && (w.start (Position.offset span.start) == w.start start)) = (_ && _)
      congr 1
      rw [Bool.eq_iff_iff, beq_iff_eq, beq_iff_eq]
      exact ⟨w.start_inj hl hs, congrArg w.start⟩
    | _ => rfl
  cases operator with
  | coalesce => exact hopen
  | _ => rfl

/-- An operator with its right operand is read in step. -/
theorem binaryOperation_follows (hg : g.Keeps w K₀ g') (ctx : Context) (min : Precedence)
    {start : Nat} {left : Expression} (operator : BinaryOperator) (hs : w.base ≤ start)
    (hl : w.base ≤ Position.offset left.span.start) (hk : s.lexer.token.kind ≠ .endOfFile) :
    Follows w K 1 (ends (isInOperator ctx)) (Node.relocate w.relocation)
      (binaryOperation g (ctx.widen w.base) min start left operator)
      (binaryOperation g' (w.context ctx) min (w.start start) (left.relocate w.relocation)
      operator) s t := by
  unfold binaryOperation
  rw [isPrivateName_relocate, mixesCoalesce_relocate hs hl, hg.toNested_eq]
  refine .refuse unexpected_fails (fun _ _ => id) fun _ => ?_
  refine .refuse unexpected_fails (fun _ _ => id) fun _ => ?_
  refine .bind (advance_follows hk) fun _ s₁ t₁ _ => .read rfl rfl ?_
  refine .bind_last (hg.nested.binary ctx _ s₁ t₁) (fun right s₂ t₂ h₂ => ?_)
    fun right s₂ e s₃ hrun => ?_
  · have hb := (hg.nested.binary (K := True) ctx _ s₁ t₁).begun h₂
    rw [isPrivateName_relocate]
    exact .refuse fail_fails (fun _ _ => id) fun _ => .node hb fun _ => rfl
  · split at hrun
    · exact absurd hrun (fail_fails.bind _)
    · cases hrun
      exact ⟨rfl, rfl⟩

/-- A binary operator with its right operand, or the end of the expression. -/
def binaryRound (g : Grammar) (ctx : Context) (min : Precedence) (start : Nat) (left : Expression) :
    Parser (Round Expression Expression) := do
  match ← binaryOperator? ctx min with
  | none => return .done left
  | some operator => return .next (← binaryOperation g ctx min start left operator)

/-- The operator that a token is between operands, if it binds more tightly than `min`. -/
def operatorAt (ctx : Context) (min : Precedence) (k : TokenKind) : Option BinaryOperator :=
  (BinaryOperator.ofKind? k).filter fun operator =>
    !(operator == .isIn && ctx.noIn) && min < operator.precedence

/-- Where no operator follows that binds as tightly, the chain is done. -/
theorem binaryRound_run {ctx : Context} {min : Precedence} {start : Nat} {left : Expression}
    (h : operatorAt ctx min s.lexer.token.kind = none) :
    binaryRound g ctx min start left s = .ok (.done left, s) := by
  refine (bind_run (a := operatorAt ctx min s.lexer.token.kind) rfl).trans ?_
  rw [h]
  rfl

/-- A round of a chain of operators is in step. -/
theorem binaryRound_follows (hg : g.Keeps w K₀ g') (ctx : Context) (min : Precedence)
    {start : Nat} (hstart : w.base ≤ start) (left : Expression) (s t : State)
    (hl : w.base ≤ Position.offset left.span.start) :
    Follows w K 1 (Round.stops (ends (isInOperator ctx)) (ends (isInOperator ctx)))
        (Round.map (Node.relocate w.relocation) (Node.relocate w.relocation))
        (binaryRound g (ctx.widen w.base) min start left)
        (binaryRound g' (w.context ctx) min (w.start start) (left.relocate w.relocation)) s t ∨
      Follows w K 0 (Round.stops (ends (isInOperator ctx)) (ends (isInOperator ctx)))
        (Round.map (Node.relocate w.relocation) (Node.relocate w.relocation))
        (binaryRound g (ctx.widen w.base) min start left)
        (binaryRound g' (w.context ctx) min (w.start start) (left.relocate w.relocation)) s t ∧
      ∃ e, binaryRound g (ctx.widen w.base) min start left s = .ok (.done e, s) ∧
        (ends (isInOperator ctx) e s → ends (isInOperator ctx) left s) := by
  cases hop : operatorAt ctx min s.lexer.token.kind with
  | none =>
    refine Or.inr ⟨.of_base fun _ hs => .congr_run (r := pure (.done left)) (.congr (.pure rfl)
      fun _ hin => binaryRound_run ?_) (binaryRound_run hop), left, binaryRound_run hop, id⟩
    rcases InStep.cases hin hs with ha | hend
    · rw [ha.twin.kind]
      exact hop
    · exact hend.of_kind (motive := fun k => operatorAt ctx min k = none) rfl rfl
  | some operator =>
    refine Or.inl ?_
    have hne := ne_endOfFile_of_isOrdinary
      (isOrdinary_of_eq_some rfl rfl rfl (Option.filter_eq_some_iff.mp hop).1)
    refine .read (a := operatorAt ctx min s.lexer.token.kind)
      (c := operatorAt ctx min t.lexer.token.kind) rfl rfl ?_
    refine .alike (.congr (r := do
      return .next (← binaryOperation g' (w.context ctx) min (w.start start)
        (left.relocate w.relocation) operator)) ?_ fun hk _ => ?_)
    · rw [hop]
      exact .map (binaryOperation_follows hg ctx min operator hstart hl hne) (fun _ => rfl)
        fun _ _ => id
    · rw [hk.2.twin.kind, hop]

/-- A loop ends with a last round. -/
theorem iterate_done {σ β : Type} {step : σ → Parser (Round σ β)} {a : σ} {b : β} {s s' : State}
    (h : iterate step a s = .ok (b, s')) : ∃ a' s₁, step a' s₁ = .ok (.done b, s') := by
  induction hr : s.remaining using Nat.strongRecOn generalizing a s with
  | _ r ih =>
    rw [iterate] at h
    cases hout : step a s with
    | error e =>
      rw [hout] at h
      cases h
    | ok out =>
      obtain ⟨round, s₁⟩ := out
      rw [hout] at h
      cases round with
      | done b' =>
        cases h
        exact ⟨a, s, hout⟩
      | next a' =>
        simp only at h
        split at h
        · rename_i hlt
          exact ih _ (hr ▸ hlt) h rfl
        · exact absurd h (unexpected_fails _)

/-- A round that goes on keeps the start of the chain. -/
theorem binaryRound_next {ctx : Context} {min : Precedence} {start : Nat} {left e : Expression}
    {s' : State} (h : binaryRound g ctx min start left s = .ok (.next e, s')) :
    Position.offset e.span.start = start := by
  obtain ⟨operator?, s₁, -, h⟩ := bind_eq_ok h
  cases operator? with
  | none => cases h
  | some operator =>
    obtain ⟨e', s₂, hoperation, hnext⟩ := bind_eq_ok h
    cases hnext
    unfold binaryOperation at hoperation
    split at hoperation
    · exact absurd hoperation (unexpected_fails.bind _)
    · split at hoperation
      · exact absurd hoperation (unexpected_fails.bind _)
      · obtain ⟨_, s₃, -, hoperation⟩ := bind_eq_ok hoperation
        obtain ⟨first, s₄, -, hoperation⟩ := bind_eq_ok hoperation
        obtain ⟨right, s₅, -, hoperation⟩ := bind_eq_ok hoperation
        split at hoperation
        · exact absurd hoperation (fail_fails.bind _)
        · cases hoperation
          rfl

/-- A round that is done has no operator behind it. -/
theorem binaryRound_done {ctx : Context} {min : Precedence} {start : Nat} {left e : Expression}
    {s' : State} (h : binaryRound g ctx min start left s = .ok (.done e, s')) :
    operatorAt ctx min s'.lexer.token.kind = none := by
  obtain ⟨operator?, s₁, hop, h⟩ := bind_eq_ok h
  have hop : Except.ok (operatorAt ctx min s.lexer.token.kind, s) = Except.ok (operator?, s₁) := hop
  cases hop
  cases hop : operatorAt ctx min s.lexer.token.kind with
  | none =>
    rw [hop] at h
    cases h
    exact hop
  | some operator =>
    rw [hop] at h
    obtain ⟨e', s₂, -, hnext⟩ := bind_eq_ok h
    cases hnext

/-- The operators behind an operand, unless it is a complete arrow function. -/
def binaryFrom (g : Grammar) (ctx : Context) (min : Precedence) (start : Nat) (left : Expression) :
    Parser Expression := do
  if ← isCompleteArrow left then return left
  iterate (binaryRound g ctx min start) left

/-- A chain of operators is read in step, unless the stretch ends in front of the first. -/
theorem binaryFrom_goesOn (hg : g.Keeps w K₀ g') (ctx : Context) (min : Precedence)
    {start : Nat} (hstart : w.base ≤ start) (left : Expression) (s t : State)
    (hl : w.base ≤ Position.offset left.span.start) (hb : Begun w s) :
    GoesOn w .inside K (ends (isInOperator ctx) left s) (ends (isInOperator ctx))
    (Node.relocate w.relocation)
      (binaryFrom g (ctx.widen w.base) min start left)
      (binaryFrom g' (w.context ctx) min (w.start start) (left.relocate w.relocation)) s t := by
  have hrun := bind_run (f := fun complete : Bool => if complete then pure left else
    iterate (binaryRound g (ctx.widen w.base) min start) left)
    (isCompleteArrow_completesAt left s)
  cases hcomplete : completesAt s.consumed left with
  | true =>
    rw [hcomplete] at hrun
    refine Or.inr ⟨.isCompleteArrow left hb ?_, fun e s' h hends => ?_⟩
    · rw [hcomplete]
      exact .pure rfl
    · cases hrun.symm.trans h
      exact hends
  | false =>
    rw [hcomplete] at hrun
    have hloop : GoesOn w .inside K (ends (isInOperator ctx) left s) (ends (isInOperator ctx))
        (Node.relocate w.relocation) (iterate (binaryRound g (ctx.widen w.base) min start) left)
        (iterate (binaryRound g' (w.context ctx) min (w.start start))
        (left.relocate w.relocation)) s t :=
      iterate_goesOn (I := fun left _ => w.base ≤ Position.offset left.span.start)
        (fun left s t hl => binaryRound_follows hg ctx min hstart left s t hl)
        (fun left s e s₁ _ hpass => hstart.trans_eq (binaryRound_next hpass.run).symm) hl
    refine hloop.imp (fun h => .isCompleteArrow left hb ?_) fun h =>
      ⟨.isCompleteArrow left hb ?_, ?_⟩
    · rw [hcomplete]
      exact h
    · rw [hcomplete]
      exact h.1
    · exact fun e s' hfrom => h.2 e s' (hrun.symm.trans hfrom)

/-- Chains of operators are read in step. -/
theorem binaryExpression_follows (hs : g.Sound w.text) (hg : g.Keeps w K₀ g') (hK : K → K₀)
    (ctx : Context) (min : Precedence) :
    Follows w K 1 (ends (isInOperator ctx)) (Node.relocate w.relocation)
      (binaryExpression g (ctx.widen w.base) min) (binaryExpression g' (w.context ctx)
      min) s t := by
  refine .offset fun start hstart => .bind_or (unaryExpression_follows hg hK ctx)
    fun left s₁ t₁ h₁ => ?_
  refine binaryFrom_goesOn hg ctx min hstart.2 left s₁ t₁ ?_
    ((unaryExpression_follows (t := t) hg hK ctx).begun h₁)
  have hplaced := ((unaryExpression_makes hs _ s h₁.before).ok h₁.run).2
  exact Nat.le_trans h₁.base_le (le_start_of_allPlaced hplaced)

/-- Behind all binary operators comes no operator `in`. -/
theorem binaryExpression_ends {ctx : Context} {e : Expression} {s' : State}
    (h : binaryExpression g ctx 0 s = .ok (e, s')) : ends (isInOperator ctx) e s' := by
  obtain ⟨start, s₁, -, h⟩ := bind_eq_ok h
  obtain ⟨left, s₂, -, h⟩ := bind_eq_ok h
  obtain ⟨complete, s₃, hcomplete, h⟩ := bind_eq_ok h
  rw [isCompleteArrow_completesAt] at hcomplete
  cases hcomplete
  split at h
  · rename_i hcomplete
    cases h
    exact Or.inl (Bool.and_eq_true_iff.mp hcomplete).1
  · obtain ⟨left', s₄, hlast⟩ := iterate_done h
    have hop := binaryRound_done hlast
    refine Or.inr (Bool.eq_false_iff.mpr fun hin => ?_)
    obtain ⟨hkind, hnoIn⟩ := Bool.and_eq_true_iff.mp hin
    have hnoIn : ctx.noIn = false := by simpa using hnoIn
    rw [eq_of_beq hkind, operatorAt, hnoIn] at hop
    exact nomatch hop

/-- Choices are read in step. -/
theorem conditionalExpression_follows (hs : g.Sound w.text) (hg : g.Keeps w K₀ g') (hK : K → K₀)
    (ctx : Context) :
    Follows w K 1 anywhere (Node.relocate w.relocation) (conditionalExpression g (ctx.widen w.base))
      (conditionalExpression g' (w.context ctx)) s t := by
  unfold conditionalExpression
  rw [hg.toNested_eq]
  refine .offset fun start _ => .andThen (.imp_passed (binaryExpression_follows hs hg hK ctx 0)
    fun _ _ hpass _ => have hends := binaryExpression_ends hpass.run; hends)
    fun test s₁ t₁ h₁ hb => ?_
  refine .of_base fun _ hs₁ => .read rfl rfl (.isCompleteArrow test hb ?_)
  refine .branch_else (m := 1) (fun _ => .pure rfl) (fun hk => ?_) (fun hk hs _ _ hin _ => ?_)
    (fun hk hs _ ha hin _ => ?_) (by decide)
  · have hquestion : s₁.lexer.token.kind = .mark .question := by
      simp only [Bool.or_eq_true, Bool.not_eq_true', not_or, Bool.not_eq_false] at hk
      exact eq_of_beq hk.1
    refine .andThen (advance_follows (by simp [hquestion])) fun _ s₂ t₂ _ _ => ?_
    refine .bind (hg.nested.value ctx.allowIn) fun consequent s₃ t₃ _ =>
      .expect rfl fun s₄ t₄ _ hb => ?_
    exact .bind (hg.nested.value ctx) fun alternate s₅ t₅ h₅ => .node (h₅.begun hb) fun _ => rfl
  · rcases InStep.cases hin hs with ha | hend
    · rwa [ha.twin.kind]
    · exact hend.of_kind (motive := fun k => (!(k == .mark .question) || _) = true) rfl rfl
  · rwa [(InStep.alike hin hs ha).twin.kind]

/-- What follows the word `yield` on the same line. -/
def yieldFrom (g : Nested) (ctx : Context) (start : Nat) : Parser Expression := do
  let delegate ← eat (.mark .times)
  let argument ←
    if delegate || startsExpression (← kind) then pure (some (← g.value ctx)) else pure none
  return .yieldValue (← spanFrom start) argument delegate

/-- What stands behind `yield` is read in step. -/
theorem yieldFrom_follows {g : Nested} (hg : g.Keeps w) (ctx : Context) (start : Nat)
    (hb : Begun w s) :
    Follows w K 0 anywhere (Node.relocate w.relocation) (yieldFrom g (ctx.widen w.base) start)
      (yieldFrom g (w.context ctx) (w.start start)) s t := by
  refine .bind (eat_follows rfl) fun delegate s₁ t₁ h₁ => .read rfl rfl ?_
  refine .branch (m := 1) (fun _ => ?_) (fun _ => .read (a := none) (c := none) rfl rfl
    (.node (h₁.begun hb) fun _ => rfl)) (fun hk hs _ ha hin _ => ?_)
    (fun hk hs _ _ hin _ => ?_) (by decide)
  · refine .andThen (hg.value ctx) fun argument s₂ t₂ _ hb₂ => ?_
    exact .read (a := some argument) (c := some (argument.relocate w.relocation)) rfl rfl
      (.node hb₂ fun _ => rfl)
  · rwa [(InStep.alike hin hs ha).twin.kind]
  · rcases InStep.cases hin hs with ha | hend
    · rwa [ha.twin.kind]
    · obtain ⟨hdelegate, -⟩ := Bool.or_eq_false_iff.mp (Bool.eq_false_iff.mpr hk)
      rw [hdelegate]
      exact hend.of_kind (motive := fun k => ¬(false || startsExpression k) = true)
        Bool.false_ne_true Bool.false_ne_true

/-- Where the text ends, or its statement, nothing is handed out. -/
theorem yieldFrom_end {g : Nested} {ctx : Context} {start : Nat} (hend : AtEnd s.lexer) :
    yieldFrom g ctx start s = .ok (.yieldValue (.ofOffsets start s.consumed) none false, s) := by
  have htimes : (s.lexer.token.kind == .mark .times) = false :=
    hend.of_kind (motive := fun k => (k == .mark .times) = false) rfl rfl
  have hstarts : startsExpression s.lexer.token.kind = false :=
    hend.of_kind (motive := fun k => startsExpression k = false) rfl rfl
  have heat : eat (.mark .times) s = .ok (false, s) := by
    refine (bind_run (a := s.lexer.token.kind == .mark .times) rfl).trans ?_
    rw [htimes]
    rfl
  refine (bind_run heat).trans ((bind_run (a := s.lexer.token.kind) rfl).trans ?_)
  rw [hstarts]
  rfl

/-- What a generator hands out is read in step. -/
theorem yieldExpression_follows (hg : g.Keeps w K₀ g') (ctx : Context)
    (hk : s.lexer.token.kind ≠ .endOfFile) :
    Follows w K 1 anywhere (Node.relocate w.relocation) (yieldExpression g (ctx.widen w.base))
      (yieldExpression g' (w.context ctx)) s t := by
  unfold yieldExpression
  rw [hg.toNested_eq]
  refine .refuse failHere_fails (fun _ _ => id) fun _ => .offset fun start _ => ?_
  refine .noteSuspension rfl fun s₁ t₁ hlexer => ?_
  refine .andThen (advance_follows (by rw [hlexer]; exact hk)) fun _ s₂ t₂ _ hb => ?_
  refine .of_base fun _ hs₂ => .read rfl rfl ?_
  cases hline : s₂.lexer.token.afterLineBreak with
  | true =>
    -- The stretch may end here, where no line break is left to be seen.
    refine .congr (r := do return .yieldValue (← spanFrom (w.start start)) none false)
      (.node hb fun _ => rfl) fun _ hin => ?_
    rcases InStep.cases hin hs₂ with ha | hend
    · rw [ha.lineBreak hb.base_lt, hline]
      rfl
    · rw [hend.lineBreak]
      exact yieldFrom_end (g := g.toNested) hend
  | false =>
    refine .congr (yieldFrom_follows hg.nested ctx start hb) fun _ hin => ?_
    rcases InStep.cases hin hs₂ with ha | hend
    · rw [ha.lineBreak hb.base_lt, hline]
      rfl
    · rw [hend.lineBreak]
      rfl

/-- An expression becomes a target in both texts or in none. -/
theorem assignmentTarget_follows (operator : AssignmentOperator) {outer outer' : Option Nat}
    {left : Expression} {lo : Nat} {hi : Front} (hl : Sketch.AllPlaced w.text lo hi left.sketch)
    (hlo : w.base ≤ lo) (ho : K → outer = none → outer' = none) :
    Follows w K 0 anywhere (Node.relocate w.relocation) (assignmentTarget operator outer left)
      (assignmentTarget operator outer' (left.relocate w.relocation)) s t := by
  unfold assignmentTarget
  refine .ite Iff.rfl (fun _ => ?_) fun _ => .mergeCoverInit ho fun s₁ t₁ _ _ => ?_
  · refine .setCoverInit rfl rfl (fun hk _ => ho hk)
      (.read rfl rfl (orFail_follows fun _ hin => ?_))
    exact Cover.toTarget_carries hin.notes left hlo hl.each
  · exact orFail_follows fun _ _ => Cover.toSimpleTarget_carries left

/-- The operator of an assignment to an expression that may be a complete arrow function. -/
def assignmentOperator (k : TokenKind) (complete : Bool) : Option AssignmentOperator :=
  (AssignmentOperator.ofKind? k).filter fun _ => !complete

/-- An assignment to what has been read, if an operator comes next. -/
def assignmentFrom (g : Nested) (ctx : Context) (start : Nat) (outer : Option Nat)
    (left : Expression) : Option AssignmentOperator → Parser Expression
  | none => do
    mergeCoverInit outer
    return left
  | some operator => do
    let target ← assignmentTarget operator outer left
    advance
    let value ← g.value ctx
    return .assignment (← spanFrom start) operator target value

/-- A target that has been read, with the operator that comes next. -/
theorem assignmentFrom_follows {g : Nested} (hg : g.Keeps w) (ctx : Context) (start : Nat)
    {outer outer' : Option Nat} {left : Expression} {complete : Bool} {lo : Nat}
    (hl : Sketch.AllPlaced w.text lo s.front left.sketch) (hlo : w.base ≤ lo)
    (ho : K → outer = none → outer' = none) :
    Follows w K 0 anywhere (Node.relocate w.relocation)
      (assignmentFrom g (ctx.widen w.base) start outer left
        (assignmentOperator s.lexer.token.kind complete))
      (assignmentFrom g (w.context ctx) (w.start start) outer' (left.relocate w.relocation)
        (assignmentOperator t.lexer.token.kind complete)) s t := by
  cases hop : assignmentOperator s.lexer.token.kind complete with
  | none =>
    refine .of_base fun _ hs => .congr (r := assignmentFrom g (w.context ctx) (w.start start) outer'
      (left.relocate w.relocation) none)
      (.mergeCoverInit ho fun _ _ _ _ => .pure rfl) fun _ hin => ?_
    rcases InStep.cases hin hs with ha | hend
    · rw [ha.twin.kind, hop]
    · have hnone : assignmentOperator t.lexer.token.kind complete = none :=
        hend.of_kind (motive := fun k => assignmentOperator k complete = none) rfl rfl
      rw [hnone]
  | some operator =>
    have hne := ne_endOfFile_of_isOrdinary
      (isOrdinary_of_eq_some rfl rfl rfl (Option.filter_eq_some_iff.mp hop).1)
    refine .loose (.alike (n := 0) (.congr
      (r := assignmentFrom g (w.context ctx) (w.start start) outer' (left.relocate w.relocation)
      (some operator)) ?_ fun hk _ => ?_))
      (Nat.zero_le 1)
    · refine .bind (assignmentTarget_follows operator hl hlo fun hk => ho hk.1)
        fun target s₁ t₁ h₁ => ?_
      have hlexer := ((assignmentTarget_meets operator outer h₁.before hl).ok h₁.run).1.lexer_eq
      refine .andThen (advance_follows (by rw [hlexer]; exact hne)) fun _ s₂ t₂ _ hb => ?_
      exact .bind (hg.value ctx) fun value s₃ t₃ h₃ => .node (h₃.begun hb) fun _ => rfl
    · rw [hk.2.twin.kind, hop]

/-- Assignments, arrow functions and what a generator hands out are read in step. -/
theorem assignmentExpression_follows (hs : g.Sound w.text) (hg : g.Keeps w K₀ g') (hK : K → K₀)
    (ctx : Context) :
    Follows w K 1 anywhere (Node.relocate w.relocation) (assignmentExpression g (ctx.widen w.base))
      (assignmentExpression g' (w.context ctx)) s t := by
  unfold assignmentExpression
  rw [hg.toNested_eq]
  have hassign : Follows w K 1 anywhere (Node.relocate w.relocation)
      (do
        let start ← offset
        let outer ← takeCoverInit
        let left ← conditionalExpression g (ctx.widen w.base)
        let complete ← isCompleteArrow left
        assignmentFrom g.toNested (ctx.widen w.base) start outer left
          (assignmentOperator (← kind) complete))
      (do
        let start ← offset
        let outer ← takeCoverInit
        let left ← conditionalExpression g' (w.context ctx)
        let complete ← isCompleteArrow left
        assignmentFrom g.toNested (w.context ctx) start outer left
          (assignmentOperator (← kind) complete)) s t := by
    refine .offset fun start _ => .setCoverInit rfl rfl (fun _ _ _ => rfl) ?_
    refine .andThen (conditionalExpression_follows hs hg (fun hk => hK hk.1) ctx)
      fun left s₁ t₁ h₁ hb => .isCompleteArrow left hb (.read rfl rfl ?_)
    have hplaced := ((conditionalExpression_makes hs _ _ h₁.before).ok h₁.run).2
    exact assignmentFrom_follows hg.nested ctx start hplaced h₁.base_le fun hk => hk.1.2.coverInit
  refine .isAt_taken (fun hk => .ite Iff.rfl (fun _ => ?_) fun _ => hassign) fun _ =>
    .ite Iff.rfl (fun h => nomatch h) fun _ => hassign
  exact yieldExpression_follows hg ctx (by simp [hk])

end

end EcmaScript.Parser
