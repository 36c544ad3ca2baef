import EcmaScript.Proofs.Parser.Loop
import EcmaScript.Proofs.Tandem.Statement

/-!
# Loops and whole statements in step

The loops with `for`, statements of every kind, and the levels of nesting: on every level the
parsers are followed, since beyond the last level they only refuse.
-/

namespace EcmaScript.Parser

open Place

section

variable {w : Tandem} {K : Prop} {n : Nat} {s t : State} {g : Nested}

/-- A declaration that a head may have is one in both texts. -/
theorem checkHeadDeclaration_follows (loop : LoopKind) (d : Node .declaration) :
    Follows w K 0 anywhere id (checkHeadDeclaration loop d)
      (checkHeadDeclaration loop (d.relocate w.relocation)) s t := by
  cases d with
  | declaration span variableKind ds =>
    cases ds with
    | nil => exact .error (p := fail _ (.loopSingleBinding loop)) fail_fails
    | cons first more =>
      cases first with
      | declarator declared target init =>
        cases more with
        | nil =>
          have hinit : (Node.mapExpression? (.relocating w.relocation) init).isSome =
            init.isSome := by
            rw [Node.mapExpression?_eq, Option.isSome_map]
          refine .ite ?_ (fun _ => .error (p := fail _ (.loopInitializer loop)) fail_fails)
            fun _ => .pure rfl
          rw [hinit]
          cases loop with
          | forOf => rfl
          | forIn => cases variableKind <;> cases target <;> rfl
        | cons second more => exact .error (p := fail _ (.loopSingleBinding loop)) fail_fails

/-- What a loop runs over is read in step. -/
theorem loopSource_follows (hg : g.Keeps w) (ctx : Context) (loop : LoopKind) :
    Follows w K 1 anywhere (Node.relocate w.relocation) (loopSource g (ctx.widen w.base) loop)
      (loopSource g (w.context ctx) loop) s t := by
  cases loop with
  | forOf => exact hg.value ctx.allowIn
  | forIn => exact hg.expression ctx.allowIn

/-- Loops over values are read in step. -/
theorem loopOverValues_concludes (hg : g.Keeps w) (ctx : Context) (start : Nat) (isAwait : Bool)
    (loop : LoopKind) (head : Node .forHead) (hk : s.lexer.token.kind ≠ .endOfFile) :
    Concludes w K 1 (resting w) (Node.relocate w.relocation)
      (loopOverValues g (ctx.widen w.base) start isAwait loop head)
      (loopOverValues g (w.context ctx) (w.start start) isAwait loop
      (head.relocate w.relocation)) s t := by
  rw [loopOverValues_eq, loopOverValues_eq]
  refine .refuse unexpected_fails (fun _ _ => id) fun _ => ?_
  refine .andThen (advance_follows hk) fun _ s₁ t₁ _ _ => ?_
  refine .bind (loopSource_follows hg ctx loop) fun right s₂ t₂ _ => .expect rfl fun s₃ t₃ _ _ => ?_
  refine .loose (.ending (loopBody_concludes hg ctx) fun body span => ?_) (Nat.zero_le 1)
  cases loop with
  | forOf => rfl
  | forIn => rfl

/-- An expression in a head is read in step, and is missing in both texts or in none. -/
theorem optionalExpression_follows (hg : g.Keeps w) (ctx : Context) (close : TokenKind) :
    Follows w K 0 nowhere (Option.map (Node.relocate w.relocation))
      (optionalExpression g (ctx.widen w.base) close) (optionalExpression g (w.context ctx)
      close) s t :=
  .isAt_nowhere (fun _ => .pure rfl) fun _ => .map (hg.expression ctx.allowIn) (fun _ => rfl)
    fun _ _ => False.elim

/-- Loops on a condition are read in step. -/
theorem loopOnCondition_concludes (hg : g.Keeps w) (ctx : Context) (start : Nat) (isAwait : Bool)
    (init : Node .forInit) :
    Concludes w K 1 (resting w) (Node.relocate w.relocation)
      (loopOnCondition g (ctx.widen w.base) start isAwait init)
      (loopOnCondition g (w.context ctx) (w.start start) isAwait
      (init.relocate w.relocation)) s t := by
  unfold loopOnCondition
  refine .refuse unexpected_fails (fun _ _ => id) fun _ => .expect rfl fun s₁ t₁ _ _ => ?_
  refine .before (optionalExpression_follows hg ctx _) fun test s₂ t₂ _ =>
    .expect rfl fun s₃ t₃ _ _ => ?_
  refine .before (optionalExpression_follows hg ctx _) fun update s₄ t₄ _ =>
    .expect rfl fun s₅ t₅ _ _ => ?_
  refine .loose (.ending (loopBody_concludes hg ctx) fun body span => ?_) (Nat.zero_le 1)
  rw [← Node.mapExpression?_eq, ← Node.mapExpression?_eq]
  rfl

/-- Initializers that are missing are missing in both texts. -/
theorem checkInitializers_follows (variableKind : VariableKind) (ds : List (Node .declarator)) :
    Follows w K 0 anywhere id (ds.forM (checkInitializer variableKind))
      ((ds.map (Node.relocate w.relocation)).forM (checkInitializer variableKind)) s t := by
  induction ds generalizing K s t with
  | nil => exact .pure rfl
  | cons d ds ih => exact .bind (checkInitializer_follows variableKind d) fun _ _ _ _ => ih

/-- The word behind a head is taken, so it makes the same loop of it. -/
theorem Tracks.loopKind {e : Mode} {β δ : Type} {ψ : β → δ} {Q : β → State → Prop}
    {f : Option LoopKind → Parser β} {f' : Option LoopKind → Parser δ}
    (h : Tracks w .inside e K (n + 1) Q ψ (f (loopKindOf s.lexer.token.kind))
      (f' (loopKindOf s.lexer.token.kind)) s t) :
    Tracks w .inside e K (n + 1) Q ψ (loopKind? >>= f) (loopKind? >>= f') s t :=
  .read (loopKind_run s) (loopKind_run t)
    (.alike ((h.of_known And.left).congr fun hk _ => by rw [hk.2.twin.kind]))

/-- Loops whose heads declare variables are read in step. -/
theorem declarationLoop_concludes (hg : g.Keeps w) (ctx : Context) (start : Nat) (isAwait : Bool)
    (variableKind : VariableKind) (hk : isOrdinary s.lexer.token.kind = true) :
    Concludes w K 2 (resting w) (Node.relocate w.relocation)
      (declarationLoop g (ctx.widen w.base) start isAwait variableKind)
      (declarationLoop g (w.context ctx) (w.start start) isAwait variableKind) s t := by
  refine .before (headDeclaration_follows hg ctx variableKind hk) fun d s₁ t₁ _ => ?_
  refine .loopKind (n := 0) ?_
  cases hl : loopKindOf s₁.lexer.token.kind with
  | some loop =>
    refine .bind (checkHeadDeclaration_follows loop d) fun _ s₂ t₂ h₂ => ?_
    obtain rfl := (checkHeadDeclaration_meets loop d h₂.before).ok h₂.run
    exact loopOverValues_concludes hg ctx start isAwait loop (.declarationHead d)
      (ne_endOfFile_of_isOrdinary (isOrdinary_of_eq_some rfl rfl rfl hl))
  | none =>
    cases d with
    | declaration span kind ds =>
      have hback : (Node.declaration span kind ds).relocate w.relocation =
          .declaration (w.extent span) kind (ds.map (Node.relocate w.relocation)) := by
        rw [← Node.mapDeclarators_eq]
        rfl
      rw [hback]
      refine .bind (checkInitializers_follows variableKind ds) fun _ s₂ t₂ _ => ?_
      rw [← hback]
      exact loopOnCondition_concludes hg ctx start isAwait
        (.declarationInit (.declaration span kind ds))

/-- Loops whose heads begin with an expression are read in step. -/
theorem expressionLoop_concludes (hg : g.Keeps w) (ctx : Context) (start : Nat) (isAwait : Bool) :
    Concludes w K 1 (resting w) (Node.relocate w.relocation)
      (expressionLoop g (ctx.widen w.base) start isAwait)
      (expressionLoop g (w.context ctx) (w.start start) isAwait) s t := by
  refine .setCoverInit rfl rfl (fun _ _ _ => rfl) ?_
  refine .bind (hg.expressionOrCover ctx.disallowIn _ _) fun e s₁ t₁ h₁ => .loopKind ?_
  have hplaced := ((hg.sound.expressionOrCover_makes _ _ h₁.before).ok h₁.run).2
  cases hl : loopKindOf s₁.lexer.token.kind with
  | some loop =>
    have hne := ne_endOfFile_of_isOrdinary (isOrdinary_of_eq_some rfl rfl rfl hl)
    refine .setCoverInit rfl rfl (fun hk _ => hk.1.2.coverInit) (.read rfl rfl ?_)
    refine .bind (orFail_follows fun _ hin =>
      Cover.toTarget_carries hin.notes e h₁.base_le hplaced.each) fun target s₂ t₂ h₂ => ?_
    obtain ⟨-, rfl⟩ := (orFail_meets h₂.before
      (Cover.toTarget_yields _ e rfl hplaced)).ok h₂.run
    exact loopOverValues_concludes hg ctx start isAwait loop (.patternHead target) hne
  | none =>
    refine .bind checkCoverInit_follows fun _ s₂ t₂ _ => ?_
    refine .setCoverInit rfl rfl (fun hk _ => hk.1.1.2.coverInit) ?_
    exact loopOnCondition_concludes hg ctx start isAwait (.expressionInit e)

/-- Only behind the word `let` the next token matters. -/
theorem declarationKindOf_of_ne {k : TokenKind} (h : k ≠ .word .letKw) (next next' : TokenKind) :
    declarationKindOf next' k = declarationKindOf next k := by
  unfold declarationKindOf
  split
  · rfl
  · rfl
  · exact absurd rfl h
  · rfl

/-- If the word `let` starts a declaration, the token behind it is taken too. -/
theorem declarationKindOf_alike (hin : InStep w s t) (hs : s.Sound w.text) (hb : Stands w s)
    (ha : w.Ahead 1 s.post)
    (hnext : declarationKindOf s.lexer.scan.token.kind s.lexer.token.kind ≠ none →
      w.Ahead 2 s.post) :
    declarationKindOf t.lexer.scan.token.kind t.lexer.token.kind =
      declarationKindOf s.lexer.scan.token.kind s.lexer.token.kind := by
  rw [(hin.alike hs ha).twin.kind]
  by_cases hlet : s.lexer.token.kind = .word .letKw
  · have hne : s.lexer.token.kind ≠ .endOfFile := by simp [hlet]
    have hreread : isReread s.lexer.token.kind = false := by rw [hlet]; rfl
    by_cases hnone : declarationKindOf s.lexer.scan.token.kind s.lexer.token.kind = none
    · rcases hin.cases_next hs hb hne hreread ha with hsame | hend
      · exact congrArg (declarationKindOf · _) hsame.twin.kind
      · rw [hnone, hlet]
        exact hend.of_kind (motive := fun k => declarationKindOf k _ = none) rfl rfl
    · exact congrArg (declarationKindOf · _)
        (hin.alike_next hs hb hne hreread (hnext hnone)).twin.kind
  · exact declarationKindOf_of_ne hlet _ _

/-- What a declaration is introduced with is told alike in both texts. -/
theorem Tracks.declarationKind {e : Mode} {β δ : Type} {ψ : β → δ} {Q : β → State → Prop}
    {f : Option VariableKind → Parser β} {f' : Option VariableKind → Parser δ}
    (h₁ : ∀ variableKind, isOrdinary s.lexer.token.kind = true →
      Tracks w .inside e K 2 Q ψ (f (some variableKind)) (f' (some variableKind)) s t)
    (h₂ : Tracks w .inside e K 1 Q ψ (f none) (f' none) s t) :
    Tracks w .inside e K 1 Q ψ (declarationKind? >>= f) (declarationKind? >>= f') s t := by
  refine .read (declarationKind_run s) (declarationKind_run t) ?_
  cases hd : declarationKindOf s.lexer.scan.token.kind s.lexer.token.kind with
  | some variableKind =>
    have hord := isOrdinary_of_declarationKind hd
    refine .loose (.of_ahead (((h₁ variableKind hord).of_known And.left).congr fun hk _ => ?_)
      fun hs hb ha hin hk => ⟨hk, declarationKindOf_alike hin hs hb (w.ahead_mono ha (by decide))
      fun _ => ha⟩)
      (by decide)
    rw [hk.2, hd]
  | none =>
    refine .of_ahead ((h₂.of_known And.left).congr fun hk _ => ?_)
      fun hs hb ha hin hk => ⟨hk, declarationKindOf_alike hin hs hb ha fun hsome =>
        absurd hd hsome⟩
    rw [hk.2, hd]

/-- Heads of loops are read in step, with the loops behind them. -/
theorem forHead_concludes (hg : g.Keeps w) (ctx : Context) (start : Nat) (isAwait : Bool) :
    Concludes w K 1 (resting w) (Node.relocate w.relocation)
      (forHead g (ctx.widen w.base) start isAwait) (forHead g (w.context ctx) (w.start start)
      isAwait) s t := by
  refine .expect rfl fun s₁ t₁ _ _ => .loose (n := 1) ?_ (Nat.zero_le 1)
  refine .declarationKind (fun variableKind hk => ?_) ?_
  · exact declarationLoop_concludes hg ctx start isAwait variableKind hk
  · exact .isAt_taken (fun _ => loopOnCondition_concludes hg ctx start isAwait .noInit)
      fun _ => expressionLoop_concludes hg ctx start isAwait

/-- Every kind of `for` loop is read in step. -/
theorem forStatement_concludes (hg : g.Keeps w) (ctx : Context)
    (hk : s.lexer.token.kind ≠ .endOfFile) :
    Concludes w K 1 (resting w) (Node.relocate w.relocation) (forStatement g (ctx.widen w.base))
      (forStatement g (w.context ctx)) s t := by
  rw [forStatement_eq, forStatement_eq]
  refine .offset fun start _ => .bind (advance_follows hk) fun _ s₁ t₁ _ => ?_
  refine .isAt_taken (fun hawait => .ite Iff.rfl (fun _ => ?_) fun _ => forHead_concludes hg
    ctx start _)
    fun _ => .ite Iff.rfl (fun h => nomatch h) fun _ => forHead_concludes hg ctx start _
  exact .bind (advance_follows (by simp [hawait])) fun _ _ _ _ => forHead_concludes hg ctx start _

/-- The token behind the current one decides. If it is taken too, it is the same; else it may
be missing from the other text. -/
theorem Tracks.peek_branch {e : Mode} {α γ : Type} {φ : α → γ} {P : α → State → Prop}
    {p₁ p₂ : Parser α} {q₁ q₂ : Parser γ} (c : TokenKind → Bool → Bool)
    (hend : c .endOfFile false = false) (hsemi : c (.mark .semicolon) false = false)
    (hne : s.lexer.token.kind ≠ .endOfFile) (hk : isReread s.lexer.token.kind = false)
    (h₁ : c s.next.lexer.token.kind s.next.lexer.token.afterLineBreak = true →
      Tracks w .inside e K 2 P φ p₁ q₁ s t)
    (h₂ : Tracks w .inside e K 1 P φ p₂ q₂ s t) :
    Tracks w .inside e K 1 P φ
      (if c s.next.lexer.token.kind s.next.lexer.token.afterLineBreak = true then p₁ else p₂)
      (if c t.next.lexer.token.kind t.next.lexer.token.afterLineBreak = true then q₁ else q₂)
      s t := by
  refine .of_base fun hb hs => ?_
  have hsame : Alike w s.next t.next →
      c t.next.lexer.token.kind t.next.lexer.token.afterLineBreak =
        c s.next.lexer.token.kind s.next.lexer.token.afterLineBreak := fun hnext => by
    rw [hnext.twin.kind,
      hnext.lineBreak (Nat.lt_of_le_of_lt hb.base_le (hs.place.offset_lt_stop hne))]
  refine .branch (m := 2) h₁ (fun _ => h₂) (fun hc hs hb ha hin _ => ?_)
    (fun hc hs hb ha hin _ => ?_) (by decide)
  · rwa [hsame (InStep.alike_next hin hs hb hne hk ha)]
  · rcases InStep.cases_next hin hs hb hne hk ha with hnext | hstop
    · rwa [hsame hnext]
    · rw [hstop.lineBreak]
      refine hstop.of_kind (motive := fun k => ¬c k false = true) ?_ ?_
      · exact Bool.eq_false_iff.mp hend
      · exact Bool.eq_false_iff.mp hsemi

/-- A token that can be a name is not read again. -/
theorem isReread_of_isIdentifierLike {k : TokenKind} (h : k.isIdentifierLike = true) :
    isReread k = false := by
  unfold isReread
  split
  all_goals first | rfl | exact nomatch h

/-- Statements with a word of their own are read in step. -/
theorem plainStatement_concludes (hg : g.Keeps w) (ctx : Context) :
    Concludes w K 1 (resting w) (Node.relocate w.relocation) (plainStatement g (ctx.widen w.base))
      (plainStatement g (w.context ctx)) s t := by
  refine .kind (.read (a := s.next.lexer.token) (c := t.next.lexer.token) rfl rfl ?_)
  cases hlike : s.lexer.token.kind.isIdentifierLike with
  | false => exact .ite Iff.rfl (fun h => nomatch h) fun _ => expressionStatement_concludes hg ctx
  | true =>
    exact .peek_branch (fun k _ => k == .mark .colon) rfl rfl
      (ne_endOfFile_of_isOrdinary (isOrdinary_of_isIdentifierLike hlike))
      (isReread_of_isIdentifierLike hlike)
      (fun _ => labeledStatement_concludes hg ctx) (expressionStatement_concludes hg ctx)

end

section

variable {w : Tandem} {K : Prop} {s t : State} {g : Grammar}

/-- Every statement is read in step. -/
theorem statement_concludes (hg : g.Keeps w True g) (ctx : Context) :
    Concludes w K 1 (resting w) (Node.relocate w.relocation) (statement g (ctx.widen w.base))
      (statement g (w.context ctx)) s t := by
  have hn := hg.nested
  refine .offset fun start _ => .kind ?_
  split
  · exact .settled (.map (hn.block ctx) (fun _ => rfl) fun _ _ _ => trivial)
  · rename_i hk
    exact .andThen (advance_follows (by simp [hk])) fun _ _ _ _ _ => .extent fun _ => rfl
  · rename_i hk
    exact (variableStatement_concludes hn ctx _ (by rw [hk]; rfl)).loose (by decide)
  · rename_i hk
    exact (variableStatement_concludes hn ctx _ (by rw [hk]; rfl)).loose (by decide)
  · rename_i hk
    refine .read rfl rfl ?_
    exact .peek_branch (fun k _ => k.isIdentifierLike || k == .mark .openBracket ||
      k == .mark .openBrace) rfl rfl (by simp [hk]) (by rw [hk]; rfl)
      (fun _ => variableStatement_concludes hn ctx _ (by rw [hk]; rfl))
      (plainStatement_concludes hn ctx)
  · exact .settled (functionDeclaration_follows hn ctx)
  · rename_i hk
    refine .read rfl rfl ?_
    exact .peek_branch (fun k line => k == .word .functionKw && !line) rfl rfl (by simp [hk])
      (by rw [hk]; rfl)
      (fun _ => .settled (asyncFunctionDeclaration_follows hn ctx (by simp [hk])))
      (plainStatement_concludes hn ctx)
  · exact .settled (.map (classDefinition_follows hg (fun _ => trivial) ctx true) (fun _ => rfl)
      fun _ _ _ => trivial)
  · rename_i hk
    exact ifStatement_concludes hn ctx (by simp [hk])
  · rename_i hk
    exact forStatement_concludes hn ctx (by simp [hk])
  · rename_i hk
    exact whileStatement_concludes hn ctx (by simp [hk])
  · rename_i hk
    exact doStatement_concludes hn ctx (by simp [hk])
  · rename_i hk
    exact returnStatement_concludes hn ctx (by rw [hk]; rfl)
  · rename_i hk
    exact breakStatement_concludes ctx (by rw [hk]; rfl)
  · rename_i hk
    exact continueStatement_concludes ctx (by rw [hk]; rfl)
  · rename_i hk
    exact throwStatement_concludes hn ctx (by simp [hk])
  · rename_i hk
    exact .settled (tryStatement_follows hn ctx (by simp [hk]))
  · rename_i hk
    exact .settled (switchStatement_follows hn ctx (by simp [hk]))
  · rename_i hk
    exact withStatement_concludes hn ctx (by simp [hk])
  · rename_i hk
    refine .concludes (.andThen (advance_follows (by simp [hk])) fun _ _ _ h₁ hb => ?_)
    have hplain := ((advance_meets h₁.before (by rw [hk]; rfl)).ok h₁.run).1.plain
    exact finish_closes hb hplain fun _ => rfl
  · exact plainStatement_concludes hn ctx

/-- With a colon behind it the word `let` is a label. -/
theorem statement_label {ctx : Context} (hk : s.lexer.token.kind = .word .letKw)
    (hcolon : s.lexer.scan.token.kind = .mark .colon) :
    statement g ctx s = labeledStatement g.toNested ctx s := by
  refine (bind_run (p := offset) rfl).trans ((bind_run (p := kind) rfl).trans ?_)
  rw [hk]
  refine (bind_run (p := atLetDeclaration) rfl).trans ?_
  rw [hcolon]
  refine (bind_run (p := kind) rfl).trans ((bind_run (p := peek) rfl).trans ?_)
  rw [hk, hcolon]
  rfl

/-- The word `let` as a label is one in both texts. -/
theorem letLabel_concludes (hg : g.Keeps w True g) (ctx : Context)
    (hk : s.lexer.token.kind = .word .letKw) (hcolon : s.lexer.scan.token.kind = .mark .colon) :
    Concludes w K 2 (resting w) (Node.relocate w.relocation) (statement g (ctx.widen w.base))
      (statement g (w.context ctx)) s t := by
  have hlabel : Concludes w
      (t.lexer.token.kind = .word .letKw ∧ t.lexer.scan.token.kind = .mark .colon)
      2 (resting w) (Node.relocate w.relocation) (statement g (ctx.widen w.base))
      (statement g (w.context ctx)) s t :=
    .congr_run (.congr (labeledStatement_concludes hg.nested ctx) fun ht _ =>
      statement_label ht.1 ht.2) (statement_label hk hcolon)
  refine hlabel.of_ahead fun hs hb ha hin _ => ⟨?_, ?_⟩
  · exact (InStep.alike hin hs ha).twin.kind.trans hk
  · exact (InStep.alike_next hin hs hb (by simp [hk]) (by rw [hk]; rfl) ha).twin.kind.trans hcolon

end

/-- Where nothing nested is accepted, nothing is asked of the other text. -/
theorem Nested.tooDeep_keeps (w : Tandem) : Nested.tooDeep.Keeps w where
  sound := tooDeep_sound
  rereads := tooDeep_rereads
  statement _ _ _ := .error failHere_fails
  letLabel _ _ _ _ _ := .error failHere_fails
  expressionStatement _ _ _ := .error failHere_fails
  bindingTarget _ _ _ := .error failHere_fails
  assignment _ _ _ := .error failHere_fails
  binary _ _ _ _ := .error failHere_fails
  unary _ _ _ := .error failHere_fails
  newCallee _ _ _ := .error failHere_fails

/-- If the parsers one level further in are followed, so are those of a level. -/
theorem Nested.Keeps.around {w : Tandem} {g : Nested} (hg : g.Keeps w) : g.around.Keeps w where
  sound := hg.sound.around
  rereads := hg.rereads.around
  statement ctx _ _ := statement_concludes hg.grammar ctx
  letLabel ctx _ _ hk hcolon := letLabel_concludes hg.grammar ctx hk hcolon
  expressionStatement ctx _ _ := expressionStatement_concludes hg ctx
  bindingTarget ctx _ _ := bindingTarget_follows hg ctx
  assignment ctx _ _ :=
    assignmentExpression_follows hg.sound.grammar hg.grammar (fun _ => trivial) ctx
  binary ctx min _ _ :=
    binaryExpression_follows hg.sound.grammar hg.grammar (fun _ => trivial) ctx min
  unary ctx _ _ := unaryExpression_follows hg.grammar (fun _ => trivial) ctx
  newCallee ctx _ _ := operandBase_follows hg.grammar (fun _ => trivial) ctx

/-- Nested constructs are read in step, whatever the depth that is left for them. -/
theorem Nested.ofDepth_keeps (w : Tandem) (n : Nat) : (Nested.ofDepth n).Keeps w := by
  induction n with
  | zero => exact tooDeep_keeps w
  | succ n ih => exact ih.around

/-- Scripts are read in step. The way to the end is known before it is known that the texts have
all in common up to there. -/
theorem script_follows {w : Tandem} {body : List Statement} {s t : State} (hbase : w.base = 0)
    (hrun : script (State.ofString w.text) = .ok (body, s)) :
    Way 1 0 0 (State.ofString w.text).post s.post ∧
      (w.Ahead 0 s.post → w.Open s.post → Parser.InStep w (State.ofString w.text) t →
        ∃ t', script t = .ok (body.map (Node.relocate w.relocation), t') ∧
          w.Near s.post t'.place) := by
  have hstands : Stands w (State.ofString w.text) :=
    ⟨hbase ▸ Nat.zero_le _, fun _ ho => (List.not_mem_nil ho).elim⟩
  obtain ⟨-, hway, hfollows⟩ := (Nested.ofDepth_keeps w maxDepth).statementsUntil (K := True)
    (t := t) {} (Or.inr rfl) (State.sound_ofString w.text) hstands body s hrun
  refine ⟨hway, fun ha hopen hin => ?_⟩
  obtain ⟨t', hrun', hin'⟩ := hfollows ha (Or.inl hopen) trivial hin.nearly
  have hend : s.lexer.token.kind = .endOfFile := ((script_meets w.text).ok hrun).2
  exact ⟨t', hrun', (Nearly.inStep hin' (by rw [hend]; rfl)).near⟩

end EcmaScript.Parser
