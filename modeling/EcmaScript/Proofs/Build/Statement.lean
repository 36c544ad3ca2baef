import EcmaScript.Proofs.Build.Expression
import EcmaScript.Proofs.Parser.Loop

/-!
# Building statements

Nearly every statement encloses what is a level further in. The checks on declarations, clauses
and cases are the rules that statements follow. Where a statement stands alone in another one,
the words that declare for a list of statements are refused; and a statement declares for a list
only if its first words are such words.
-/

namespace EcmaScript.Parser

open Budget

/-- A settled statement that needs no list of statements around it. -/
structure IsSubstatement (n : Nat) (a : Statement) : Prop where
  settled : Settled (level n) a
  alone : a.needsBlock = false

/-- A statement that encloses what is a level further in and needs no list of statements around
it. -/
structure Standalone (n : Nat) (a : Statement) : Prop extends Encloses n a where
  alone : a.needsBlock = false

/-- What is declared is not named `let`, if it is declared by `let` or `const`. -/
def AvoidsLet (kind : VariableKind) : Node .declarator → Prop
  | .declarator _ target _ => kind.isLexical = true → ∀ id ∈ target.boundNames, id.name ≠ "let"

section

variable {text : String} {s : State} {g : Nested} {n : Nat}

/-- A statement of which the rules ask nothing. -/
theorem Standalone.unruled {a : Statement} (h : (a.isPlain && a.isUnruled) = true)
    (halone : a.needsBlock = false) (hparts : ∀ p ∈ a.parts, Settled (level n) p.node) :
    Standalone n a := by
  rw [Bool.and_eq_true] at h
  exact ⟨⟨h.1, .unruled h.2, hparts⟩, halone⟩

/-- A statement that the rules ask something of. -/
theorem Standalone.ruled {a : Statement} (h : (a.isPlain && a.treatsAlike && a.isFree) = true)
    (hrules : a.FollowsRules) (hfresh : ∀ scope ∈ a.stamps, scope = 0)
    (halone : a.needsBlock = false) (hparts : ∀ p ∈ a.parts, Settled (level n) p.node) :
    Standalone n a := by
  simp only [Bool.and_eq_true] at h
  exact ⟨⟨h.1.1, ⟨h.1.2, hrules, hfresh, h.2⟩, hparts⟩, halone⟩

/-- What is not refused as declared without a value does not need one. -/
theorem checkInitializer_gives (kind : VariableKind) (d : Node .declarator) :
    Gives text (checkInitializer kind d) s fun _ _ => d.IsInitialized kind := by
  cases d with
  | declarator span target init =>
    unfold checkInitializer
    refine .ite (fun hnone => ?_) fun hsome => .pure fun _ => ?_
    · cases target with
      | binding id =>
        refine .ite (fun _ => fail_gives) fun hkind => .pure fun hneeds => ?_
        refine absurd (hneeds.resolve_right (by simp [Node.isName])) fun hconst => hkind ?_
        rw [hconst]
        rfl
      | _ => exact fail_gives
    · cases init with
      | some e => rfl
      | none => exact absurd rfl hsome

/-- What is not refused has all the values that it needs. -/
theorem checkInitializers_gives (kind : VariableKind) (ds : List (Node .declarator)) :
    Gives text (ds.forM (checkInitializer kind)) s fun _ _ => ∀ d ∈ ds, d.IsInitialized kind := by
  induction ds generalizing s with
  | nil => exact .pure (by simp)
  | cons d ds ih =>
    refine .bind (checkInitializer_gives kind d) fun _ s₁ _ hd => ih.imp fun _ _ hds => ?_
    exact List.forall_mem_cons.mpr ⟨hd, hds⟩

/-- What is not refused as declared by `let` or `const` is not named `let`. -/
theorem checkBoundNames_gives (kind : VariableKind) (target : Pattern) :
    Gives text (checkBoundNames kind target) s
      fun _ _ => kind.isLexical = true → ∀ id ∈ target.boundNames, id.name ≠ "let" := by
  unfold checkBoundNames
  refine .ite (fun _ => ?_) fun hkind => .pure fun h => absurd h hkind
  cases hfind : target.boundNames.find? (·.name == "let") with
  | some id => exact fail_gives
  | none => exact .pure fun _ => by simpa using hfind

/-- A declared pattern is settled, with its value or without. -/
theorem declarator_gives (hg : g.Builds text n) (ctx : Context) (kind : VariableKind) :
    Gives text (declarator g ctx kind) s fun a _ => Settled (level n) a ∧ AvoidsLet kind a := by
  rw [declarator_eq]
  refine .read rfl (.bind (hg.bindingTarget ctx s) fun target s₁ _ h₁ => ?_)
  refine .bind (checkBoundNames_gives kind target) fun _ s₂ _ h₂ => ?_
  refine .bind (optionalInitializer_gives hg ctx) fun init s₃ _ h₃ => .read rfl (.pure ⟨?_, h₂⟩)
  exact .unruled rfl (by simpa [Node.parts] using ⟨h₁, h₃⟩)

/-- Declarations, each of which passes a check. -/
theorem declarators_gives (hg : g.Builds text n) (ctx : Context) (kind : VariableKind)
    {check : Node .declarator → Parser Unit} {P : Node .declarator → Prop}
    (hcheck : ∀ d s, Gives text (check d) s fun _ _ => P d) :
    Gives text (declarators g ctx kind check) s fun as _ =>
      ∀ a ∈ as, Settled (level n) a ∧ AvoidsLet kind a ∧ P a := by
  have hchecked : ∀ s, Gives text (do
      let d ← declarator g ctx kind
      check d
      return d) s fun a _ => Settled (level n) a ∧ AvoidsLet kind a ∧ P a := fun s =>
    .bind (declarator_gives hg ctx kind) fun d s₁ _ h₁ =>
      .bind (hcheck d s₁) fun _ _ _ hd => .pure ⟨h₁.1, h₁.2, hd⟩
  refine .skip advance_gives fun _ s₁ _ => .bind (hchecked s₁) fun first s₂ _ h₂ => ?_
  refine .bind (many_gives (P := fun a _ => Settled (level n) a ∧ AvoidsLet kind a ∧ P a)
    settled_later fun s => ?_) fun more s₃ _ h₃ => .pure (List.forall_mem_cons.mpr ⟨h₂, h₃⟩)
  refine .eat (fun s₁ _ => .bind (hchecked s₁) fun d s₂ _ hd => .pure ?_) (.pure (by simp))
  rintro _ ⟨⟩
  exact hd

/-- Nothing that is declared by `let` or `const` is named `let`. -/
theorem ne_let_of_avoidsLet {kind : VariableKind} {ds : List (Node .declarator)}
    (h : ∀ d ∈ ds, AvoidsLet kind d) (hkind : kind.isLexical = true) :
    ∀ id ∈ Node.declaratorNames ds, id.name ≠ "let" := by
  induction ds with
  | nil => simp [Node.declaratorNames]
  | cons d ds ih =>
    obtain ⟨hd, hds⟩ := List.forall_mem_cons.mp h
    cases d with
    | declarator span target init =>
      intro id hid
      rcases List.mem_append.mp hid with hid | hid
      · exact hd hkind id hid
      · exact ih hds id hid

/-- A declaration is settled if all that it declares is. -/
theorem settled_declaration {b : Budget} {span : Span} {kind : VariableKind}
    {ds : List (Node .declarator)} (hds : ∀ d ∈ ds, Settled b d)
    (hlet : ∀ d ∈ ds, AvoidsLet kind d) : Settled b (.declaration span kind ds) := by
  refine .wrapped rfl ⟨rfl, ne_let_of_avoidsLet hlet, by simp [Node.stamps], rfl⟩ rfl ?_
  simpa [Node.parts] using hds

/-- A statement that declares encloses what it declares, with the values that are needed. -/
theorem variableStatement_gives (hg : g.Builds text n) (ctx : Context) (kind : VariableKind) :
    Gives text (variableStatement g ctx kind) s fun a _ =>
      Encloses n a ∧ a.needsBlock = kind.isLexical := by
  refine .read rfl (.bind (declarators_gives hg _ kind fun d s => checkInitializer_gives kind d)
    fun ds s₁ _ h₁ => .skip semicolon_gives fun _ s₂ _ => .read rfl (.pure ⟨⟨rfl, ?_, ?_⟩, rfl⟩))
  · exact ⟨rfl, fun d hd => (h₁ d hd).2.2, by simp [Node.stamps], rfl⟩
  · have hd : Settled (level n)
        (Node.declaration (.ofOffsets s.lexer.token.start.offset s₂.consumed) kind ds) :=
      settled_declaration (fun d hd => (h₁ d hd).1) fun d hd => (h₁ d hd).2.1
    simpa [Node.parts] using hd

/-- What is declared in the head of a loop is settled. -/
theorem headDeclaration_gives (hg : g.Builds text n) (ctx : Context) (kind : VariableKind) :
    Gives text (headDeclaration g ctx kind) s fun a _ =>
      Settled (level n) a ∧ ∃ span ds, a = .declaration span kind ds := by
  refine .read rfl (.bind (declarators_gives (P := fun _ => True) hg _ kind fun _ _ =>
    .pure trivial) fun ds s₁ _ h₁ => .read rfl (.pure ⟨?_, _, _, rfl⟩))
  exact settled_declaration (fun d hd => (h₁ d hd).1) fun d hd => (h₁ d hd).2.1

/-- A condition in parentheses is settled. -/
theorem condition_gives (hg : g.Builds text n) (ctx : Context) :
    Gives text (condition g ctx) s fun a _ => Settled (level n) a := by
  refine .skip expect_gives fun _ s₁ _ => .bind (hg.expression _) fun e s₂ _ h₂ => ?_
  exact .skip expect_gives fun _ _ _ => .pure h₂

/-- What is not refused does not start with words that declare. -/
theorem substatement_gives (hg : g.Builds text n) (ctx : Context) :
    Gives text (substatement g ctx) s fun a _ => IsSubstatement n a := by
  have hstatement : s.startsLexical = false →
      Gives text (g.statement ctx) s fun a _ => IsSubstatement n a :=
    fun hstart => (hg.statement ctx s).imp fun a _ h => ⟨h.1, h.2 hstart⟩
  refine .read rfl ?_
  split
  · exact unexpected_gives
  · exact unexpected_gives
  · rename_i hk
    refine .read rfl (.refuse unexpected_gives fun _ => .ite (fun hcolon => ?_) fun _ => ?_)
    · refine hstatement ?_
      -- Behind `let` a colon does not start a declaration.
      simp only [State.startsLexical, hk, eq_of_beq hcolon]
      decide
    · exact (hg.expressionStatement ctx s).imp fun a _ h => ⟨h.1, h.2⟩
  · rename_i hconst hclass hlet
    refine hstatement ?_
    unfold State.startsLexical
    split
    · exact absurd ‹_› hconst
    · exact absurd ‹_› hclass
    · exact absurd ‹_› hlet
    · rfl

/-- The body of a loop stands alone in it. -/
theorem loopBody_gives (hg : g.Builds text n) (ctx : Context) :
    Gives text (loopBody g ctx) s fun a _ => IsSubstatement n a := substatement_gives hg _

/-- An expression as a statement. -/
theorem expressionStatement_gives (hg : g.Builds text n) (ctx : Context) :
    Gives text (expressionStatement g ctx) s fun a _ => Standalone n a := by
  refine .read rfl (.bind (hg.expression _) fun e s₁ _ h₁ => .skip semicolon_gives fun _ s₂ _ => ?_)
  exact .read rfl (.pure (.unruled rfl rfl (by simpa [Node.parts] using h₁)))

/-- The branches of an `if` stand alone in it. -/
theorem ifStatement_gives (hg : g.Builds text n) (ctx : Context) :
    Gives text (ifStatement g ctx) s fun a _ => Standalone n a := by
  refine .read rfl (.skip advance_gives fun _ s₁ _ => ?_)
  refine .bind (condition_gives hg ctx) fun test s₂ _ h₂ => ?_
  refine .bind (substatement_gives hg ctx) fun consequent s₃ _ h₃ => .eat (fun s₄ _ => ?_) ?_
  · refine .bind (substatement_gives hg ctx) fun alternate s₅ _ h₅ => .read rfl (.pure ?_)
    refine .ruled rfl ⟨h₃.alone, h₅.alone⟩ (by simp [Node.stamps]) rfl ?_
    simpa [Node.parts] using ⟨h₂, h₃.settled, h₅.settled⟩
  · refine .read rfl (.pure (.ruled rfl h₃.alone (by simp [Node.stamps]) rfl ?_))
    simpa [Node.parts] using ⟨h₂, h₃.settled⟩

/-- The body of a `while` stands alone in it. -/
theorem whileStatement_gives (hg : g.Builds text n) (ctx : Context) :
    Gives text (whileStatement g ctx) s fun a _ => Standalone n a := by
  refine .read rfl (.skip advance_gives fun _ s₁ _ => ?_)
  refine .bind (condition_gives hg ctx) fun test s₂ _ h₂ => ?_
  refine .bind (loopBody_gives hg ctx) fun body s₃ _ h₃ => .read rfl (.pure ?_)
  refine .ruled rfl h₃.alone (by simp [Node.stamps]) rfl ?_
  simpa [Node.parts] using ⟨h₂, h₃.settled⟩

/-- The body of a `do` stands alone in it. -/
theorem doStatement_gives (hg : g.Builds text n) (ctx : Context) :
    Gives text (doStatement g ctx) s fun a _ => Standalone n a := by
  refine .read rfl (.skip advance_gives fun _ s₁ _ => ?_)
  refine .bind (loopBody_gives hg ctx) fun body s₂ _ h₂ => .skip expect_gives fun _ s₃ _ => ?_
  refine .bind (condition_gives hg ctx) fun test s₄ _ h₄ => ?_
  refine .skip optionalSemicolon_gives fun _ s₅ _ => .read rfl (.pure ?_)
  refine .ruled rfl h₂.alone (by simp [Node.stamps]) rfl ?_
  simpa [Node.parts] using ⟨h₂.settled, h₄⟩

/-- The body of a `with` stands alone in it. -/
theorem withStatement_gives (hg : g.Builds text n) (ctx : Context) :
    Gives text (withStatement g ctx) s fun a _ => Standalone n a := by
  refine .read rfl (.skip advance_gives fun _ s₁ _ => ?_)
  refine .bind (condition_gives hg ctx) fun e s₂ _ h₂ => ?_
  refine .bind (substatement_gives hg ctx) fun body s₃ _ h₃ => .read rfl (.pure ?_)
  refine .ruled rfl h₃.alone (by simp [Node.stamps]) rfl ?_
  simpa [Node.parts] using ⟨h₂, h₃.settled⟩

/-- A `return` encloses what is returned. -/
theorem returnStatement_gives (hg : g.Builds text n) (ctx : Context) :
    Gives text (returnStatement g ctx) s fun a _ => Standalone n a := by
  have hfinish : ∀ (argument : Option Expression) (s₁ : State),
      (∀ e, argument = some e → Settled (level n) e) → Gives text (do
        semicolon
        return .returnValue (← spanFrom s.offset) argument) s₁ fun a _ => Standalone n a := by
    intro argument s₁ h
    refine .skip semicolon_gives fun _ s₂ _ => .read rfl (.pure (.unruled rfl rfl ?_))
    simpa [Node.parts] using h
  refine .read rfl (.require failHere_gives fun _ => .skip advance_gives fun _ s₁ _ => ?_)
  refine .read rfl (.read rfl (.ite (fun _ => .read rfl (hfinish none s₁ (by simp))) fun _ => ?_))
  refine .bind (hg.expression _) fun e s₂ _ h₂ => .read rfl (hfinish (some e) s₂ ?_)
  rintro _ ⟨⟩
  exact h₂

/-- The label of a jump has no scope. -/
theorem jumpLabel_gives (ctx : Context) :
    Gives text (jumpLabel ctx) s fun label _ => ∀ id, label = some id → id.scope = 0 := by
  refine .read rfl (.read rfl (.ite (fun _ => .pure (by simp)) fun _ => ?_))
  refine .bind (identifier_gives ctx) fun id s₁ _ hid => .pure ?_
  rintro _ ⟨⟩
  exact hid

/-- A jump out of a statement. -/
theorem breakStatement_gives (ctx : Context) :
    Gives text (breakStatement ctx) s fun a _ => Standalone n a := by
  rw [breakStatement_eq]
  refine .read rfl (.skip advance_gives fun _ s₁ _ => ?_)
  refine .bind (jumpLabel_gives ctx) fun label s₂ _ hlabel => ?_
  refine .skip (.of_check (checkBreak_meets ctx _ label)) fun _ s₃ _ => ?_
  refine .skip semicolon_gives fun _ s₄ _ => .read rfl (.pure ?_)
  exact .ruled rfl trivial (by simpa [Node.stamps] using hlabel) rfl (by simp [Node.parts])

/-- A jump to the next round of a loop. -/
theorem continueStatement_gives (ctx : Context) :
    Gives text (continueStatement ctx) s fun a _ => Standalone n a := by
  rw [continueStatement_eq]
  refine .read rfl (.skip advance_gives fun _ s₁ _ => ?_)
  refine .bind (jumpLabel_gives ctx) fun label s₂ _ hlabel => ?_
  refine .skip (.of_check (checkContinue_meets ctx _ label)) fun _ s₃ _ => ?_
  refine .skip semicolon_gives fun _ s₄ _ => .read rfl (.pure ?_)
  exact .ruled rfl trivial (by simpa [Node.stamps] using hlabel) rfl (by simp [Node.parts])

/-- A `throw` encloses what is thrown. -/
theorem throwStatement_gives (hg : g.Builds text n) (ctx : Context) :
    Gives text (throwStatement g ctx) s fun a _ => Standalone n a := by
  refine .read rfl (.skip advance_gives fun _ s₁ _ => .read rfl (.refuse fail_gives fun _ => ?_))
  refine .bind (hg.expression _) fun e s₂ _ h₂ => .skip semicolon_gives fun _ s₃ _ => ?_
  exact .read rfl (.pure (.unruled rfl rfl (by simpa [Node.parts] using h₂)))

/-- The parameter of a clause is settled, if there is one. -/
theorem catchParameter_gives (hg : g.Builds text n) (ctx : Context) :
    Gives text (catchParameter g ctx) s fun param _ =>
      ∀ p, param = some p → Settled (level n) p := by
  refine .eat (fun s₂ _ => ?_) (.pure (by simp))
  refine .bind (hg.bindingTarget ctx s₂) fun target s₃ _ h₃ => ?_
  refine .skip expect_gives fun _ s₄ _ => .pure ?_
  rintro _ ⟨⟩
  exact h₃

/-- A clause that handles what was thrown is settled. -/
theorem catchClause_gives (hg : g.Builds text n) (ctx : Context) :
    Gives text (catchClause g ctx) s fun a _ => Settled (level n) a := by
  rw [catchClause_eq]
  refine .read rfl (.skip advance_gives fun _ s₁ _ => ?_)
  refine .bind (catchParameter_gives hg ctx) fun param s₂ _ h₂ => ?_
  refine .bind (hg.block ctx) fun body s₃ _ h₃ => .read rfl (.pure ?_)
  refine .wrapped rfl ⟨rfl, trivial, by simp [Node.stamps], rfl⟩ rfl ?_
  simpa [Node.parts, or_imp, forall_and] using ⟨h₂, h₃⟩

/-- What is guarded has a handler or a block that is always executed. -/
theorem tryStatement_gives (hg : g.Builds text n) (ctx : Context) :
    Gives text (tryStatement g ctx) s fun a _ => Standalone n a := by
  rw [tryStatement_eq]
  refine .read rfl (.skip advance_gives fun _ s₁ _ => .bind (hg.block ctx) fun body s₂ _ h₂ => ?_)
  refine .bind (P := fun handler _ => ∀ c, handler = some c → Settled (level n) c)
    (.read rfl (.ite (fun _ => ?_) fun _ => .pure (by simp))) fun handler s₃ _ h₃ => ?_
  · refine .bind (catchClause_gives hg ctx) fun c s₃ _ h₃ => .pure ?_
    rintro _ ⟨⟩
    exact h₃
  refine .bind (P := fun finalizer _ => ∀ b, finalizer = some b → Settled (level n) b)
    (.eat (fun s₄ _ => ?_) (.pure (by simp))) fun finalizer s₄ _ h₄ => ?_
  · refine .bind (hg.block ctx) fun b s₅ _ h₅ => .pure ?_
    rintro _ ⟨⟩
    exact h₅
  cases handler with
  | some handler =>
    refine .read rfl (.pure (.ruled rfl (.inl rfl) (by simp [Node.stamps]) rfl ?_))
    simpa [Node.parts] using ⟨h₂, h₃ handler rfl, h₄⟩
  | none =>
    cases finalizer with
    | some finalizer =>
      refine .read rfl (.pure (.ruled rfl (.inr rfl) (by simp [Node.stamps]) rfl ?_))
      simpa [Node.parts] using ⟨h₂, h₄ finalizer rfl⟩
    | none => exact failHere_gives

/-- The statements of a case are settled. -/
theorem caseBody_gives (hg : g.Builds text n) (ctx : Context) :
    Gives text (caseBody g ctx) s fun as _ => ∀ a ∈ as, Settled (level n) a := by
  refine many_gives (P := fun a _ => Settled (level n) a) settled_later fun s => .read rfl ?_
  split
  · exact .pure (by simp)
  · exact .pure (by simp)
  · exact .pure (by simp)
  · exact unexpected_gives
  · refine .bind (hg.statement ctx s) fun a s₁ _ h₁ => .pure ?_
    rintro _ ⟨⟩
    exact h₁.1

/-- A case is the default only if there has been none. -/
theorem caseTest_gives (hg : g.Builds text n) (ctx : Context) (seenDefault : Bool) :
    Gives text (caseTest g ctx seenDefault) s fun a _ =>
      (∀ e, a = some e → Settled (level n) e) ∧ (a = none → seenDefault = false) := by
  refine .read rfl ?_
  split
  · refine .skip advance_gives fun _ s₁ _ => .bind (hg.expression _) fun e s₂ _ h₂ => .pure ?_
    exact ⟨by simpa using h₂, nofun⟩
  · refine .refuse failHere_gives fun hfirst => .skip advance_gives fun _ s₁ _ => .pure ?_
    exact ⟨by simp, fun _ => eq_false_of_ne_true hfirst⟩
  · exact unexpected_gives

/-- The cases of a switch, of which at most one is the default. -/
theorem switchCases_gives (hg : g.Builds text n) (ctx : Context) :
    Gives text (switchCases g ctx) s fun as _ =>
      (∀ a ∈ as, Settled (level n) a) ∧ as.countP Node.isDefault ≤ 1 := by
  -- Whether there has been a default is how many there have been.
  refine iterate_gives (I := fun x _ => (∀ a ∈ x.1, Settled (level n) a) ∧
    x.1.countP Node.isDefault = x.2.toNat) ?_ (by simp)
  rintro ⟨found, seenDefault⟩ s ⟨hfound, hcount⟩
  refine .read rfl (.ite (fun _ => .pure ⟨fun a ha => hfound a (by simpa using ha), ?_⟩)
    fun _ => .read rfl ?_)
  · rw [List.countP_reverse, hcount]
    exact Bool.toNat_le seenDefault
  · refine .bind (caseTest_gives hg ctx seenDefault) fun test s₁ _ h₁ => ?_
    refine .skip expect_gives fun _ s₂ _ => .bind (caseBody_gives hg ctx) fun body s₃ _ h₃ => ?_
    refine .read rfl (.pure ⟨List.forall_mem_cons.mpr ⟨.unruled rfl ?_, hfound⟩, ?_⟩)
    · simpa [Node.parts, or_imp, forall_and] using ⟨h₁.1, h₃⟩
    · simp only at hcount
      rw [List.countP_cons, hcount]
      cases test with
      | some e => simp [Node.isDefault]
      | none => simp [Node.isDefault, h₁.2 rfl]

/-- A `switch` encloses its cases. -/
theorem switchStatement_gives (hg : g.Builds text n) (ctx : Context) :
    Gives text (switchStatement g ctx) s fun a _ => Standalone n a := by
  refine .read rfl (.skip advance_gives fun _ s₁ _ => ?_)
  refine .bind (condition_gives hg ctx) fun e s₂ _ h₂ => .skip expect_gives fun _ s₃ _ => ?_
  refine .bind (switchCases_gives hg _) fun cases s₄ _ h₄ => .skip expect_gives fun _ s₅ _ => ?_
  refine .read rfl (.pure (.ruled rfl h₄.2 (by simp [Node.stamps]) rfl ?_))
  simpa [Node.parts] using ⟨h₂, h₄.1⟩

/-- What has a label stands alone behind it. -/
theorem labeledStatement_gives (hg : g.Builds text n) (ctx : Context) :
    Gives text (labeledStatement g ctx) s fun a _ => Standalone n a := by
  refine .read rfl (.bind (identifier_gives ctx) fun id s₁ _ hid => ?_)
  refine .skip expect_gives fun _ s₂ _ => .refuse fail_gives fun _ => .read rfl ?_
  refine .bind (substatement_gives hg _) fun body s₃ _ h₃ => .read rfl (.pure ?_)
  refine .ruled rfl h₃.alone (by simpa [Node.stamps] using hid) rfl ?_
  simpa [Node.parts] using h₃.settled

/-- What is no declaration is a statement with a label or an expression. -/
theorem plainStatement_gives (hg : g.Builds text n) (ctx : Context) :
    Gives text (plainStatement g ctx) s fun a _ => Standalone n a :=
  .read rfl (.read rfl (.ite (fun _ => labeledStatement_gives hg ctx) fun _ =>
    expressionStatement_gives hg ctx))

end

end EcmaScript.Parser
