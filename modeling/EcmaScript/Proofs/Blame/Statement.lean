import EcmaScript.Proofs.Blame.Operand
import EcmaScript.Proofs.Parser.Script

/-!
# Places that statements blame

Declarations, labels and targets of loops are blamed when they have been read, at their start. So
what was made of them has to be known to lie in the text. On every level of nesting the parsers
blame places that they have come to, since beyond the last level they blame the current token, and
they leave the counts of braces as they have found them.
-/

namespace EcmaScript.Parser

open Sketch

section

variable {text : String} {s : State} {g : Nested} {place : Nat}

/-- A declaration without the value that it needs is blamed where it starts. -/
theorem checkInitializer_careful {variableKind : VariableKind} {d : Node .declarator}
    (h : s.Met text d.offset) : Careful text (checkInitializer variableKind d) s := by
  cases d with
  | declarator span target init =>
    refine .ite (fun _ => ?_) fun _ => .pure
    cases target with
    | binding id => exact .check fun _ => fail_blames h rfl
    | _ => exact fail_leads h rfl

/-- Each of several declarations is blamed where it starts. -/
theorem checkInitializers_careful {variableKind : VariableKind} {ds : List (Node .declarator)}
    (h : ∀ d ∈ ds, s.Met text d.offset) :
    Careful text (ds.forM (checkInitializer variableKind)) s := by
  induction ds generalizing s with
  | nil => exact .pure
  | cons d ds ih =>
    obtain ⟨hd, hds⟩ := List.forall_mem_cons.mp h
    refine (checkInitializer_careful hd).bind fun _ s₁ h₁ => ?_
    exact ih fun d hmem => (hds d hmem).later h₁

/-- A declared name that is not allowed is blamed where it starts. -/
theorem checkBoundNames_careful {variableKind : VariableKind} {target : Pattern}
    (h : AllStart (s.Met text) target.sketch) :
    Careful text (checkBoundNames variableKind target) s := by
  unfold checkBoundNames
  refine .ite (fun _ => ?_) fun _ => .pure
  cases hfind : target.boundNames.find? (·.name == "let") with
  | none => exact .pure
  | some id =>
    exact fail_leads (Node.starts_boundNames target h id (List.mem_of_find?_eq_some hfind)) rfl

/-- The names of a pattern are looked at before its value is read. -/
theorem declarator_careful (hg : g.Cares text) (ctx : Context) (variableKind : VariableKind)
    (s : State) : Careful text (declarator g ctx variableKind) s := by
  rw [declarator_eq]
  refine .read rfl ((hg.bindingTarget ctx s).bind_meets ((hg.sound.bindingTarget ctx).makes s)
    fun target s₁ htarget _ => ?_)
  refine (checkBoundNames_careful (htarget.1.sound.allStart htarget.2)).bind fun _ s₂ _ => ?_
  exact (optionalInitializer_careful hg ctx s₂).bind fun _ _ _ => .node

/-- A declarator starts where its node starts. -/
theorem Made.met_declarator {d : Node .declarator} {s₁ : State}
    (h : Made text Node.sketch s d s₁) : s₁.Met text d.offset := by
  have hstarts := h.1.sound.allStart h.2
  cases d with
  | declarator span target init => exact (allStart_mk.mp hstarts).1

/-- Declarations stand one behind the other, and each is looked at once it is read. -/
theorem declarators_careful (hg : g.Cares text) (ctx : Context) (variableKind : VariableKind)
    {check : Node .declarator → Parser Unit}
    (hcheck : ∀ (d : Node .declarator) (s : State), s.Met text d.offset → Careful text (check d) s)
    (hk : isUncounted s.lexer.token.kind = true) :
    Careful text (declarators g ctx variableKind check) s := by
  have hchecked : ∀ s, Careful text (do
      let d ← declarator g ctx variableKind
      check d
      return d) s := fun s =>
    (declarator_careful hg ctx variableKind s).bind_meets
      (declarator_makes hg.sound ctx variableKind s) fun d s₁ hd _ =>
        (hcheck d s₁ hd.met_declarator).bind fun _ _ _ => .pure
  intro D
  refine (advance_careful hk).bind fun _ s₁ _ => (hchecked s₁).bind fun first s₂ _ => ?_
  exact (commaItems_careful hchecked).bind fun _ _ _ => .pure

/-- A declaration is looked at before its semicolon. -/
theorem variableStatement_careful (hg : g.Cares text) (ctx : Context)
    (variableKind : VariableKind) (hk : isUncounted s.lexer.token.kind = true) :
    Careful text (variableStatement g ctx variableKind) s := by
  refine .read rfl ((declarators_careful hg _ variableKind
    (fun _ _ hd => checkInitializer_careful hd) hk).bind fun _ s₁ _ => ?_)
  exact semicolon_careful.bind fun _ _ _ => .node

/-- In the head of a loop the values are looked at later. -/
theorem headDeclaration_careful (hg : g.Cares text) (ctx : Context)
    (variableKind : VariableKind) (hk : isUncounted s.lexer.token.kind = true) :
    Careful text (headDeclaration g ctx variableKind) s :=
  .read rfl ((declarators_careful hg _ variableKind (fun _ _ _ => .pure) hk).bind
    fun _ _ _ => .node)

/-- A condition stands in parentheses, which count nothing. -/
theorem condition_careful (hg : g.Cares text) (ctx : Context) (s : State) :
    Careful text (condition g ctx) s :=
  (expect_careful rfl).bind fun _ s₁ _ => (hg.expression _ s₁).bind fun _ _ _ =>
    (expect_careful rfl).bind fun _ _ _ => .pure

/-- A statement that must not stand alone is unexpected. -/
theorem substatement_careful (hg : g.Cares text) (ctx : Context) (s : State) :
    Careful text (substatement g ctx) s := by
  refine .kind ?_
  split
  · exact unexpected_leads
  · exact unexpected_leads
  · refine .read (p := peek) rfl (.refuse (fun _ => unexpected_blames) fun _ => ?_)
    exact .ite (fun _ => hg.statement ctx s) fun _ => hg.expressionStatement ctx s
  · exact hg.statement ctx s

/-- The body of a loop is a statement that may stand alone. -/
theorem loopBody_careful (hg : g.Cares text) (ctx : Context) (s : State) :
    Careful text (loopBody g ctx) s := substatement_careful hg _ s

/-- An expression is ended by a semicolon. -/
theorem expressionStatement_careful (hg : g.Cares text) (ctx : Context) (s : State) :
    Careful text (expressionStatement g ctx) s :=
  .read rfl ((hg.expression _ s).bind fun _ _ _ => semicolon_careful.bind fun _ _ _ => .node)

/-- A condition is followed by one statement or by two. -/
theorem ifStatement_careful (hg : g.Cares text) (ctx : Context)
    (hk : isUncounted s.lexer.token.kind = true) : Careful text (ifStatement g ctx) s := by
  refine .read rfl ((advance_careful hk).bind fun _ s₁ _ => (condition_careful hg ctx s₁).bind
    fun _ s₂ _ => ?_)
  refine (substatement_careful hg ctx s₂).bind fun _ s₃ _ => (eat_careful rfl).bind fun _ s₄ _ => ?_
  refine .ite (fun _ => ?_) fun _ => .node
  exact (substatement_careful hg ctx s₄).bind fun _ _ _ => .node

/-- A loop has its condition first. -/
theorem whileStatement_careful (hg : g.Cares text) (ctx : Context)
    (hk : isUncounted s.lexer.token.kind = true) : Careful text (whileStatement g ctx) s := by
  refine .read rfl ((advance_careful hk).bind fun _ s₁ _ => (condition_careful hg ctx s₁).bind
    fun _ s₂ _ => ?_)
  exact (loopBody_careful hg ctx s₂).bind fun _ _ _ => .node

/-- A loop has its condition last, and a semicolon may follow. -/
theorem doStatement_careful (hg : g.Cares text) (ctx : Context)
    (hk : isUncounted s.lexer.token.kind = true) : Careful text (doStatement g ctx) s := by
  refine .read rfl ((advance_careful hk).bind fun _ s₁ _ => (loopBody_careful hg ctx s₁).bind
    fun _ s₂ _ => ?_)
  refine (expect_careful rfl).bind fun _ s₃ _ => (condition_careful hg ctx s₃).bind fun _ s₄ _ => ?_
  exact optionalSemicolon_careful.bind fun _ _ _ => .node

/-- An object is given to one statement. -/
theorem withStatement_careful (hg : g.Cares text) (ctx : Context)
    (hk : isUncounted s.lexer.token.kind = true) : Careful text (withStatement g ctx) s := by
  refine .read rfl ((advance_careful hk).bind fun _ s₁ _ => (condition_careful hg ctx s₁).bind
    fun _ s₂ _ => ?_)
  exact (substatement_careful hg ctx s₂).bind fun _ _ _ => .node

/-- Returning outside of a function is blamed at once. -/
theorem returnStatement_careful (hg : g.Cares text) (ctx : Context)
    (hk : isUncounted s.lexer.token.kind = true) : Careful text (returnStatement g ctx) s := by
  refine .read rfl (.require (fun _ => failHere_blames rfl) fun _ =>
    (advance_careful hk).bind fun _ s₁ _ => ?_)
  refine .isAt fun _ => .read (p := atImpliedEnd) rfl (.ite (fun _ => ?_) fun _ => ?_)
  · exact Leads.pure.bind fun _ s₂ _ => semicolon_careful.bind fun _ _ _ => .node
  · refine (hg.expression _ s₁).bind fun _ s₂ _ => Leads.pure.bind fun _ s₃ _ => ?_
    exact semicolon_careful.bind fun _ _ _ => .node

/-- A label stands on the same line as its jump. -/
theorem jumpLabel_careful (ctx : Context) (s : State) : Careful text (jumpLabel ctx) s :=
  .read (p := afterLineBreak) rfl (.kind (.ite (fun _ => .pure) fun _ =>
    (identifier_careful ctx s).map))

/-- A jump is blamed at its start or at its label. -/
structure JumpMet (text : String) (s : State) (start : Nat) (label : Option Identifier) :
    Prop where
  start : s.Met text start
  label : ∀ id, label = some id → s.Met text (Position.offset id.span.start)

/-- A jump out of nothing is blamed at its start, and at its label if it has one. -/
theorem checkBreak_careful {ctx : Context} {start : Nat} {label : Option Identifier}
    (h : JumpMet text s start label) : Careful text (checkBreak ctx start label) s := by
  unfold checkBreak
  cases label with
  | some id => exact .check fun _ => fail_blames (h.label id rfl) rfl
  | none => exact .ite (fun _ => .pure) fun _ => fail_leads h.start rfl

/-- A jump that continues no loop is blamed at its start or at its label. -/
theorem checkContinue_careful {ctx : Context} {start : Nat} {label : Option Identifier}
    (h : JumpMet text s start label) : Careful text (checkContinue ctx start label) s := by
  unfold checkContinue
  cases label with
  | some id =>
    cases hl : ctx.label? id.name with
    | none =>
      simp only [hl]
      exact fail_leads (h.label id rfl) rfl
    | some target =>
      simp only [hl]
      exact .ite (fun _ => .pure) fun _ => fail_leads h.start rfl
  | none => exact .ite (fun _ => .pure) fun _ => fail_leads h.start rfl

/-- A jump with its label, given what comes behind them. -/
theorem jump_careful {ctx : Context} {f : Nat → Option Identifier → Parser Statement}
    (hf : ∀ start label s, JumpMet text s start label → Careful text (f start label) s)
    (hk : isUncounted s.lexer.token.kind = true) :
    Careful text (do
      let start ← offset
      advance
      let label ← jumpLabel ctx
      f start label) s := by
  refine .offset fun hstart => (advance_careful hk).bind fun _ s₁ h₁ => ?_
  refine (jumpLabel_careful ctx s₁).bind_meets (jumpLabel_meets ctx) fun label s₂ hm h₂ => ?_
  refine hf _ label s₂ ⟨(hstart.later h₁).later h₂, ?_⟩
  rintro id rfl
  exact (allStart_mk.mp (allStart_append.mp (hm.1.sound.allStart hm.2)).1).1

/-- A jump is looked at before its semicolon. -/
theorem breakStatement_careful (ctx : Context) (hk : isUncounted s.lexer.token.kind = true) :
    Careful text (breakStatement ctx) s := by
  rw [breakStatement_eq]
  refine jump_careful (fun start label s h => ?_) hk
  exact (checkBreak_careful h).bind fun _ _ _ => semicolon_careful.bind fun _ _ _ => .node

/-- A jump that continues a loop is looked at before its semicolon. -/
theorem continueStatement_careful (ctx : Context) (hk : isUncounted s.lexer.token.kind = true) :
    Careful text (continueStatement ctx) s := by
  rw [continueStatement_eq]
  refine jump_careful (fun start label s h => ?_) hk
  exact (checkContinue_careful h).bind fun _ _ _ => semicolon_careful.bind fun _ _ _ => .node

/-- A line break behind `throw` is blamed where the statement starts. -/
theorem throwStatement_careful (hg : g.Cares text) (ctx : Context)
    (hk : isUncounted s.lexer.token.kind = true) : Careful text (throwStatement g ctx) s := by
  refine .offset fun hstart => (advance_careful hk).bind fun _ s₁ h₁ =>
    .read (p := afterLineBreak) rfl ?_
  refine .refuse (fun _ => fail_blames (hstart.later h₁) rfl) fun _ => ?_
  exact (hg.expression _ s₁).bind fun _ _ _ => semicolon_careful.bind fun _ _ _ => .node

/-- What is caught may be bound in parentheses. -/
theorem catchClause_careful (hg : g.Cares text) (ctx : Context)
    (hk : isUncounted s.lexer.token.kind = true) : Careful text (catchClause g ctx) s := by
  rw [catchClause_eq]
  refine .read rfl ((advance_careful hk).bind fun _ s₁ _ => Leads.bind ?_ fun _ s₂ _ =>
    (hg.block ctx s₂).bind fun _ _ _ => .node)
  refine (eat_careful rfl).bind fun _ s₂ _ => .ite (fun _ => ?_) fun _ => .pure
  exact (hg.bindingTarget ctx s₂).bind fun _ s₃ _ => (expect_careful rfl).bind fun _ _ _ => .pure

/-- A block on its own, with neither a handler nor an end, is blamed behind it. -/
theorem tryStatement_careful (hg : g.Cares text) (ctx : Context)
    (hk : isUncounted s.lexer.token.kind = true) : Careful text (tryStatement g ctx) s := by
  rw [tryStatement_eq]
  refine .read rfl ((advance_careful hk).bind fun _ s₁ _ => (hg.block ctx s₁).bind
    fun body s₂ _ => ?_)
  refine Leads.bind (.isAt_of (fun hk => (catchClause_careful hg ctx (by rw [hk]; rfl)).map)
    .pure) fun handler s₃ _ => ?_
  refine Leads.bind ((eat_careful rfl).bind fun _ s₄ _ =>
    .ite (fun _ => (hg.block ctx s₄).map) fun _ => .pure) fun finalizer s₄ _ => ?_
  cases handler with
  | some handler => exact .node
  | none =>
    cases finalizer with
    | some finalizer => exact .node
    | none => exact failHere_leads rfl

/-- A case of a switch ends where the next one starts. -/
theorem caseBody_careful (hg : g.Cares text) (ctx : Context) (s : State) :
    Careful text (caseBody g ctx) s := by
  refine many_careful fun s => .kind ?_
  split
  · exact .pure
  · exact .pure
  · exact .pure
  · exact unexpected_leads
  · exact (hg.statement ctx s).map

/-- A second default is blamed where it starts. -/
theorem caseTest_careful (hg : g.Cares text) (ctx : Context) (seenDefault : Bool) (s : State) :
    Careful text (caseTest g ctx seenDefault) s := by
  refine .kind ?_
  split
  · rename_i hk
    exact (advance_careful (by rw [hk]; rfl)).bind fun _ s₁ _ => (hg.expression _ s₁).map
  · rename_i hk
    refine .refuse (fun _ => failHere_blames rfl) fun _ => ?_
    exact (advance_careful (by rw [hk]; rfl)).bind fun _ _ _ => .pure
  · exact unexpected_leads

/-- Cases stand one behind the other up to the closing brace. -/
theorem switchCases_careful (hg : g.Cares text) (ctx : Context) (s : State) :
    Careful text (switchCases g ctx) s := by
  refine iterate_careful fun (found, seenDefault) s => .isAt fun _ => .ite (fun _ => .pure)
    fun _ => ?_
  refine .read rfl ((caseTest_careful hg ctx seenDefault s).bind fun test s₁ _ => ?_)
  exact (expect_careful rfl).bind fun _ s₂ _ => (caseBody_careful hg ctx s₂).bind fun _ _ _ => .node

/-- A switch closes the brace that it opens. -/
theorem switchStatement_careful (hg : g.Cares text) (ctx : Context)
    (hk : isUncounted s.lexer.token.kind = true) : Careful text (switchStatement g ctx) s := by
  refine .read rfl ((advance_careful hk).bind fun _ s₁ _ => (condition_careful hg ctx s₁).bind
    fun _ s₂ _ => ?_)
  refine openBrace_leads.bind fun _ s₃ _ => (switchCases_careful hg _ s₃).bind fun _ s₄ _ => ?_
  exact closeBrace_leads.bind fun _ _ _ => .node

/-- A label that is there already is blamed where the statement starts. -/
theorem labeledStatement_careful (hg : g.Cares text) (ctx : Context) (s : State) :
    Careful text (labeledStatement g ctx) s := by
  refine .offset fun hstart => (identifier_careful ctx s).bind fun id s₁ h₁ => ?_
  refine (expect_careful rfl).bind fun _ s₂ h₂ => ?_
  refine .refuse (fun _ => fail_blames ((hstart.later h₁).later h₂) rfl) fun _ => .read rfl ?_
  exact (substatement_careful hg _ s₂).bind fun _ _ _ => .node

/-- An asynchronous function starts one word earlier. -/
theorem functionDeclaration_careful (hg : g.Cares text) (ctx : Context) (isAsync : Bool)
    (hk : isAsync = true → isUncounted s.lexer.token.kind = true) :
    Careful text (functionDeclaration g ctx isAsync) s := by
  refine .read rfl (.ite (fun h => ?_) fun _ => (functionDefinition_careful hg ctx _ _ _ s).map)
  exact (advance_careful (hk h)).bind fun _ s₁ _ => (functionDefinition_careful hg ctx _ _ _ s₁).map

/-- What cannot be declared in the head of a loop is blamed where it starts. -/
theorem checkHeadDeclaration_careful {loop : LoopKind} {d : Node .declaration}
    (h : s.Met text d.offset) : Careful text (checkHeadDeclaration loop d) s := by
  unfold checkHeadDeclaration
  split
  split
  · exact .check fun _ => fail_blames h rfl
  · exact fail_leads h rfl

/-- The word of a loop over values counts nothing. -/
theorem loopOverValues_careful (hg : g.Cares text) (ctx : Context) (start : Nat) (isAwait : Bool)
    (loop : LoopKind) (head : Node .forHead) (hk : isUncounted s.lexer.token.kind = true) :
    Careful text (loopOverValues g ctx start isAwait loop head) s := by
  have hsource : ∀ s, Careful text (loopSource g ctx loop) s := by
    cases loop with
    | forOf => exact hg.value _
    | forIn => exact hg.expression _
  rw [loopOverValues_eq]
  intro D
  refine .refuse (fun _ => unexpected_blames) fun _ => (advance_careful hk).bind fun _ s₁ _ => ?_
  refine (hsource s₁).bind fun right s₂ _ => (expect_careful rfl).bind fun _ s₃ _ => ?_
  exact (loopBody_careful hg ctx s₃).bind fun _ _ _ => .node

/-- An expression in the head of a loop may be missing. -/
theorem optionalExpression_careful (hg : g.Cares text) (ctx : Context) (close : TokenKind)
    (s : State) : Careful text (optionalExpression g ctx close) s :=
  .isAt fun _ => .ite (fun _ => .pure) fun _ => (hg.expression _ s).map

/-- A loop on a condition has two semicolons in its head. -/
theorem loopOnCondition_careful (hg : g.Cares text) (ctx : Context) (start : Nat) (isAwait : Bool)
    (init : Node .forInit) (s : State) :
    Careful text (loopOnCondition g ctx start isAwait init) s := by
  unfold loopOnCondition
  refine .refuse (fun _ => unexpected_blames) fun _ => (expect_careful rfl).bind fun _ s₁ _ => ?_
  refine (optionalExpression_careful hg ctx _ s₁).bind fun _ s₂ _ => (expect_careful rfl).bind
    fun _ s₃ _ => ?_
  refine (optionalExpression_careful hg ctx _ s₃).bind fun _ s₄ _ => (expect_careful rfl).bind
    fun _ s₅ _ => ?_
  exact (loopBody_careful hg ctx s₅).bind fun _ _ _ => .node

/-- What follows a declaration decides which loop it is the head of. -/
theorem declarationLoop_careful (hg : g.Cares text) (ctx : Context) (start : Nat) (isAwait : Bool)
    (variableKind : VariableKind) (hk : isOrdinary s.lexer.token.kind = true)
    (hl : isUncounted s.lexer.token.kind = true) :
    Careful text (declarationLoop g ctx start isAwait variableKind) s := by
  refine (headDeclaration_careful hg ctx variableKind hl).bind_meets
    (fun hs => headDeclaration_meets hg.sound ctx variableKind hs hk) fun d s₁ hd _ => ?_
  have hstarts := hd.1.sound.allStart hd.2
  refine .read (loopKind_run s₁) ?_
  cases d with
  | declaration span kind ds =>
    obtain ⟨hspan, hds⟩ := allStart_mk.mp hstarts
    cases hloop : loopKindOf s₁.lexer.token.kind with
    | some loop =>
      refine (checkHeadDeclaration_careful hspan).bind_meets
        (fun hs => checkHeadDeclaration_meets loop _ hs) fun _ s₂ h₂ _ => ?_
      rw [h₂]
      exact loopOverValues_careful hg ctx start isAwait loop _ (isUncounted_of_eq_some rfl hloop)
    | none =>
      refine (checkInitializers_careful hds.declarators).bind fun _ s₂ _ => ?_
      exact loopOnCondition_careful hg ctx start isAwait _ s₂

/-- What follows an expression decides which loop it is the head of. -/
theorem expressionLoop_careful (hg : g.Cares text) (ctx : Context) (start : Nat) (isAwait : Bool)
    (s : State) : Careful text (expressionLoop g ctx start isAwait) s := by
  refine .takeCoverInit fun houter => ?_
  refine (hg.expressionOrCover _ _).bind_meets (hg.sound.expressionOrCover_makes _ _)
    fun e s₁ he h₁ => .read (loopKind_run s₁) ?_
  cases hloop : loopKindOf s₁.lexer.token.kind with
  | some loop =>
    refine .of_mindful fun hs₁ => .setCoverInit (houter.later h₁) (.read (p := get) rfl ?_)
    refine (orFail_careful ?_).bind_of fun target s₂ h₂ _ => ?_
    · exact Cover.toTarget_refusesAt hs₁.spreadComma rfl (he.1.sound.allStart he.2)
    · rw [orFail_state h₂]
      refine loopOverValues_careful hg ctx start isAwait loop _ ?_
      exact isUncounted_of_eq_some rfl hloop
  | none =>
    refine checkCoverInit_careful.bind fun _ s₂ h₂ => .setCoverInit ((houter.later h₁).later h₂) ?_
    exact loopOnCondition_careful hg ctx start isAwait _ _

/-- The head of a loop starts with a declaration, an expression or nothing. -/
theorem forHead_careful (hg : g.Cares text) (ctx : Context) (start : Nat) (isAwait : Bool)
    (s : State) : Careful text (forHead g ctx start isAwait) s := by
  refine (expect_careful rfl).bind fun _ s₁ _ => .read (declarationKind_run s₁) ?_
  cases hd : declarationKindOf s₁.lexer.scan.token.kind s₁.lexer.token.kind with
  | some variableKind =>
    exact declarationLoop_careful hg ctx start isAwait variableKind
      (isOrdinary_of_declarationKind hd)
      (isUncounted_of_eq_some (f := declarationKindOf _) rfl hd)
  | none =>
    refine .isAt fun _ => .ite (fun _ => ?_) fun _ => ?_
    · exact loopOnCondition_careful hg ctx start isAwait _ s₁
    · exact expressionLoop_careful hg ctx start isAwait s₁

/-- A loop over values may wait for each of them. -/
theorem forStatement_careful (hg : g.Cares text) (ctx : Context)
    (hk : isUncounted s.lexer.token.kind = true) : Careful text (forStatement g ctx) s := by
  rw [forStatement_eq]
  refine .read rfl ((advance_careful hk).bind fun _ s₁ _ => ?_)
  refine .read (a := s₁.lexer.token.kind == .word .awaitKw) rfl (.ite (fun hw => ?_) fun _ => ?_)
  · refine (advance_careful ?_).bind fun _ s₂ _ => forHead_careful hg ctx _ _ s₂
    rw [eq_of_beq (Bool.and_eq_true_iff.mp hw).1]
    rfl
  · exact forHead_careful hg ctx _ _ s₁

/-- What is no other statement is a label or an expression. -/
theorem plainStatement_careful (hg : g.Cares text) (ctx : Context) (s : State) :
    Careful text (plainStatement g ctx) s :=
  .kind (.read (p := peek) rfl (.ite (fun _ => labeledStatement_careful hg ctx s)
    fun _ => expressionStatement_careful hg ctx s))

/-- Statements are told apart by their first token. -/
theorem statement_careful {g : Grammar} (hg : g.Cares text) (ctx : Context) (s : State) :
    Careful text (statement g ctx) s := by
  have hn := hg.toCares
  intro D
  refine .read rfl (.kind ?_)
  split
  · exact (hn.block ctx s).map
  · rename_i hk
    exact (advance_careful (by rw [hk]; rfl)).bind fun _ _ _ => .node
  · rename_i hk
    exact variableStatement_careful hn ctx _ (by rw [hk]; rfl)
  · rename_i hk
    exact variableStatement_careful hn ctx _ (by rw [hk]; rfl)
  · rename_i hk
    refine .read (p := atLetDeclaration) rfl (.ite (fun _ => ?_) fun _ =>
      plainStatement_careful hn ctx s)
    exact variableStatement_careful hn ctx _ (by rw [hk]; rfl)
  · exact functionDeclaration_careful hn ctx false (by simp)
  · rename_i hk
    refine .read (p := atAsyncFunction) rfl (.ite (fun _ => ?_) fun _ =>
      plainStatement_careful hn ctx s)
    exact functionDeclaration_careful hn ctx true fun _ => by rw [hk]; rfl
  · exact (classDefinition_careful hg ctx true s).map
  · rename_i hk
    exact ifStatement_careful hn ctx (by rw [hk]; rfl)
  · rename_i hk
    exact forStatement_careful hn ctx (by rw [hk]; rfl)
  · rename_i hk
    exact whileStatement_careful hn ctx (by rw [hk]; rfl)
  · rename_i hk
    exact doStatement_careful hn ctx (by rw [hk]; rfl)
  · rename_i hk
    exact returnStatement_careful hn ctx (by rw [hk]; rfl)
  · rename_i hk
    exact breakStatement_careful ctx (by rw [hk]; rfl)
  · rename_i hk
    exact continueStatement_careful ctx (by rw [hk]; rfl)
  · rename_i hk
    exact throwStatement_careful hn ctx (by rw [hk]; rfl)
  · rename_i hk
    exact tryStatement_careful hn ctx (by rw [hk]; rfl)
  · rename_i hk
    exact switchStatement_careful hn ctx (by rw [hk]; rfl)
  · rename_i hk
    exact withStatement_careful hn ctx (by rw [hk]; rfl)
  · rename_i hk
    refine (advance_careful (by rw [hk]; rfl)).bind fun _ s₁ _ => ?_
    exact semicolon_careful.bind fun _ _ _ => .node
  · exact plainStatement_careful hn ctx s

end

section

variable {text : String}

/-- Beyond the last level of nesting the current token is blamed. -/
theorem Nested.tooDeep_cares : Nested.tooDeep.Cares text where
  statement _ _ := failHere_leads rfl
  expressionStatement _ _ := failHere_leads rfl
  bindingTarget _ _ := failHere_leads rfl
  assignment _ _ := failHere_leads rfl
  binary _ _ _ := failHere_leads rfl
  unary _ _ := failHere_leads rfl
  newCallee _ _ := failHere_leads rfl
  sound := tooDeep_sound

/-- Parsers are careful if those one level further in are. -/
theorem Nested.Cares.around {g : Nested} (hg : g.Cares text) : g.around.Cares text where
  statement := statement_careful hg.grammar
  expressionStatement := expressionStatement_careful hg
  bindingTarget := bindingTarget_careful hg
  assignment := assignmentExpression_careful hg.grammar hg.sound.grammar
  binary := binaryExpression_careful hg.grammar
  unary := unaryExpression_careful hg.grammar
  newCallee := operandBase_careful hg.grammar
  sound := hg.sound.around

/-- On every level of nesting all parsers are careful. -/
theorem Nested.ofDepth_cares (n : Nat) : (Nested.ofDepth n).Cares text := by
  induction n with
  | zero => exact tooDeep_cares
  | succ n ih => exact ih.around

/-- Before the first token none has been taken. -/
theorem State.legal_ofString (text : String) : (State.ofString text).Legal text :=
  ⟨[], _, Lexer.Trace.start.scan, List.forall_mem_nil _⟩

/-- Before the first token nothing is kept in mind. -/
theorem State.mindful_ofString (text : String) : (State.ofString text).Mindful text where
  sound := sound_ofString text
  legal := legal_ofString text
  coverInit _ h := nomatch h
  suspension _ h := nomatch h
  spreadComma := List.forall_mem_nil _

/-- Whatever a text is, its parser leaves no brace open, and blames places of the text that it has
come to. -/
theorem script_leads (text : String) : Leads text [] [] script (State.ofString text) :=
  (Nested.ofDepth_cares _).statementsUntil _ _ _

end

end EcmaScript.Parser
