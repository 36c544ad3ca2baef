import EcmaScript.Proofs.Fit.Operand
import EcmaScript.Proofs.Parser.Loop

/-!
# Statements fit

A jump suits surroundings in which what its context says about jumps is true, since its context
has been asked for the target. A statement within another one comes behind the first word of
that one, so no label is directly in front of it; only the body of a labeled statement has
labels there, and whether these are labels of a loop is settled by what the body is.
-/

namespace EcmaScript.Parser

section

variable {text : String} {s : State} {g : Nested} {ctx : Context}

/-- What fits with suspensions fits under what a statement's context leads to. -/
theorem suits_leads {form : Form} {x : Node form} (h : Suits (ctx.Allows false) x) :
    Suits ctx.Leads x := h.mono fun _ hσ => hσ.allows

/-- What is known of a statement that is a loop or not, as its first word says. -/
structure Plain (ctx : Context) (loops : Bool) (a : Statement) : Prop where
  isLoop_eq : a.isLoop = loops
  suits : Suits ctx.Leads a

/-- The labels in front of such a statement are settled from the start. -/
theorem Plain.stated {a : Statement} {loops : Bool} (h : Plain ctx loops a) (hp : ctx.Placed s)
    (hloops : startsLoop s.lexer.token.kind = loops) : Stated ctx s a := by
  have hloop : startsLoop s.lexer.token.kind = a.isLoop := hloops.trans h.isLoop_eq.symm
  refine ⟨fun hk => hloop.symm.trans hk, ?_⟩
  rw [← hloop, hp.settle_eq]
  exact h.suits

/-- A declared variable with its initializer fits. -/
theorem declarator_leaves (hg : g.Fits text) (ctx : Context) (variableKind : VariableKind) :
    Leaves text false (declarator g ctx variableKind) s (Suits (ctx.Allows false)) := by
  rw [declarator_eq]
  refine .read rfl (.firm (hg.bindingTarget false ctx _) fun target _ _ htarget => ?_)
  refine .skip (.of_check (checkBoundNames_meets variableKind target)) fun _ _ _ => ?_
  refine .firm (optionalInitializer_leaves hg ctx) fun init _ _ hinit => .read rfl (.pure ?_)
  exact .of_shaped rfl (fun _ _ => ⟨trivial, trivial, trivial⟩) htarget.2 (fun _ _ => rfl)
    (by simpa [Node.parts] using ⟨htarget.1, hinit⟩)

/-- Variables declared one behind the other fit, whatever is checked of each. -/
theorem declarators_leaves (hg : g.Fits text) (ctx : Context) (variableKind : VariableKind)
    {check : Node .declarator → Parser Unit}
    (hcheck : ∀ d s, Leaves text false (check d) s fun _ => True) :
    Leaves text false (declarators g ctx variableKind check) s fun as =>
      ∀ a ∈ as, Suits (ctx.Allows false) a := by
  have hchecked : ∀ s, Leaves text false (do
      let d ← declarator g ctx variableKind
      check d
      return d) s (Suits (ctx.Allows false)) := fun s =>
    .firm (declarator_leaves hg ctx variableKind) fun d s₁ _ hd =>
      .skip (hcheck d s₁) fun _ _ _ => .pure hd
  refine .skip advance_ends fun _ _ _ => .firm (hchecked _) fun first _ _ hfirst => ?_
  refine .firm (commaItems_ends hchecked) fun more _ _ hmore => .pure ?_
  exact List.forall_mem_cons.mpr ⟨hfirst, hmore.2⟩

/-- A declaration of variables fits as a statement that is no loop. -/
theorem variableStatement_leaves (hg : g.Fits text) (ctx : Context) (variableKind : VariableKind) :
    Leaves text false (variableStatement g ctx variableKind) s (Plain ctx false) := by
  refine .read rfl (.firm (declarators_leaves hg ctx.allowIn variableKind fun d s =>
    .of_check (checkInitializer_meets variableKind d)) fun ds _ _ hds => ?_)
  refine .skip semicolon_ends fun _ _ _ => .read rfl (.pure ⟨rfl, suits_leads ?_⟩)
  have hdeclaration : ∀ span, Suits (ctx.Allows false) (.declaration span variableKind ds) :=
    fun span => .of_parts rfl (by simpa [Node.parts] using hds)
  exact .of_parts rfl (by simpa [Node.parts] using hdeclaration _)

/-- A declaration in the head of a loop fits. -/
theorem headDeclaration_leaves (hg : g.Fits text) (ctx : Context) (variableKind : VariableKind) :
    Leaves text false (headDeclaration g ctx variableKind) s (Suits (ctx.Allows false)) := by
  refine .read rfl (.firm (declarators_leaves hg ctx.disallowIn variableKind fun _ _ =>
    .pure trivial)
    fun ds _ _ hds => .read rfl (.pure ?_))
  exact .of_parts rfl (by simpa [Node.parts] using hds)

/-- A condition in parentheses fits the statement's context. -/
theorem condition_leaves (hg : g.Fits text) (ctx : Context) :
    Leaves text false (condition g ctx) s (Suits (ctx.Allows false)) := by
  refine .skip expect_ends fun _ _ _ => .firm (hg.expression ctx.allowIn) fun e _ _ he => ?_
  exact .skip expect_ends fun _ _ _ => .pure he

/-- A statement below another one is placed and fits as such. -/
theorem substatement_leaves (hg : g.Fits text) (hp : ctx.Placed s) :
    Leaves text false (substatement g ctx) s (Stated ctx s) := by
  refine .read rfl ?_
  split
  · exact unexpected_ends
  · exact unexpected_ends
  · rename_i hk
    refine .read rfl (.refuse unexpected_ends fun _ => .ite (fun _ => hg.statement ctx s hp) ?_)
    refine fun _ => (hg.expressionStatement ctx s).imp fun a _ h => ?_
    exact Plain.stated ⟨h.1, suits_leads h.2⟩ hp (by rw [hk]; rfl)
  · exact hg.statement ctx s hp

/-- A statement within another one, which comes behind the first word of that one. -/
theorem substatement_behind (hg : g.Fits text) (hb : ctx.Behind s) :
    Leaves text false (substatement g ctx) s (Suits ctx.Leads) :=
  (substatement_leaves hg hb.placed).imp fun _ _ h => h.of_behind hb

/-- The body of a loop fits where jumps to the loop are allowed. -/
theorem loopBody_leaves (hg : g.Fits text) (hb : ctx.Behind s) :
    Leaves text false (loopBody g ctx) s (Suits ctx.loop.Leads) :=
  have hloop : ctx.loop.Behind s := hb
  substatement_behind hg hloop

/-- An expression as a statement is no loop and fits. -/
theorem expressionStatement_leaves (hg : g.Fits text) (ctx : Context) :
    Leaves text false (expressionStatement g ctx) s fun a =>
      a.isLoop = false ∧ Suits (ctx.Allows false) a := by
  refine .read rfl (.firm (hg.expression ctx.allowIn) fun e _ _ he => ?_)
  refine .skip semicolon_ends fun _ _ _ => .read rfl (.pure ⟨rfl, .of_parts rfl ?_⟩)
  simpa [Node.parts] using he

/-- Both branches fit where the whole statement does. -/
theorem ifStatement_leaves (hg : g.Fits text) (hp : ctx.Placed s)
    (hk : s.lexer.token.kind ≠ .endOfFile) :
    Leaves text false (ifStatement g ctx) s (Plain ctx false) := by
  refine .read rfl (.firm (advance_past hk) fun _ s₁ _ hlt => ?_)
  refine .firm (condition_leaves hg ctx) fun test s₂ hl₂ htest => ?_
  have hb₂ := (hp.behind hlt).later hl₂.offset_le
  refine .firm (substatement_behind hg hb₂) fun consequent s₃ hl₃ hconsequent =>
    .eat (fun s₄ hl₄ => ?_) ?_
  · have hb₄ := hb₂.later (hl₃.trans hl₄).offset_le
    refine .firm (substatement_behind hg hb₄) fun alternate _ _ halternate => ?_
    refine .read rfl (.pure ⟨rfl, .of_parts rfl ?_⟩)
    simpa [Node.parts] using ⟨suits_leads htest, hconsequent, halternate⟩
  · refine fun _ => .read rfl (.pure ⟨rfl, .of_parts rfl ?_⟩)
    simpa [Node.parts] using ⟨suits_leads htest, hconsequent⟩

/-- A loop that tests first fits, and is a loop. -/
theorem whileStatement_leaves (hg : g.Fits text) (hp : ctx.Placed s)
    (hk : s.lexer.token.kind ≠ .endOfFile) :
    Leaves text false (whileStatement g ctx) s (Plain ctx true) := by
  refine .read rfl (.firm (advance_past hk) fun _ s₁ _ hlt => ?_)
  refine .firm (condition_leaves hg ctx) fun test s₂ hl₂ htest => ?_
  refine .firm (loopBody_leaves hg ((hp.behind hlt).later hl₂.offset_le)) fun body _ _ hbody => ?_
  refine .read rfl (.pure ⟨rfl, .of_within rfl (fun _ _ => ⟨trivial, trivial, trivial⟩) trivial ?_⟩)
  simp only [Node.parts, List.forall_mem_cons]
  exact ⟨htest.inner fun _ hσ => hσ.allows, hbody.inner fun _ hσ => hσ.loop, by simp⟩

/-- A loop that tests last fits, and is a loop. -/
theorem doStatement_leaves (hg : g.Fits text) (hp : ctx.Placed s)
    (hk : s.lexer.token.kind ≠ .endOfFile) :
    Leaves text false (doStatement g ctx) s (Plain ctx true) := by
  refine .read rfl (.firm (advance_past hk) fun _ s₁ _ hlt => ?_)
  refine .firm (loopBody_leaves hg (hp.behind hlt)) fun body _ _ hbody => ?_
  refine .skip expect_ends fun _ _ _ => .firm (condition_leaves hg ctx) fun test _ _ htest => ?_
  refine .skip optionalSemicolon_ends fun _ _ _ => .read rfl (.pure ⟨rfl, ?_⟩)
  refine .of_within rfl (fun _ _ => ⟨trivial, trivial, trivial⟩) trivial ?_
  simp only [Node.parts, List.forall_mem_cons]
  exact ⟨hbody.inner fun _ hσ => hσ.loop, htest.inner fun _ hσ => hσ.allows, by simp⟩

/-- A statement on the members of an object fits. -/
theorem withStatement_leaves (hg : g.Fits text) (hp : ctx.Placed s)
    (hk : s.lexer.token.kind ≠ .endOfFile) :
    Leaves text false (withStatement g ctx) s (Plain ctx false) := by
  refine .read rfl (.firm (advance_past hk) fun _ s₁ _ hlt => ?_)
  refine .firm (condition_leaves hg ctx) fun e s₂ hl₂ he => ?_
  refine .firm (substatement_behind hg ((hp.behind hlt).later hl₂.offset_le))
    fun body _ _ hbody => ?_
  refine .read rfl (.pure ⟨rfl, .of_parts rfl ?_⟩)
  simpa [Node.parts] using ⟨suits_leads he, hbody⟩

/-- A result fits where the function around it allows one. -/
theorem returnStatement_leaves (hg : g.Fits text) (ctx : Context) :
    Leaves text false (returnStatement g ctx) s (Plain ctx false) := by
  have hfinish : ∀ (argument : Option Expression) (s₁ : State), ctx.canReturn = true →
      (∀ e ∈ argument, Suits (ctx.Allows false) e) → Leaves text false (do
        semicolon
        return .returnValue (← spanFrom s.offset) argument) s₁ (Plain ctx false) := by
    intro argument s₁ hreturn h
    refine .skip semicolon_ends fun _ _ _ => .read rfl (.pure ⟨rfl, ?_⟩)
    refine .of_shaped rfl (fun σ hσ => ⟨hσ.jumps.returns hreturn, trivial, trivial⟩) trivial
      (fun _ _ => rfl) ?_
    simpa [Node.parts] using fun e he => suits_leads (h e he)
  refine .read rfl (.require failHere_ends fun hreturn => .skip advance_ends fun _ s₁ _ => ?_)
  refine .read rfl (.read rfl (.ite (fun _ => ?_) fun _ => ?_))
  · exact .read rfl (hfinish none s₁ hreturn (by simp))
  · refine .firm (hg.expression ctx.allowIn) fun e s₂ _ he => .read rfl ?_
    exact hfinish (some e) s₂ hreturn (by simpa using he)

/-- The label of a jump needs no surroundings of its own. -/
theorem jumpLabel_ends (ctx : Context) : Leaves text false (jumpLabel ctx) s fun _ => True := by
  refine .read rfl (.read rfl (.ite (fun _ => .pure trivial) fun _ => ?_))
  exact .skip (identifier_ends ctx) fun _ _ _ => .pure trivial

/-- A label that is found is one of the labels. -/
theorem Context.label?_mem {name : String} {l : Label} (h : ctx.label? name = some l) :
    l ∈ ctx.labels ∧ l.name = name := by
  refine ⟨List.mem_of_find?_eq_some h, ?_⟩
  have hname := List.find?_some h
  exact eq_of_beq hname

/-- A jump out of a statement that passes the check is legal under every surroundings of the
context. -/
theorem checkBreak_leaves (ctx : Context) (start : Nat) (label : Option Identifier) (span : Span) :
    Leaves text false (checkBreak ctx start label) s fun _ =>
      ∀ σ, ctx.Leads σ → (Node.breakFrom span label).JumpsLegally σ := by
  unfold checkBreak
  cases label with
  | none => exact .ite (fun hbreak => .pure fun σ hσ => hσ.jumps.breaks hbreak) fun _ => fail_ends
  | some id =>
    refine .ite (fun _ => fail_ends) fun hsome => .pure fun σ hσ => ?_
    rw [Option.isNone_iff_eq_none] at hsome
    obtain ⟨l, hl⟩ := Option.ne_none_iff_exists'.mp hsome
    obtain ⟨hmem, hname⟩ := Context.label?_mem hl
    obtain ⟨ofLoop, hlabel, -⟩ := hσ.jumps.labels l hmem
    exact ⟨ofLoop, hname ▸ hlabel⟩

/-- A jump to the next round that passes the check is legal under every surroundings of the context.
-/
theorem checkContinue_leaves (ctx : Context) (start : Nat) (label : Option Identifier)
    (span : Span) : Leaves text false (checkContinue ctx start label) s fun _ =>
      ∀ σ, ctx.Leads σ → (Node.continueWith span label).JumpsLegally σ := by
  unfold checkContinue
  cases label with
  | none => exact .ite (fun hloop => .pure fun σ hσ => hσ.jumps.continues hloop) fun _ => fail_ends
  | some id =>
    cases hl : ctx.label? id.name with
    | none =>
      simp only [hl]
      exact fail_ends
    | some l =>
      simp only [hl]
      refine .ite (fun hloop => .pure fun σ hσ => ?_) fun _ => fail_ends
      obtain ⟨hmem, hname⟩ := Context.label?_mem hl
      obtain ⟨ofLoop, hlabel, hofLoop⟩ := hσ.jumps.labels l hmem
      rw [hofLoop hloop, hname] at hlabel
      exact hlabel

/-- A jump out of a statement fits its context. -/
theorem breakStatement_leaves (ctx : Context) :
    Leaves text false (breakStatement ctx) s (Plain ctx false) := by
  rw [breakStatement_eq]
  refine .read rfl (.skip advance_ends fun _ _ _ => .skip (jumpLabel_ends ctx) fun label _ _ => ?_)
  refine .firm (checkBreak_leaves ctx _ label .unset) fun _ _ _ hlegal => ?_
  refine .skip semicolon_ends fun _ _ _ => .read rfl (.pure ⟨rfl, ?_⟩)
  refine .of_shaped rfl (fun σ hσ => ⟨?_, trivial, trivial⟩) trivial (fun _ _ => rfl)
    (by simp [Node.parts])
  cases label with
  | none => exact hlegal σ hσ
  | some id => exact hlegal σ hσ

/-- A jump to the next round of a loop fits its context. -/
theorem continueStatement_leaves (ctx : Context) :
    Leaves text false (continueStatement ctx) s (Plain ctx false) := by
  rw [continueStatement_eq]
  refine .read rfl (.skip advance_ends fun _ _ _ => .skip (jumpLabel_ends ctx) fun label _ _ => ?_)
  refine .firm (checkContinue_leaves ctx _ label .unset) fun _ _ _ hlegal => ?_
  refine .skip semicolon_ends fun _ _ _ => .read rfl (.pure ⟨rfl, ?_⟩)
  refine .of_shaped rfl (fun σ hσ => ⟨?_, trivial, trivial⟩) trivial (fun _ _ => rfl)
    (by simp [Node.parts])
  cases label with
  | none => exact hlegal σ hσ
  | some id => exact hlegal σ hσ

/-- What is thrown fits the statement's context. -/
theorem throwStatement_leaves (hg : g.Fits text) (ctx : Context) :
    Leaves text false (throwStatement g ctx) s (Plain ctx false) := by
  refine .read rfl (.skip advance_ends fun _ _ _ => .read rfl (.refuse fail_ends fun _ => ?_))
  refine .firm (hg.expression ctx.allowIn) fun e _ _ he => .skip semicolon_ends fun _ _ _ => ?_
  have hvalue : Suits ctx.Leads e := suits_leads he
  exact .read rfl (.pure ⟨rfl, .of_parts rfl (by simpa [Node.parts] using hvalue)⟩)

/-- The parameter of a handler fits, and declares a name or a pattern. -/
theorem catchParameter_leaves (hg : g.Fits text) (ctx : Context) :
    Leaves text false (catchParameter g ctx) s fun a =>
      ∀ p ∈ a, Suits (ctx.Allows false) p ∧ Declares p := by
  refine .eat (fun _ _ => ?_) fun _ => .none
  refine .firm (hg.bindingTarget false ctx _) fun target _ _ htarget => ?_
  exact .skip expect_ends fun _ _ _ => .some htarget

/-- A handler fits, its parameter and its block. -/
theorem catchClause_leaves (hg : g.Fits text) (hp : ctx.Placed s)
    (hk : s.lexer.token.kind ≠ .endOfFile) :
    Leaves text false (catchClause g ctx) s (Suits ctx.Leads) := by
  rw [catchClause_eq]
  refine .read rfl (.firm (advance_past hk) fun _ s₁ _ hlt => ?_)
  refine .firm (catchParameter_leaves hg ctx) fun param s₂ hl₂ hparam => ?_
  have hb₂ := (hp.behind hlt).later hl₂.offset_le
  refine .firm (hg.block hb₂.placed) fun body _ _ hbody => .read rfl (.pure ?_)
  refine .of_shaped rfl (fun _ _ => ⟨trivial, trivial, trivial⟩) (fun p hp => (hparam p hp).2)
    (fun _ _ => rfl) ?_
  simpa [Node.parts, or_imp, forall_and] using ⟨fun p hp => suits_leads (hparam p hp).1, hbody⟩

/-- A guarded block fits with the handlers behind it. -/
theorem tryStatement_leaves (hg : g.Fits text) (hp : ctx.Placed s)
    (hk : s.lexer.token.kind ≠ .endOfFile) :
    Leaves text false (tryStatement g ctx) s (Plain ctx false) := by
  rw [tryStatement_eq]
  refine .read rfl (.firm (advance_past hk) fun _ s₁ _ hlt => ?_)
  have hb₁ := hp.behind hlt
  refine .firm (hg.block hb₁.placed) fun body s₂ hl₂ hbody => ?_
  have hb₂ := hb₁.later hl₂.offset_le
  refine .firm (P := fun handler _ => ∀ c ∈ handler, Suits ctx.Leads c)
    (.read rfl (.ite (fun hcatch => ?_) fun _ => .none)) fun handler s₃ hl₃ hhandler => ?_
  · have hk₂ : s₂.lexer.token.kind ≠ .endOfFile := by
      rw [eq_of_beq hcatch]
      exact nofun
    exact .firm (catchClause_leaves hg hb₂.placed hk₂) fun c _ _ hc => .some hc
  have hb₃ := hb₂.later hl₃.offset_le
  refine .firm (P := fun finalizer _ => ∀ b ∈ finalizer, Suits ctx.Leads b)
    (.eat (fun s₄ hl₄ => ?_) fun _ => .none) fun finalizer _ _ hfinalizer => ?_
  · exact .firm (hg.block (hb₃.later hl₄.offset_le).placed) fun b _ _ hb => .some hb
  cases handler with
  | some handler =>
    refine .read rfl (.pure ⟨rfl, .of_parts rfl ?_⟩)
    simpa [Node.parts] using ⟨hbody, hhandler handler rfl, hfinalizer⟩
  | none =>
    cases finalizer with
    | some finalizer =>
      refine .read rfl (.pure ⟨rfl, .of_parts rfl ?_⟩)
      simpa [Node.parts] using ⟨hbody, hfinalizer finalizer rfl⟩
    | none => exact failHere_ends

/-- The statements of a case fit where jumps out of the switch are allowed. -/
theorem caseBody_leaves (hg : g.Fits text) (hb : ctx.Behind s) :
    Leaves text false (caseBody g ctx) s fun as => ∀ a ∈ as, Suits ctx.Leads a := by
  refine many_ends fun s₁ hl => .read rfl ?_
  have hb₁ := hb.later hl.offset_le
  split
  · exact .none
  · exact .none
  · exact .none
  · exact unexpected_ends
  · exact .firm (hg.statement ctx s₁ hb₁.placed) fun a _ _ ha => .some (ha.of_behind hb₁)

/-- The test of a case fits, if it has one. -/
theorem caseTest_leaves (hg : g.Fits text) (ctx : Context) (seenDefault : Bool) :
    Leaves text false (caseTest g ctx seenDefault) s fun a =>
      ∀ e ∈ a, Suits (ctx.Allows false) e := by
  refine .read rfl ?_
  split
  · refine .skip advance_ends fun _ _ _ => .firm (hg.expression ctx.allowIn) fun e _ _ he => ?_
    exact .some he
  · exact .refuse failHere_ends fun _ => .skip advance_ends fun _ _ _ => .none
  · exact unexpected_ends

/-- All cases fit where jumps out of the switch are allowed. -/
theorem switchCases_leaves (hg : g.Fits text) (hb : ctx.Behind s) :
    Leaves text false (switchCases g ctx) s fun as => ∀ a ∈ as, Suits ctx.Leads a := by
  refine (iterate_ends (I := fun (x : List (Node .switchCase) × Bool) _ =>
    ∀ a ∈ x.1, Suits ctx.Leads a) ?_ ([], false)).imp fun _ _ h => h (by simp)
  rintro ⟨found, seenDefault⟩ s₁ hl₁
  refine .read rfl (.ite (fun _ => .pure fun h a ha => h a (by simpa using ha)) fun _ =>
    .read rfl ?_)
  refine .firm (caseTest_leaves hg ctx seenDefault) fun test s₂ hl₂ htest => ?_
  refine .firm expect_ends fun _ s₃ hl₃ _ => ?_
  refine .firm (caseBody_leaves hg (hb.later (hl₁.trans (hl₂.trans hl₃)).offset_le))
    fun body _ _ hbody => .read rfl (.pure fun hfound => ?_)
  refine List.forall_mem_cons.mpr ⟨.of_parts rfl ?_, hfound⟩
  simpa [Node.parts, or_imp, forall_and] using ⟨fun e he => suits_leads (htest e he), hbody⟩

/-- A switch fits with its cases. -/
theorem switchStatement_leaves (hg : g.Fits text) (hp : ctx.Placed s)
    (hk : s.lexer.token.kind ≠ .endOfFile) :
    Leaves text false (switchStatement g ctx) s (Plain ctx false) := by
  refine .read rfl (.firm (advance_past hk) fun _ s₁ _ hlt => ?_)
  refine .firm (condition_leaves hg ctx) fun e s₂ hl₂ he => ?_
  refine .firm expect_ends fun _ s₃ hl₃ _ => ?_
  have hb₃ : Context.Behind { ctx with inBreakable := true } s₃ :=
    (hp.behind hlt).later (hl₂.trans hl₃).offset_le
  refine .firm (switchCases_leaves hg hb₃) fun cases _ _ hcases => ?_
  refine .skip expect_ends fun _ _ _ => .read rfl (.pure ⟨rfl, ?_⟩)
  refine .of_within rfl (fun _ _ => ⟨trivial, trivial, trivial⟩) trivial ?_
  simp only [Node.parts, List.forall_mem_cons, List.forall_mem_map]
  exact ⟨he.inner fun _ hσ => hσ.allows, fun c hc => (hcases c hc).inner fun _ hσ => hσ.switch⟩

/-- What is behind a label settles it, together with the labels in front of it. -/
theorem labeledStatement_leaves (hg : g.Fits text) (hp : ctx.Placed s)
    (hname : startsLoop s.lexer.token.kind = false) :
    Leaves text false (labeledStatement g ctx) s (Stated ctx s) := by
  refine .read rfl (.firm (identifier_ends ctx) fun id s₁ hl₁ _ => ?_)
  refine .firm (expect_past (by simp)) fun _ s₂ _ hlt => ?_
  have hlt₂ : s.offset < s₂.offset := Nat.lt_of_le_of_lt hl₁.offset_le hlt
  refine .refuse fail_ends fun hnew => .read rfl ?_
  refine .firm (substatement_leaves hg (hp.labeled hlt₂ id.name)) fun body _ _ hbody => ?_
  refine .read rfl (.pure ⟨fun hk => absurd (hname.symm.trans hk) (by simp), ?_⟩)
  refine .of_within rfl (fun σ hσ => ⟨fun hlabel => ?_, trivial, trivial⟩) trivial ?_
  · have hm := hσ.jumps.names id.name hlabel
    rw [Context.names_settle, List.mem_map] at hm
    obtain ⟨l, hl, heq⟩ := hm
    refine hnew (List.find?_isSome.mpr ⟨l, hl, ?_⟩)
    simp [heq]
  · simp only [Node.parts, List.forall_mem_cons]
    exact ⟨hbody.suits.inner fun _ hσ => .labeled hp hname hlt₂ hbody.loop hσ, by simp⟩

/-- A loop over values fits if its head does; it waits only where that is allowed. -/
theorem loopOverValues_leaves (hg : g.Fits text) (hb : ctx.Behind s) (start : Nat)
    {isAwait : Bool} (hawait : isAwait = true → ctx.canAwait = true) (loop : LoopKind)
    {head : Node .forHead} (hhead : Suits (ctx.Allows false) head) :
    Leaves text false (loopOverValues g ctx start isAwait loop head) s (Plain ctx true) := by
  have hsource : ∀ s, Leaves text false (loopSource g ctx loop) s (Suits (ctx.Allows false)) := by
    intro s
    cases loop with
    | forOf => exact hg.value ctx.allowIn
    | forIn => exact hg.expression ctx.allowIn
  rw [loopOverValues_eq]
  refine .refuse unexpected_ends fun _ => .firm advance_ends fun _ s₁ hl₁ _ => ?_
  refine .firm (hsource s₁) fun right s₂ hl₂ hright => ?_
  refine .firm expect_ends fun _ s₃ hl₃ _ => ?_
  have hb₃ := hb.later (hl₁.trans (hl₂.trans hl₃)).offset_le
  refine .firm (loopBody_leaves hg hb₃) fun body _ _ hbody => .read rfl (.pure ?_)
  cases loop with
  | forOf =>
    refine ⟨rfl, .of_within rfl (fun σ hσ => ⟨trivial, fun h => hσ.awaits (hawait h), trivial⟩)
      trivial ?_⟩
    simp only [loopNode, Node.parts, List.forall_mem_cons]
    exact ⟨hhead.inner fun _ hσ => hσ.allows, hright.inner fun _ hσ => hσ.allows,
      hbody.inner fun _ hσ => hσ.loop, by simp⟩
  | forIn =>
    refine ⟨rfl, .of_within rfl (fun _ _ => ⟨trivial, trivial, trivial⟩) trivial ?_⟩
    simp only [loopNode, Node.parts, List.forall_mem_cons]
    exact ⟨hhead.inner fun _ hσ => hσ.allows, hright.inner fun _ hσ => hσ.allows,
      hbody.inner fun _ hσ => hσ.loop, by simp⟩

/-- An expression that may be missing fits if it is there. -/
theorem optionalExpression_leaves (hg : g.Fits text) (ctx : Context) (close : TokenKind) :
    Leaves text false (optionalExpression g ctx close) s fun a =>
      ∀ e ∈ a, Suits (ctx.Allows false) e := by
  refine .read rfl (.ite (fun _ => .none) fun _ => ?_)
  exact .firm (hg.expression ctx.allowIn) fun e _ _ he => .some he

/-- A loop on a condition fits if its first part does. -/
theorem loopOnCondition_leaves (hg : g.Fits text) (hb : ctx.Behind s) (start : Nat)
    (isAwait : Bool) {init : Node .forInit} (hinit : Suits (ctx.Allows false) init) :
    Leaves text false (loopOnCondition g ctx start isAwait init) s (Plain ctx true) := by
  unfold loopOnCondition
  refine .refuse unexpected_ends fun _ => .firm expect_ends fun _ s₁ hl₁ _ => ?_
  refine .firm (optionalExpression_leaves hg ctx _) fun test s₂ hl₂ htest => ?_
  refine .firm expect_ends fun _ s₃ hl₃ _ => ?_
  refine .firm (optionalExpression_leaves hg ctx _) fun step s₄ hl₄ hstep => ?_
  refine .firm expect_ends fun _ s₅ hl₅ _ => ?_
  have hb₅ := hb.later (hl₁.trans (hl₂.trans (hl₃.trans (hl₄.trans hl₅)))).offset_le
  refine .firm (loopBody_leaves hg hb₅) fun body _ _ hbody => .read rfl (.pure ⟨rfl, ?_⟩)
  refine .of_within rfl (fun _ _ => ⟨trivial, trivial, trivial⟩) trivial ?_
  simp only [Node.parts, List.cons_append, List.forall_mem_cons, List.mem_append, or_imp,
    forall_and, List.forall_mem_map, Option.mem_toList]
  exact ⟨hinit.inner fun _ hσ => hσ.allows, ⟨fun e he => (htest e he).inner fun _ hσ => hσ.allows,
    fun e he => (hstep e he).inner fun _ hσ => hσ.allows⟩, hbody.inner fun _ hσ => hσ.loop, by simp⟩

/-- A loop whose head declares variables fits. -/
theorem declarationLoop_leaves (hg : g.Fits text) (hb : ctx.Behind s) (start : Nat)
    {isAwait : Bool} (hawait : isAwait = true → ctx.canAwait = true)
    (variableKind : VariableKind) :
    Leaves text false (declarationLoop g ctx start isAwait variableKind) s (Plain ctx true) := by
  refine .firm (headDeclaration_leaves hg ctx variableKind) fun d s₁ hl₁ hd =>
    .read (loopKind_run s₁) ?_
  have hb₁ := hb.later hl₁.offset_le
  split
  · refine .firm (.of_check (checkHeadDeclaration_meets _ d)) fun _ s₂ hl₂ _ => ?_
    exact loopOverValues_leaves hg (hb₁.later hl₂.offset_le) start hawait _
      (.of_parts rfl (by simpa [Node.parts] using hd))
  · cases d with
    | declaration span kind ds =>
      refine .firm (.of_check (checkInitializers_meets variableKind ds))
        fun _ s₂ hl₂ _ => ?_
      exact loopOnCondition_leaves hg (hb₁.later hl₂.offset_le) start isAwait
        (.of_parts rfl (by simpa [Node.parts] using hd))

/-- A loop whose head begins with an expression fits. -/
theorem expressionLoop_leaves (hg : g.Fits text) (hb : ctx.Behind s) (start : Nat)
    {isAwait : Bool} (hawait : isAwait = true → ctx.canAwait = true) :
    Leaves text false (expressionLoop g ctx start isAwait) s (Plain ctx true) := by
  refine .remember rfl rfl rfl rfl rfl ?_
  refine .firm (hg.expressionOrCover ctx.disallowIn _) fun e s₁ hl₁ he => ?_
  have hb₁ : ctx.Behind s₁ := hb.later hl₁.offset_le
  refine .read (loopKind_run s₁) ?_
  split
  · refine .remember rfl rfl rfl rfl rfl (.read rfl ?_)
    refine .firm (orFail_ends (Cover.toTarget_suits _ _ he))
      fun target s₂ hl₂ htarget => ?_
    exact loopOverValues_leaves hg (hb₁.later hl₂.offset_le) start hawait _
      (.of_parts rfl (by simpa [Node.parts] using htarget))
  · refine .firm checkCoverInit_ends fun _ s₂ hl₂ _ => ?_
    refine .remember rfl rfl rfl rfl rfl ?_
    have hinit : Suits (ctx.Allows false) (.expressionInit e) :=
      .of_parts rfl (by simpa [Node.parts] using he)
    have hb₂ : ctx.Behind { s₂ with coverInit := s.coverInit } := hb₁.later hl₂.offset_le
    exact loopOnCondition_leaves hg hb₂ start isAwait hinit

/-- Every kind of `for` loop fits, and is a loop. -/
theorem forStatement_leaves (hg : g.Fits text) (hp : ctx.Placed s)
    (hk : s.lexer.token.kind ≠ .endOfFile) :
    Leaves text false (forStatement g ctx) s (Plain ctx true) := by
  have hhead : ∀ (start : Nat) (isAwait : Bool) (s₁ : State), ctx.Behind s₁ →
      (isAwait = true → ctx.canAwait = true) →
      Leaves text false (forHead g ctx start isAwait) s₁ (Plain ctx true) := by
    intro start isAwait s₁ hb₁ hawait
    refine .firm expect_ends fun _ s₂ hl₂ _ => .read (declarationKind_run s₂) ?_
    have hb₂ := hb₁.later hl₂.offset_le
    split
    · exact declarationLoop_leaves hg hb₂ start hawait _
    · refine .read rfl (.ite (fun _ => ?_) fun _ => expressionLoop_leaves hg hb₂ start hawait)
      exact loopOnCondition_leaves hg hb₂ start isAwait (.leaf rfl rfl)
  rw [forStatement_eq]
  refine .read rfl (.firm (advance_past hk) fun _ s₁ _ hlt => .read rfl ?_)
  have hb₁ := hp.behind hlt
  have hawait : ((s₁.lexer.token.kind == .word .awaitKw) && ctx.canAwait) = true →
      ctx.canAwait = true := fun h => (Bool.and_eq_true_iff.mp h).2
  refine .ite (fun _ => ?_) fun _ => hhead _ _ s₁ hb₁ hawait
  refine .firm advance_ends fun _ s₂ hl₂ _ => ?_
  exact hhead _ _ s₂ (hb₁.later hl₂.offset_le) hawait

/-- A statement that begins with a word of its own fits as what the word says. -/
theorem plainStatement_leaves (hg : g.Fits text) (hp : ctx.Placed s)
    (hname : startsLoop s.lexer.token.kind = false) :
    Leaves text false (plainStatement g ctx) s (Stated ctx s) := by
  refine .read rfl (.read rfl (.ite (fun _ => labeledStatement_leaves hg hp hname) fun _ => ?_))
  exact (expressionStatement_leaves hg ctx).imp fun a _ h =>
    Plain.stated ⟨h.1, suits_leads h.2⟩ hp hname

/-- A declared function fits as a statement that is no loop. -/
theorem functionDeclaration_leaves (hg : g.Fits text) (ctx : Context) (isAsync : Bool) :
    Leaves text false (functionDeclaration g ctx isAsync) s (Plain ctx false) := by
  have hdefinition : ∀ (start : Nat) (s : State), Leaves text false (do
      return .functionDeclaration (← functionDefinition g ctx start isAsync true)) s
      (Plain ctx false) := by
    intro start s
    refine .firm (functionDefinition_leaves hg ctx _ _ _) fun f _ _ hf => .pure ⟨rfl, ?_⟩
    exact .of_parts rfl (by simpa [Node.parts] using suits_leads hf)
  refine .read rfl (.ite (fun _ => ?_) fun _ => hdefinition _ s)
  exact .skip advance_ends fun _ s₁ _ => hdefinition _ s₁

/-- Every statement that is placed fits as one. -/
theorem statement_leaves {g : Grammar} (hg : g.Fits text false) (hp : ctx.Placed s) :
    Leaves text false (statement g ctx) s (Stated ctx s) := by
  have hn := hg.nested
  have hplain : ∀ {p : Parser Statement} {loops : Bool}, Leaves text false p s (Plain ctx loops) →
      startsLoop s.lexer.token.kind = loops → Leaves text false p s (Stated ctx s) :=
    fun h hloops => h.imp fun _ _ ha => ha.stated hp hloops
  refine .read rfl (.read rfl ?_)
  split
  · rename_i hk
    refine hplain (.firm (hn.block hp) fun body _ _ hbody => .pure ⟨rfl, .of_parts rfl ?_⟩)
      (by rw [hk]; rfl)
    simpa [Node.parts] using hbody
  · rename_i hk
    exact hplain (.skip advance_ends fun _ _ _ => .read rfl (.pure ⟨rfl, .leaf rfl rfl⟩))
      (by rw [hk]; rfl)
  · rename_i hk
    exact hplain (variableStatement_leaves hn ctx _) (by rw [hk]; rfl)
  · rename_i hk
    exact hplain (variableStatement_leaves hn ctx _) (by rw [hk]; rfl)
  · rename_i hk
    refine .read rfl (.ite (fun _ => ?_) fun _ => plainStatement_leaves hn hp (by rw [hk]; rfl))
    exact hplain (variableStatement_leaves hn ctx _) (by rw [hk]; rfl)
  · rename_i hk
    exact hplain (functionDeclaration_leaves hn ctx _) (by rw [hk]; rfl)
  · rename_i hk
    refine .read rfl (.ite (fun _ => ?_) fun _ => plainStatement_leaves hn hp (by rw [hk]; rfl))
    exact hplain (functionDeclaration_leaves hn ctx _) (by rw [hk]; rfl)
  · rename_i hk
    refine hplain (.firm (classDefinition_leaves hg ctx true) fun d _ _ hd => .pure ⟨rfl, ?_⟩)
      (by rw [hk]; rfl)
    have hdefinition : Suits ctx.Leads d := suits_leads hd
    exact .of_parts rfl (by simpa [Node.parts] using hdefinition)
  · rename_i hk
    exact hplain (ifStatement_leaves hn hp (by simp [hk])) (by rw [hk]; rfl)
  · rename_i hk
    exact hplain (forStatement_leaves hn hp (by simp [hk])) (by rw [hk]; rfl)
  · rename_i hk
    exact hplain (whileStatement_leaves hn hp (by simp [hk])) (by rw [hk]; rfl)
  · rename_i hk
    exact hplain (doStatement_leaves hn hp (by simp [hk])) (by rw [hk]; rfl)
  · rename_i hk
    exact hplain (returnStatement_leaves hn ctx) (by rw [hk]; rfl)
  · rename_i hk
    exact hplain (breakStatement_leaves ctx) (by rw [hk]; rfl)
  · rename_i hk
    exact hplain (continueStatement_leaves ctx) (by rw [hk]; rfl)
  · rename_i hk
    exact hplain (throwStatement_leaves hn ctx) (by rw [hk]; rfl)
  · rename_i hk
    exact hplain (tryStatement_leaves hn hp (by simp [hk])) (by rw [hk]; rfl)
  · rename_i hk
    exact hplain (switchStatement_leaves hn hp (by simp [hk])) (by rw [hk]; rfl)
  · rename_i hk
    exact hplain (withStatement_leaves hn hp (by simp [hk])) (by rw [hk]; rfl)
  · rename_i hk
    have hdebugger : Leaves text false (do
        advance
        semicolon
        return .debugger (← spanFrom s.offset)) s (Plain ctx false) :=
      .skip advance_ends fun _ _ _ => .skip semicolon_ends fun _ _ _ =>
        .read rfl (.pure ⟨rfl, .leaf rfl rfl⟩)
    exact hplain hdebugger (by rw [hk]; rfl)
  · refine plainStatement_leaves hn hp ?_
    unfold startsLoop
    split
    · exact absurd ‹_› ‹_›
    · exact absurd ‹_› ‹_›
    · exact absurd ‹_› ‹_›
    · rfl

end

end EcmaScript.Parser
