import EcmaScript.Proofs.Build.Script
import EcmaScript.Proofs.Fit.Statement

/-!
# Accepted scripts fit

Every level of the grammar leaves what suits the surroundings that its contexts are about, and
around a script there is nothing. So every node of an accepted script fits where it stands: its
jumps have targets, what suspends a function has one to suspend, `super`, `new.target` and
private names have a meaning, and the shapes that no type excludes do not occur.
-/

namespace EcmaScript

namespace Parser

section

variable {text : String} {g : Nested}

/-- Where nothing nested is accepted, all that is accepted fits. -/
theorem Nested.tooDeep_fits : Nested.tooDeep.Fits text where
  sound := tooDeep_sound
  statement _ _ _ := failHere_ends
  expressionStatement _ _ := failHere_ends
  bindingTarget _ _ _ := failHere_ends
  assignment _ _ _ := failHere_ends
  binary _ _ _ _ := failHere_ends
  unary _ _ _ := failHere_ends
  newCallee _ _ _ := failHere_ends

/-- If the parsers one level further in leave what suits, so do those of a level. -/
theorem Nested.Fits.around (hg : g.Fits text) : g.around.Fits text where
  sound := hg.sound.around
  statement _ _ hp := statement_leaves (hg.grammar false) hp
  expressionStatement ctx _ := expressionStatement_leaves hg ctx
  bindingTarget _ ctx _ := bindingTarget_leaves hg ctx
  assignment calm ctx _ := assignmentExpression_leaves (hg.grammar calm) ctx
  binary calm ctx min _ := binaryExpression_leaves (hg.grammar calm) ctx min
  unary calm ctx _ := (unaryExpression_leaves (hg.grammar calm) ctx).imp fun _ _ h => h.1
  newCallee calm ctx _ := (operandBase_leaves (hg.grammar calm) ctx).imp fun _ _ h =>
    ⟨h.base, h.heads⟩

/-- Nested constructs fit whatever the depth that is left for them. -/
theorem Nested.ofDepth_fits (n : Nat) : (Nested.ofDepth n).Fits text := by
  induction n with
  | zero => exact tooDeep_fits
  | succ n ih => exact ih.around

end

/-- The context of a script promises nothing. -/
theorem Context.leads_script : Context.Leads {} [] where
  allows := ⟨nofun, nofun, nofun, nofun, nofun, nofun⟩
  awaits := nofun
  jumps := ⟨nofun, nofun, nofun, nofun, fun name ⟨_, h⟩ => by simp [Surroundings.inside] at h⟩

end Parser

open EcmaScript.Parser

variable {text : String} {program : Program}

/-- Each node of an accepted script fits where it stands, from the empty surroundings on. -/
theorem parse_fits (h : parse text = .ok program) : ∀ p ∈ program.parts, Fits [] p.node := by
  obtain ⟨body, last, hrun, -, rfl⟩ := parse_ok_inv h
  have hfits : (Nested.ofDepth maxDepth).Fits text := Nested.ofDepth_fits maxDepth
  have hleaves : Leaves text false script (State.ofString text)
      fun body => ∀ a ∈ body, Suits (Context.Leads {}) a :=
    hfits.statementsUntil .endOfFile fun σ hσ => by cases hσ
  obtain ⟨-, -, hbody⟩ := hleaves (State.sound_ofString text) body last hrun
  have hstatements := hbody fun hcalm => absurd hcalm Bool.false_ne_true
  simpa [Program.parts] using fun a ha => (hstatements a ha).fits [] Context.leads_script

/-- Every node of an accepted script fits where it stands. -/
theorem parse_fits_at (h : parse text = .ok program) {σ : Surroundings} {q : Part}
    (hq : program.At σ q) : Fits σ q.node := Fits.of_at (parse_fits h) hq

/-- Jumps in accepted scripts are legal: a return has a function or an arrow function as its
nearest boundary, a jump without a label has a statement that it jumps out of or continues
within that boundary, a jump with a label has a statement with that label, which is a loop if
it is to be continued, and no label stands within itself. -/
theorem parse_jumps (h : parse text = .ok program) {σ : Surroundings} {q : Part}
    (hq : program.At σ q) : q.node.JumpsLegally σ := (parse_fits_at h hq).is_legal.jumps

/-- A loop with a label that is continued. -/
def labeledContinue : Accepted "a: while (b) continue a" fun program =>
    match program.body with
    | [.labeled _ _ (.whileLoop _ _ (.continueWith _ (some _)))] => true
    | _ => false :=
  .ofRun (by decide +kernel)

/-- The theorem at a loop that is continued through its label. -/
theorem parse_jumps_continue : ∃ program σ span label,
    parse "a: while (b) continue a" = .ok program ∧
      program.At σ ⟨.complete, .continueWith span (some label)⟩ ∧
        σ.HasLoopLabel label.name := by
  obtain ⟨program, h, hok⟩ := labeledContinue
  simp only at hok
  split at hok
  · rename_i whole name inner test span label hbody
    have hloop : program.At _ ⟨.complete, .whileLoop inner test (.continueWith span
      (some label))⟩ :=
      .part (.statement (Program.mem_parts hbody)) List.mem_cons_self
    have hq : program.At _ ⟨.complete, .continueWith span (some label)⟩ :=
      .part hloop (List.mem_cons_of_mem _ List.mem_cons_self)
    exact ⟨program, _, span, label, h, hq, parse_jumps h hq⟩
  · cases hok

/-- In an accepted script, `yield` stands in the body of a generator, and `await`, also that of
a loop, in the body of an asynchronous function or arrow function, with no boundary in
between. -/
theorem parse_suspensions (h : parse text = .ok program) {σ : Surroundings} {q : Part}
    (hq : program.At σ q) : q.node.SuspendsLegally σ := (parse_fits_at h hq).is_legal.suspends

/-- An asynchronous arrow function whose body waits. -/
def awaitInArrow : Accepted "async a => await a" fun program =>
    match program.body with
    | [.expressionStatement _ (.conciseArrow _ _ (.awaitValue ..) ..)] => true
    | _ => false :=
  .ofRun (by decide +kernel)

/-- The theorem at what an asynchronous arrow function waits for. -/
theorem parse_suspensions_await : ∃ program σ span argument,
    parse "async a => await a" = .ok program ∧
      program.At σ ⟨.complete, .awaitValue span argument⟩ ∧ σ.CanAwait := by
  obtain ⟨program, h, hok⟩ := awaitInArrow
  simp only at hok
  split at hok
  · rename_i whole outer params span argument isAsync scope hbody
    have harrow : program.At _
        ⟨.complete, .conciseArrow outer params (.awaitValue span argument) isAsync scope⟩ :=
      .part (.statement (Program.mem_parts hbody)) List.mem_cons_self
    have hq : program.At _ ⟨.complete, .awaitValue span argument⟩ :=
      .part harrow (List.mem_cons_of_mem _ List.mem_cons_self)
    exact ⟨program, _, span, argument, h, hq, parse_suspensions h hq⟩
  · cases hok

/-- In an accepted script, `new.target`, calls and properties of `super`, and references to
private names stand where they have a meaning. -/
theorem parse_meanings (h : parse text = .ok program) {σ : Surroundings} {q : Part}
    (hq : program.At σ q) : q.node.HasMeaning σ := (parse_fits_at h hq).is_legal.means

/-- A constructor that calls that of the class which its own class extends. -/
def superInConstructor : Accepted "class A extends B \x7b constructor() \x7b super() \x7d \x7d"
    fun program =>
    match program.body with
    | [.classDeclaration (.classDefinition _ _ _ _ [.method _ _ _ _ (.function _ _ _ (.block _
        [.expressionStatement _ (.call _ (.superBase _) _ _)] _) ..)] _)] => true
    | _ => false :=
  .ofRun (by decide +kernel)

/-- The theorem at a call of `super` in a constructor. -/
theorem parse_meanings_superCall : ∃ program σ span word arguments optional,
    parse "class A extends B \x7b constructor() \x7b super() \x7d \x7d" = .ok program ∧
      program.At σ ⟨.complete, .call span (.superBase word) arguments optional⟩ ∧
        σ.HasSuperCall := by
  obtain ⟨program, h, hok⟩ := superInConstructor
  simp only at hok
  split at hok
  · rename_i whole name superClass bodySpan methodSpan key kind isStatic functionSpan functionName
      params blockSpan outer span word arguments optional scope isGenerator isAsync scope' scope''
      hbody
    have hclass := Program.At.statement (Program.mem_parts hbody)
    have hdefinition := hclass.part (q := ⟨.declared, _⟩) List.mem_cons_self
    have hmethod := hdefinition.part (q := ⟨.complete, _⟩)
      (List.mem_append_right _ List.mem_cons_self)
    have hfunction := hmethod.part (q := ⟨.complete, _⟩)
      (List.mem_cons_of_mem _ List.mem_cons_self)
    have hblock := hfunction.part (q := ⟨.complete, _⟩) (List.mem_cons_of_mem _ List.mem_cons_self)
    have hstatement := hblock.part (q := ⟨.complete, _⟩) List.mem_cons_self
    have hq : program.At _ ⟨.complete, .call span (.superBase word) arguments optional⟩ :=
      hstatement.part List.mem_cons_self
    exact ⟨program, _, span, word, arguments, optional, h, hq, parse_meanings h hq rfl⟩
  · cases hok

/-- The nodes of an accepted script have the shapes that they should have, and spreads are
elements of arrays or arguments only. -/
theorem parse_shapes (h : parse text = .ok program) {p q : Part} (hp : p ∈ program.parts)
    (hq : p.Reaches q) : q.node.Shaped ∧
      ∀ r ∈ q.node.parts, r.node.isSpread = true → q.node.holdsSpreads = true := by
  obtain ⟨σ, hσ⟩ := Program.exists_at hp hq
  have hfits := parse_fits_at h hσ
  exact ⟨hfits.is_shaped, fun r hr => (hfits.admits_parts r hr).spread⟩

/-- A power whose base is negated in parentheses. -/
def negatedBase : Accepted "(-a) ** b" fun program =>
    match program.body with
    | [.expressionStatement _ (.binary _ .power (.unary ..) _)] => true
    | _ => false :=
  .ofRun (by decide +kernel)

/-- The theorem at a power whose base is negated: parentheses stand in front of the base. -/
theorem parse_shapes_power : ∃ program p span left right,
    parse "(-a) ** b" = .ok program ∧ p ∈ program.parts ∧
      p.Reaches ⟨.complete, .binary span .power left right⟩ ∧
        left.isPrefixed = true ∧ left.span.start ≠ span.start := by
  obtain ⟨program, h, hok⟩ := negatedBase
  simp only at hok
  split at hok
  · rename_i whole span inner operator argument right hbody
    have hp := Program.mem_parts hbody
    have hq : Part.Reaches ⟨.complete, .expressionStatement whole
        (.binary span .power (.unary inner operator argument) right)⟩
        ⟨.complete, .binary span .power (.unary inner operator argument) right⟩ :=
      .single List.mem_cons_self
    refine ⟨program, _, span, _, right, h, hp, hq, rfl, fun hstart => ?_⟩
    exact nomatch (parse_shapes h hp hq).1 rfl hstart
  · cases hok

end EcmaScript
