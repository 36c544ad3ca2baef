import EcmaScript.Proofs.Parser.Statement
import EcmaScript.Proofs.Tandem.Expression

/-!
# Statements in step

A statement ends with its own last token, or where its semicolon is implied: at a closing brace,
a line break or the end of the text. So the stretch may end behind every statement: the other text,
which ends there, implies the semicolon too, or it has a semicolon there, which is taken.
-/

namespace EcmaScript

namespace Node

mutual

/-- Names that a moved pattern binds are moved with it. -/
theorem boundNames_relocate (f : Relocation) (pattern : Pattern) :
    (pattern.relocate f).boundNames = pattern.boundNames.map
    (Identifier.relocate (f .expression)) := by
  match pattern with
  | .binding id => rfl
  | .memberTarget expression => rfl
  | .arrayPattern _ elements remainder =>
    show elementNames (mapOptionalElements (.relocating f) elements) ++
      restNames (mapRest? (.relocating f) remainder) =
      (elementNames elements ++ restNames remainder).map _
    rw [List.map_append, elementNames_relocate f elements, restNames_relocate f remainder]
  | .objectPattern _ properties remainder =>
    show propertyNames (mapProperties (.relocating f) properties) ++
      restNames (mapRest? (.relocating f) remainder) =
      (propertyNames properties ++ restNames remainder).map _
    rw [List.map_append, propertyNames_relocate f properties, restNames_relocate f remainder]
termination_by sizeOf pattern
decreasing_by
  all_goals
    simp only [arrayPattern.sizeOf_spec, objectPattern.sizeOf_spec]
    omega

/-- Names of moved elements are moved with them. -/
theorem elementNames_relocate (f : Relocation) (elements : List (Option (Node .element))) :
    elementNames (mapOptionalElements (.relocating f) elements) = (elementNames elements).map
    (Identifier.relocate (f .expression)) := by
  match elements with
  | [] => rfl
  | none :: more => exact elementNames_relocate f more
  | some (.element _ target _) :: more =>
    show (target.relocate f).boundNames ++ elementNames (mapOptionalElements (.relocating f) more) =
      (target.boundNames ++ elementNames more).map _
    rw [List.map_append, boundNames_relocate f target, elementNames_relocate f more]
termination_by sizeOf elements
decreasing_by
  all_goals
    simp only [List.cons.sizeOf_spec, Option.some.sizeOf_spec, element.sizeOf_spec]
    omega

/-- Names of moved properties are moved with them. -/
theorem propertyNames_relocate (f : Relocation) (properties : List (Node .patternProperty)) :
    propertyNames (mapProperties (.relocating f) properties) = (propertyNames properties).map
    (Identifier.relocate (f .expression)) := by
  match properties with
  | [] => rfl
  | .patternProperty _ _ (.element _ target _) _ :: more =>
    show (target.relocate f).boundNames ++ propertyNames (mapProperties (.relocating f) more) =
      (target.boundNames ++ propertyNames more).map _
    rw [List.map_append, boundNames_relocate f target, propertyNames_relocate f more]
termination_by sizeOf properties
decreasing_by
  all_goals
    simp only [List.cons.sizeOf_spec, patternProperty.sizeOf_spec, element.sizeOf_spec]
    omega

/-- Names of a moved rest are moved with it. -/
theorem restNames_relocate (f : Relocation) (remainder : Option (Node .rest)) :
    restNames (mapRest? (.relocating f) remainder) = (restNames remainder).map
    (Identifier.relocate (f .expression)) := by
  match remainder with
  | none => rfl
  | some (.rest _ argument) => exact boundNames_relocate f argument
termination_by sizeOf remainder
decreasing_by
  all_goals
    simp only [Option.some.sizeOf_spec, rest.sizeOf_spec]
    omega

end

end Node

namespace Parser

open Place

/-- A label is found by its name wherever it was declared. -/
theorem Context.label?_move (ctx : Context) (f : Nat → Nat) (name : String) :
    (ctx.move f).label? name = (ctx.label? name).map (Label.move f) :=
  List.find?_map

/-- Labels of the same statement are told by where it starts. -/
theorem Context.labeled_move (ctx : Context) {f : Nat → Nat} (hf : Function.Injective f)
    (start : Nat) (label : Label) :
    (ctx.move f).labeled (f start) (label.move f) = (ctx.labeled start label).move f := by
  have hstart : (fun l : Label => l.bodyStart == f start) ∘ Label.move f =
      fun l : Label => l.bodyStart == start := by
    funext l
    show (f l.bodyStart == f start) = _
    rw [Bool.eq_iff_iff, beq_iff_eq, beq_iff_eq, hf.eq_iff]
  unfold Context.labeled Context.move
  simp only [List.takeWhile_map, List.dropWhile_map, hstart, List.map_cons, List.map_append,
    List.map_map]
  rfl

section

variable {w : Tandem} {K : Prop} {s t : State} {g : Nested}

/-- A declaration that lacks its value does so in the other text. -/
theorem checkInitializer_follows (variableKind : VariableKind) (d : Node .declarator) :
    Follows w K 0 anywhere id (checkInitializer variableKind d)
      (checkInitializer variableKind (d.relocate w.relocation)) s t := by
  cases d with
  | declarator span target init =>
    have hinit : (Node.mapExpression? (.relocating w.relocation) init).isNone = init.isNone := by
      rw [Node.mapExpression?_eq, Option.isNone_map]
    refine .ite (by rw [hinit]) (fun _ => ?_) fun _ => .pure rfl
    cases target with
    | binding id => exact .ite Iff.rfl (fun _ => .error fail_fails) fun _ => .pure rfl
    | _ => exact .error fail_fails

/-- Names that are not allowed are not allowed in the other text. -/
theorem checkBoundNames_follows (variableKind : VariableKind) (target : Pattern) :
    Follows w K 0 anywhere id (checkBoundNames variableKind target)
      (checkBoundNames variableKind (target.relocate w.relocation)) s t := by
  unfold checkBoundNames
  refine .ite Iff.rfl (fun _ => ?_) fun _ => .pure rfl
  have hfind : (target.relocate w.relocation).boundNames.find? (·.name == "let") =
      (target.boundNames.find? (·.name == "let")).map (Identifier.relocate w.span) := by
    rw [Node.boundNames_relocate, List.find?_map]
    rfl
  rw [hfind]
  cases target.boundNames.find? (·.name == "let") with
  | none => exact .pure rfl
  | some id => exact .error fail_fails

/-- A declared pattern and its value are the same in the other text. -/
theorem declarator_follows (hg : g.Keeps w) (ctx : Context) (variableKind : VariableKind) :
    Follows w K 1 anywhere (Node.relocate w.relocation)
    (declarator g (ctx.widen w.base) variableKind)
      (declarator g (w.context ctx) variableKind) s t := by
  rw [declarator_eq, declarator_eq]
  refine .offset fun start _ => .andThen (hg.bindingTarget ctx s t) fun target s₁ t₁ _ hb => ?_
  refine .bind (checkBoundNames_follows variableKind target) fun _ s₂ t₂ h₂ => ?_
  refine .bind (optionalInitializer_follows hg ctx) fun init s₃ t₃ h₃ =>
    .node (h₃.begun (h₂.begun hb)) fun span => ?_
  rw [← Node.mapExpression?_eq]
  rfl

/-- Declarations one behind the other are the same in the other text. -/
theorem declarators_follows (hg : g.Keeps w) (ctx : Context) (variableKind : VariableKind)
    {check : Node .declarator → Parser Unit}
    (hcheck : ∀ (K : Prop) d s t, Follows w K 0 anywhere id (check d)
    (check (d.relocate w.relocation)) s t)
    (hk : isOrdinary s.lexer.token.kind = true) :
    Follows w K 2 anywhere (List.map (Node.relocate w.relocation))
      (declarators g (ctx.widen w.base) variableKind check) (declarators g (w.context ctx)
      variableKind check)
      s t := by
  have hchecked : ∀ (K : Prop) s t, Follows w K 1 anywhere (Node.relocate w.relocation)
      (do
        let d ← declarator g (ctx.widen w.base) variableKind
        check d
        return d)
      (do
        let d ← declarator g (w.context ctx) variableKind
        check d
        return d) s t := fun K s t =>
    .first (declarator_follows hg ctx variableKind) fun d s₁ t₁ _ =>
      .bind (hcheck _ d s₁ t₁) fun _ _ _ _ => .pure rfl
  refine .token (advance_follows (ne_endOfFile_of_isOrdinary hk)) advance_mute fun _ s₁ t₁ _ _ => ?_
  refine .first (hchecked _ s₁ t₁) fun first s₂ t₂ _ => ?_
  refine .map (many_follows (N := True) (commaItem_follows hchecked)) (fun _ => rfl) fun _ _ => id

/-- What a statement ends with: its semicolon, which may be implied. -/
theorem finish_closes {start : Nat} {make make' : Span → Statement} (hb : Begun w s)
    (hp : s.Plain)
    (hmake : ∀ span, make' (w.extent span) = (make span).relocate w.relocation) :
    Tracks w .inside .closing K 0 (resting w) (Node.relocate w.relocation)
      (do
        semicolon
        return make (← spanFrom start))
      (do
        semicolon
        return make' (← spanFrom (w.start start))) s t :=
  .ending (f := fun _ => make) (g := fun _ => make') (semicolon_closes hb hp).freely
    fun _ => hmake

/-- A declaration with its end is the same in the other text. -/
theorem variableStatement_concludes (hg : g.Keeps w) (ctx : Context) (variableKind : VariableKind)
    (hk : isOrdinary s.lexer.token.kind = true) :
    Concludes w K 2 (resting w) (Node.relocate w.relocation)
    (variableStatement g (ctx.widen w.base) variableKind)
      (variableStatement g (w.context ctx) variableKind) s t := by
  have hdeclarators : ∀ {K : Prop}, Follows w K 2 anywhere (List.map (Node.relocate w.relocation))
      (declarators g (ctx.allowIn.widen w.base) variableKind (checkInitializer variableKind))
      (declarators g (w.context ctx.allowIn) variableKind (checkInitializer variableKind)) s t :=
    declarators_follows hg ctx.allowIn variableKind
      (fun _ d _ _ => checkInitializer_follows variableKind d) hk
  refine .concludes (.offset fun start _ => .first hdeclarators fun ds s₁ t₁ h₁ => ?_)
  have hplain := ((declarators_meets hg.sound _ variableKind
    (fun d s hs => checkInitializer_meets variableKind d hs) h₁.before hk).ok h₁.run).1.plain
  refine finish_closes (hdeclarators (K := True).begun h₁) hplain fun span => ?_
  rw [← Node.mapDeclarators_eq]
  rfl

/-- A declaration in the head of a loop is the same in the other text. -/
theorem headDeclaration_follows (hg : g.Keeps w) (ctx : Context) (variableKind : VariableKind)
    (hk : isOrdinary s.lexer.token.kind = true) :
    Follows w K 2 (resting w) (Node.relocate w.relocation)
    (headDeclaration g (ctx.widen w.base) variableKind)
      (headDeclaration g (w.context ctx) variableKind) s t := by
  refine .offset fun start _ => .first (declarators_follows hg ctx.disallowIn variableKind
    (fun _ _ _ _ => .pure rfl) hk) fun ds s₁ t₁ _ => .extent fun span => ?_
  rw [← Node.mapDeclarators_eq]
  rfl

/-- A condition is the same in the other text. -/
theorem condition_follows (hg : g.Keeps w) (ctx : Context) :
    Follows w K 1 anywhere (Node.relocate w.relocation) (condition g (ctx.widen w.base))
    (condition g (w.context ctx)) s t := by
  refine .expect rfl fun s₁ t₁ _ _ => .bind (hg.expression ctx.allowIn) fun test s₂ t₂ _ => ?_
  exact .expect rfl fun _ _ _ _ => .pure rfl

/-- Where the stretch ends behind the word `let`, the word is a name. -/
theorem substatement_concludes (hg : g.Keeps w) (ctx : Context) :
    Concludes w K 1 (resting w) (Node.relocate w.relocation) (substatement g (ctx.widen w.base))
      (substatement g (w.context ctx)) s t := by
  refine .kind ?_
  split
  · exact .error unexpected_fails
  · exact .error unexpected_fails
  · rename_i hk
    have hreread : isReread s.lexer.token.kind = false := by rw [hk]; rfl
    have hne : s.lexer.token.kind ≠ .endOfFile := by simp [hk]
    refine .of_base fun hb hs => ?_
    have hbase : w.base < s.next.consumed :=
      Nat.lt_of_le_of_lt hb.base_le (hs.place.offset_lt_stop hne)
    refine .read (a := s.next.lexer.token) (c := t.next.lexer.token) rfl rfl ?_
    refine .of_ahead (L := K ∧ (Alike w s.next t.next ∨ AtEnd t.next.lexer)) ?_
      fun hs hb ha hin hk => ⟨hk, InStep.cases_next hin hs hb hne hreread ha⟩
    refine .refuse unexpected_fails (fun hk _ h => ?_) fun _ => ?_
    · rcases hk.2 with hnext | hend
      · rwa [hnext.twin.kind, hnext.lineBreak hbase] at h
      · refine absurd h (hend.of_kind (motive := fun k => ¬(k == .mark .openBracket ||
          !_ && (k.isIdentifierLike || k == .mark .openBrace)) = true) ?_ ?_)
        · simp [TokenKind.isIdentifierLike]
        · simp [TokenKind.isIdentifierLike]
    · refine .branch (m := 2) (fun hcolon => ?_) (fun _ => hg.expressionStatement ctx s t)
        (fun hcolon hs hb ha hin _ => ?_) (fun hcolon _ _ _ _ hk => ?_) (by decide)
      · exact hg.letLabel ctx s t hk (eq_of_beq hcolon)
      · rwa [(InStep.alike_next hin hs hb hne hreread ha).twin.kind]
      · rcases hk.2 with hnext | hend
        · rwa [hnext.twin.kind]
        · exact hend.of_kind (motive := fun k => ¬(k == .mark .colon) = true)
            Bool.false_ne_true Bool.false_ne_true
  · exact hg.statement ctx s t

/-- The body of a loop is the same in the other text. -/
theorem loopBody_concludes (hg : g.Keeps w) (ctx : Context) :
    Concludes w K 1 (resting w) (Node.relocate w.relocation) (loopBody g (ctx.widen w.base))
    (loopBody g (w.context ctx)) s t :=
  substatement_concludes hg ctx.loop

/-- An expression with its end is the same in the other text. -/
theorem expressionStatement_concludes (hg : g.Keeps w) (ctx : Context) :
    Concludes w K 1 (resting w) (Node.relocate w.relocation)
      (expressionStatement g (ctx.widen w.base)) (expressionStatement g (w.context ctx)) s t :=
  .concludes (.offset fun _ _ => .andThen (hg.expression ctx.allowIn) fun _ _ _ h₁ hb =>
    finish_closes hb ((hg.sound.expression_makes _ _ h₁.before).ok h₁.run).1.plain fun _ => rfl)

/-- Where no `else` follows in the first text, none follows in the other. -/
theorem ifStatement_concludes (hg : g.Keeps w) (ctx : Context)
    (hk : s.lexer.token.kind ≠ .endOfFile) :
    Concludes w K 1 (resting w) (Node.relocate w.relocation) (ifStatement g (ctx.widen w.base))
      (ifStatement g (w.context ctx)) s t := by
  refine .offset fun start _ => .andThen (advance_follows hk) fun _ s₁ t₁ _ _ => ?_
  refine .bind (condition_follows hg ctx) fun test s₂ t₂ _ => ?_
  refine .behind (substatement_concludes hg ctx) fun consequent s₃ t₃ _ => ?_
  refine .eat_behind rfl (fun s₄ t₄ _ _ _ => ?_) fun _ => .extent fun _ => rfl
  exact .loose (.ending (substatement_concludes hg ctx) fun _ _ => rfl) (Nat.zero_le 1)

/-- A loop with its condition first is the same in the other text. -/
theorem whileStatement_concludes (hg : g.Keeps w) (ctx : Context)
    (hk : s.lexer.token.kind ≠ .endOfFile) :
    Concludes w K 1 (resting w) (Node.relocate w.relocation) (whileStatement g (ctx.widen w.base))
      (whileStatement g (w.context ctx)) s t := by
  refine .offset fun start _ => .andThen (advance_follows hk) fun _ s₁ t₁ _ _ => ?_
  refine .bind (condition_follows hg ctx) fun test s₂ t₂ _ => ?_
  exact .loose (.ending (loopBody_concludes hg ctx) fun _ _ => rfl) (Nat.zero_le 1)

/-- A loop with its condition last is the same in the other text. -/
theorem doStatement_concludes (hg : g.Keeps w) (ctx : Context)
    (hk : s.lexer.token.kind ≠ .endOfFile) :
    Concludes w K 1 (resting w) (Node.relocate w.relocation) (doStatement g (ctx.widen w.base))
      (doStatement g (w.context ctx)) s t := by
  refine .concludes (.offset fun start _ => .andThen (advance_follows hk) fun _ s₁ t₁ _ _ => ?_)
  refine .before (loopBody_concludes hg ctx) fun body s₂ t₂ _ =>
    .expect_behind rfl fun s₃ t₃ _ hb => ?_
  refine .bind (condition_follows hg ctx) fun test s₄ t₄ h₄ => ?_
  have hplain := ((condition_makes hg.sound _ _ h₄.before).ok h₄.run).1.plain
  exact .ending (optionalSemicolon_closes (h₄.begun hb) hplain).freely fun _ _ => rfl

/-- An object given to a statement is the same in the other text. -/
theorem withStatement_concludes (hg : g.Keeps w) (ctx : Context)
    (hk : s.lexer.token.kind ≠ .endOfFile) :
    Concludes w K 1 (resting w) (Node.relocate w.relocation) (withStatement g (ctx.widen w.base))
      (withStatement g (w.context ctx)) s t := by
  refine .offset fun start _ => .andThen (advance_follows hk) fun _ s₁ t₁ _ _ => ?_
  refine .bind (condition_follows hg ctx) fun object s₂ t₂ _ => ?_
  exact .loose (.ending (substatement_concludes hg ctx) fun _ _ => rfl) (Nat.zero_le 1)

/-- What is returned is the same in the other text. -/
theorem returnStatement_concludes (hg : g.Keeps w) (ctx : Context)
    (hk : isOrdinary s.lexer.token.kind = true) :
    Concludes w K 1 (resting w) (Node.relocate w.relocation) (returnStatement g (ctx.widen w.base))
      (returnStatement g (w.context ctx)) s t := by
  refine .concludes (.offset fun start _ => .require failHere_fails (fun _ _ => id) fun _ => ?_)
  refine .andThen (advance_follows (ne_endOfFile_of_isOrdinary hk)) fun _ s₁ t₁ h₁ hb =>
    .read rfl rfl (.read rfl rfl ?_)
  refine .branch_else (m := 1) (fun _ => ?_) (fun _ => ?_) (fun hend hs _ _ hin _ => ?_)
    (fun hend hs _ ha hin _ => ?_) (by decide)
  · have hplain := ((advance_meets h₁.before hk).ok h₁.run).1.plain
    exact .read (a := none) (c := none) rfl rfl (finish_closes hb hplain fun _ => rfl)
  · refine .andThen (hg.expression ctx.allowIn) fun e s₂ t₂ h₂ hb₂ => ?_
    have hplain := ((hg.sound.expression_makes _ _ h₂.before).ok h₂.run).1.plain
    exact .read (a := some e) (c := some (e.relocate w.relocation)) rfl rfl
      (finish_closes hb₂ hplain fun _ => rfl)
  · rcases InStep.cases hin hs with ha | ha
    · rwa [ha.twin.kind, ha.lineBreak hb.base_lt]
    · exact ha.of_kind (motive := fun k => (k == .mark .semicolon ||
        (k == .mark .closeBrace || k == .endOfFile || _)) = true) rfl rfl
  · have ha := InStep.alike hin hs ha
    rwa [ha.twin.kind, ha.lineBreak hb.base_lt]

/-- The label of a jump is the same in the other text. -/
theorem jumpLabel_follows (ctx : Context) (hb : w.base < s.consumed) :
    Follows w K 0 anywhere (Option.map (Identifier.relocate w.span)) (jumpLabel (ctx.widen w.base))
      (jumpLabel (w.context ctx)) s t := by
  refine .read rfl rfl (.read rfl rfl ?_)
  refine .branch_else (m := 1) (fun _ => .pure rfl) (fun _ => ?_) (fun hnone hs _ _ hin _ => ?_)
    (fun hsome hs _ ha hin _ => ?_) (by decide)
  · exact .map (identifier_follows ctx) (fun _ => rfl) fun _ _ => id
  · rcases InStep.cases hin hs with ha | ha
    · rwa [ha.twin.kind, ha.lineBreak hb]
    · exact ha.of_kind (motive := fun k => (_ || !k.isIdentifierLike) = true)
        (Bool.or_true _) (Bool.or_true _)
  · have ha := InStep.alike hin hs ha
    rwa [ha.twin.kind, ha.lineBreak hb]

/-- A jump out of nothing is one in the other text. -/
theorem checkBreak_follows (ctx : Context) (start start' : Nat) (label : Option Identifier) :
    Follows w K 0 anywhere id (checkBreak (ctx.widen w.base) start label)
      (checkBreak (w.context ctx) start' (label.map (Identifier.relocate w.span))) s t := by
  cases label with
  | none => exact .ite Iff.rfl (fun _ => .pure rfl) fun _ => .error fail_fails
  | some id =>
    have hlabel : ∀ f, ((ctx.move f).label? id.name).isNone = (ctx.label? id.name).isNone := by
      intro f
      rw [ctx.label?_move, Option.isNone_map]
    exact .ite (by rw [Context.widen, hlabel, Shift.context]; exact (hlabel _).symm ▸ Iff.rfl)
      (fun _ => .error fail_fails) fun _ => .pure rfl

/-- A jump that continues no loop is one in the other text. -/
theorem checkContinue_follows (ctx : Context) (start start' : Nat) (label : Option Identifier) :
    Follows w K 0 anywhere id (checkContinue (ctx.widen w.base) start label)
      (checkContinue (w.context ctx) start' (label.map (Identifier.relocate w.span))) s t := by
  cases label with
  | none => exact .ite Iff.rfl (fun _ => .pure rfl) fun _ => .error fail_fails
  | some id =>
    have hname : (id.relocate w.span).name = id.name := rfl
    simp only [checkContinue, Option.map_some, Context.widen, Shift.context, ctx.label?_move, hname]
    cases ctx.label? id.name with
    | none => exact .error fail_fails
    | some target => exact .ite Iff.rfl (fun _ => .pure rfl) fun _ => .error fail_fails

/-- A jump, with the check that it has somewhere to go. -/
theorem jump_concludes (ctx : Context) {check check' : Nat → Option Identifier → Parser Unit}
    {make : Span → Option Identifier → Statement}
    (hcheck : ∀ (K : Prop) start start' label s t, Follows w K 0 anywhere id (check start label)
      (check' start' (label.map (Identifier.relocate w.span))) s t)
    (hmeets : ∀ start label s, s.Sound w.text →
      Meets w.text (check start label) s fun _ s' => s' = s)
    (hmake : ∀ span label, make (w.extent span) (label.map (Identifier.relocate w.span)) =
      (make span label).relocate w.relocation)
    (hk : isOrdinary s.lexer.token.kind = true) :
    Concludes w K 1 (resting w) (Node.relocate w.relocation)
      (do
        let start ← offset
        advance
        let label ← jumpLabel (ctx.widen w.base)
        check start label
        semicolon
        return make (← spanFrom start) label)
      (do
        let start ← offset
        advance
        let label ← jumpLabel (w.context ctx)
        check' start label
        semicolon
        return make (← spanFrom start) label) s t := by
  refine .concludes (.offset fun start _ => .andThen (advance_follows
    (ne_endOfFile_of_isOrdinary hk)) fun _ s₁ t₁ h₁ hb => ?_)
  have hp₁ := ((advance_meets h₁.before hk).ok h₁.run).1.plain
  refine .bind (jumpLabel_follows ctx hb.base_lt) fun label s₂ t₂ h₂ => ?_
  have hp₂ := ((jumpLabel_meets _ h₂.before).ok h₂.run).1.plain hp₁
  refine .bind (hcheck _ _ _ label s₂ t₂) fun _ s₃ t₃ h₃ => ?_
  obtain rfl := (hmeets _ _ _ h₃.before).ok h₃.run
  exact finish_closes (h₂.begun hb) hp₂ fun span => hmake span label

/-- A jump is the same in the other text. -/
theorem breakStatement_concludes (ctx : Context) (hk : isOrdinary s.lexer.token.kind = true) :
    Concludes w K 1 (resting w) (Node.relocate w.relocation) (breakStatement (ctx.widen w.base))
      (breakStatement (w.context ctx)) s t := by
  rw [breakStatement_eq, breakStatement_eq]
  exact jump_concludes ctx
    (fun _ start start' label _ _ => checkBreak_follows ctx start start' label)
    (fun start label _ hs => checkBreak_meets _ start label hs) (fun _ _ => rfl) hk

/-- A jump that continues a loop is the same in the other text. -/
theorem continueStatement_concludes (ctx : Context) (hk : isOrdinary s.lexer.token.kind = true) :
    Concludes w K 1 (resting w) (Node.relocate w.relocation) (continueStatement (ctx.widen w.base))
      (continueStatement (w.context ctx)) s t := by
  rw [continueStatement_eq, continueStatement_eq]
  exact jump_concludes ctx
    (fun _ start start' label _ _ => checkContinue_follows ctx start start' label)
    (fun start label _ hs => checkContinue_meets _ start label hs) (fun _ _ => rfl) hk

/-- What is thrown is the same in the other text. -/
theorem throwStatement_concludes (hg : g.Keeps w) (ctx : Context)
    (hk : s.lexer.token.kind ≠ .endOfFile) :
    Concludes w K 1 (resting w) (Node.relocate w.relocation) (throwStatement g (ctx.widen w.base))
      (throwStatement g (w.context ctx)) s t := by
  refine .concludes (.offset fun start _ => .andThen (advance_follows hk) fun _ s₁ t₁ _ hb => ?_)
  refine .of_base fun _ hs₁ => .read rfl rfl (.refuse fail_fails (fun _ hin hline => ?_)
    fun _ => ?_)
  · rcases InStep.cases hin hs₁ with ha | ha
    · rwa [ha.lineBreak hb.base_lt] at hline
    · rw [ha.lineBreak] at hline
      cases hline
  · refine .bind (hg.expression ctx.allowIn) fun e s₂ t₂ h₂ => ?_
    have hplain := ((hg.sound.expression_makes _ _ h₂.before).ok h₂.run).1.plain
    exact finish_closes (h₂.begun hb) hplain fun _ => rfl

/-- What is caught is bound to the same pattern in the other text. -/
theorem catchParameter_follows (hg : g.Keeps w) (ctx : Context) :
    Follows w K 0 anywhere (Option.map (Node.relocate w.relocation))
    (catchParameter g (ctx.widen w.base))
      (catchParameter g (w.context ctx)) s t := by
  refine .eat rfl (fun s₁ t₁ _ _ _ => ?_) fun _ => .pure rfl
  refine .bind (hg.bindingTarget ctx s₁ t₁) fun target s₂ t₂ _ => ?_
  exact .expect rfl fun _ _ _ _ => .pure rfl

/-- A handler is the same in the other text. -/
theorem catchClause_follows (hg : g.Keeps w) (ctx : Context)
    (hk : s.lexer.token.kind ≠ .endOfFile) :
    Follows w K 1 anywhere (Node.relocate w.relocation) (catchClause g (ctx.widen w.base))
      (catchClause g (w.context ctx)) s t := by
  rw [catchClause_eq, catchClause_eq]
  refine .offset fun start _ => .andThen (advance_follows hk) fun _ s₁ t₁ _ hb => ?_
  refine .bind (catchParameter_follows hg ctx) fun param s₂ t₂ h₂ => ?_
  refine .bind (hg.block ctx) fun body s₃ t₃ h₃ => .node (h₃.begun (h₂.begun hb)) fun span => ?_
  rw [← Node.mapPattern?_eq]
  rfl

/-- A handler may be missing in both texts. -/
theorem tryHandler_follows (hg : g.Keeps w) (ctx : Context) :
    Follows w K 0 anywhere (Option.map (Node.relocate w.relocation))
    (tryHandler g (ctx.widen w.base))
      (tryHandler g (w.context ctx)) s t :=
  .isAt rfl (fun hk => .map (catchClause_follows hg ctx (by simp [hk])) (fun _ => rfl)
    fun _ _ => id) fun _ => .pure rfl

/-- A block that is always executed may be missing in both texts. -/
theorem tryFinalizer_follows (hg : g.Keeps w) (ctx : Context) :
    Follows w K 0 anywhere (Option.map (Node.relocate w.relocation))
    (tryFinalizer g (ctx.widen w.base))
      (tryFinalizer g (w.context ctx)) s t :=
  .eat rfl (fun _ _ _ _ _ => .map (hg.block ctx) (fun _ => rfl) fun _ _ => id) fun _ => .pure rfl

/-- A block with its handler and its end is the same in the other text. -/
theorem tryStatement_follows (hg : g.Keeps w) (ctx : Context)
    (hk : s.lexer.token.kind ≠ .endOfFile) :
    Follows w K 1 (resting w) (Node.relocate w.relocation) (tryStatement g (ctx.widen w.base))
      (tryStatement g (w.context ctx)) s t := by
  rw [tryStatement_eq, tryStatement_eq]
  refine .offset fun start _ => .andThen (advance_follows hk) fun _ s₁ t₁ _ _ => ?_
  refine .bind (hg.block ctx) fun body s₂ t₂ _ => ?_
  refine .bind (tryHandler_follows hg ctx) fun handler s₃ t₃ _ => ?_
  refine .bind (tryFinalizer_follows hg ctx) fun finalizer s₄ t₄ _ => ?_
  cases handler with
  | some handler =>
    refine .extent fun span => ?_
    rw [← Node.mapBlock?_eq]
    rfl
  | none =>
    cases finalizer with
    | some finalizer => exact .extent fun _ => rfl
    | none => exact .error failHere_fails

/-- The statements of a case are the same in the other text. -/
theorem caseBody_follows (hg : g.Keeps w) (ctx : Context) :
    Tracks w .behind .behind K 0 nowhere (List.map (Node.relocate w.relocation))
      (caseBody g (ctx.widen w.base)) (caseBody g (w.context ctx)) s t := by
  refine many_follows fun s t => .of_reread ?_ fun s => .kind_nowhere ?_
  · exact .kind rfl rfl rfl (.bind (hg.rereads.statement _))
  split
  · exact .pure rfl
  · exact .pure rfl
  · exact .pure rfl
  · exact .error unexpected_fails
  · exact .map (hg.statement ctx s t) (fun _ => rfl) fun _ _ => False.elim

/-- The value of a case is the same in the other text. -/
theorem caseTest_follows (hg : g.Keeps w) (ctx : Context) (seenDefault : Bool) :
    Follows w K 1 anywhere (Option.map (Node.relocate w.relocation))
      (caseTest g (ctx.widen w.base) seenDefault) (caseTest g (w.context ctx) seenDefault) s t := by
  refine .kind ?_
  split
  · rename_i hk
    refine .bind (advance_follows (by simp [hk])) fun _ s₁ t₁ _ => ?_
    exact .map (hg.expression ctx.allowIn) (fun _ => rfl) fun _ _ => id
  · rename_i hk
    refine .refuse failHere_fails (fun _ _ => id) fun _ => ?_
    exact .andThen (advance_follows (by simp [hk])) fun _ _ _ _ _ => .pure rfl
  · exact .error unexpected_fails

/-- No case starts with a slash. -/
theorem caseTest_fails {ctx : Context} {seenDefault : Bool}
    (hslash : Lexer.isSlash s.lexer.token.kind = true) : Fails (caseTest g ctx seenDefault) s := by
  refine .step (p := kind) rfl ?_
  rcases Lexer.isSlash_iff.mp hslash with hk | hk
  · rw [hk]
    exact unexpected_fails
  · rw [hk]
    exact unexpected_fails

/-- The cases of a switch are the same in the other text. -/
theorem switchCases_follows (hg : g.Keeps w) (ctx : Context) :
    Tracks w .behind .behind K 0 nowhere (List.map (Node.relocate w.relocation))
      (switchCases g (ctx.widen w.base)) (switchCases g (w.context ctx)) s t := by
  refine iterate_follows_nowhere (χ := fun a : List (Node .switchCase) × Bool =>
    (a.1.map (Node.relocate w.relocation), a.2)) (fun a s t => ?_) ([], false)
  obtain ⟨found, seenDefault⟩ := a
  refine .of_fails ?_ fun hslash => .step (isAt_of_isSlash hslash rfl)
    (.step (p := offset) rfl (caseTest_fails hslash).bind)
  refine .isAt_nowhere (fun _ => .pure (congrArg Round.done List.map_reverse.symm)) fun _ => ?_
  refine .offset_nowhere fun start _ => .bind (caseTest_follows hg ctx seenDefault)
    fun test s₁ t₁ _ => ?_
  refine .expect rfl fun s₂ t₂ _ _ => .behind (caseBody_follows hg ctx).starts
    fun body s₃ t₃ _ => .imp (.extent fun span => ?_) fun _ _ => False.elim
  rw [Option.isNone_map, ← Node.mapExpression?_eq, ← Node.mapStatements_eq]
  rfl

/-- A switch is the same in the other text. -/
theorem switchStatement_follows (hg : g.Keeps w) (ctx : Context)
    (hk : s.lexer.token.kind ≠ .endOfFile) :
    Follows w K 1 (resting w) (Node.relocate w.relocation) (switchStatement g (ctx.widen w.base))
      (switchStatement g (w.context ctx)) s t := by
  refine .offset fun start _ => .andThen (advance_follows hk) fun _ s₁ t₁ _ _ => ?_
  refine .bind (condition_follows hg ctx) fun discriminant s₂ t₂ _ =>
    .expect rfl fun s₃ t₃ _ _ => ?_
  refine .before (switchCases_follows hg { ctx with inBreakable := true }).starts
    fun cases s₄ t₄ _ => .expect_behind rfl fun s₅ t₅ _ _ => .extent fun span => ?_
  rw [← Node.mapCases_eq]
  rfl

/-- The body of a labeled statement, whose first token has the given kind and offset. -/
def labeledBody (g : Nested) (ctx : Context) (start : Nat) (id : Identifier) (k : TokenKind)
    (place : Nat) : Parser Statement := do
  let body ← substatement g
    (ctx.labeled start { name := id.name, isLoop := startsLoop k, bodyStart := place })
  return .labeled (← spanFrom start) id body

/-- A label and its statement are the same in the other text. -/
theorem labeledStatement_concludes (hg : g.Keeps w) (ctx : Context) :
    Concludes w K 2 (resting w) (Node.relocate w.relocation) (labeledStatement g (ctx.widen w.base))
      (labeledStatement g (w.context ctx)) s t := by
  refine .offset fun start _ => .token (identifier_follows ctx) identifier_mute
    fun id s₁ t₁ _ _ => ?_
  refine .expect rfl fun s₂ t₂ _ _ => .refuse fail_fails (fun _ _ h => ?_) fun _ => ?_
  · rw [Shift.context, ctx.label?_move, Option.isSome_map] at h
    rw [Context.widen, ctx.label?_move, Option.isSome_map]
    exact h
  · refine .loose (.first_token (n := 0) (f := labeledBody g (ctx.widen w.base) start id)
      (r := labeledBody g (w.context ctx) (w.start start) (id.relocate w.span))
      (fun place hplace => ?_) rfl rfl) (Nat.zero_le 1)
    obtain ⟨start, rfl⟩ : ∃ x, start = x + w.base := ⟨start - w.base, by omega⟩
    obtain ⟨place, rfl⟩ : ∃ x, place = x + w.base := ⟨place - w.base, by omega⟩
    have hwiden := ctx.labeled_move (f := (· + w.base)) (fun _ _ => Nat.add_right_cancel) start
      { name := id.name, isLoop := startsLoop s₂.lexer.token.kind, bodyStart := place }
    have hcontext := ctx.labeled_move (f := fun offset => w.start (offset + w.base))
      (fun _ _ h => Nat.add_right_cancel
        (w.start_inj (Nat.le_add_left _ _) (Nat.le_add_left _ _) h)) start
      { name := id.name, isLoop := startsLoop s₂.lexer.token.kind, bodyStart := place }
    unfold labeledBody
    change Concludes w _ _ _ _ (substatement g ((ctx.move (· + w.base)).labeled (start + w.base)
        (Label.move (· + w.base) ⟨id.name, startsLoop s₂.lexer.token.kind, place⟩)) >>= _)
      (substatement g ((ctx.move fun offset => w.start (offset + w.base)).labeled
        (w.start (start + w.base)) (Label.move (fun offset => w.start (offset + w.base))
          ⟨id.name, startsLoop s₂.lexer.token.kind, place⟩)) >>= _) _ _
    rw [hwiden, hcontext]
    exact .ending (substatement_concludes hg _) fun _ _ => rfl

/-- A declared function is the same in the other text. -/
theorem functionDeclaration_follows (hg : g.Keeps w) (ctx : Context) :
    Follows w K 1 (resting w) (Node.relocate w.relocation)
    (functionDeclaration g (ctx.widen w.base) false)
      (functionDeclaration g (w.context ctx) false) s t :=
  .offset fun start _ => .map (functionDefinition_follows hg ctx start false true) (fun _ => rfl)
    fun _ _ _ => trivial

/-- A declared asynchronous function is the same in the other text. -/
theorem asyncFunctionDeclaration_follows (hg : g.Keeps w) (ctx : Context)
    (hk : s.lexer.token.kind ≠ .endOfFile) :
    Follows w K 2 (resting w) (Node.relocate w.relocation)
    (functionDeclaration g (ctx.widen w.base) true)
      (functionDeclaration g (w.context ctx) true) s t :=
  .offset fun start _ => .token (advance_follows hk) advance_mute fun _ _ _ _ _ =>
    .map (functionDefinition_follows hg ctx start true true) (fun _ => rfl) fun _ _ _ => trivial

end

end Parser

end EcmaScript
