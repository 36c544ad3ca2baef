import EcmaScript.Parser.Primary
import EcmaScript.Proofs.Lexer.Spelling
import EcmaScript.Proofs.Parser.Class

/-!
# Primary expressions make nodes

Literals, names, and everything in brackets. A piece of a template lies between the marks
around it. Expressions in parentheses keep their places, whether they become parameters, a
sequence, or stay what they are.
-/

namespace EcmaScript.Parser

open Sketch

section

variable {text : String} {s : State} {g : Nested}

/-- Pieces of templates are ordinary. -/
theorem isOrdinary_of_isTemplate {k : TokenKind} (h : k.isTemplate = true) :
    isOrdinary k = true := by
  cases k <;> first | rfl | cases h

/-- A piece of a template lies in its token. -/
theorem templateElement_meets (tagged : Bool) (hs : s.Sound text)
    (hk : s.lexer.token.kind.isTemplate = true) :
    Meets text (templateElement tagged) s fun e s' => s' = s ∧
      ∀ front : Front, s.lexer.token.stop.offset ≤ front.stop → s.lexer.token ∈ front.taken →
        AllPlaced text s.offset front e.sketch := by
  unfold templateElement
  refine .step rfl (.refuse (failHere_meets hs rfl) fun _ => .pure ⟨rfl, fun front hf hm => ?_⟩)
  obtain ⟨readings, r, ht⟩ := hs.trace
  obtain ⟨hnext, content, e, hrest, hoffset, hstop, -⟩ := ht.template_content hk
  have hr : s.lexer.token.start.next.Reaches e := ⟨content, hrest, hoffset⟩
  have hin : s.lexer.token.start.next.IsIn text := ht.place.1.trans (Cursor.reaches_next _)
  have hle := hr.offset_le
  have hspan : max (s.lexer.token.stop.offset - s.lexer.token.closing)
      (s.lexer.token.start.offset + 1) = e.offset := by omega
  have hstart := hin.isBoundary
  have hin' : e.IsIn text := hin.trans hr
  rw [hnext] at hstart hle
  refine allPlaced_singleton.mpr ?_
  show Placed text _ _ (.mk (.ofOffsets _ (max (s.lexer.token.stop.offset - s.lexer.token.closing)
    (s.lexer.token.start.offset + 1))) false _ [] [])
  refine .mk (Nat.le_succ _) ?_ ?_ (fun h => absurd h (by simp)) hstart ?_ ?_ .nil (by simp)
  · rw [hspan]
    omega
  · rw [hspan]
    exact hle
  · rw [hspan]
    exact hin'.isBoundary
  · exact ⟨_, hm, hk, rfl, rfl⟩

/-- A closing brace may be read again as a piece of a template. -/
theorem rescanTemplate_onto (hs : s.Sound text) (hk : s.lexer.token.kind = .mark .closeBrace) :
    Onto text s { s with lexer := s.lexer.rescanTemplate } ∧
      s.lexer.rescanTemplate.token.kind.isTemplate = true := by
  have hstep := Place.Step.template (p := s.place) hk
  refine ⟨⟨⟨hs, ⟨hstep.sound hs.place, hs.isSyntactic⟩, .single hstep⟩, List.suffix_rfl⟩, ?_⟩
  rw [Lexer.rescanTemplate_eq]
  show (if _ then TokenKind.templateMiddle else .templateTail).isTemplate = true
  split
  · rfl
  · rfl

/-- Pieces and substitutions of a template lie between its ends. -/
theorem templateLiteral_meets (hg : g.Sound text) (ctx : Context) (tagged : Bool)
    (hs : s.Sound text) (hk : s.lexer.token.kind.isTemplate = true) :
    Meets text (templateLiteral g ctx tagged) s (Made text Node.sketch s) := by
  refine .step rfl (.bind (P := fun r s' => Took text s s' ∧ AllPlaced text s.offset s'.front
    (TemplateElement.inTurn r.1 (Node.sketchEach r.2))) ?_ fun r s' h => ?_)
  · -- A round begins with as many expressions as pieces.
    refine iterate_meets (I := fun a s₁ => Onto text s s₁ ∧
      s₁.lexer.token.kind.isTemplate = true ∧ a.1.length = a.2.length ∧
      AllPlaced text s.offset s₁.front
        (TemplateElement.inTurn a.1.reverse (Node.sketchEach a.2.reverse)))
      (fun _ _ h => h.1.sound) ?_ ⟨(Kept.refl hs).toOnto, hk, rfl, allPlaced_nil⟩
    rintro ⟨quasis, expressions⟩ s₁ ⟨h₁, hk₁, hlength, hfound⟩
    have hlength : quasis.length = expressions.length := hlength
    refine .bind (templateElement_meets tagged h₁.sound hk₁) fun element s₂ h₂ => ?_
    obtain ⟨rfl, hel⟩ := h₂
    refine .bind (advance_meets h₁.sound (isOrdinary_of_isTemplate hk₁)) fun _ s₃ h₃ => ?_
    have hpieces : AllPlaced text s.offset s₃.front (TemplateElement.inTurn
        (element :: quasis).reverse (Node.sketchEach expressions.reverse)) := by
      rw [List.reverse_cons, TemplateElement.inTurn_piece (by simpa using hlength)]
      exact placed_append h₁.offset_le h₃.1.toOnto hfound
        (hel _ (Nat.le_of_eq h₃.2.1.symm) h₃.2.2)
    have ht := h₁.took h₃.1
    refine .ite (fun _ => .pure ⟨ht, hpieces⟩) fun _ => ?_
    refine .bind (hg.expression_makes _ s₃ h₃.1.sound) fun e s₄ h₄ => .step rfl ?_
    refine .require (unexpected_meets h₄.1.sound) fun hb => .step rfl (.pure ?_)
    obtain ⟨h₅, hk₅⟩ := rescanTemplate_onto h₄.1.sound (eq_of_beq hb)
    refine ⟨ht.toOnto.trans (h₄.1.toOnto.trans h₅), hk₅, congrArg Nat.succ hlength, ?_⟩
    refine placed_upTo h₅ ?_
    have hturn : TemplateElement.inTurn (element :: quasis).reverse
        (Node.sketchEach (e :: expressions).reverse) = TemplateElement.inTurn
          (element :: quasis).reverse (Node.sketchEach expressions.reverse) ++ e.sketch := by
      simp only [Node.sketchEach_eq, List.reverse_cons (a := e), List.map_append,
        List.map_singleton]
      exact TemplateElement.inTurn_expression (by simpa using hlength) e.sketch
    rw [hturn]
    exact placed_append ht.offset_le h₄.1.toOnto hpieces h₄.2
  · refine .step rfl (.pure ⟨h.1, h.1.spanning trivial ?_ ?_⟩)
    · exact h.2.inRow
    · exact Node.eachPlaced_inTurn.mp h.2.each

/-- What is spread lies behind its mark. -/
theorem spreadable_makes {p : Parser Expression} (hp : Makes text Node.sketch p) :
    Makes text Node.sketch (spreadable p) := by
  intro s hs
  refine .step rfl (.eat hs rfl (fun s₁ h₁ _ => ?_) (hp s hs))
  refine .bind (hp s₁ h₁.sound) fun argument s₂ h₂ => .step rfl (.pure ?_)
  have ht := h₁.trans h₂.1.kept
  exact ⟨ht, ht.node (placed_from h₁.toOnto h₂.2)⟩

/-- The notes of the cover grammar do not matter for soundness. -/
theorem State.Sound.notes (hs : s.Sound text) (notes : CoverNotes) :
    Same text s { s with notes } := hs.same rfl rfl rfl List.suffix_rfl hs.isSyntactic

/-- The elements of an array lie behind its bracket. -/
theorem arrayElements_meets (hg : g.Sound text) (ctx : Context) (array : Nat)
    (hs : s.Sound text) :
    Meets text (arrayElements g ctx array) s fun elements s' => Kept text s s' ∧
      AllPlaced text s.offset s'.front (Node.sketchOptionals elements) := by
  refine (many_meets (f := Node.sketchExpression?) (fun s hs => .step rfl ?_) hs).imp
    fun elements s' h => ⟨h.1, ?_⟩
  · have hrest : ∀ (element : Expression) (s₁ : State), Made text Node.sketch s element s₁ →
        Meets text (do
          unless ← isAt (.mark .closeBracket) do expect (.mark .comma)
          return some (some element)) s₁ (GivesItem text Node.sketchExpression? s) := by
      intro element s₁ h₁
      refine .step rfl (.ite (fun _ => .pure h₁) fun _ => ?_)
      exact .expect h₁.1.sound rfl fun s₂ h₂ => .pure (h₁.upTo h₂.kept)
    split
    · exact .pure (.refl hs)
    · rename_i hk
      exact .bind (advance_meets hs (by rw [hk]; rfl)) fun _ _ h => .pure ⟨h.1, allPlaced_nil⟩
    · refine .bind (spreadable_makes (hg.assignment ctx) s hs) fun element s₁ h₁ => ?_
      refine .step rfl (.step rfl (.ite (fun _ => ?_) fun _ => hrest element s₁ h₁))
      exact .step rfl (.step rfl (hrest element _ (h₁.upTo (h₁.1.sound.notes _).kept)))
  · rw [Node.sketchOptionals_eq]
    exact h.2.placed

/-- The elements of an array lie between its brackets. -/
theorem arrayLiteral_makes (hg : g.Sound text) (ctx : Context) :
    Makes text Node.sketch (arrayLiteral g ctx) := by
  intro s hs
  refine .step rfl (.expect hs rfl fun s₁ h₁ => ?_)
  refine .bind (arrayElements_meets hg _ _ h₁.sound) fun elements s₂ h₂ => ?_
  refine .expect h₂.1.sound rfl fun s₃ h₃ => .step rfl (.pure ?_)
  have ht := h₁.trans (h₂.1.trans h₃.kept)
  exact ⟨ht, ht.node (placed_from h₁.toOnto (placed_upTo h₃.toOnto h₂.2))⟩

/-- A shorthand starts with its name. -/
theorem shorthandMember_meets (hg : g.Sound text) (ctx : Context) {name : Identifier} {s₀ : State}
    (h₀ : Took text s₀ s) (hn : AllPlaced text s₀.offset s.front name.sketch)
    (hspan : name.span = .ofOffsets s₀.offset s.consumed) :
    Meets text (shorthandMember g ctx s₀.offset name) s (Made text Node.sketch s₀) := by
  refine .step rfl (.ite (fun hk => .step rfl (.step rfl ?_)) fun _ => .step rfl (.pure ?_))
  · have h₁ : Same text s { s with
      coverInit := s.coverInit.or (some s.lexer.token.start.offset) } :=
      h₀.sound.same rfl rfl rfl List.suffix_rfl h₀.sound.isSyntactic
    refine .bind (advance_meets h₁.sound (by rw [h₁.lexer_eq, eq_of_beq hk]; rfl)) fun _ s₂ h₂ => ?_
    refine .bind (hg.value_makes ctx s₂ h₂.1.sound) fun value s₃ h₃ => .step rfl (.pure ?_)
    have h₂' := h₁.kept.toOnto.took h₂.1
    have hlast := h₂'.trans h₃.1.kept
    have ht := h₀.trans hlast.kept
    refine ⟨ht, ht.owing nofun ?_⟩
    exact placed_append h₀.offset_le hlast.toOnto hn (placed_from h₂'.toOnto h₃.2)
  · refine ⟨h₀, h₀.owing (fun _ => hspan.symm) ?_⟩
    exact placed_append h₀.offset_le (Kept.refl h₀.sound).toOnto hn allPlaced_nil

/-- A key and a value lie between the ends of the property. -/
theorem objectProperty_makes (hg : g.Sound text) (ctx : Context) :
    Makes text Node.sketch (objectProperty g ctx) := by
  intro s hs
  refine .step rfl (.bind (modifiers_meets _ hs) fun m s₁ ⟨h₁, hsame⟩ => .step rfl ?_)
  refine .bind (propertyKey_meets hg ctx false h₁.sound) fun key s₂ ⟨h₂, hspan⟩ => .step rfl ?_
  have ht₂ := h₁.toOnto.took h₂.1
  have hkey := placed_from h₁.toOnto h₂.2
  refine .ite (fun _ => ?_) fun _ => .ite (fun _ => unexpected_meets ht₂.sound) fun hm => ?_
  · refine .bind (methodFunction_makes hg _ _ _ _ _ s₂ ht₂.sound) fun value s₃ h₃ => ?_
    refine .step rfl (.pure ?_)
    have ht := ht₂.trans h₃.1.kept
    exact ⟨ht, ht.node (placed_append ht₂.offset_le h₃.1.toOnto hkey h₃.2)⟩
  · refine .eat ht₂.sound rfl (fun s₃ h₃ _ => ?_) ?_
    · refine .bind (hg.assignment ctx s₃ h₃.sound) fun value s₄ h₄ => .step rfl (.pure ?_)
      have hlast := h₃.trans h₄.1.kept
      have ht := ht₂.trans hlast.kept
      refine ⟨ht, ht.node ?_⟩
      exact placed_append ht₂.offset_le hlast.toOnto hkey (placed_from h₃.toOnto h₄.2)
    · refine .bind (shorthandName_meets ctx _ _ key ht₂.sound) fun name s₃ h₃ => ?_
      obtain ⟨rfl, rfl⟩ := h₃
      refine shorthandMember_meets hg ctx ht₂ hkey ?_
      rw [← hsame (Bool.not_eq_true _ ▸ hm)]
      exact hspan name rfl

/-- A member of an object lies between its ends. -/
theorem objectMember_makes (hg : g.Sound text) (ctx : Context) :
    Makes text Node.sketch (objectMember g ctx) := by
  intro s hs
  refine .step rfl (.eat hs rfl (fun s₁ h₁ _ => ?_) (objectProperty_makes hg ctx s hs))
  refine .bind (hg.assignment ctx s₁ h₁.sound) fun argument s₂ h₂ => .step rfl (.pure ?_)
  have ht := h₁.trans h₂.1.kept
  exact ⟨ht, ht.node (placed_from h₁.toOnto h₂.2)⟩

/-- The members of an object lie between its braces. -/
theorem objectLiteral_makes (hg : g.Sound text) (ctx : Context) :
    Makes text Node.sketch (objectLiteral g ctx) := by
  intro s hs
  refine .step rfl (.expect hs rfl fun s₁ h₁ => ?_)
  refine .bind (commaList_meets _ (objectMember_makes hg _) h₁.sound) fun members s₂ h₂ => ?_
  refine .expect h₂.1.sound rfl fun s₃ h₃ => .step rfl (.pure ?_)
  have ht := h₁.trans (h₂.1.trans h₃.kept)
  refine ⟨ht, ht.node ?_⟩
  rw [Node.sketchMembers_eq]
  exact placed_from h₁.toOnto (placed_upTo h₃.toOnto h₂.2.placed)

/-- Expressions in parentheses lie behind the first of these, in the order of the text. -/
structure Covered (text : String) (s : State) (cover : Cover.Parenthesized) (s' : State) :
    Prop where
  took : Took text s s'
  span_eq : cover.span = .ofOffsets s.offset s'.consumed
  inOrder : InOrder text Node.sketch (s.offset + 1) s'.front cover.items

/-- What stands in parentheses is covered after steps that take no token. -/
theorem Covered.same {cover : Cover.Parenthesized} {s₁ s₂ : State} (h : Covered text s cover s₁)
    (k : Same text s₁ s₂) : Covered text s cover s₂ where
  took := h.took.trans k.kept
  span_eq := by rw [k.consumed_eq]; exact h.span_eq
  inOrder := h.inOrder.mono k.kept.toOnto.upto

/-- What stands in parentheses is covered from before steps that take no token. -/
theorem Covered.from {cover : Cover.Parenthesized} {s₁ s₂ : State} (k : Same text s s₁)
    (h : Covered text s₁ cover s₂) : Covered text s cover s₂ where
  took := k.kept.toOnto.took h.took
  span_eq := by rw [← k.offset_eq]; exact h.span_eq
  inOrder := h.inOrder.lower (Nat.succ_le_succ k.kept.toOnto.offset_le)

/-- The expressions in parentheses lie between these. -/
theorem Covered.items_placed {cover : Cover.Parenthesized} {s₁ : State}
    (h : Covered text s cover s₁) :
    AllPlaced text s.offset s₁.front (Node.sketchExpressions cover.items) := by
  rw [Node.sketchExpressions_eq]
  exact h.inOrder.placed.mono (Nat.le_succ _) (.refl _)

/-- Parameters lie in the parentheses that they were read in. -/
theorem Covered.toParameters_yields {cover : Cover.Parenthesized} {s₁ : State}
    (h : Covered text s cover s₁) (notes : CoverNotes) :
    Cover.Yields (cover.toParameters notes) fun p =>
      AllPlaced text s.offset s₁.front p.sketch := by
  have hle : s.offset ≤ s₁.front.stop := Nat.le_of_lt h.took.lt
  refine .bind (Cover.toParameterItems_yields notes _ cover.items hle h.items_placed)
    fun r hr => .pure ?_
  show AllPlaced text _ _ (node cover.span (Node.sketchElements r.1 ++ Node.sketchRest? r.2))
  rw [h.span_eq]
  exact h.took.node hr

/-- The expression that parenthesized expressions are lies behind the first parenthesis. -/
theorem Covered.toExpression_yields {cover : Cover.Parenthesized} {s₁ : State}
    (h : Covered text s cover s₁) : Cover.Yields cover.toExpression fun e =>
      AllPlaced text (s.offset + 1) s₁.front e.sketch := by
  have ho := h.inOrder
  unfold Cover.Parenthesized.toExpression
  split
  · exact .blame _ rfl
  · exact .blame _ rfl
  · split
    · exact .blame _ rfl
    · rename_i e hi
      exact .ok (ho.placed_of_mem (by simp [hi]))
    · rename_i first more _ hi
      rw [hi] at ho ⊢
      obtain ⟨start, stop, hs, he, h1, h2, h3, h4, h5, h6⟩ := ho.covered Node.sketch_expression
      have hlast : (first :: more).getLast (List.cons_ne_nil first more) =
          more.getLast?.getD first := by
        rw [List.getLast_eq_getLastD, List.getLastD_eq_getLast?]
      have hspan : first.span.through (more.getLast?.getD first).span = .ofOffsets start stop := by
        rw [Span.through, ← hlast, hs, he, Nat.max_eq_left (by omega)]
        rfl
      rw [hspan]
      refine .ok (allPlaced_node h1 h2 h3 h4 h5 ?_)
      rw [Node.sketchExpressions_eq]
      exact h6

/-- What stands in parentheses is covered by them. -/
theorem coverParenthesized_meets (hg : g.Sound text) (ctx : Context) (hs : s.Sound text) :
    Meets text (coverParenthesized g ctx) s (Covered text s) := by
  refine .step rfl (.expect hs rfl fun s₁ h₁ => .bind (P := fun r s' => Kept text s₁ s' ∧
    InOrder text Node.sketch s₁.offset s'.front r.1) ?_ fun r s₂ h₂ => ?_)
  · refine iterate_meets (I := fun a s' => Kept text s₁ s' ∧
      InOrder text Node.sketch s₁.offset s'.front a.1.reverse)
      (fun _ _ h => h.1.sound) ?_ ⟨.refl h₁.sound, .nil⟩
    rintro ⟨items, trailingComma⟩ s₂ ⟨h₂, ho⟩
    refine .step rfl (.ite (fun _ => .pure ⟨h₂, ho⟩) fun _ => ?_)
    refine .bind (spreadable_makes (hg.assignment _) s₂ h₂.sound) fun item s₃ h₃ => .step rfl ?_
    have ho₃ : InOrder text Node.sketch s₁.offset s₃.front (item :: items).reverse := by
      rw [List.reverse_cons]
      exact ho.append_made h₂.toOnto.offset_le h₃
    have hk₃ := h₂.trans h₃.1.kept
    refine .ite (fun _ => .pure ⟨hk₃, ho₃⟩) fun _ => .expect h₃.1.sound rfl fun s₄ h₄ =>
      .step rfl ?_
    have hnext := And.intro (hk₃.trans h₄.kept) (ho₃.mono h₄.toOnto.upto)
    exact .ite (fun _ => .step rfl (.step rfl (.pure hnext))) fun _ => .step rfl (.pure hnext)
  · refine .expect h₂.1.sound rfl fun s₃ h₃ => .step rfl (.pure ?_)
    refine ⟨h₁.trans (h₂.1.trans h₃.kept), rfl, ?_⟩
    exact (h₂.2.mono h₃.toOnto.upto).lower (Nat.lt_of_lt_of_le h₁.lt h₁.sound.consumed_le)

/-- What may be parameters is covered by its parentheses. -/
theorem arrowCover_meets (hg : g.Sound text) (ctx : Context) (hs : s.Sound text) :
    Meets text (arrowCover g ctx) s (Covered text s) := by
  have h₁ : Same text s { s with suspension := none } :=
    hs.same rfl rfl rfl List.suffix_rfl fun fault hf => absurd hf (by simp)
  refine .step rfl (.step rfl (.bind (coverParenthesized_meets hg ctx h₁.sound)
    fun cover s₂ h₂ => .step rfl (.step rfl ?_)))
  have h₃ : Same text s₂ { s₂ with suspension := s.suspension.or s₂.suspension } := by
    refine h₂.took.sound.same rfl rfl rfl List.suffix_rfl fun fault hf => ?_
    rcases Option.or_eq_some_iff.mp hf with hf | ⟨_, hf⟩
    · exact hs.isSyntactic fault hf
    · exact h₂.took.sound.isSyntactic fault hf
  have hcover := (h₂.same h₃).from h₁
  cases hsus : s₂.suspension with
  | none =>
    rw [hsus] at hcover
    exact .pure hcover
  | some fault =>
    rw [hsus] at hcover
    refine .step rfl (.refuse (fail_meets hcover.took.sound _ ?_) fun _ => .pure hcover)
    exact h₂.took.sound.isSyntactic fault hsus

/-- An arrow function may start before the parentheses of its parameters. -/
theorem coverArrow_meets (hg : g.Sound text) (ctx : Context) {cover : Cover.Parenthesized}
    (isAsync : Bool) {s₀ s₁ : State} (h₀ : Onto text s₀ s₁) (hc : Covered text s₁ cover s) :
    Meets text (coverArrow g ctx s₀.offset cover isAsync) s (Made text Node.sketch s₀) := by
  refine .step rfl (.bind (orFail_meets hc.took.sound (hc.toParameters_yields _))
    fun params s₂ h₂ => ?_)
  obtain ⟨hp, rfl⟩ := h₂
  exact arrowFunction_meets hg ctx isAsync (h₀.trans hc.took.toOnto) (placed_from h₀ hp)

/-- The expression lies between the parentheses that cover it. -/
theorem coverExpression_meets {cover : Cover.Parenthesized} {s₁ : State}
    (hc : Covered text s₁ cover s) : Meets text (coverExpression cover) s fun e s' =>
      Same text s s' ∧ AllPlaced text s₁.offset s'.front e.sketch := by
  refine .bind (orFail_meets hc.took.sound hc.toExpression_yields) fun e s₂ h₂ => ?_
  obtain ⟨he, rfl⟩ := h₂
  replace he := he.mono (Nat.le_succ _) (.refl _)
  refine .ite (fun _ => .step rfl (.pure ?_)) fun _ => .pure ⟨.refl hc.took.sound, he⟩
  exact ⟨hc.took.sound.notes _, he⟩

/-- An expression in parentheses and an arrow function lie between their ends. -/
theorem parenthesizedOrArrow_makes (hg : g.Sound text) (ctx : Context) :
    Makes text Node.sketch (parenthesizedOrArrow g ctx) := by
  intro s hs
  refine .step rfl (.bind (takeCoverInit_meets hs) fun outer s₁ h₁ => ?_)
  refine .bind (arrowCover_meets hg ctx h₁.sound) fun cover s₂ h₂ =>
    .step rfl (.ite (fun _ => ?_) fun _ => ?_)
  · refine .bind (setCoverInit_meets outer h₂.took.sound) fun _ s₃ h₃ => ?_
    exact coverArrow_meets hg ctx false h₁.kept.toOnto (h₂.same h₃)
  · refine .bind (coverExpression_meets h₂) fun e s₃ h₃ => ?_
    refine .bind (checkCoverInit_meets h₃.1.sound) fun _ s₄ h₄ => ?_
    refine .bind (setCoverInit_meets outer h₄.sound) fun _ s₅ h₅ => .pure ?_
    have hm : Made text Node.sketch s₁ e s₃ := ⟨h₂.took.trans h₃.1.kept, h₃.2⟩
    exact (hm.from h₁.kept.toOnto).upTo (h₄.kept.trans h₅.kept)

/-- A call of `async` and an arrow function lie between their ends. -/
theorem asyncCallOrArrow_meets (hg : g.Sound text) (ctx : Context) (hs : s.Sound text)
    (hk : s.lexer.token.kind.isIdentifierName = true) :
    Meets text (asyncCallOrArrow g ctx) s (Made text Node.sketch s) := by
  refine .step rfl (.bind (takeIdentifier_meets hs hk) fun callee s₁ ⟨h₁, _⟩ => ?_)
  refine .bind (takeCoverInit_meets h₁.1.sound) fun outer s₂ h₂ => ?_
  have ht₂ := h₁.1.trans h₂.kept
  refine .bind (arrowCover_meets hg ctx h₂.sound) fun cover s₃ h₃ =>
    .step rfl (.ite (fun _ => ?_) fun _ => ?_)
  · refine .bind (setCoverInit_meets outer h₃.took.sound) fun _ s₄ h₄ => ?_
    exact coverArrow_meets hg ctx true ht₂.toOnto (h₃.same h₄)
  · refine .bind (checkCoverInit_meets h₃.took.sound) fun _ s₄ h₄ => ?_
    refine .bind (setCoverInit_meets outer h₄.sound) fun _ s₅ h₅ => .step rfl (.pure ?_)
    have hlast := h₄.kept.trans h₅.kept
    have ht := ht₂.trans (h₃.took.trans hlast).kept
    have hcallee := placed_upTo h₂.kept.toOnto h₁.2
    have hitems := placed_upTo hlast.toOnto h₃.items_placed
    exact ⟨ht, ht.node (placed_append ht₂.offset_le (h₃.took.trans hlast).toOnto hcallee hitems)⟩

/-- A name and an arrow function lie between their ends. -/
theorem nameOrArrow_makes (hg : g.Sound text) (ctx : Context) :
    Makes text Node.sketch (nameOrArrow g ctx) := by
  intro s hs
  refine .step rfl (.bind (identifier_makes ctx s hs) fun id s₁ h₁ =>
    .step rfl (.ite (fun _ => ?_) fun _ => ?_))
  · exact arrowFunction_meets hg ctx false h₁.1.toOnto (placed_singleParameter h₁.2)
  · exact .pure h₁

/-- What the word `async` starts lies between its ends. -/
theorem asyncPrimary_meets (hg : g.Sound text) (ctx : Context) (hs : s.Sound text)
    (hw : s.lexer.token.kind.isIdentifierName = true) :
    Meets text (asyncPrimary g ctx) s (Made text Node.sketch s) := by
  have hk := isOrdinary_of_isIdentifierName hw
  refine .step rfl (.step rfl (.ite (fun _ => nameOrArrow_makes hg ctx s hs) fun _ => ?_))
  refine .ite (fun _ => ?_) fun _ => .ite (fun _ => ?_) fun _ => .ite (fun _ => ?_) fun _ => ?_
  · refine .bind (advance_meets hs hk) fun _ s₁ h₁ => ?_
    exact .bind (functionDefinition_meets hg ctx true false h₁.1.toOnto) fun _ _ h => .pure h
  · refine .bind (advance_meets hs hk) fun _ s₁ h₁ => ?_
    refine .bind (identifier_makes _ s₁ h₁.1.sound) fun id s₂ h₂ => .step rfl ?_
    refine .require (unexpected_meets h₂.1.sound) fun _ => ?_
    exact arrowFunction_meets hg ctx true (h₁.1.trans h₂.1.kept).toOnto
      (placed_singleParameter (placed_from h₁.1.toOnto h₂.2))
  · exact asyncCallOrArrow_meets hg ctx hs hw
  · exact nameOrArrow_makes hg ctx s hs

/-- A private name is one token. -/
theorem privateNameIn_meets (ctx : Context) (hs : s.Sound text)
    (hk : s.lexer.token.kind = .privateName) :
    Meets text (privateNameIn ctx) s (Made text Node.sketch s) := by
  unfold privateNameIn
  refine .ite (fun _ => .step rfl ?_) fun _ => .step rfl (.cut (failHere_meets hs rfl))
  refine .refuse (unexpected_meets hs) fun _ => ?_
  exact .bind (takePrivateName_meets hs hk) fun _ _ h => .pure h

/-- A slash may be read again as a regular expression. -/
theorem rescanSlash_onto (hs : s.Sound text)
    (hk : s.lexer.token.kind = .mark .slash ∨ s.lexer.token.kind = .mark .slashAssign) :
    Onto text s { s with lexer := s.lexer.rescanSlash } ∧
      s.lexer.rescanSlash.token.kind = .regex := by
  have hstep := Place.Step.slash (p := s.place) hk
  refine ⟨⟨⟨hs, ⟨hstep.sound hs.place, hs.isSyntactic⟩, .single hstep⟩, List.suffix_rfl⟩, ?_⟩
  rw [Lexer.rescanSlash_eq hk]
  exact Lexer.kind_regexLiteral _

/-- An operand without operators lies between its ends. -/
theorem primary_makes {g : Grammar} (hg : g.Sound text) (ctx : Context) :
    Makes text Node.sketch (primary g ctx) := by
  intro s hs
  have hword : ∀ (w : Keyword) (make : Span → Expression),
      (∀ span, (make span).sketch = leaf span (span.IsWord w)) → s.lexer.token.kind = .word w →
      Meets text (do
        advance
        return make (← spanFrom s.offset)) s (Made text Node.sketch s) := by
    intro w make hmake hk
    refine .bind (advance_meets hs (by rw [hk]; rfl)) fun _ s₁ h₁ => .step rfl (.pure ⟨h₁.1, ?_⟩)
    obtain ⟨h₁, hstop, hm⟩ := h₁
    rw [hmake]
    refine h₁.owing ⟨_, hm, hk, ?_⟩ allPlaced_nil
    rw [hstop]
    rfl
  have hslash : s.lexer.token.kind = .mark .slash ∨ s.lexer.token.kind = .mark .slashAssign →
      Meets text (do
        modify fun s => { s with lexer := s.lexer.rescanSlash }
        return .regex (← takeRegex)) s (Made text Node.sketch s) := by
    intro hk
    obtain ⟨h₁, hk₁⟩ := rescanSlash_onto hs hk
    refine .step rfl (.bind (takeRegex_meets h₁.sound hk₁) fun _ _ h => .pure ?_)
    exact Made.from h₁ h
  refine .step rfl (.step rfl ?_)
  split
  · rename_i hk
    refine .bind (advance_meets hs (by rw [hk]; rfl)) fun _ s₁ h₁ => .step rfl (.pure ⟨h₁.1, ?_⟩)
    exact h₁.1.node allPlaced_nil
  · rename_i hk
    exact hword .nullKw .null (fun _ => rfl) hk
  · rename_i hk
    exact hword .trueKw (.boolean · true) (fun _ => rfl) hk
  · rename_i hk
    exact hword .falseKw (.boolean · false) (fun _ => rfl) hk
  · rename_i hk
    exact .bind (takeNumber_meets hs hk) fun _ _ h => .pure h
  · rename_i hk
    exact .bind (takeBigInt_meets hs hk) fun _ _ h => .pure h
  · rename_i hk
    exact .bind (takeString_meets hs hk) fun _ _ h => .pure h
  · rename_i hk
    exact hslash (Or.inl hk)
  · rename_i hk
    exact hslash (Or.inr hk)
  · rename_i hk
    exact .bind (takeRegex_meets hs hk) fun _ _ h => .pure h
  · rename_i hk
    exact .bind (templateLiteral_meets hg.toSound ctx false hs (by rw [hk]; rfl))
      fun _ _ h => .pure h
  · rename_i hk
    exact .bind (templateLiteral_meets hg.toSound ctx false hs (by rw [hk]; rfl))
      fun _ _ h => .pure h
  · exact parenthesizedOrArrow_makes hg.toSound ctx s hs
  · exact arrayLiteral_makes hg.toSound ctx s hs
  · exact objectLiteral_makes hg.toSound ctx s hs
  · exact .bind (functionDefinition_meets hg.toSound ctx false false (Kept.refl hs).toOnto)
      fun _ _ h => .pure h
  · exact .bind (classDefinition_makes hg ctx false s hs) fun _ _ h => .pure h
  · rename_i hk
    exact asyncPrimary_meets hg.toSound ctx hs (by rw [hk]; rfl)
  · rename_i hk
    exact privateNameIn_meets ctx hs hk
  · exact .ite (fun _ => nameOrArrow_makes hg.toSound ctx s hs) fun _ => unexpected_meets hs

end

end EcmaScript.Parser
