import EcmaScript.Proofs.Build.Primary
import EcmaScript.Proofs.Fit.Binding

/-!
# Primary expressions fit

What brings its own brackets suits the surroundings of its context. Expressions in parentheses
in front of an arrow have been read calmly, so that they suit surroundings with fewer rights
when they become parameters.

A prefixed operator can stand in front of a power only in parentheses, and then it does not
start where the operand starts.
-/

namespace EcmaScript

section

variable {P : Surroundings → Prop} {span : Span} {e : Expression}

/-- What is spread fits in brackets as its argument does by itself. -/
theorem SuitsLoosely.spread (h : Suits P e) : SuitsLoosely P (.spread span e) := by
  refine ⟨rfl, rfl, fun σ hσ => .node ⟨trivial, trivial, trivial⟩ trivial ?_ ?_⟩
  · simpa [Node.parts] using Node.admits_of_isWhole h.whole
  · simp only [Node.parts, List.mem_singleton, forall_eq]
    exact h.fits σ hσ

/-- A node that may hold spreads admits a part that may be one. -/
theorem SuitsLoosely.admits {form : Form} {x : Node form} {role : Role} (h : SuitsLoosely P e)
    (hx : x.holdsSpreads = true) : x.Admits ⟨role, e⟩ :=
  ⟨fun _ => hx, fun hl => absurd (h.unlinked.symm.trans hl) (by simp),
    fun hs => absurd (h.unsuper.symm.trans hs) (by simp)⟩

/-- An array fits where all of its elements do. -/
theorem Suits.array {elements : List (Option Expression)}
    (h : ∀ e, some e ∈ elements → SuitsLoosely P e) : Suits P (.array span elements) := by
  refine ⟨rfl, fun σ hσ => .node ⟨trivial, trivial, trivial⟩ trivial ?_ ?_⟩
  · simpa [Node.parts, List.reduceOption_mem_iff] using fun e he => (h e he).admits rfl
  · simp only [Node.parts, List.forall_mem_map, List.reduceOption_mem_iff]
    exact fun e he => (h e he).fits σ hσ

/-- A property whose value is not the function of a method. -/
theorem Suits.property {key : Node .propertyKey} {kind : PropertyKind} {isMethod : Bool}
    (hkey : Suits P key) (he : Suits P e) (hvalue : e.isMethodOf kind isMethod = false) :
    Suits P (.property span key e kind isMethod) := by
  refine .of_within rfl (fun _ _ => ⟨trivial, trivial, trivial⟩) trivial ?_
  simp only [Node.parts, List.forall_mem_cons]
  refine ⟨hkey.inner fun _ hσ => hσ, he.inner fun σ hσ => ?_, by simp⟩
  rwa [Node.within_property, hvalue, if_neg Bool.false_ne_true]

/-- A call of a base is a base, if `super` is called only where that is allowed. -/
theorem SuitsAsBase.call {arguments : List Expression} {optional : Bool} (he : SuitsAsBase P e)
    (hsuper : e.isSuper = true → ∀ σ, P σ → σ.HasSuperCall)
    (harguments : ∀ a ∈ arguments, SuitsLoosely P a) :
    SuitsAsBase P (.call span e arguments optional) := by
  refine ⟨rfl, fun σ hσ => .node ⟨trivial, trivial, fun hs => hsuper hs σ hσ⟩ he.unspread ?_ ?_⟩
  · exact fun _ _ => ⟨fun _ => rfl, fun _ => rfl, fun _ => rfl⟩
  · simp only [Node.parts, List.forall_mem_cons, List.forall_mem_map]
    exact ⟨he.fits σ hσ, fun a ha => (harguments a ha).fits σ hσ⟩

/-- A base without optional links may be constructed from. -/
theorem Suits.construct {arguments : List Expression} (he : SuitsAsBase P e)
    (hlinked : e.isLinked = false) (harguments : ∀ a ∈ arguments, SuitsLoosely P a) :
    Suits P (.construct span e arguments) := by
  refine ⟨rfl, fun σ hσ => .node ⟨trivial, trivial, trivial⟩ he.unspread ?_ ?_⟩
  · simp only [Node.parts, List.forall_mem_cons, List.forall_mem_map]
    refine ⟨⟨fun _ => rfl, fun hl => ?_, fun _ => rfl⟩, fun a ha => (harguments a ha).admits rfl⟩
    exact absurd (hlinked.symm.trans hl) (by simp)
  · simp only [Node.parts, List.forall_mem_cons, List.forall_mem_map]
    exact ⟨he.fits σ hσ, fun a ha => (harguments a ha).fits σ hσ⟩

end

namespace Parser

/-- An operand with a prefixed operator does not start at the state. -/
def Late (s : State) (a : Expression) : Prop :=
  a.isPrefixed = true → a.span.start ≠ s.offset + 1

/-- An arrow function is no operand with a prefixed operator. -/
theorem late_of_isArrow {a : Expression} (h : a.isArrow = true) (s : State) : Late s a := by
  cases a with
  | arrow | conciseArrow => exact fun hp => nomatch hp
  | _ => exact nomatch h

section

variable {text : String} {calm : Bool} {s : State} {g : Nested} {ctx : Context}

/-- What is known of the pieces of a template read so far, the last one first. -/
structure Pieces (P : Surroundings → Prop) (tagged : Bool)
    (a : List TemplateElement × List Expression) : Prop where
  tails : a.1.map (·.tail) = List.replicate a.2.length false
  cooked : tagged = false → ∀ q ∈ a.1, q.cooked.isSome = true
  suits : ∀ e ∈ a.2, Suits P e

/-- Only in a tagged template is a piece without a meaning. -/
theorem templateElement_ends (tagged : Bool) : Leaves text calm (templateElement tagged) s
    fun q => tagged = false → q.cooked.isSome = true := by
  refine .read rfl (.refuse failHere_ends fun hvalid => .pure fun htagged => ?_)
  rw [htagged] at hvalid
  simp only [Bool.not_false, Bool.and_true] at hvalid
  simp only [if_neg hvalid, Option.isSome_some]

/-- A template fits where its substitutions do; all its pieces have a value unless there is a tag.
-/
theorem templateLiteral_leaves (hg : g.Fits text) (ctx : Context) (tagged : Bool) :
    Leaves text calm (templateLiteral g ctx tagged) s fun a =>
      Suits (ctx.Allows calm) a ∧ (tagged = false → a.IsCooked) := by
  refine .read rfl (.bind (P := fun a _ => a.1.map (·.tail) =
      List.replicate a.2.length false ++ [true] ∧
      (tagged = false → ∀ q ∈ a.1, q.cooked.isSome = true) ∧
      ∀ e ∈ a.2, Suits (ctx.Allows calm) e)
    ((iterate_ends (I := fun a _ => Pieces (ctx.Allows calm) tagged a) ?_ _).imp fun _ _ h =>
      h ⟨rfl, by simp, by simp⟩) fun a s₁ _ => ?_)
  · rintro ⟨quasis, expressions⟩ s _
    refine .bind (templateElement_ends tagged) fun q s₁ _ => .skip advance_ends fun _ s₂ _ => ?_
    refine .ite (fun htail => .pure fun hq h => ⟨?_, fun ht => ?_, ?_⟩) fun htail => ?_
    · simp [h.tails, htail]
    · intro x hx
      rcases List.mem_cons.mp (List.mem_reverse.mp hx) with rfl | hx
      · exact hq ht
      · exact h.cooked ht x hx
    · simpa using h.suits
    · refine .bind (hg.expression ctx.allowIn) fun e s₃ _ => .read rfl ?_
      refine .require unexpected_ends fun hk => .of_sound fun hs₃ => ?_
      have honto := (rescanTemplate_onto hs₃ (eq_of_beq hk)).1
      refine .step rfl (fun _ => honto.sound) ⟨honto.offset_le, id⟩ (.pure fun he hq h => ?_)
      refine ⟨?_, fun ht => List.forall_mem_cons.mpr ⟨hq ht, h.cooked ht⟩,
        List.forall_mem_cons.mpr ⟨he, h.suits⟩⟩
      simp [h.tails, htail, List.replicate_succ]
  · refine .read rfl (.pure fun h => ⟨?_, h.2.1⟩)
    exact .of_shaped rfl (fun _ _ => ⟨trivial, trivial, trivial⟩) h.1 (fun _ _ => rfl)
      (by simpa [Node.parts] using h.2.2)

/-- What fits may be spread in a list. -/
theorem spreadable_leaves {P : Surroundings → Prop} {p : Parser Expression}
    (hp : ∀ s, Leaves text calm p s (Suits P)) :
    Leaves text calm (spreadable p) s (SuitsLoosely P) := by
  refine .read rfl (.eat (fun s₁ _ => ?_) fun _ => (hp s).imp fun _ _ h => h.loosely)
  exact .bind (hp s₁) fun a _ _ => .read rfl (.pure SuitsLoosely.spread)

/-- All elements of an array fit, spread or not. -/
theorem arrayElements_leaves (hg : g.Fits text) (ctx : Context) (array : Nat) :
    Leaves text calm (arrayElements g ctx array) s fun as =>
      ∀ e, some e ∈ as → SuitsLoosely (ctx.Allows calm) e := by
  refine (many_ends (R := fun a => ∀ e, a = some e → SuitsLoosely (ctx.Allows calm) e)
    fun s₁ _ => .read rfl ?_).imp fun as _ h e he => h _ he e rfl
  have hrest : ∀ (e : Expression) (s : State), Leaves text calm (do
      unless ← isAt (.mark .closeBracket) do expect (.mark .comma)
      return some (some e)) s fun item => SuitsLoosely (ctx.Allows calm) e →
        ∀ a ∈ item, ∀ x, a = some x → SuitsLoosely (ctx.Allows calm) x := by
    intro e s
    refine .read rfl (.unless expect_ends fun _ _ _ => .pure ?_)
    rintro he _ ⟨⟩ _ ⟨⟩
    exact he
  split
  · exact .none
  · exact .skip advance_ends fun _ _ _ => .some (by simp)
  · refine .bind (spreadable_leaves (hg.assignment calm ctx)) fun e s₁ _ => ?_
    refine .read rfl (.read rfl (.ite (fun _ => .read rfl ?_) fun _ => hrest e s₁))
    exact .remember rfl rfl rfl rfl rfl (hrest e _)

/-- An array literal fits its context. -/
theorem arrayLiteral_leaves (hg : g.Fits text) (ctx : Context) :
    Leaves text calm (arrayLiteral g ctx) s fun a => Suits (ctx.Allows calm) a ∧ Late s a := by
  refine .read rfl (.skip expect_ends fun _ _ _ => ?_)
  refine .bind (arrayElements_leaves hg ctx.allowIn _) fun elements _ _ => ?_
  exact .skip expect_ends fun _ _ _ => .read rfl (.pure fun h => ⟨.array h, nofun⟩)

/-- A name alone fits as a member, with a default or without one. -/
theorem shorthandMember_leaves (hg : g.Fits text) (ctx : Context) (start : Nat)
    (name : Identifier) :
    Leaves text calm (shorthandMember g ctx start name) s (Suits (ctx.Allows calm)) := by
  refine .read rfl (.ite (fun _ => .read rfl (.remember rfl rfl rfl rfl rfl ?_)) fun _ => ?_)
  · refine .skip advance_ends fun _ _ _ => .bind (hg.value ctx) fun e _ _ => .read rfl ?_
    exact .pure fun he => .of_parts rfl (by simpa [Node.parts] using he)
  · exact .read rfl (.pure (.leaf rfl rfl))

/-- A property with its key fits, method or not. -/
theorem objectProperty_leaves (hg : g.Fits text) (ctx : Context) :
    Leaves text calm (objectProperty g ctx) s (Suits (ctx.Allows calm)) := by
  refine .read rfl (.skip (modifiers_ends _) fun m _ _ => .read rfl ?_)
  refine .bind (propertyKey_leaves hg ctx false) fun key _ _ => .read rfl ?_
  refine .ite (fun _ => ?_) fun _ => .ite (fun _ => unexpected_ends) fun _ =>
    .eat (fun _ _ => ?_) ?_
  · refine .bind (methodFunction_leaves hg ctx _ _ _ _) fun f _ _ => .read rfl (.pure ?_)
    refine fun hf hkey => .of_within rfl (fun _ _ => ⟨trivial, trivial, trivial⟩) trivial ?_
    simp only [Node.parts, List.forall_mem_cons]
    refine ⟨hkey.inner fun _ hσ => hσ, .of_parts rfl ?_, by simp⟩
    have hmethod : (Node.functionExpression f).isMethodOf m.accessor (m.accessor == .init) =
        true := by
      cases m.accessor <;> rfl
    simp only [Node.parts, List.mem_singleton, forall_eq]
    refine hf.inner fun σ hσ => ?_
    have hwithin : ctx.Allows calm (.objectMethod :: σ) := hσ.cons rfl
    rw [Node.within_property, if_pos hmethod]
    exact hwithin.opens_method _ _ (Or.inl rfl) (by simp)
  · refine .bind (hg.assignment calm ctx _) fun e _ _ => .read rfl (.pure fun he hkey => ?_)
    exact .property hkey he (by cases e <;> rfl)
  · refine fun _ => .bind (shorthandName_leaves ctx _ _ key) fun name _ _ => ?_
    exact (shorthandMember_leaves hg ctx _ name).imp fun _ _ h _ _ => h

/-- A member of an object literal fits, spread or not. -/
theorem objectMember_leaves (hg : g.Fits text) (ctx : Context) :
    Leaves text calm (objectMember g ctx) s (Suits (ctx.Allows calm)) := by
  refine .read rfl (.eat (fun _ _ => ?_) fun _ => objectProperty_leaves hg ctx)
  refine .bind (hg.assignment calm ctx _) fun e _ _ => .read rfl (.pure fun he => ?_)
  exact .of_parts rfl (by simpa [Node.parts] using he)

/-- An object literal fits its context. -/
theorem objectLiteral_leaves (hg : g.Fits text) (ctx : Context) :
    Leaves text calm (objectLiteral g ctx) s fun a => Suits (ctx.Allows calm) a ∧ Late s a := by
  refine .read rfl (.skip expect_ends fun _ _ _ => ?_)
  refine .bind (commaList_ends fun s => objectMember_leaves hg ctx.allowIn) fun members _ _ => ?_
  refine .skip expect_ends fun _ _ _ => .read rfl (.pure fun hmembers => ⟨.of_parts rfl ?_, nofun⟩)
  simpa [Node.parts] using hmembers

/-- An arrow comes next, on the same line. -/
def State.AtArrow (s : State) : Prop :=
  (s.lexer.token.kind == .mark .arrow && !s.lexer.token.afterLineBreak) = true

/-- What stands in parentheses fits item by item, before it is known what they are. -/
theorem coverParenthesized_leaves (hg : g.Fits text) (calm : Bool) (ctx : Context) :
    Leaves text calm (coverParenthesized g ctx) s fun cover =>
      ∀ e ∈ cover.items, SuitsLoosely (ctx.Allows calm) e := by
  refine .read rfl (.skip expect_ends fun _ _ _ => .bind (P := fun a _ =>
    ∀ e ∈ a.1, SuitsLoosely (ctx.Allows calm) e) ((iterate_ends
      (I := fun a _ => ∀ e ∈ a.1, SuitsLoosely (ctx.Allows calm) e) ?_ _).imp fun _ _ h =>
      h (by simp)) fun a _ _ => .skip expect_ends fun _ _ _ => .read rfl (.pure id))
  rintro ⟨items, trailingComma⟩ s _
  refine .read rfl (.ite (fun _ => .pure fun h e he => h e (by simpa using he)) fun _ => ?_)
  refine .bind (spreadable_leaves (hg.assignment calm ctx.allowIn)) fun item _ _ => .read rfl ?_
  refine .ite (fun _ => .pure fun hitem h e he => ?_) fun _ => .skip expect_ends fun _ _ _ => ?_
  · exact List.forall_mem_cons.mpr ⟨hitem, h⟩ e (List.mem_reverse.mp he)
  · refine .read rfl (.ite (fun _ => .read rfl (.read rfl ?_)) fun _ => .read rfl ?_)
    · exact .pure fun hitem h => List.forall_mem_cons.mpr ⟨hitem, h⟩
    · exact .pure fun hitem h => List.forall_mem_cons.mpr ⟨hitem, h⟩

/-- In front of an arrow, expressions in parentheses have been read calmly. -/
theorem arrowCover_ends (hg : g.Fits text) (ctx : Context) :
    Ends text calm (arrowCover g ctx) s fun cover s' =>
      (∀ e ∈ cover.items, SuitsLoosely (ctx.Allows calm) e) ∧
        (s'.AtArrow → ∀ e ∈ cover.items, SuitsLoosely (ctx.Allows true) e) := by
  refine Runs.of_sound fun hs => Runs.read (a := s) rfl (Runs.step rfl ?_ ?_)
  · exact fun hs => ⟨hs.place, fun _ hf => nomatch hf⟩
  · refine Runs.bind (Ends.runs fun calm => coverParenthesized_leaves hg calm ctx)
      fun cover s₁ h₁ => Runs.read (a := s₁) rfl (Runs.step rfl (fun hs₁ => ?_) ?_)
    · refine ⟨hs₁.place, fun fault hf => ?_⟩
      rcases Option.or_eq_some_iff.mp hf with hf | ⟨_, hf⟩
      · exact hs.isSyntactic fault hf
      · exact hs₁.isSyntactic fault hf
    · have honward : Onward s { s₁ with suspension := s.suspension.or s₁.suspension } :=
        ⟨h₁.1.offset_le, fun hn => (Option.or_eq_none_iff.mp hn).1⟩
      have hitems : State.Calm calm { s₁ with suspension := s.suspension.or s₁.suspension } →
          ∀ e ∈ cover.items, SuitsLoosely (ctx.Allows calm) e := fun hc =>
        h₁.2 calm fun hcalm => (Option.or_eq_none_iff.mp (hc hcalm)).2
      cases hsuspension : s₁.suspension with
      | none =>
        rw [hsuspension] at honward hitems
        exact Runs.pure ⟨honward, fun hc => ⟨hitems hc, fun _ => h₁.2 true fun _ => hsuspension⟩⟩
      | some fault =>
        rw [hsuspension] at honward hitems
        refine Runs.read rfl (Runs.ite (fun _ => Runs.error rfl) fun harrow => ?_)
        exact Runs.pure ⟨honward, fun hc => ⟨hitems hc, fun ha => absurd ha harrow⟩⟩

/-- Items that fit without suspensions of the outer function become parameters of an arrow function
that fits. -/
theorem coverArrow_leaves (hg : g.Fits text) (ctx : Context) (start : Nat)
    (cover : Cover.Parenthesized) (isAsync : Bool) :
    Leaves text calm (coverArrow g ctx start cover isAsync) s fun a =>
      (∀ e ∈ cover.items, SuitsLoosely (ctx.Allows true) e) →
        a.isArrow = true ∧ Suits (ctx.Allows calm) a := by
  have hget : ∀ notes, Cover.Gets (cover.toParameters notes) fun params =>
      (∀ e ∈ cover.items, SuitsLoosely (ctx.Allows true) e) → Suits (ctx.Allows true) params :=
    fun notes params hp hitems => cover.toParameters_suits notes hitems params hp
  refine .read (a := s) rfl (.bind (orFail_ends (hget _)) fun params _ _ => ?_)
  exact (arrowFunction_leaves hg ctx start params isAsync).imp fun _ _ h hparams hitems =>
    h (hparams hitems)

/-- Items that fit become an expression that does. -/
theorem coverExpression_leaves (P : Surroundings → Prop) (cover : Cover.Parenthesized) :
    Leaves text calm (coverExpression cover) s fun e =>
      ((∀ e ∈ cover.items, SuitsLoosely P e) → Suits P e) ∧ cover.toExpression = .ok e := by
  refine .bind (orFail_ends (R := fun e => ((∀ e ∈ cover.items, SuitsLoosely P e) → Suits P e) ∧
    cover.toExpression = .ok e) fun e he => ⟨fun h => cover.toExpression_suits h e he, he⟩)
    fun e _ _ => .ite (fun _ => .remember rfl rfl rfl rfl rfl (.pure id)) fun _ => .pure id

/-- Parentheses fit their context, be they parameters or an expression. -/
theorem parenthesizedOrArrow_leaves (hg : g.Fits text) (ctx : Context) :
    Leaves text calm (parenthesizedOrArrow g ctx) s fun a =>
      Suits (ctx.Allows calm) a ∧ Late s a := by
  refine .read rfl (.remember rfl rfl rfl rfl rfl ?_)
  refine .bind ((arrowCover_ends hg ctx).and_meets fun hs => arrowCover_meets hg.sound ctx hs)
    fun cover s₂ _ => .read rfl (.ite (fun harrow => ?_) fun _ => ?_)
  · refine .remember rfl rfl rfl rfl rfl ((coverArrow_leaves hg ctx _ cover false).imp ?_)
    intro a _ h hcover
    obtain ⟨ha, hsuits⟩ := h (hcover.1.2 harrow)
    exact ⟨hsuits, late_of_isArrow ha s⟩
  · refine .bind (coverExpression_leaves (ctx.Allows calm) cover) fun e _ _ => ?_
    refine .firm checkCoverInit_ends fun _ _ _ _ => .remember rfl rfl rfl rfl rfl (.pure ?_)
    exact fun he hcover => ⟨he.1 hcover.1.1, fun _ => hcover.2.start_ne he.2⟩

/-- A call of `async` fits its context, and so does an arrow function that begins like one. -/
theorem asyncCallOrArrow_leaves (hg : g.Fits text) (ctx : Context) :
    Leaves text calm (asyncCallOrArrow g ctx) s fun a =>
      Suits (ctx.Allows calm) a ∧ Late s a := by
  refine .read rfl (.skip (takeAs_ends fun _ => trivial) fun callee _ _ => ?_)
  refine .remember rfl rfl rfl rfl rfl (.bind (arrowCover_ends hg ctx) fun cover _ _ => ?_)
  refine .read rfl (.ite (fun harrow => ?_) fun _ => ?_)
  · refine .remember rfl rfl rfl rfl rfl ((coverArrow_leaves hg ctx _ cover true).imp ?_)
    intro a _ h hcover
    obtain ⟨ha, hsuits⟩ := h (hcover.2 harrow)
    exact ⟨hsuits, late_of_isArrow ha s⟩
  · refine .firm checkCoverInit_ends fun _ _ _ _ => .remember rfl rfl rfl rfl rfl
      (.read rfl (.pure ?_))
    have hcallee : Suits (ctx.Allows calm) (.reference callee) := .leaf rfl rfl
    exact fun hcover => ⟨(hcallee.asBase.call nofun hcover.1).suits rfl rfl, nofun⟩

/-- A name fits its context, and so does an arrow function of it. -/
theorem nameOrArrow_leaves (hg : g.Fits text) (ctx : Context) :
    Leaves text calm (nameOrArrow g ctx) s fun a => Suits (ctx.Allows calm) a ∧ Late s a := by
  refine .read rfl (.skip (identifier_ends ctx) fun id _ _ => .read rfl (.ite (fun _ => ?_) ?_))
  · refine (arrowFunction_leaves hg ctx _ (singleParameter id) false).imp fun a _ h => ?_
    obtain ⟨ha, hsuits⟩ := h (suits_singleParameter _ id)
    exact ⟨hsuits, late_of_isArrow ha s⟩
  · exact fun _ => .pure ⟨.leaf rfl rfl, nofun⟩

/-- A function fits as an expression. -/
theorem functionExpression_leaves (hg : g.Fits text) (ctx : Context) (start : Nat)
    (isAsync : Bool) {s₀ : State} :
    Leaves text calm
      (do return .functionExpression (← functionDefinition g ctx start isAsync false))
      s fun a => Suits (ctx.Allows calm) a ∧ Late s₀ a := by
  refine .bind (functionDefinition_leaves hg ctx _ _ _) fun f _ _ => .pure fun hf => ⟨?_, nofun⟩
  exact .of_parts rfl (by simpa [Node.parts] using hf)

/-- Whatever begins with `async` fits its context. -/
theorem asyncPrimary_leaves (hg : g.Fits text) (ctx : Context) :
    Leaves text calm (asyncPrimary g ctx) s fun a => Suits (ctx.Allows calm) a ∧ Late s a := by
  refine .read rfl (.read rfl (.ite (fun _ => nameOrArrow_leaves hg ctx) fun _ => ?_))
  refine .ite (fun _ => ?_) fun _ => .ite (fun _ => ?_) fun _ => .ite (fun _ => ?_) fun _ => ?_
  · exact .skip advance_ends fun _ _ _ => functionExpression_leaves hg ctx _ true
  · refine .skip advance_ends fun _ _ _ => .skip (identifier_ends _) fun id _ _ => .read rfl ?_
    refine .require unexpected_ends fun _ => ?_
    refine (arrowFunction_leaves hg ctx _ (singleParameter id) true).imp fun a _ h => ?_
    obtain ⟨ha, hsuits⟩ := h (suits_singleParameter _ id)
    exact ⟨hsuits, late_of_isArrow ha s⟩
  · exact asyncCallOrArrow_leaves hg ctx
  · exact nameOrArrow_leaves hg ctx

/-- A private name in front of `in` fits where classes have declared it. -/
theorem privateNameIn_leaves (ctx : Context) :
    Leaves text calm (privateNameIn ctx) s fun a => Suits (ctx.Allows calm) a ∧ Late s a := by
  unfold privateNameIn
  refine .ite (fun hclass => .read rfl ?_) fun _ => .read rfl (.cut failHere_ends)
  refine .refuse unexpected_ends fun _ => .skip (takeAs_ends fun _ => trivial) fun _ _ _ => ?_
  refine .pure ⟨.of_shaped rfl (fun σ hσ => ?_) trivial (fun _ _ => rfl)
    (by simp [Node.parts]), nofun⟩
  exact ⟨trivial, trivial, hσ.classes hclass⟩

/-- Every primary expression fits its context. -/
theorem primary_leaves {g : Grammar} (hg : g.Fits text calm) (ctx : Context) :
    Leaves text calm (primary g ctx) s fun a => Suits (ctx.Allows calm) a ∧ Late s a := by
  have htemplate : Leaves text calm (do return .template (← templateLiteral g.toNested ctx false)) s
      fun a => Suits (ctx.Allows calm) a ∧ Late s a := by
    refine .bind (templateLiteral_leaves hg.nested ctx false) fun a _ _ => .pure fun ha =>
      ⟨?_, nofun⟩
    exact .of_shaped rfl (fun _ _ => ⟨trivial, trivial, trivial⟩) (ha.2 rfl) (fun _ _ => rfl)
      (by simpa [Node.parts] using ha.1)
  have hregex : s.lexer.token.kind = .mark .slash ∨ s.lexer.token.kind = .mark .slashAssign →
      Leaves text calm (do
        modify fun s => { s with lexer := s.lexer.rescanSlash }
        return .regex (← takeRegex)) s fun a => Suits (ctx.Allows calm) a ∧ Late s a := by
    refine fun hk => .of_sound fun hs => ?_
    have honto := (rescanSlash_onto hs hk).1
    refine .step rfl (fun _ => honto.sound) ⟨honto.offset_le, id⟩ ?_
    exact .skip (takeAs_ends fun _ => trivial) fun _ _ _ => .pure ⟨.leaf rfl rfl, nofun⟩
  refine .read rfl (.read rfl ?_)
  split
  · exact .skip advance_ends fun _ _ _ => .read rfl (.pure ⟨.leaf rfl rfl, nofun⟩)
  · exact .skip advance_ends fun _ _ _ => .read rfl (.pure ⟨.leaf rfl rfl, nofun⟩)
  · exact .skip advance_ends fun _ _ _ => .read rfl (.pure ⟨.leaf rfl rfl, nofun⟩)
  · exact .skip advance_ends fun _ _ _ => .read rfl (.pure ⟨.leaf rfl rfl, nofun⟩)
  · exact .skip (takeAs_ends fun _ => trivial) fun _ _ _ => .pure ⟨.leaf rfl rfl, nofun⟩
  · exact .skip (takeAs_ends fun _ => trivial) fun _ _ _ => .pure ⟨.leaf rfl rfl, nofun⟩
  · exact .skip (takeAs_ends fun _ => trivial) fun _ _ _ => .pure ⟨.leaf rfl rfl, nofun⟩
  · rename_i hk
    exact hregex (Or.inl hk)
  · rename_i hk
    exact hregex (Or.inr hk)
  · exact .skip (takeAs_ends fun _ => trivial) fun _ _ _ => .pure ⟨.leaf rfl rfl, nofun⟩
  · exact htemplate
  · exact htemplate
  · exact parenthesizedOrArrow_leaves hg.nested ctx
  · exact arrayLiteral_leaves hg.nested ctx
  · exact objectLiteral_leaves hg.nested ctx
  · exact functionExpression_leaves hg.nested ctx _ false
  · refine .bind (classDefinition_leaves hg ctx false) fun a _ _ => .pure fun ha => ⟨?_, nofun⟩
    exact .of_parts rfl (by simpa [Node.parts] using ha)
  · exact asyncPrimary_leaves hg.nested ctx
  · exact privateNameIn_leaves ctx
  · exact .ite (fun _ => nameOrArrow_leaves hg.nested ctx) fun _ => unexpected_ends

end

end Parser

end EcmaScript
