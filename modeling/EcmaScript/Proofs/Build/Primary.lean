import EcmaScript.Proofs.Build.Class
import EcmaScript.Proofs.Parser.Primary

/-!
# Building primary expressions

What brings its own brackets encloses what stands in them. Arrays and objects leave defaults
open for a pattern to claim; parentheses do not, since what stands in them either becomes
parameters or is no pattern at all.

An arrow function that starts at the first token goes on up to the last one. One that stands
in parentheses starts behind them, so it can be told from the former.
-/

namespace EcmaScript.Parser

open Budget

/-- An arrow function that starts where the parser started ends where the parser ended. -/
def Finished (s : State) (e : Expression) (s' : State) : Prop :=
  e.isArrow = true → e.span.start = s.offset + 1 → Position.offset e.span.stop = s'.consumed

section

variable {text : String} {s : State} {g : Nested} {n : Nat} {b : Budget} {t : Bool}

/-- A piece of a template leaves nothing to be built. -/
theorem templateElement_gives (tagged : Bool) :
    Gives text (templateElement tagged) s fun _ _ => True :=
  .read rfl (.refuse failHere_gives fun _ => .pure trivial)

/-- A template encloses its expressions. -/
theorem templateLiteral_gives (hg : g.Builds text n) (ctx : Context) (tagged : Bool) :
    Gives text (templateLiteral g ctx tagged) s fun a _ =>
      Encloses n a ∧ a.kind? = some .template := by
  refine .read rfl (.bind (iterate_gives (I := fun a _ => ∀ e ∈ a.2, Settled (level n) e)
    (Q := fun a _ => ∀ e ∈ a.2, Settled (level n) e) ?_ (by simp)) fun a s₁ _ h₁ => ?_)
  · rintro ⟨quasis, expressions⟩ s hexpressions
    refine .skip (templateElement_gives tagged) fun element s₁ _ => ?_
    refine .skip advance_gives fun _ s₂ _ => ?_
    refine .ite (fun _ => .pure fun e he => hexpressions e (by simpa using he)) fun _ => ?_
    refine .bind (hg.expression _) fun e s₃ _ h₃ => .read rfl ?_
    refine .require unexpected_gives fun hk => .step rfl (fun hs => ?_) id (.pure ?_)
    · exact (rescanTemplate_onto hs (eq_of_beq hk)).1.sound
    · intro x hx
      rcases List.mem_cons.mp hx with rfl | hx
      · exact h₃
      · exact hexpressions x hx
  · exact .read rfl (.pure ⟨⟨rfl, .unruled rfl, by simpa [Node.parts] using h₁⟩, rfl⟩)

/-- A spread leaves open what its argument leaves open. -/
theorem spreadable_gives {p : Parser Expression} {T : State → Bool}
    (hp : ∀ s, Gives text p s fun a s' => WellBuilt b (T s') a) :
    Gives text (spreadable p) s fun a s' => WellBuilt b (T s') a := by
  refine .read rfl (.eat (fun s₁ _ => ?_) (hp s))
  refine .bind (hp s₁) fun a s₂ _ h₂ => .read rfl (.pure ?_)
  exact .of_plain rfl (.unruled rfl) (by simp [Node.kind?])
    (by simpa [Node.parts, Node.kind?] using h₂)

/-- The elements of an array leave open what is open in one of them. -/
theorem arrayElements_gives (hg : g.Builds text n) (ctx : Context) (array : Nat) :
    Gives text (arrayElements g ctx array) s fun as s' =>
      ∀ e, some e ∈ as → Open (level n) e s' := by
  refine (many_gives (P := fun a s => ∀ e, a = some e → Open (level n) e s)
    (fun a s s' hl h e he => (h e he).later _ _ _ hl) fun s => .read rfl ?_).imp
    fun as _ h e he => h _ he e rfl
  have hrest : ∀ (e : Expression) (s : State), Open (level n) e s → Gives text (do
      unless ← isAt (.mark .closeBracket) do expect (.mark .comma)
      return some (some e)) s fun item s' =>
        ∀ a, item = some a → ∀ x, a = some x → Open (level n) x s' := by
    intro e s he
    refine .read rfl (.ite (fun _ => .pure ?_) fun _ => .skip expect_gives fun _ s₁ hl => .pure ?_)
    · rintro _ ⟨⟩ _ ⟨⟩
      exact he
    · rintro _ ⟨⟩ _ ⟨⟩
      exact he.later _ _ _ hl
  split
  · exact .pure (by simp)
  · exact .skip advance_gives fun _ _ _ => .pure (by simp)
  · refine .bind (spreadable_gives (T := fun s => s.coverInit.isNone) (hg.assignment ctx))
      fun e s₁ _ h₁ => .read rfl (.read rfl (.ite (fun _ => ?_) fun _ => hrest e s₁ h₁))
    exact .read rfl (.step rfl (State.Sound.remember rfl rfl rfl rfl) id (hrest e _ h₁))

/-- An array leaves open what its elements leave open. -/
theorem arrayLiteral_gives (hg : g.Builds text n) (ctx : Context) :
    Gives text (arrayLiteral g ctx) s fun a s' => Open (simple n) a s' ∧ Finished s a s' := by
  refine .read rfl (.skip expect_gives fun _ s₁ _ => ?_)
  refine .bind (arrayElements_gives hg _ _) fun elements s₂ _ h₂ => ?_
  refine .skip expect_gives fun _ s₃ hl => .read rfl (.pure ⟨?_, nofun⟩)
  refine .nested (n := n) rfl (.unruled rfl) (level_le_simple n) ?_ ?_
  · rintro _ ⟨⟩
    exact lt_simple n (by simp) (by simp)
  · simpa [Node.parts, List.reduceOption_mem_iff] using fun e he => (h₂ e he).later _ _ _ hl

/-- A default is open: the state has one that is unclaimed behind it. -/
theorem shorthandMember_gives (hg : g.Builds text n) (ctx : Context) (start : Nat)
    {name : Identifier} (hname : name.scope = 0) :
    Gives text (shorthandMember g ctx start name) s fun a s' => Open (level n) a s' := by
  have horderly : ∀ (span : Span) (init : Option Expression),
      (Node.shorthand span name init).Orderly :=
    fun _ _ => ⟨rfl, trivial, List.forall_mem_singleton.mpr hname, rfl⟩
  refine .read rfl (.ite (fun _ => .read rfl ?_) fun _ => .read rfl (.pure ?_))
  · refine .step rfl (State.Sound.remember rfl rfl rfl rfl) (fun hn => ?_) ?_
    · exact (Option.or_eq_none_iff.mp hn).1
    · refine .skip advance_gives fun _ s₂ hl₂ => .bind (hg.value ctx) fun value s₃ hl₃ h₃ => ?_
      refine .read rfl (.pure ⟨.node (by simp [Node.kind?]) (fun _ => ?_) (fun ho => ?_) ?_,
        (horderly _ _).proper ?_⟩)
      · rw [← Bool.not_eq_true, Option.isNone_iff_eq_none]
        intro hn
        exact nomatch (Option.or_eq_none_iff.mp (hl₂ (hl₃ hn))).2
      · obtain ⟨_, ⟨⟩, _⟩ := ho
      · simpa [Node.parts, Node.kind?] using h₃.built
      · simpa [Node.parts] using h₃.proper
  · exact .wrapped rfl (horderly _ _) rfl (by simp [Node.parts])

/-- A property leaves open what its value leaves open. The value of an accessor is a function with
the parameters of one. -/
theorem objectProperty_gives (hg : g.Builds text n) (hb : Affords n b) (ctx : Context) :
    Gives text (objectProperty g ctx) s fun a s' => Open b a s' := by
  refine .read rfl (.skip (modifiers_gives _) fun m s₁ _ => .read rfl ?_)
  refine .bind (propertyKey_gives hg ctx false) fun key s₂ _ h₂ => .read rfl ?_
  have hkey := h₂.le hb.1
  refine .ite (fun _ => ?_) fun _ => .ite (fun _ => unexpected_gives) fun _ =>
    .eat (fun s₃ _ => ?_) ?_
  · refine .bind (methodFunction_gives hg _ _ _ _ _) fun f s₃ _ h₃ => .read rfl (.pure ?_)
    obtain ⟨hf, haccessor, -⟩ := h₃
    have hvalue : Settled b (Node.functionExpression f) :=
      .unruled rfl (by simpa [Node.parts] using hb.settled hf)
    refine .wrapped rfl ⟨rfl, fun _ => ⟨f, rfl, haccessor⟩, by simp [Node.stamps], rfl⟩ rfl ?_
    simpa [Node.parts] using ⟨hkey, hvalue⟩
  · refine .bind (hg.assignment ctx s₃) fun value s₄ _ h₄ => .read rfl (.pure ?_)
    refine .of_plain rfl ⟨rfl, fun hkind => absurd rfl hkind, by simp [Node.stamps], rfl⟩
      (by simp [Node.kind?]) ?_
    simpa [Node.parts, Node.kind?] using ⟨hkey.loosen, h₄.le hb.1⟩
  · refine .bind (shorthandName_gives ctx _ _ h₂) fun name s₃ _ hname => ?_
    exact (shorthandMember_gives hg ctx _ hname).imp fun _ _ h => h.le hb.1

/-- A member of an object leaves open what its value leaves open. -/
theorem objectMember_gives (hg : g.Builds text n) (hb : Affords n b) (ctx : Context) :
    Gives text (objectMember g ctx) s fun a s' => Open b a s' := by
  refine .read rfl (.eat (fun s₁ _ => ?_) (objectProperty_gives hg hb ctx))
  refine .bind (hg.assignment ctx s₁) fun a s₂ _ h₂ => .read rfl (.pure ?_)
  refine .of_plain rfl (.unruled rfl) (by simp [Node.kind?]) ?_
  simpa [Node.parts, Node.kind?] using h₂.le hb.1

/-- An object leaves open what its members leave open. -/
theorem objectLiteral_gives (hg : g.Builds text n) (ctx : Context) :
    Gives text (objectLiteral g ctx) s fun a s' => Open (simple n) a s' ∧ Finished s a s' := by
  have hb : Affords n ((simple n).spend (some .object)) := by
    refine ⟨level_le_spend (level_le_simple n) ?_, ?_⟩
    · rintro _ ⟨⟩
      exact lt_simple n (by simp) (by simp)
    · rw [spend_of_ne _ (by simp)]
      exact lt_simple n (by simp) (by simp)
  refine .read rfl (.skip expect_gives fun _ s₁ _ => ?_)
  refine .bind (commaList_gives (P := Open _) Open.later fun s => objectMember_gives hg hb _)
    fun members s₂ _ h₂ => .skip expect_gives fun _ s₃ hl => .read rfl ?_
  refine .pure ⟨.of_plain rfl (.unruled rfl) ?_ ?_, nofun⟩
  · rintro _ ⟨⟩
    exact Nat.zero_lt_of_lt (lt_simple n (by simp) (by simp))
  · simpa [Node.parts, Node.kind?] using fun m hm => (h₂ m hm).later _ _ _ hl

/-- The expressions in parentheses leave open what is open in one of them. -/
theorem coverParenthesized_gives (hg : g.Builds text n) (ctx : Context) :
    Gives text (coverParenthesized g ctx) s fun cover s' =>
      ∀ e ∈ cover.items, Open (level n) e s' := by
  refine .read rfl (.skip expect_gives fun _ s₁ _ => .bind (iterate_gives
    (I := fun a s => ∀ e ∈ a.1, Open (level n) e s)
    (Q := fun a s => ∀ e ∈ a.1, Open (level n) e s) ?_ (by simp)) fun a s₂ _ h₂ => ?_)
  · rintro ⟨items, trailingComma⟩ s hitems
    refine .read rfl (.ite (fun _ => .pure fun e he => hitems e (by simpa using he)) fun _ => ?_)
    refine .bind (spreadable_gives (T := fun s => s.coverInit.isNone) (hg.assignment _))
      fun item s₁ hl₁ h₁ => .read rfl ?_
    have hmore : ∀ e ∈ item :: items, Open (level n) e s₁ := by
      rw [List.forall_mem_cons]
      exact ⟨h₁, fun e he => (hitems e he).later _ _ _ hl₁⟩
    refine .ite (fun _ => .pure fun e he => hmore e (List.mem_reverse.mp he)) fun _ => ?_
    refine .skip expect_gives fun _ s₂ hl₂ => .read rfl ?_
    have hnext : ∀ e ∈ item :: items, Open (level n) e s₂ :=
      fun e he => (hmore e he).later _ _ _ hl₂
    exact .ite (fun _ => .read rfl (.read rfl (.pure hnext))) fun _ => .read rfl (.pure hnext)
  · refine .skip expect_gives fun _ s₃ hl => .read rfl (.pure ?_)
    exact fun e he => (h₂ e he).later _ _ _ hl

/-- What may become the parameters of an arrow function is open until it does. -/
theorem arrowCover_gives (hg : g.Builds text n) (ctx : Context) :
    Gives text (arrowCover g ctx) s fun cover s' => ∀ e ∈ cover.items, Open (level n) e s' := by
  refine Runs.of_sound fun hs => Runs.read (a := s) rfl (Runs.step rfl ?_ ?_)
  · exact fun hs => ⟨hs.place, fun _ hf => nomatch hf⟩
  · refine Runs.bind (coverParenthesized_gives hg ctx) fun cover s₁ h₁ => ?_
    refine Runs.read (a := s₁) rfl (Runs.step rfl (fun hs₁ => ?_) ?_)
    · refine ⟨hs₁.place, fun fault hf => ?_⟩
      rcases Option.or_eq_some_iff.mp hf with hf | ⟨_, hf⟩
      · exact hs.isSyntactic fault hf
      · exact hs₁.isSyntactic fault hf
    · cases s₁.suspension with
      | none => exact Runs.pure h₁
      | some fault => exact Runs.read rfl (Runs.ite (fun _ => Runs.error rfl) fun _ => Runs.pure h₁)

/-- An arrow function as an expression at its place. -/
theorem wellBuilt_arrow {e : Expression} (h : Encloses n e) (hk : e.kind? = some .arrow) :
    WellBuilt (simple n) t e := by
  refine .enclosing h (level_le_simple n) fun k he => ?_
  rw [hk] at he
  cases he
  exact lt_simple n (by simp) (by simp)

/-- What reaches up to the token taken last is finished. -/
theorem finished_of_span {e : Expression} {start : Nat} {s s' : State}
    (h : e.span = .ofOffsets start s'.consumed) : Finished s e s' := by
  intro _ _
  rw [h]
  rfl

/-- An arrow function from the expressions in front of it. -/
theorem coverArrow_gives (hg : g.Builds text n) (ctx : Context) (start : Nat)
    {cover : Cover.Parenthesized} (isAsync : Bool)
    (hc : ∀ e ∈ cover.items, WellBuilt (level n) t e) :
    Gives text (coverArrow g ctx start cover isAsync) s fun a s' =>
      Encloses n a ∧ a.kind? = some .arrow ∧ a.span = .ofOffsets start s'.consumed := by
  refine .read (a := s) rfl ?_
  refine .bind (orFail_gives (cover.toParameters_wellBuilt _ hc)) fun params s₁ _ h₁ => ?_
  exact arrowFunction_gives hg ctx start isAsync h₁.1

/-- A single expression in parentheses. -/
theorem coverExpression_gives {cover : Cover.Parenthesized}
    (hc : ∀ e ∈ cover.items, WellBuilt (level n) t e) :
    Gives text (coverExpression cover) s fun e s' => WellBuilt (level n) t e ∧
      cover.toExpression = .ok e ∧ s'.coverInit = s.coverInit := by
  have hget : Cover.Gets cover.toExpression fun e =>
      WellBuilt (level n) t e ∧ cover.toExpression = .ok e :=
    fun e he => ⟨cover.toExpression_wellBuilt hc e he, he⟩
  refine .bind (orFail_gives hget) fun e s₁ _ h₁ => ?_
  obtain ⟨⟨hbuilt, hok⟩, rfl⟩ := h₁
  refine .ite (fun _ => ?_) fun _ => .pure ⟨hbuilt, hok, rfl⟩
  exact .step rfl (State.Sound.remember rfl rfl rfl rfl) id (.pure ⟨hbuilt, hok, rfl⟩)

/-- An expression in parentheses does not start where the parentheses start. -/
theorem Covered.start_ne {cover : Cover.Parenthesized} {s' : State} (h : Covered text s cover s')
    {e : Expression} (he : cover.toExpression = .ok e) : e.span.start ≠ s.offset + 1 := by
  have hplaced := h.toExpression_yields
  rw [he] at hplaced
  obtain ⟨debt, row, parts, ho⟩ := Node.sketch_expression e
  have hplaced : Sketch.AllPlaced text (s.offset + 1) s'.front e.sketch := hplaced
  rw [ho] at hplaced
  obtain ⟨start, stop, hspan, hlt, -⟩ := hplaced.each.of_mk
  rw [hspan]
  show start + 1 ≠ s.offset + 1
  omega

/-- What starts with a parenthesis leaves no default open. -/
theorem parenthesizedOrArrow_gives (hg : g.Builds text n) (ctx : Context) :
    Gives text (parenthesizedOrArrow g ctx) s fun a s' =>
      Open (simple n) a s' ∧ Finished s a s' := by
  refine Runs.read rfl (Runs.step rfl (State.Sound.remember rfl rfl rfl rfl) ?_)
  refine Runs.bind (Runs.and_meets (arrowCover_gives hg ctx) fun hs => arrowCover_meets
    hg.sound ctx hs)
    fun cover s₂ h₂ => Runs.read rfl (Runs.ite (fun _ => ?_) fun _ => ?_)
  · refine Runs.step rfl (State.Sound.remember rfl rfl rfl rfl) ?_
    refine Runs.imp (coverArrow_gives hg ctx _ false h₂.1.2) fun a s' h => ⟨h.1, ?_, ?_⟩
    · exact wellBuilt_arrow h.2.1 h.2.2.1
    · exact finished_of_span h.2.2.2
  · refine Runs.bind (coverExpression_gives h₂.1.2) fun e s₃ h₃ => ?_
    refine Runs.bind checkCoverInit_gives fun _ s₄ h₄ => ?_
    obtain ⟨-, hbuilt, hok, hsame⟩ := h₃
    obtain ⟨-, rfl, hnone⟩ := h₄
    rw [← hsame, hnone] at hbuilt
    refine Runs.step rfl (State.Sound.remember rfl rfl rfl rfl)
      (Runs.pure ⟨id, ?_, fun _ hstart => ?_⟩)
    · exact hbuilt.mono (level_le_simple n) fun _ => rfl
    · exact absurd hstart (h₂.2.start_ne hok)

/-- A call whose callee is no private name is regular if its arguments can stand anywhere. -/
theorem call_regular {span : Span} {callee : Expression} {items : List Expression}
    {optional : Bool} (hcallee : Regular callee) (hprivate : callee.isPrivate = false)
    (hitems : ∀ e ∈ items, Proper e) : Regular (.call span callee items optional) := by
  have hfree := fun e he => Node.isFree_iff.mp (hitems e he).free
  refine .node ⟨fun e he => (hfree e he).1, fun e he => (hfree e he).2.1, ?_, trivial,
    by simp [Node.stamps]⟩ ?_
  · simpa [Node.PlacesPrivate, Node.parts] using ⟨hprivate, fun e he => (hfree e he).2.2⟩
  · simpa [Node.parts] using ⟨hcallee, fun e he => (hitems e he).regular⟩

/-- The word `async` called with arguments is a call in which nothing is open. -/
theorem settled_asyncCall {span : Span} {callee : Identifier} {items : List Expression}
    (hcallee : callee.scope = 0) (hitems : ∀ e ∈ items, Settled b e) :
    Settled b (.call span (.reference callee) items false) := by
  have hname : Settled b (Node.reference callee) := .reference hcallee
  refine ⟨.node (by simp [Node.kind?]) (by simp [Node.isUnclaimed]) (fun ho => ?_) ?_,
    call_regular hname.proper.regular rfl fun e he => (hitems e he).proper, rfl⟩
  · obtain ⟨_, ⟨⟩, harrow, _⟩ := ho
    cases harrow
  · simpa [Node.parts, Node.kind?] using ⟨hname.built, fun e he => (hitems e he).built⟩

/-- The word `async` before parentheses leaves no default open. -/
theorem asyncCallOrArrow_gives (hg : g.Builds text n) (ctx : Context) :
    Gives text (asyncCallOrArrow g ctx) s fun a s' =>
      Open (simple n) a s' ∧ Finished s a s' := by
  refine Runs.read rfl (Runs.bind takeIdentifier_gives fun callee s₁ h₁ => ?_)
  refine Runs.step rfl (State.Sound.remember rfl rfl rfl rfl) ?_
  refine Runs.bind (arrowCover_gives hg ctx) fun cover s₂ h₂ => Runs.read rfl ?_
  refine Runs.ite (fun _ => ?_) fun _ => ?_
  · refine Runs.step rfl (State.Sound.remember rfl rfl rfl rfl) ?_
    refine Runs.imp (coverArrow_gives hg ctx _ true h₂.2) fun a s' h => ⟨h₁.1.trans h.1, ?_, ?_⟩
    · exact wellBuilt_arrow h.2.1 h.2.2.1
    · exact finished_of_span h.2.2.2
  · refine Runs.bind checkCoverInit_gives fun _ s₃ h₃ => ?_
    obtain ⟨-, rfl, hnone⟩ := h₃
    refine Runs.step rfl (State.Sound.remember rfl rfl rfl rfl) (Runs.read rfl (Runs.pure ?_))
    refine ⟨h₁.1, (settled_asyncCall h₁.2 fun e he => ?_).loosen, fun h => by cases h⟩
    have h := h₂.2 e he
    rw [Open, hnone] at h
    exact h.le (level_le_simple n)

/-- A name stands for itself, or is the parameter of an arrow function. -/
theorem nameOrArrow_gives (hg : g.Builds text n) (ctx : Context) :
    Gives text (nameOrArrow g ctx) s fun a s' => Open (simple n) a s' ∧ Finished s a s' := by
  refine .read rfl (.bind (identifier_gives ctx) fun id s₁ _ hid => .read rfl ?_)
  refine .ite (fun _ => ?_) fun _ => ?_
  · refine (arrowFunction_gives hg ctx _ false (settled_singleParameter hid)).imp fun a s' h => ?_
    exact ⟨wellBuilt_arrow h.1 h.2.1, finished_of_span h.2.2⟩
  · exact .pure ⟨.reference hid, nofun⟩

/-- A function leaves nothing open. -/
theorem functionExpression_gives (hg : g.Builds text n) (ctx : Context) (start : Nat)
    (isAsync : Bool) {s₀ : State} :
    Gives text (do return .functionExpression (← functionDefinition g ctx start isAsync false)) s
      fun a s' => Open (simple n) a s' ∧ Finished s₀ a s' := by
  refine .bind (functionDefinition_gives hg ctx _ _ _) fun f s₁ _ h₁ => .pure ⟨?_, nofun⟩
  have hf : Settled (simple n) f :=
    Affords.settled ⟨level_le_simple n, lt_simple n (by simp) (by simp)⟩ h₁
  exact .unruled rfl (by simpa [Node.parts] using hf)

/-- What starts with the word `async` leaves no default open. -/
theorem asyncPrimary_gives (hg : g.Builds text n) (ctx : Context) :
    Gives text (asyncPrimary g ctx) s fun a s' => Open (simple n) a s' ∧ Finished s a s' := by
  refine .read rfl (.read rfl (.ite (fun _ => nameOrArrow_gives hg ctx) fun _ => ?_))
  refine .ite (fun _ => ?_) fun _ => .ite (fun _ => ?_) fun _ => .ite (fun _ => ?_) fun _ => ?_
  · exact .skip advance_gives fun _ s₁ _ => functionExpression_gives hg ctx _ true
  · refine .skip advance_gives fun _ s₁ _ => .bind (identifier_gives _) fun id s₂ _ hid => ?_
    refine .read rfl (.require unexpected_gives fun _ => ?_)
    refine (arrowFunction_gives hg ctx _ true (settled_singleParameter hid)).imp fun a s' h => ?_
    exact ⟨wellBuilt_arrow h.1 h.2.1, finished_of_span h.2.2⟩
  · exact asyncCallOrArrow_gives hg ctx
  · exact nameOrArrow_gives hg ctx

/-- A private name is read only where `in` is an operator and comes next. -/
theorem privateNameIn_gives (ctx : Context) :
    Gives text (privateNameIn ctx) s fun a s' => IsTerm ctx b a s' ∧ Finished s a s' := by
  unfold privateNameIn
  refine .ite (fun _ => .read rfl ?_) fun _ => .read rfl (.cut failHere_gives)
  refine .refuse unexpected_gives fun hin => ?_
  simp only [Bool.or_eq_true, bne_iff_ne, ne_eq, not_or, not_not, Bool.not_eq_true] at hin
  intro hs a s' hrun
  cases hrun
  refine ⟨⟨hs.place.take, hs.isSyntactic⟩, id, ⟨?_, ?_, rfl, rfl, fun _ => hin⟩, nofun⟩
  · exact .wrapped rfl rfl (by simp [Node.parts])
  · exact .of_parts rfl trivial (by simp [Node.stamps]) (by simp [Node.parts])

/-- A literal of a single token leaves nothing open. -/
theorem open_literal {e : Expression} (hplain : e.isPlain = true) (hrules : e.isUnruled = true)
    (hkind : e.kind? = none) (hparts : e.parts = []) (harrow : e.isArrow = false) {s' : State} :
    Open b e s' ∧ Finished s e s' := by
  refine ⟨.wrapped hplain (.unruled hrules) hkind (by simp [hparts]), fun h => ?_⟩
  rw [harrow] at h
  exact absurd h Bool.false_ne_true

/-- What has no operators outside of brackets is built where an operand fits. -/
theorem primary_gives {g : Grammar} (hg : g.Builds text n) (ctx : Context) :
    Gives text (primary g ctx) s fun a s' => IsTerm ctx (simple n) a s' ∧ Finished s a s' := by
  have hopen : ∀ {p : Parser Expression} {s₁ : State},
      Gives text p s₁ (fun a s' => Open (simple n) a s' ∧ Finished s a s') →
      Gives text p s₁ fun a s' => IsTerm ctx (simple n) a s' ∧ Finished s a s' :=
    fun h => h.imp fun _ _ h => ⟨.of_open h.1, h.2⟩
  have htemplate : Gives text (do return .template (← templateLiteral g.toNested ctx false)) s
      fun a s' => Open (simple n) a s' ∧ Finished s a s' := by
    refine .bind (templateLiteral_gives hg.nested ctx false) fun a s₁ _ h₁ => .pure ⟨?_, nofun⟩
    have ha : Settled (simple n) a := .enclosing h₁.1 (level_le_simple n) fun k hk => by
      rw [h₁.2] at hk
      cases hk
      exact lt_simple n (by simp) (by simp)
    exact .unruled rfl (by simpa [Node.parts] using ha)
  refine .read rfl (.read rfl ?_)
  split
  · exact hopen (.skip advance_gives fun _ _ _ =>
      .read rfl (.pure (open_literal rfl rfl rfl rfl rfl)))
  · exact hopen (.skip advance_gives fun _ _ _ =>
      .read rfl (.pure (open_literal rfl rfl rfl rfl rfl)))
  · exact hopen (.skip advance_gives fun _ _ _ =>
      .read rfl (.pure (open_literal rfl rfl rfl rfl rfl)))
  · exact hopen (.skip advance_gives fun _ _ _ =>
      .read rfl (.pure (open_literal rfl rfl rfl rfl rfl)))
  · exact hopen (.skip takeAs_gives fun _ _ _ => .pure (open_literal rfl rfl rfl rfl rfl))
  · exact hopen (.skip takeAs_gives fun _ _ _ => .pure (open_literal rfl rfl rfl rfl rfl))
  · exact hopen (.skip takeAs_gives fun _ _ _ => .pure (open_literal rfl rfl rfl rfl rfl))
  · rename_i hk
    refine .step rfl (fun hs => (rescanSlash_onto hs (Or.inl hk)).1.sound) id (hopen ?_)
    exact .skip takeAs_gives fun _ _ _ => .pure (open_literal rfl rfl rfl rfl rfl)
  · rename_i hk
    refine .step rfl (fun hs => (rescanSlash_onto hs (Or.inr hk)).1.sound) id (hopen ?_)
    exact .skip takeAs_gives fun _ _ _ => .pure (open_literal rfl rfl rfl rfl rfl)
  · exact hopen (.skip takeAs_gives fun _ _ _ => .pure (open_literal rfl rfl rfl rfl rfl))
  · exact hopen htemplate
  · exact hopen htemplate
  · exact hopen (parenthesizedOrArrow_gives hg.nested ctx)
  · exact hopen (arrayLiteral_gives hg.nested ctx)
  · exact hopen (objectLiteral_gives hg.nested ctx)
  · exact hopen (functionExpression_gives hg.nested ctx _ false)
  · refine hopen (.bind (classDefinition_gives hg le_rfl ctx false) fun a s₁ _ h₁ => ?_)
    refine .pure ⟨.of_plain rfl (.unruled rfl) (by simp [Node.kind?]) ?_, nofun⟩
    simpa [Node.parts, Node.kind?] using h₁
  · exact hopen (asyncPrimary_gives hg.nested ctx)
  · exact privateNameIn_gives ctx
  · exact .ite (fun _ => hopen (nameOrArrow_gives hg.nested ctx)) fun _ => unexpected_gives

end

end EcmaScript.Parser
