import EcmaScript.Proofs.Build.Operand
import EcmaScript.Proofs.Fit.Primary
import EcmaScript.Proofs.Parser.Expression

/-!
# Operands fit

An operand with something attached to it is a base for more. It may have optional links, until
the whole of it becomes a chain, and it may be the word `super`, as long as what has to follow
has not been read.

Operators that suspend the function are refused in parameters and noted elsewhere, so in a calm
run there is none; in any other run they have the right that their context gives. A power is
refused behind a prefixed operator unless parentheses close in between.
-/

namespace EcmaScript

section

variable {P : Surroundings → Prop} {span : Span} {e : Expression} {optional : Bool}

/-- A property stands where its base does, if `super` and private names may. -/
theorem SuitsAsBase.member {name : MemberName} (he : SuitsAsBase P e)
    (hsuper : e.isSuper = true → ∀ σ, P σ → σ.HasSuperProperty)
    (hname : name.isHidden = true → ∀ σ, P σ → σ.InClass) :
    SuitsAsBase P (.member span e name optional) := by
  refine ⟨rfl, fun σ hσ => .node ⟨trivial, trivial, ?_⟩ trivial ?_ ?_⟩
  · exact ⟨fun h => hsuper h σ hσ, fun h => hname h σ hσ⟩
  · simp only [Node.parts, List.mem_singleton, forall_eq]
    exact ⟨fun h => absurd (he.unspread.symm.trans h) (by simp), fun _ => rfl, fun _ => rfl⟩
  · simp only [Node.parts, List.mem_singleton, forall_eq]
    exact he.fits σ hσ

/-- A computed property stands where its base and its key do. -/
theorem SuitsAsBase.index {key : Expression} (he : SuitsAsBase P e)
    (hsuper : e.isSuper = true → ∀ σ, P σ → σ.HasSuperProperty) (hkey : Suits P key) :
    SuitsAsBase P (.index span e key optional) := by
  refine ⟨rfl, fun σ hσ => .node ⟨trivial, trivial, fun h => hsuper h σ hσ⟩ trivial ?_ ?_⟩
  · simp only [Node.parts, List.forall_mem_cons]
    refine ⟨⟨fun h => absurd (he.unspread.symm.trans h) (by simp), fun _ => rfl, fun _ => rfl⟩,
      Node.admits_of_isWhole hkey.whole, by simp⟩
  · simp only [Node.parts, List.forall_mem_cons]
    exact ⟨he.fits σ hσ, hkey.fits σ hσ, by simp⟩

/-- A whole chain stands where its links do. -/
theorem Suits.optionalChain (he : SuitsAsBase P e) (hsuper : e.isSuper = false) :
    Suits P (.optionalChain span e) := by
  refine ⟨rfl, fun σ hσ => .node ⟨trivial, trivial, trivial⟩ trivial ?_ ?_⟩
  · simp only [Node.parts, List.mem_singleton, forall_eq]
    exact ⟨fun h => absurd (he.unspread.symm.trans h) (by simp), fun _ => rfl,
      fun h => absurd (hsuper.symm.trans h) (by simp)⟩
  · simp only [Node.parts, List.mem_singleton, forall_eq]
    exact he.fits σ hσ

end

namespace Parser

section

variable {text : String} {calm behindNew : Bool} {s : State} {g : Nested} {ctx : Context}
  {e : Expression} {σ : Surroundings}

/-- Where `super` is called, it can be. -/
theorem Heads.hasSuperCall (h : Heads ctx e s) (hk : s.lexer.token.kind = .mark .openParen)
    (he : e.isSuper = true) (hσ : ctx.Allows calm σ) : σ.HasSuperCall := by
  have hallows := h he
  rw [hk] at hallows
  exact hσ.calls hallows

/-- Where `super` has a property, it can have one. -/
theorem Heads.hasSuperProperty (h : Heads ctx e s)
    (hk : s.lexer.token.kind = .mark .dot ∨ s.lexer.token.kind = .mark .openBracket)
    (he : e.isSuper = true) (hσ : ctx.Allows calm σ) : σ.HasSuperProperty := by
  refine hσ.properties ?_
  have hallows := h he
  rcases hk with hk | hk
  · rwa [hk] at hallows
  · rwa [hk] at hallows

/-- Where nothing that `super` needs follows, there is no `super`. -/
theorem Heads.isSuper_eq (h : Heads ctx e s)
    (hk : ctx.allowsSuper s.lexer.token.kind = false) : e.isSuper = false :=
  Bool.eq_false_iff.mpr fun he => absurd (h he) (by simp [hk])

/-- A private name stands in a class. -/
theorem memberName_leaves (ctx : Context) : Leaves text calm (memberName ctx) s fun name =>
    name.isHidden = true → ctx.inClass = true := by
  refine .read rfl (.ite (fun _ => .require failHere_ends fun hclass => ?_) fun _ => ?_)
  · exact .skip (takeAs_ends fun _ => trivial) fun _ _ _ => .pure fun _ => hclass
  · refine .ite (fun _ => ?_) fun _ => unexpected_ends
    exact .skip (takeAs_ends fun _ => trivial) fun _ _ _ => .pure nofun

/-- The key of a property stands where the property does. -/
theorem computedMember_leaves (hg : g.Fits text) (ctx : Context) :
    Leaves text calm (computedMember g ctx) s (Suits (ctx.Allows calm)) := by
  refine .skip expect_ends fun _ _ _ => .bind (hg.expression ctx.allowIn) fun e _ _ => ?_
  exact .skip expect_ends fun _ _ _ => .pure id

/-- Arguments stand where the call does, and may be spread. -/
theorem arguments_leaves (hg : g.Fits text) (ctx : Context) :
    Leaves text calm (arguments g ctx) s fun as =>
      ∀ a ∈ as, SuitsLoosely (ctx.Allows calm) a := by
  refine .skip expect_ends fun _ _ _ => .bind (commaList_ends fun s =>
    spreadable_leaves fun s => hg.value ctx.allowIn) fun as _ _ => ?_
  exact .skip expect_ends fun _ _ _ => .pure id

/-- What is known of an operand between two things that are attached, given what it starts
with. -/
structure Attached (ctx : Context) (calm behindNew : Bool) (e : Expression)
    (a : Expression × Bool) (s : State) : Prop where
  base : SuitsAsBase (ctx.Allows calm) a.1
  linked : a.1.isLinked = true → a.2 = true
  heads : Heads ctx a.1 s
  prefixed : a.1.isPrefixed = true → a.1 = e
  chained : a.2 = true → behindNew = false

/-- An optional link stands where its base does. -/
theorem optionalLink_leaves (hg : g.Fits text) (ctx : Context) (start : Nat) (e : Expression) :
    Leaves text calm (optionalLink g ctx start e) s fun a =>
      SuitsAsBase (ctx.Allows calm) e → e.isSuper = false →
        SuitsAsBase (ctx.Allows calm) a ∧ a.isSuper = false ∧ a.isPrefixed = false := by
  have hsuper : ∀ {p : Prop}, e.isSuper = false → e.isSuper = true → p := fun hn h =>
    absurd (hn.symm.trans h) (by simp)
  refine .read rfl ?_
  split
  · refine .bind (arguments_leaves hg ctx) fun items _ _ => .read rfl (.pure ?_)
    exact fun hitems he hs => ⟨he.call (hsuper hs) hitems, rfl, rfl⟩
  · refine .bind (computedMember_leaves hg ctx) fun key _ _ => .read rfl (.pure ?_)
    exact fun hkey he hs => ⟨he.index (hsuper hs) hkey, rfl, rfl⟩
  · exact failHere_ends
  · exact failHere_ends
  · refine .bind (memberName_leaves ctx) fun name _ _ => .read rfl (.pure ?_)
    exact fun hname he hs => ⟨he.member (hsuper hs) fun h σ hσ => hσ.classes (hname h), rfl, rfl⟩

/-- Nothing but the parenthesis behind `new` is left behind `super`. -/
theorem attach_leaves (hg : g.Fits text) (ctx : Context) (start : Nat) (behindNew : Bool)
    (e₀ e : Expression) (chained : Bool) :
    Ends text calm (attach g ctx start behindNew e chained s.lexer.token.kind) s fun r s' =>
      Attached ctx calm behindNew e₀ (e, chained) s →
        AfterRound (Attached ctx calm behindNew e₀) (fun a s' =>
          Attached ctx calm behindNew e₀ a s' ∧ (a.1.isSuper = true → behindNew = true)) r s' := by
  have htagged : ctx.allowsSuper s.lexer.token.kind = false → Ends text calm (do
      if chained then failHere .templateOnOptionalChain
      let quasi ← templateLiteral g ctx true
      return .next (.taggedTemplate (← spanFrom start) e quasi, chained)) s fun r s' =>
      Attached ctx calm behindNew e₀ (e, chained) s →
        AfterRound (Attached ctx calm behindNew e₀) (fun a s' =>
          Attached ctx calm behindNew e₀ a s' ∧ (a.1.isSuper = true → behindNew = true)) r s' := by
    refine fun hk => .refuse failHere_ends fun hc => ?_
    refine .bind (templateLiteral_leaves hg ctx true) fun quasi _ _ => .read rfl (.pure ?_)
    intro hquasi h
    have he : Suits (ctx.Allows calm) e := h.base.suits
      (Bool.eq_false_iff.mpr fun hl => hc (h.linked hl)) (h.heads.isSuper_eq hk)
    have htemplate : ∀ span, Suits (ctx.Allows calm) (.taggedTemplate span e quasi) := fun span =>
      .of_parts rfl (by simpa [Node.parts] using ⟨he, hquasi.1⟩)
    exact ⟨(htemplate _).asBase, by simp [Node.isLinked], (fun hs => by cases hs),
      by simp [Node.isPrefixed], h.chained⟩
  unfold attach
  split
  · rename_i hk
    refine .skip advance_ends fun _ _ _ => .bind (memberName_leaves ctx) fun name _ _ => ?_
    refine .read rfl (.pure fun hname h => ⟨h.base.member ?_ ?_, ?_, (fun hs => by cases hs),
      by simp [Node.isPrefixed], h.chained⟩)
    · exact fun hs σ hσ => h.heads.hasSuperProperty (Or.inl hk) hs hσ
    · exact fun hn σ hσ => hσ.classes (hname hn)
    · exact fun hl => h.linked hl
  · rename_i hk
    refine .refuse failHere_ends fun hnew => .skip advance_ends fun _ _ _ => ?_
    refine .bind (optionalLink_leaves hg ctx start e) fun a _ _ => .pure fun ha h => ?_
    obtain ⟨hbase, hsuper, hprefixed⟩ := ha h.base (h.heads.isSuper_eq (by rw [hk]; rfl))
    refine ⟨hbase, fun _ => rfl, fun hs => ?_, fun hp => ?_, fun _ => by simpa using hnew⟩
    · exact absurd (hsuper.symm.trans hs) (by simp)
    · exact absurd (hprefixed.symm.trans hp) (by simp)
  · rename_i hk
    refine .bind (computedMember_leaves hg ctx) fun key _ _ => .read rfl (.pure fun hkey h => ?_)
    refine ⟨h.base.index ?_ hkey, fun hl => h.linked hl, (fun hs => by cases hs),
      by simp [Node.isPrefixed], h.chained⟩
    exact fun hs σ hσ => h.heads.hasSuperProperty (Or.inr hk) hs hσ
  · rename_i hk
    refine .ite (fun hnew => .pure fun h => ⟨h, fun _ => hnew⟩) fun _ => ?_
    refine .bind (arguments_leaves hg ctx) fun items _ _ => .read rfl (.pure fun hitems h => ?_)
    refine ⟨h.base.call ?_ hitems, fun hl => h.linked hl, (fun hs => by cases hs),
      by simp [Node.isPrefixed], h.chained⟩
    exact fun hs σ hσ => h.heads.hasSuperCall hk hs hσ
  · rename_i hk
    exact htagged (by rw [hk]; rfl)
  · rename_i hk
    exact htagged (by rw [hk]; rfl)
  · rename_i hdot _ hbracket hparen _ _
    refine .pure fun h => ⟨h, fun hs => ?_⟩
    have hallows := h.heads hs
    unfold Context.allowsSuper at hallows
    split at hallows
    · rename_i hk
      exact (hparen hk).elim
    · rename_i hk
      exact (hdot hk).elim
    · rename_i hk
      exact (hbracket hk).elim
    · cases hallows

/-- What is attached to an operand stands where the operand does. -/
theorem subscripts_leaves (hg : g.Fits text) (ctx : Context) (start : Nat) (behindNew : Bool)
    (e : Expression) :
    Ends text calm (subscripts g ctx start behindNew e) s fun a _ =>
      IsBase (ctx.Allows calm) e ∧ Heads ctx e s → IsBase (ctx.Allows calm) a ∧
        (a.isSuper = true → behindNew = true) ∧ (a.isPrefixed = true → a = e) := by
  refine .bind (iterate_ends (I := Attached ctx calm behindNew e) (Q := fun a s' =>
    Attached ctx calm behindNew e a s' ∧ (a.1.isSuper = true → behindNew = true)) ?_ (e, false))
    fun a _ _ => ?_
  · rintro ⟨operand, chained⟩ s₁ -
    rw [subscript_eq]
    refine .read rfl (.ite (fun _ => .firm checkCoverInit_ends ?_) fun _ => ?_)
    · rintro _ _ - rfl
      exact attach_leaves hg ctx start behindNew e operand chained
    · exact attach_leaves hg ctx start behindNew e operand chained
  · have hattached : IsBase (ctx.Allows calm) e ∧ Heads ctx e s →
        Attached ctx calm behindNew e (e, false) s := fun h =>
      ⟨h.1.toSuitsAsBase, fun hl => absurd (h.1.unlinked.symm.trans hl) (by simp), h.2,
        fun _ => rfl, nofun⟩
    refine .ite (fun hc => .read rfl (.pure fun h hstart => ?_)) fun hc => .pure fun h hstart => ?_
    · obtain ⟨ha, hsuper⟩ := h (hattached hstart)
      have hnew : behindNew = false := ha.chained hc
      have hnot : a.1.isSuper = false := Bool.eq_false_iff.mpr fun hs => by simp [hsuper hs] at hnew
      exact ⟨⟨(Suits.optionalChain ha.base hnot).asBase, rfl⟩, nofun, nofun⟩
    · obtain ⟨ha, hsuper⟩ := h (hattached hstart)
      refine ⟨⟨ha.base, Bool.eq_false_iff.mpr fun hl => hc (ha.linked hl)⟩, hsuper, ha.prefixed⟩

/-- What is known of an operand before anything is attached to it. -/
structure Starts (ctx : Context) (calm : Bool) (s : State) (a : Expression) (s' : State) :
    Prop where
  base : IsBase (ctx.Allows calm) a
  heads : Heads ctx a s'
  late : Late s a

/-- An operand that fits is a start of one. -/
theorem Starts.of_suits {s₀ s' : State} (h : Suits (ctx.Allows calm) e) (hl : Late s₀ e) :
    Starts ctx calm s₀ e s' := by
  obtain ⟨-, hlinked, hsuper⟩ := Node.isWhole_iff.mp h.whole
  exact ⟨⟨h.asBase, hlinked⟩, fun hs => absurd (hsuper.symm.trans hs) (by simp), hl⟩

/-- The word `super` starts an operand if something that it needs follows. -/
theorem superBase_leaves (ctx : Context) :
    Ends text calm (superBase ctx) s (Starts ctx calm s) := by
  refine .read rfl (.skip advance_ends fun _ s₁ _ => .read rfl ?_)
  refine .require fail_ends fun hallowed => .read rfl (.pure ⟨⟨⟨rfl, fun σ _ => ?_⟩, rfl⟩,
    ?_, nofun⟩)
  · exact .node ⟨trivial, trivial, trivial⟩ trivial (by simp [Node.parts]) (by simp [Node.parts])
  · exact fun _ => hallowed

/-- The target of `new` stands in a function. -/
theorem newTarget_leaves (ctx : Context) (start : Nat) {s₀ : State} :
    Ends text calm (newTarget ctx start) s (Starts ctx calm s₀) := by
  refine .read rfl (.skip advance_ends fun _ _ _ => .read rfl (.require unexpected_ends
    fun _ => ?_))
  refine .require fail_ends fun hfunction => .skip (takeAs_ends fun _ => trivial) fun _ _ _ => ?_
  refine .read rfl (.pure (.of_suits (.of_shaped rfl (fun σ hσ => ?_) trivial (fun _ _ => rfl)
    ?_) nofun))
  · exact ⟨trivial, trivial, hσ.functions hfunction⟩
  · simp [Node.parts]

/-- What `new` is applied to stands where the whole does. -/
theorem construct_leaves {g : Grammar} (hg : g.Fits text calm) (ctx : Context) :
    Ends text calm (construct g ctx) s (Starts ctx calm s) := by
  refine .read rfl (.skip advance_ends fun _ _ _ =>
    .read rfl (.ite (fun _ => newTarget_leaves ctx _)
    fun _ => .read rfl ?_))
  refine .bind (hg.nested.newCallee calm ctx _) fun base _ _ => ?_
  refine .bind (subscripts_leaves hg.nested ctx _ true base) fun callee _ _ => .read rfl ?_
  refine .ite (fun _ => .bind (arguments_leaves hg.nested ctx) fun items _ _ => ?_) fun _ => ?_
  · refine .read rfl (.pure fun hitems h hbase => .of_suits ?_ nofun)
    exact .construct (h hbase).1.toSuitsAsBase (h hbase).1.unlinked hitems
  · refine .read rfl (.read rfl (.pure fun h hbase => .of_suits ?_ nofun))
    exact .construct (h hbase).1.toSuitsAsBase (h hbase).1.unlinked (by simp)

/-- What an operand begins with fits, and tells apart an operand proper from one that a chain goes
on from. -/
theorem operandBase_leaves {g : Grammar} (hg : g.Fits text calm) (ctx : Context) :
    Ends text calm (operandBase g ctx) s (Starts ctx calm s) := by
  refine .read rfl ?_
  split
  · exact construct_leaves hg ctx
  · exact superBase_leaves ctx
  · exact (primary_leaves hg ctx).imp fun _ _ h => .of_suits h.1 h.2

/-- An operand with all its calls and accesses fits its context. -/
theorem operand_leaves {g : Grammar} (hg : g.Fits text calm) (ctx : Context) :
    Leaves text calm (operand g ctx) s fun a => Suits (ctx.Allows calm) a ∧ Late s a := by
  refine .read rfl (.remember rfl rfl rfl rfl rfl ?_)
  refine .bind (operandBase_leaves hg ctx) fun base s₁ _ => ?_
  refine .read (isCompleteArrow_eq base s₁) (.ite (fun hc => .read rfl ?_) fun _ => ?_)
  · refine .remember rfl rfl rfl rfl rfl (.pure fun h => ?_)
    have harrow : base.isArrow = true := (Bool.and_eq_true_iff.mp hc).1
    refine ⟨h.base.toSuitsAsBase.suits h.base.unlinked ?_, late_of_isArrow harrow s⟩
    cases base with
    | superBase span => cases harrow
    | _ => rfl
  · refine .bind (subscripts_leaves hg.nested ctx _ false base) fun e _ _ => ?_
    refine .remember rfl rfl rfl rfl rfl (.pure fun h hstart => ?_)
    obtain ⟨hbase, hsuper, hprefixed⟩ := h ⟨hstart.base, hstart.heads⟩
    refine ⟨hbase.toSuitsAsBase.suits hbase.unlinked ?_, fun hp => ?_⟩
    · exact Bool.eq_false_iff.mpr fun hs => absurd (hsuper hs) (by simp)
    · have he := hprefixed hp
      rw [he] at hp ⊢
      exact hstart.late hp

/-- The heritage of a class is an operand, with classes in it or without. -/
theorem Nested.Fits.grammar (hg : g.Fits text) (calm : Bool) : g.grammar.Fits text calm where
  nested := hg
  heritage := by
    intro ctx s
    refine recursive_ends (R := fun ctx => Suits (ctx.Allows calm))
      (fun again hagain ctx s => ?_) ctx
    have hgrammar : Grammar.Fits text calm { g with heritage := again } := ⟨hg, hagain⟩
    exact (operand_leaves hgrammar ctx).imp fun _ _ h => h.1

end

end Parser

/-- Only one mark is the operator of a power. -/
theorem BinaryOperator.kind_eq_of_power {k : TokenKind}
    (h : BinaryOperator.ofKind? k = some .power) : k = .mark .power := by
  unfold BinaryOperator.ofKind? at h
  split at h <;> first | rfl | cases h

namespace Parser

/-- No power comes behind a prefixed operator that starts at `start`. -/
def Unraised (start : Nat) (a : Expression) (s : State) : Prop :=
  a.isPrefixed = true → a.span.start = start + 1 → s.lexer.token.kind ≠ .mark .power

section

variable {text : String} {calm : Bool} {s : State} {g : Grammar} {ctx : Context}

/-- A run that goes on behind the check is not at a power. -/
theorem rejectPower_ends :
    Ends text calm rejectPower s fun _ s' => s'.lexer.token.kind ≠ .mark .power :=
  .read rfl (.ite (fun _ => failHere_ends) fun hk => .pure (by simpa using hk))

/-- A simple target may be counted up or down wherever it fits. -/
theorem suits_update {P : Surroundings → Prop} {span : Span} {operator : UpdateOperator}
    {inFront : Bool} {e : Expression} (he : Suits P e) (hs : e.isSimpleTarget = true) :
    Suits P (.update span operator inFront e) :=
  .of_shaped rfl (fun _ _ => ⟨trivial, trivial, trivial⟩) (Node.isPlainTarget_of_isWhole
    he.whole hs)
    (fun _ _ => rfl) (by simpa [Node.parts] using he)

/-- An operand fits with an operator behind it as without one. -/
theorem postfixExpression_leaves (hg : g.Fits text calm) (ctx : Context) :
    Leaves text calm (postfixExpression g ctx) s fun a =>
      Suits (ctx.Allows calm) a ∧ Late s a := by
  refine .read rfl (.bind (operand_leaves hg ctx) fun e s₁ _ => .read rfl ?_)
  split
  · exact .pure id
  · refine .read rfl (.read (isCompleteArrow_eq e s₁) (.ite (fun _ => .pure id) fun _ => ?_))
    refine .require fail_ends fun hs => .skip advance_ends fun _ _ _ =>
      .read rfl (.pure fun he => ?_)
    exact ⟨suits_update he.1 hs, nofun⟩

/-- Counting up or down before the use fits, and may stand in front of a power. -/
theorem prefixUpdate_leaves (hg : g.Fits text calm) (ctx : Context) (operator : UpdateOperator) :
    Leaves text calm (prefixUpdate g ctx operator) s fun a =>
      Suits (ctx.Allows calm) a ∧ a.isPrefixed = false := by
  refine .read rfl (.skip advance_ends fun _ _ _ => .read rfl ?_)
  refine .bind (hg.nested.unary calm ctx _) fun e _ _ => .require fail_ends fun hs => ?_
  exact .read rfl (.pure fun he => ⟨suits_update he hs, rfl⟩)

/-- A prefixed operator stands in front of what fits, and no power follows. -/
theorem unaryOperation_leaves (hg : g.Fits text calm) (ctx : Context) (operator : UnaryOperator) :
    Ends text calm (unaryOperation g ctx operator) s fun a s' =>
      Suits (ctx.Allows calm) a ∧ s'.lexer.token.kind ≠ .mark .power := by
  refine .read rfl (.skip advance_ends fun _ _ _ => .bind (hg.nested.unary calm ctx _) ?_)
  refine fun e _ _ => .bind rejectPower_ends fun _ _ _ => .read rfl (.pure fun hk he => ⟨?_, hk⟩)
  exact .of_parts rfl (by simpa [Node.parts] using he)

/-- In a calm run nothing is noted. -/
theorem noteSuspension_leaves {problem : Problem} (hp : problem.category = .syntactic) :
    Leaves text calm (noteSuspension problem) s fun _ => calm = false := by
  intro hs _ s' hrun
  have hsame := (noteSuspension_meets hp hs).ok hrun
  cases hrun
  refine ⟨hsame.sound, ⟨Nat.le_refl _, fun hn => (Option.or_eq_none_iff.mp hn).1⟩, fun hc => ?_⟩
  cases calm with
  | false => rfl
  | true => exact nomatch (Option.or_eq_none_iff.mp (hc rfl)).2

/-- Where waiting is allowed what is waited for fits, and no power follows. -/
theorem awaitOperation_leaves (hg : g.Fits text calm) (ctx : Context)
    (hawait : ctx.canAwait = true) : Ends text calm (awaitOperation g ctx) s fun a s' =>
      Suits (ctx.Allows calm) a ∧ s'.lexer.token.kind ≠ .mark .power := by
  unfold awaitOperation
  refine .refuse failHere_ends fun hparams => .read rfl (.bind (noteSuspension_leaves rfl) ?_)
  refine fun _ _ _ => .skip advance_ends fun _ _ _ => .bind (hg.nested.unary calm ctx _) ?_
  refine fun e _ _ => .bind rejectPower_ends fun _ _ _ =>
    .read rfl (.pure fun hk he hcalm => ⟨?_, hk⟩)
  refine .of_shaped rfl (fun σ hσ => ⟨trivial, hσ.awaits ?_, trivial⟩) trivial (fun _ _ => rfl) ?_
  · simp [Context.rights, hawait, hparams, hcalm]
  · simpa [Node.parts] using he

/-- Operators in front of an operand keep it fit, and leave no power behind a prefixed one. -/
theorem unaryExpression_leaves (hg : g.Fits text calm) (ctx : Context) :
    Ends text calm (unaryExpression g ctx) s fun a s' =>
      Suits (ctx.Allows calm) a ∧ Unraised s.offset a s' := by
  refine .read rfl ?_
  split
  · exact (unaryOperation_leaves hg ctx _).imp fun _ _ h => ⟨h.1, fun _ _ => h.2⟩
  · refine (prefixUpdate_leaves hg ctx _).imp fun a _ h => ⟨h.1, fun hp => ?_⟩
    exact absurd (h.2.symm.trans hp) (by simp)
  · refine .ite (fun hc => ?_) fun _ => ?_
    · have hawait : ctx.canAwait = true := (Bool.and_eq_true_iff.mp hc).2
      exact (awaitOperation_leaves hg ctx hawait).imp fun _ _ h => ⟨h.1, fun _ _ => h.2⟩
    · exact (postfixExpression_leaves hg ctx).imp fun _ _ h =>
        ⟨h.1, fun hp hstart => absurd hstart (h.2 hp)⟩

/-- An operator joins operands that fit, if the one on its left does. -/
theorem binaryOperation_leaves (hg : g.Fits text calm) (ctx : Context) (min : Precedence)
    (start : Nat) (left : Expression) (operator : BinaryOperator)
    (hk : BinaryOperator.ofKind? s.lexer.token.kind = some operator) :
    Leaves text calm (binaryOperation g ctx min start left operator) s fun a =>
      Suits (ctx.Allows calm) left ∧ Unraised start left s →
        Suits (ctx.Allows calm) a ∧ a.isPrefixed = false := by
  unfold binaryOperation
  refine .refuse unexpected_ends fun _ => .refuse unexpected_ends fun _ => ?_
  refine .skip advance_ends fun _ _ _ => .read rfl (.bind (hg.nested.binary calm ctx _ _) ?_)
  refine fun right _ _ => .refuse fail_ends fun _ => .read rfl (.pure fun hright hleft => ⟨?_, rfl⟩)
  refine .of_shaped rfl (fun _ _ => ⟨trivial, trivial, trivial⟩) ?_ (fun _ _ => rfl) ?_
  · rintro rfl hstart
    have hpower := BinaryOperator.kind_eq_of_power hk
    exact Bool.eq_false_iff.mpr fun hp => hleft.2 hp hstart hpower
  · simpa [Node.parts] using ⟨hleft.1, hright⟩

/-- A chain of operators joins what fits, whatever the least precedence. -/
theorem binaryExpression_leaves (hg : g.Fits text calm) (ctx : Context) (min : Precedence) :
    Leaves text calm (binaryExpression g ctx min) s (Suits (ctx.Allows calm)) := by
  refine .read rfl (.bind (unaryExpression_leaves hg ctx) fun left s₁ _ => ?_)
  refine .read (isCompleteArrow_eq left s₁) (.ite (fun _ => .pure fun h => h.1) fun _ => ?_)
  refine iterate_ends (I := fun a s₂ => Suits (ctx.Allows calm) a ∧ Unraised s.offset a s₂)
    (fun e s₂ _ => .read rfl ?_) left
  split
  · exact .pure fun h => h.1
  · rename_i operator hop
    obtain ⟨hk, -⟩ := Option.filter_eq_some_iff.mp hop
    refine .bind (binaryOperation_leaves hg ctx min s.offset e operator hk) fun a _ _ => .pure ?_
    exact fun h he => ⟨(h he).1, fun hp => absurd ((h he).2.symm.trans hp) (by simp)⟩

/-- All three parts of a choice fit where the choice stands. -/
theorem conditionalExpression_leaves (hg : g.Fits text calm) (ctx : Context) :
    Leaves text calm (conditionalExpression g ctx) s (Suits (ctx.Allows calm)) := by
  refine .read rfl (.bind (binaryExpression_leaves hg ctx 0) fun test s₁ _ => .read rfl ?_)
  refine .read (isCompleteArrow_eq test s₁) (.ite (fun _ => .pure id) fun _ => ?_)
  refine .skip advance_ends fun _ _ _ => .bind (hg.nested.value ctx.allowIn)
    fun consequent _ _ => ?_
  refine .skip expect_ends fun _ _ _ => .bind (hg.nested.value ctx) fun alternate _ _ => ?_
  refine .read rfl (.pure fun halternate hconsequent htest => .of_parts rfl ?_)
  simpa [Node.parts] using ⟨htest, hconsequent, halternate⟩

/-- What a generator hands out fits where it may do so. -/
theorem yieldExpression_leaves (hg : g.Fits text calm) (ctx : Context)
    (hyield : ctx.canYield = true) :
    Leaves text calm (yieldExpression g ctx) s (Suits (ctx.Allows calm)) := by
  unfold yieldExpression
  refine .refuse failHere_ends fun hparams => .read rfl (.bind (noteSuspension_leaves rfl) ?_)
  have hnode : ∀ {argument : Option Expression} {delegate : Bool} {span : Span}, calm = false →
      (∀ e ∈ argument, Suits (ctx.Allows calm) e) →
      Suits (ctx.Allows calm) (.yieldValue span argument delegate) := by
    intro argument delegate span hcalm h
    refine .of_shaped rfl (fun σ hσ => ⟨trivial, hσ.yields ?_, trivial⟩) trivial (fun _ _ => rfl) ?_
    · simp [Context.rights, hyield, hparams, hcalm]
    · simpa [Node.parts] using h
  refine fun _ _ _ => .skip advance_ends fun _ _ _ => .read rfl (.ite (fun _ => ?_) fun _ => ?_)
  · exact .read rfl (.pure fun hcalm => hnode hcalm (by simp))
  · refine .skip eat_ends fun delegate _ _ => .read rfl (.ite (fun _ => ?_) fun _ => ?_)
    · refine .bind (hg.nested.value ctx) fun e _ _ => .read rfl (.read rfl (.pure ?_))
      exact fun he hcalm => hnode hcalm (by simpa using he)
    · exact .read rfl (.read rfl (.pure fun hcalm => hnode hcalm (by simp)))

/-- A target fits where the expression it was read as did, and is a single one unless the assignment
is plain. -/
theorem assignmentTarget_leaves (P : Surroundings → Prop) (operator : AssignmentOperator)
    (outer : Option Nat) (left : Expression) :
    Leaves text calm (assignmentTarget operator outer left) s fun target => Suits P left →
      Suits P target ∧ (operator ≠ .assign → target.isSingle = true) := by
  unfold assignmentTarget
  refine .ite (fun hop => ?_) fun hop => ?_
  · refine .remember rfl rfl rfl rfl rfl (.read rfl (orFail_ends fun target ht hl => ?_))
    exact ⟨Cover.toTarget_suits _ _ hl target ht, fun hne => absurd hop hne⟩
  · refine .remember rfl rfl rfl rfl rfl (orFail_ends fun target ht hl => ?_)
    have htarget := Cover.toSimpleTarget_suits hl target ht
    exact ⟨htarget.1, fun _ => htarget.2⟩

/-- Assignments, arrow functions and what a generator hands out fit the context. -/
theorem assignmentExpression_leaves (hg : g.Fits text calm) (ctx : Context) :
    Leaves text calm (assignmentExpression g ctx) s (Suits (ctx.Allows calm)) := by
  refine .read rfl (.ite (fun hc => ?_) fun _ => .read rfl (.remember rfl rfl rfl rfl rfl ?_))
  · exact yieldExpression_leaves hg ctx (Bool.and_eq_true_iff.mp hc).2
  · refine .bind (conditionalExpression_leaves hg ctx) fun left s₁ _ => ?_
    refine .read (isCompleteArrow_eq left s₁) (.read rfl ?_)
    split
    · exact .remember rfl rfl rfl rfl rfl (.pure id)
    · refine .bind (assignmentTarget_leaves (ctx.Allows calm) _ _ left) fun target _ _ => ?_
      refine .skip advance_ends fun _ _ _ => .bind (hg.nested.value ctx) fun value _ _ => ?_
      refine .read rfl (.pure fun hvalue htarget hleft => ?_)
      obtain ⟨hsuits, hsingle⟩ := htarget hleft
      exact .of_shaped rfl (fun _ _ => ⟨trivial, trivial, trivial⟩) hsingle (fun _ _ => rfl)
        (by simpa [Node.parts] using ⟨hsuits, hvalue⟩)

end

end Parser

end EcmaScript
