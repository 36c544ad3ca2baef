import EcmaScript.Proofs.Build.Primary
import EcmaScript.Proofs.Parser.Operand

/-!
# Building operands

Properties, calls and templates are attached to an operand one after the other, which costs
no level. Before anything is attached, no default may be left open in the operand. An arrow
function without parentheses gets nothing attached, unless it stands behind `new`.

The loop that attaches remembers whether an optional link has been met, and with that whether the
operand is a chain that is not whole yet; when the loop is over, the chain is made whole. The word
`super` has something behind it that the loop attaches, unless it stands behind `new` and the
parenthesis belongs to that. Nothing is attached to a private name, which has `in` behind it.
-/

namespace EcmaScript.Parser

open Budget

section

variable {text : String} {s : State} {g : Nested} {n : Nat} {b : Budget} {t r : Bool}
  {start : Nat}

/-- A complete arrow function ends where the token taken last ends. -/
theorem isCompleteArrow_eq (e : Expression) (s : State) : isCompleteArrow e s =
    .ok (e.isArrow && Position.offset e.span.stop == s.consumed, s) := by
  cases e <;> rfl

/-- No arrow function at the given start, unless behind `new`. -/
def Attachable (start : Nat) (r : Bool) (e : Expression) : Prop :=
  r = false → e.isArrow = true → e.span.start ≠ start + 1

/-- Anything may be attached to what is no arrow function. -/
theorem attachable_of_isArrow {e : Expression} (h : e.isArrow = false) : Attachable start r e := by
  intro _ ha
  rw [h] at ha
  cases ha

/-- An arrow function that is not complete stands in parentheses. -/
theorem Finished.attachable {e : Expression} {s' : State} (h : Finished s e s')
    (hc : (e.isArrow && Position.offset e.span.stop == s'.consumed) = false) :
    Attachable s.offset r e := by
  intro _ ha hs
  rw [ha, h ha hs, beq_self_eq_true] at hc
  cases hc

/-- An arrow function can stand anywhere. -/
theorem isFree_of_isArrow {e : Expression} (h : e.isArrow = true) : e.isFree = true := by
  cases e with
  | arrow | conciseArrow => rfl
  | _ => exact absurd h Bool.false_ne_true

/-- The name of a property has no scope. -/
theorem memberName_gives (ctx : Context) : Gives text (memberName ctx) s
    fun name _ => ∀ id, name = .identifier id → id.scope = 0 := by
  refine .read rfl (.ite (fun _ => .require failHere_gives fun _ => ?_) fun _ => .ite (fun _ => ?_)
    fun _ => unexpected_gives)
  · exact .skip takeAs_gives fun _ _ _ => .pure nofun
  · refine .bind takeIdentifier_gives fun id s₁ _ hid => .pure ?_
    rintro _ ⟨⟩
    exact hid

/-- A property in brackets is settled. -/
theorem computedMember_gives (hg : g.Builds text n) (ctx : Context) :
    Gives text (computedMember g ctx) s fun a _ => Settled (level n) a := by
  refine .skip expect_gives fun _ s₁ _ => .bind (hg.expression _) fun e s₂ _ h₂ => ?_
  exact .skip expect_gives fun _ _ _ => .pure h₂

/-- The arguments of a call are settled. -/
theorem arguments_gives (hg : g.Builds text n) (ctx : Context) :
    Gives text (arguments g ctx) s fun as _ => ∀ a ∈ as, Settled (level n) a := by
  refine .skip expect_gives fun _ s₁ _ => ?_
  refine .bind (commaList_gives (P := fun a _ => Settled (level n) a) settled_later fun s =>
    spreadable_gives (T := fun _ => true) fun s => hg.value _) fun as s₂ _ h₂ => ?_
  exact .skip expect_gives fun _ _ _ => .pure h₂

/-- A node that attaches something to an operand. -/
theorem built_attached {stop : Nat} {e x : Expression} (hx : x.leading? = some e)
    (hspan : x.span = .ofOffsets start stop) (hk : x.kind? = none) (hu : x.isUnclaimed = false)
    (hr : x.isAccess = true ∨ r = false) (he : Attachable start r e)
    (hp : ∀ p ∈ x.parts, Built b (p.role.tidy t) (p.role.behindNew r) p.node) :
    Built b t r x := by
  refine .node (by simp [hk]) (by simp [hu]) (fun ho => ?_) fun p hm => ?_
  · obtain ⟨e', he', harrow, hstart⟩ := ho
    rw [hx] at he'
    cases he'
    rw [hspan] at hstart
    cases r with
    | false => exact absurd hstart (he rfl harrow)
    | true => exact ⟨rfl, hr.resolve_right (by simp)⟩
  · have hbudget : p.role.budget b x.kind? = b := by
      rw [hk]
      cases p.role <;> simp
    rw [hbudget]
    exact hp p hm

/-- A property with a name is regular, unless it is that of a private name. -/
theorem member_regular {span : Span} {base : Expression} {name : MemberName} {optional : Bool}
    (hbase : Regular base) (hprivate : base.isPrivate = false)
    (hname : ∀ id, name = .identifier id → id.scope = 0) :
    Regular (.member span base name optional) := by
  have hfresh : ∀ scope ∈ (Node.member span base name optional).stamps, scope = 0 := by
    cases name with
    | identifier id => simpa [Node.stamps] using hname id rfl
    | hidden name => simp [Node.stamps]
  refine .node ⟨trivial, trivial, ?_, trivial, hfresh⟩ ?_
  · simpa [Node.PlacesPrivate, Node.parts] using hprivate
  · simpa [Node.parts] using hbase

/-- A property in brackets is regular, unless it is that of a private name. -/
theorem index_regular {span : Span} {base key : Expression} {optional : Bool}
    (hbase : Regular base) (hprivate : base.isPrivate = false) (hkey : Proper key) :
    Regular (.index span base key optional) := by
  obtain ⟨hlinked, hsuper, hhidden⟩ := Node.isFree_iff.mp hkey.free
  refine .node ⟨hlinked, hsuper, ?_, trivial, by simp [Node.stamps]⟩ ?_
  · simpa [Node.PlacesPrivate, Node.parts] using ⟨hprivate, hhidden⟩
  · simpa [Node.parts] using ⟨hbase, hkey.regular⟩

/-- What is created is proper if its callee is whole. -/
theorem construct_proper {span : Span} {callee : Expression} {items : List Expression}
    (hcallee : Regular callee) (hlinked : callee.isLinked = false)
    (hitems : ∀ e ∈ items, Proper e) : Proper (.construct span callee items) := by
  have hfree := fun e he => Node.isFree_iff.mp (hitems e he).free
  refine ⟨.node ⟨?_, fun e he => (hfree e he).2.1, fun e he => (hfree e he).2.2, trivial,
    by simp [Node.stamps]⟩ ?_, rfl⟩
  · simpa [Node.PlacesLinks, Node.parts] using ⟨hlinked, fun e he => (hfree e he).1⟩
  · simpa [Node.parts] using ⟨hcallee, fun e he => (hitems e he).regular⟩

/-- A chain with an optional link that is made whole. -/
theorem optionalChain_proper {span : Span} {e : Expression} (h : Regular e)
    (hlinked : e.isLinked = true) : Proper (.optionalChain span e) := by
  refine ⟨.node ⟨hlinked, ?_, ?_, trivial, by simp [Node.stamps]⟩ ?_, rfl⟩
  · simpa [Node.PlacesSuper, Node.parts] using Node.isSuper_of_isLinked hlinked
  · simpa [Node.PlacesPrivate, Node.parts] using Node.isPrivate_of_isLinked hlinked
  · simpa [Node.parts] using h

/-- An operand to which something is attached. -/
structure IsStem (b : Budget) (start : Nat) (r : Bool) (e : Expression) : Prop where
  built : Built b true r e
  attachable : Attachable start r e
  regular : Regular e
  unprivate : e.isPrivate = false

/-- What comes of attaching something to an operand. -/
structure Attaches (b : Budget) (r : Bool) (e x : Expression) : Prop where
  built : ∀ t, Built b t r x
  regular : Regular x
  leading : x.leading? = some e

/-- What starts with an operand is neither a function nor an operand that needs something behind
it. -/
theorem Attaches.plain {e x : Expression} (h : Attaches b r e x) :
    x.isArrow = false ∧ x.isSuper = false ∧ x.isPrivate = false := by
  have hleading := h.leading
  cases x <;> first | exact ⟨rfl, rfl, rfl⟩ | exact nomatch hleading

namespace IsStem

variable {e : Expression} {stop : Nat}

/-- The arguments of a call are attached to its callee. -/
theorem call (h : IsStem b start false e) {items : List Expression} {optional : Bool}
    (hitems : ∀ a ∈ items, Settled b a) :
    Attaches b false e (.call (.ofOffsets start stop) e items optional) := by
  refine ⟨fun t => ?_, call_regular h.regular h.unprivate fun a ha => (hitems a ha).proper, rfl⟩
  refine built_attached rfl rfl rfl rfl (.inr rfl) h.attachable ?_
  simpa [Node.parts] using ⟨h.built, fun a ha => (hitems a ha).built⟩

/-- A property with a name is attached to the object. -/
theorem member (h : IsStem b start r e) {name : MemberName} {optional : Bool}
    (hname : ∀ id, name = .identifier id → id.scope = 0) :
    Attaches b r e (.member (.ofOffsets start stop) e name optional) := by
  refine ⟨fun t => ?_, member_regular h.regular h.unprivate hname, rfl⟩
  refine built_attached rfl rfl rfl rfl (.inl rfl) h.attachable ?_
  simpa [Node.parts] using h.built

/-- A property in brackets is attached to the object. -/
theorem index (h : IsStem b start r e) {key : Expression} {optional : Bool}
    (hkey : Settled b key) :
    Attaches b r e (.index (.ofOffsets start stop) e key optional) := by
  refine ⟨fun t => ?_, index_regular h.regular h.unprivate hkey.proper, rfl⟩
  refine built_attached rfl rfl rfl rfl (.inl rfl) h.attachable ?_
  simpa [Node.parts] using ⟨h.built, hkey.built⟩

/-- A template is attached to its tag, which is whole. -/
theorem taggedTemplate (h : IsStem b start r e) {quasi : Node .template}
    (hlinked : e.isLinked = false) (hsuper : e.isSuper = false) (hquasi : Settled b quasi) :
    Attaches b r e (.taggedTemplate (.ofOffsets start stop) e quasi) := by
  have htag : Proper e := ⟨h.regular, Node.isFree_iff.mpr ⟨hlinked, hsuper, h.unprivate⟩⟩
  have htagged : Proper (.taggedTemplate (.ofOffsets start stop) e quasi) :=
    (Node.Orderly.unruled rfl).proper (by simpa [Node.parts] using ⟨htag, hquasi.proper⟩)
  refine ⟨fun t => ?_, htagged.regular, rfl⟩
  refine built_attached rfl rfl rfl rfl (.inl rfl) h.attachable ?_
  simpa [Node.parts] using ⟨h.built, hquasi.built⟩

end IsStem

/-- What stands behind the mark of an optional link is attached by such a link. -/
theorem optionalLink_gives (hg : g.Builds text n) (hb : level n ≤ b) (ctx : Context)
    {e : Expression} (he : IsStem b start false e) :
    Gives text (optionalLink g ctx start e) s fun a _ =>
      Attaches b false e a ∧ a.isLinked = true := by
  refine .read rfl ?_
  split
  · refine .bind (arguments_gives hg ctx) fun items s₁ _ h₁ => .read rfl (.pure ⟨?_, rfl⟩)
    exact he.call fun a ha => (h₁ a ha).le hb
  · refine .bind (computedMember_gives hg ctx) fun key s₁ _ h₁ => .read rfl (.pure ⟨?_, rfl⟩)
    exact he.index (h₁.le hb)
  · exact failHere_gives
  · exact failHere_gives
  · refine .bind (memberName_gives ctx) fun name s₁ _ hname => .read rfl (.pure ⟨?_, rfl⟩)
    exact he.member hname

/-- An operand at a place of the loop that attaches, and whether there has been an optional
link. -/
structure IsLinked (ctx : Context) (b : Budget) (start : Nat) (r : Bool) (a : Expression × Bool)
    (s : State) : Prop where
  built : Built b s.coverInit.isNone r a.1
  attachable : Attachable start r a.1
  regular : Regular a.1
  linked : a.1.isLinked = a.2
  unchained : a.2 = true → r = false
  hidden : a.1.isPrivate = true → ctx.noIn = false ∧ s.lexer.token.kind = .word .inKw

/-- An operand to which more may be attached. -/
structure Attaching (ctx : Context) (b : Budget) (start : Nat) (r : Bool) (a : Expression × Bool)
    (s : State) : Prop extends IsLinked ctx b start r a s where
  super : a.1.isSuper = true → followsSuper s.lexer.token.kind = true

/-- An operand to which all has been attached. -/
structure Attachment (ctx : Context) (b : Budget) (start : Nat) (r : Bool) (a : Expression × Bool)
    (s : State) : Prop extends IsLinked ctx b start r a s where
  super : a.1.isSuper = true → r = true

/-- More may be attached to what something has been attached to. -/
theorem Attaches.attaching {ctx : Context} {e x : Expression} {c : Bool} {s : State}
    (h : Attaches b r e x) (hlinked : x.isLinked = c) (hc : c = true → r = false) :
    Attaching ctx b start r (x, c) s := by
  obtain ⟨harrow, hsuper, hprivate⟩ := h.plain
  exact ⟨⟨h.built _, attachable_of_isArrow harrow, h.regular, hlinked, hc,
    fun hp => absurd hp (by simp [hprivate])⟩, fun hs => absurd hs (by simp [hsuper])⟩

/-- What a token announces is attached to an operand. It ends the operand if it announces
nothing. -/
theorem attach_gives (hg : g.Builds text n) (hb : level n ≤ b) (ht : n < b .template)
    (ctx : Context) {e : Expression} {chained : Bool}
    (h : Attaching ctx b start r (e, chained) s)
    (hnone : isSubscript s.lexer.token.kind = true → s.coverInit = none) :
    Gives text (attach g ctx start r e chained s.lexer.token.kind) s
      (AfterRound (Attaching ctx b start r) (Attachment ctx b start r)) := by
  have hbase : isSubscript s.lexer.token.kind = true → IsStem b start r e := by
    refine fun hk => ⟨?_, h.attachable, h.regular, eq_false_of_ne_true fun hp => ?_⟩
    · have hbuilt := h.built
      rwa [hnone hk] at hbuilt
    · rw [(h.hidden hp).2] at hk
      exact nomatch hk
  have hunsuper : followsSuper s.lexer.token.kind = false → e.isSuper = false := fun hends =>
    eq_false_of_ne_true fun hs => absurd (h.super hs) (by simp [hends])
  have htagged : isSubscript s.lexer.token.kind = true → followsSuper s.lexer.token.kind = false →
      Gives text (do
        if chained then failHere .templateOnOptionalChain
        let quasi ← templateLiteral g ctx true
        return .next (.taggedTemplate (← spanFrom start) e quasi, chained)) s
        (AfterRound (Attaching ctx b start r) (Attachment ctx b start r)) := by
    intro hk hends
    refine .refuse failHere_gives fun hchained => ?_
    refine .bind (templateLiteral_gives hg ctx true) fun quasi s₁ _ h₁ => .read rfl (.pure ?_)
    have hquasi : Settled b quasi := .enclosing h₁.1 hb fun k hk => by
      rw [h₁.2] at hk
      cases hk
      exact ht
    have hlinked := h.linked.trans (eq_false_of_ne_true hchained)
    exact ((hbase hk).taggedTemplate hlinked (hunsuper hends) hquasi).attaching
      (eq_false_of_ne_true hchained).symm h.unchained
  unfold attach
  split
  · rename_i hk
    refine .skip advance_gives fun _ s₁ _ => .bind (memberName_gives ctx) fun name s₂ _ hname => ?_
    exact .read rfl (.pure (((hbase (by rw [hk]; rfl)).member hname).attaching h.linked
      h.unchained))
  · rename_i hk
    refine .refuse failHere_gives fun hr => .skip advance_gives fun _ s₁ _ => ?_
    rw [Bool.not_eq_true] at hr
    subst hr
    refine .bind (optionalLink_gives hg hb ctx (hbase (by rw [hk]; rfl))) fun x s₂ _ h₂ => ?_
    exact .pure (h₂.1.attaching h₂.2 fun _ => rfl)
  · rename_i hk
    refine .bind (computedMember_gives hg ctx) fun key s₁ _ h₁ => .read rfl (.pure ?_)
    exact ((hbase (by rw [hk]; rfl)).index (h₁.le hb)).attaching h.linked h.unchained
  · rename_i hk
    refine .ite (fun hr => .pure ⟨h.toIsLinked, fun _ => hr⟩) fun hr => ?_
    rw [Bool.not_eq_true] at hr
    subst hr
    refine .bind (arguments_gives hg ctx) fun items s₁ _ h₁ => .read rfl (.pure ?_)
    exact ((hbase (by rw [hk]; rfl)).call fun a hm => (h₁ a hm).le hb).attaching h.linked
      h.unchained
  · rename_i hk
    exact htagged (by rw [hk]; rfl) (by rw [hk]; rfl)
  · rename_i hk
    exact htagged (by rw [hk]; rfl) (by rw [hk]; rfl)
  · rename_i hdot _ hbracket hparen _ _
    have hends : followsSuper s.lexer.token.kind = false := by
      unfold followsSuper
      split
      · exact absurd ‹_› hparen
      · exact absurd ‹_› hdot
      · exact absurd ‹_› hbracket
      · rfl
    exact .pure ⟨h.toIsLinked, fun hs => absurd hs (by simp [hunsuper hends])⟩

/-- A round of the loop attaches one thing. -/
theorem subscript_gives (hg : g.Builds text n) (hb : level n ≤ b) (ht : n < b .template)
    (ctx : Context) (a : Expression × Bool) (h : Attaching ctx b start r a s) :
    Gives text (subscript g ctx start r a) s
      (AfterRound (Attaching ctx b start r) (Attachment ctx b start r)) := by
  obtain ⟨e, chained⟩ := a
  rw [subscript_eq]
  refine .read rfl (.ite (fun _ => .bind checkCoverInit_gives fun _ s₁ _ h₁ => ?_) fun hk => ?_)
  · obtain ⟨rfl, hnone⟩ := h₁
    exact attach_gives hg hb ht ctx h fun _ => hnone
  · exact attach_gives hg hb ht ctx h fun hk' => absurd hk' hk

/-- The operand with all that is attached to it, as a whole. -/
theorem subscripts_gives (hg : g.Builds text n) (hb : level n ≤ b) (ht : n < b .template)
    (ctx : Context) {e : Expression} (h : Attaching ctx b start r (e, false) s) :
    Gives text (subscripts g ctx start r e) s fun a s' =>
      Attachment ctx b start r (a, false) s' := by
  refine .bind (iterate_gives (fun a s h => subscript_gives hg hb ht ctx a h) h) fun a s₁ _ h₁ => ?_
  refine .ite (fun hc => .read rfl (.pure ?_)) fun hc => .pure ?_
  · have hchain : ∀ span, Proper (.optionalChain span a.1) :=
      fun _ => optionalChain_proper h₁.regular (h₁.linked.trans hc)
    refine ⟨⟨?_, attachable_of_isArrow rfl, (hchain _).regular, rfl, (fun h => by cases h),
      (fun h => by cases h)⟩, fun h => by cases h⟩
    have hr := h₁.unchained hc
    subst hr
    exact .of_plain rfl (by simp [Node.kind?]) (by simpa [Node.parts, Node.kind?] using h₁.built)
  · have hunlinked := h₁.linked.trans (eq_false_of_ne_true hc)
    exact ⟨⟨h₁.built, h₁.attachable, h₁.regular, hunlinked, (fun h => by cases h), h₁.hidden⟩,
      h₁.super⟩

/-- The word `super` is read only where it has a meaning, with what it has behind it. -/
theorem superBase_gives (ctx : Context) :
    Gives text (superBase ctx) s fun a s' => IsTermStart ctx b a s' ∧ Finished s a s' := by
  refine .read rfl (.skip advance_gives fun _ s₁ _ => .read rfl ?_)
  refine .require fail_gives fun hallowed => .read rfl (.pure ⟨⟨?_, ?_, rfl, fun _ => ?_, nofun⟩,
    fun h => by cases h⟩)
  · exact .wrapped rfl rfl (by simp [Node.parts])
  · exact .of_parts rfl trivial (by simp [Node.stamps]) (by simp [Node.parts])
  · unfold followsSuper
    split at hallowed
    all_goals simp_all

/-- The meta property `new.target` leaves nothing open. -/
theorem newTarget_gives (ctx : Context) (start : Nat) {s₀ : State} :
    Gives text (newTarget ctx start) s fun a s' => Open b a s' ∧ Finished s₀ a s' := by
  refine .read rfl (.skip advance_gives fun _ s₁ _ => .read rfl ?_)
  refine .require unexpected_gives fun _ => .require fail_gives fun _ => ?_
  refine .bind takeIdentifier_gives fun id s₂ _ hid => .read rfl (.pure ?_)
  refine ⟨.wrapped rfl ⟨rfl, trivial, ?_, rfl⟩ rfl (by simp [Node.parts]), fun h => by cases h⟩
  simpa [Node.stamps] using hid

/-- The callee of `new` is one level further in up to its properties, which are not. -/
theorem construct_gives {g : Grammar} (hg : g.Builds text n) (ctx : Context) :
    Gives text (construct g ctx) s fun a s' => Open (simple n) a s' ∧ Finished s a s' := by
  have hb : level n ≤ (simple n).spend (some .construct) := by
    refine level_le_spend (level_le_simple n) ?_
    rintro _ ⟨⟩
    exact lt_simple n (by simp) (by simp)
  have ht : n < (simple n).spend (some .construct) .template := by
    rw [spend_of_ne _ (by simp)]
    exact lt_simple n (by simp) (by simp)
  have hnode : ∀ {callee : Expression} {items : List Expression} {span : Span} {s s' : State}
      {start : Nat}, Later s s' →
      Attachment ctx ((simple n).spend (some .construct)) start true (callee, false) s →
      (∀ a ∈ items, Settled (level n) a) → Open (simple n) (.construct span callee items) s' := by
    intro callee items span s s' start hl hcallee hitems
    refine ⟨.of_plain rfl ?_ ?_, construct_proper hcallee.regular hcallee.linked
      fun a ha => (hitems a ha).proper⟩
    · rintro _ ⟨⟩
      exact Nat.zero_lt_of_lt (lt_simple n (by simp) (by simp))
    · have hbuilt : Built ((simple n).spend (some .construct)) s'.coverInit.isNone true callee := by
        refine hcallee.built.mono le_rfl (fun hn => ?_) id
        rw [Option.isNone_iff_eq_none] at hn ⊢
        exact hl hn
      simpa [Node.parts, Node.kind?] using ⟨hbuilt, fun a hm => ((hitems a hm).le hb).built⟩
  refine .read rfl (.skip advance_gives fun _ s₁ _ => .read rfl ?_)
  refine .ite (fun _ => newTarget_gives ctx _) fun _ => .read rfl ?_
  refine .bind (hg.nested.newCallee ctx s₁) fun base s₂ _ h₂ => ?_
  have hbase : Attaching ctx ((simple n).spend (some .construct)) s₁.offset true (base, false) s₂ :=
    ⟨⟨(h₂.built.le hb).behind, (fun h => by cases h), h₂.regular, h₂.unlinked,
      (fun h => by cases h), h₂.hidden⟩, h₂.super⟩
  refine .bind (subscripts_gives hg.nested hb ht ctx hbase) fun callee s₃ _ h₃ => .read rfl ?_
  refine .ite (fun _ => ?_) fun _ => ?_
  · refine .bind (arguments_gives hg.nested ctx) fun items s₄ hl h₄ => .read rfl (.pure ?_)
    exact ⟨hnode hl h₃ h₄, fun h => by cases h⟩
  · exact .read rfl (.read rfl (.pure ⟨hnode (.refl _) h₃ (by simp), fun h => by cases h⟩))

/-- An operand before anything is attached to it. -/
theorem operandBase_gives {g : Grammar} (hg : g.Builds text n) (ctx : Context) :
    Gives text (operandBase g ctx) s fun a s' =>
      IsTermStart ctx (simple n) a s' ∧ Finished s a s' := by
  refine .read rfl ?_
  split
  · exact (construct_gives hg ctx).imp fun _ _ h => ⟨.of_open h.1, h.2⟩
  · exact superBase_gives ctx
  · refine (primary_gives hg ctx).imp fun a s' h => ⟨?_, h.2⟩
    exact ⟨h.1.built, h.1.regular, h.1.unlinked, fun hs => absurd hs (by simp [h.1.unsuper]),
      h.1.hidden⟩

/-- What was put aside and what was met since is both open. -/
theorem isNone_of_merge {outer inner : Option Nat} (h : (outer.or inner).isNone = true) :
    inner.isNone = true := by
  rw [Option.isNone_iff_eq_none] at h ⊢
  exact (Option.or_eq_none_iff.mp h).2

/-- An operand is whole, with all that is attached to it. -/
theorem operand_gives {g : Grammar} (hg : g.Builds text n) (ctx : Context) :
    Gives text (operand g ctx) s fun a s' => IsTerm ctx (simple n) a s' ∧ Finished s a s' := by
  refine Runs.read rfl (Runs.step rfl (State.Sound.remember rfl rfl rfl rfl) ?_)
  refine Runs.bind (operandBase_gives hg ctx) fun base s₁ h₁ => ?_
  obtain ⟨-, hbase, hfinished⟩ := h₁
  refine Runs.read (isCompleteArrow_eq base s₁) (Runs.ite (fun hc => Runs.read rfl ?_) fun hc => ?_)
  · refine Runs.step rfl (State.Sound.remember rfl rfl rfl rfl) (Runs.pure ⟨fun hn => ?_, ?_⟩)
    · exact (Option.or_eq_none_iff.mp hn).1
    · have hfree := Node.isFree_iff.mp (isFree_of_isArrow (Bool.and_eq_true _ _ ▸ hc).1)
      exact ⟨⟨hbase.built.mono le_rfl isNone_of_merge id, hbase.regular, hbase.unlinked,
        hfree.2.1, hbase.hidden⟩, hfinished⟩
  · rw [Bool.not_eq_true] at hc
    have hend := lt_simple n (k := .template) (by simp) (by simp)
    have hstart : Attaching ctx (simple n) s.offset false (base, false) s₁ :=
      ⟨⟨hbase.built, hfinished.attachable hc, hbase.regular, hbase.unlinked,
        (fun h => by cases h), hbase.hidden⟩, hbase.super⟩
    refine Runs.bind (subscripts_gives hg.nested (level_le_simple n) hend ctx hstart)
      fun e s₂ h₂ => ?_
    obtain ⟨-, he⟩ := h₂
    refine Runs.step rfl (State.Sound.remember rfl rfl rfl rfl) (Runs.pure ⟨fun hn => ?_, ?_, ?_⟩)
    · exact (Option.or_eq_none_iff.mp hn).1
    · have hsuper := eq_false_of_ne_true fun hs => Bool.false_ne_true (he.super hs)
      exact ⟨he.built.mono le_rfl isNone_of_merge id, he.regular, he.linked, hsuper, he.hidden⟩
    · exact fun ha hs => absurd hs (he.attachable rfl ha)

/-- The heritage of a class is an operand, with classes in it or without. -/
theorem Nested.Builds.grammar (hg : g.Builds text n) : g.grammar.Builds text n where
  nested := hg
  heritage := by
    intro ctx s
    refine recursive_gives (Q := fun ctx => IsTerm ctx (simple n))
      (fun again hagain ctx s => ?_) ctx
    have hgrammar : Grammar.Builds text n { g with heritage := again } := ⟨hg, hagain⟩
    exact (operand_gives hgrammar ctx).imp fun _ _ h => h.1

end

end EcmaScript.Parser
