import EcmaScript.Proofs.Build.Binding
import EcmaScript.Proofs.Parser.Class

/-!
# Building classes

The members of a class hold functions, which count on their own and not as part of what is
one level further in. The heritage of a class is built with the same budget as the class, and
what is open in it stays open in the class. It has the body of the class behind it, so it is no
private name with `in` behind it.

The checks on the members of a class are the rules that a class follows. The loop over the
members remembers whether there has been a constructor, so that there is at most one.
-/

namespace EcmaScript.Parser

open Budget

/-- What a member of a class or an object needs: the levels of its parts and a function. -/
def Affords (n : Nat) (b : Budget) : Prop := level n ≤ b ∧ n < b .function

/-- The parsers of a level build with so many levels further in. -/
structure Grammar.Builds (text : String) (n : Nat) (g : Grammar) : Prop where
  nested : g.toNested.Builds text n
  heritage : ∀ ctx s, Gives text (g.heritage ctx) s (IsTerm ctx (simple n))

section

variable {text : String} {s : State} {g : Nested} {n : Nat} {b : Budget}

/-- A word that modifies a member leaves nothing to be built. -/
theorem eatModifier_gives (ends : TokenKind → Bool) (w : Keyword) :
    Gives text (eatModifier ends w) s fun _ _ => True := by
  refine .read rfl (.ite (fun _ => .read rfl (.ite (fun _ => ?_) fun _ => ?_)) fun _ => ?_)
  · exact .skip advance_gives fun _ _ _ => .pure trivial
  · exact .pure trivial
  · exact .pure trivial

/-- The modifiers of a member leave nothing to be built. -/
theorem modifiers_gives (ends : TokenKind → Bool) :
    Gives text (modifiers ends) s fun _ _ => True := by
  refine .skip (eatModifier_gives ends _) fun isAsync s₁ _ => .skip eat_gives
    fun isGenerator s₂ _ => ?_
  refine .ite (fun _ => .pure trivial) fun _ => .skip (eatModifier_gives ends _) fun _ s₃ _ => ?_
  refine .ite (fun _ => .pure trivial) fun _ => .skip (eatModifier_gives ends _) fun _ s₄ _ => ?_
  exact .ite (fun _ => .pure trivial) fun _ => .pure trivial

/-- What is not refused as the key of a member is no reserved key. -/
theorem checkMemberKey_gives (isStatic : Bool) (place : Nat) (key : Node .propertyKey) :
    Gives text (checkMemberKey isStatic place key) s fun _ _ => key.NamesMember isStatic := by
  have hprototype : ∀ s, Gives text (if isStatic && key.staticName? == some "prototype" then
      fail place .staticPrototype else pure ()) s
      fun _ _ => isStatic = true → key.staticName? ≠ some "prototype" := by
    refine fun s => .ite (fun _ => fail_gives) fun hnot => .pure fun hstatic hname => hnot ?_
    simp [hstatic, hname]
  cases key with
  | privateKey name =>
    unfold checkMemberKey
    refine .refuse fail_gives fun hhidden => (hprototype s).imp fun _ _ h => ⟨?_, h⟩
    exact eq_false_of_ne_true hhidden
  | _ => exact (hprototype s).imp fun _ _ h => ⟨rfl, h⟩

/-- A member without flaw is no accessor, no generator and not asynchronous. -/
theorem constructorFlaw?_eq_none {m : Modifiers} (h : constructorFlaw? m = none) :
    m.accessor = .init ∧ m.isGenerator = false ∧ m.isAsync = false := by
  cases haccessor : m.accessor with
  | init =>
    cases hgenerator : m.isGenerator <;> cases hasync : m.isAsync <;>
      simp [constructorFlaw?, haccessor, hgenerator, hasync] at h ⊢
  | getter => simp [constructorFlaw?, haccessor] at h
  | setter => simp [constructorFlaw?, haccessor] at h

/-- What is not refused as a constructor is a plain method and the first constructor. -/
theorem checkConstructor_gives (isConstructor hasConstructor : Bool) (m : Modifiers)
    (place : Nat) : Gives text (checkConstructor isConstructor hasConstructor m place) s
      fun _ _ => isConstructor = true → constructorFlaw? m = none ∧ hasConstructor = false := by
  unfold checkConstructor
  refine .ite (fun _ => ?_) fun hnot => .pure fun hc => absurd hc hnot
  cases constructorFlaw? m with
  | some flaw => exact .cut fail_gives
  | none =>
    exact .ite (fun _ => fail_gives) fun hfirst => .pure fun _ => ⟨rfl, eq_false_of_ne_true hfirst⟩

/-- What is not refused as a field does not have the name of a constructor. -/
theorem checkField_gives (m : Modifiers) (place : Nat) (key : Node .propertyKey) :
    Gives text (checkField m place key) s fun _ _ => key.staticName? ≠ some "constructor" := by
  unfold checkField
  refine .refuse unexpected_gives fun _ => .ite (fun _ => fail_gives) fun hnot => .pure ?_
  exact fun hname => hnot (by simp [hname])

/-- The kind of a method is that of the modifiers that it has. -/
theorem methodKindOf_accessor (m : Modifiers) (isConstructor : Bool) :
    (methodKindOf m isConstructor).accessor = m.accessor := by
  cases haccessor : m.accessor <;> cases isConstructor <;>
    simp [methodKindOf, haccessor, MethodKind.accessor]

/-- A method is a constructor as its name says, unless it is an accessor. -/
theorem methodKindOf_eq_constructor {m : Modifiers} {isConstructor : Bool}
    (h : isConstructor = true → m.accessor = .init) :
    methodKindOf m isConstructor = .constructor ↔ isConstructor = true := by
  cases isConstructor with
  | false => cases haccessor : m.accessor <;> simp [methodKindOf, haccessor]
  | true => simp [methodKindOf, h rfl]

/-- The value of a field is settled. -/
theorem fieldInitializer_gives (hg : g.Builds text n) (ctx : Context) :
    Gives text (fieldInitializer g ctx) s fun a _ => Settled (level n) a :=
  ownSuspensions_gives (P := fun a => Settled (level n) a) fun _ => hg.value _

/-- A static block is settled, and is no constructor. -/
theorem staticBlock_gives (hg : g.Builds text n) (ctx : Context) :
    Gives text (staticBlock g ctx) s fun a _ =>
      Settled (level n) a ∧ a.isConstructor = false := by
  refine .read rfl (.skip advance_gives fun _ s₁ _ => .skip expect_gives fun _ s₂ _ => ?_)
  refine .bind (ownSuspensions_gives (P := fun body => ∀ a ∈ body, Settled (level n) a) fun s => ?_)
    fun body s₃ _ h₃ => .read rfl (.pure ⟨.wrapped rfl ⟨rfl, trivial, ?_, rfl⟩ rfl ?_, rfl⟩)
  · refine .bind (hg.statementsUntil _ _) fun body s₁ _ h₁ => ?_
    exact .skip expect_gives fun _ _ _ => .pure h₁
  · simp [Node.stamps]
  · simpa [Node.parts] using h₃

/-- A function where the levels of its parts and one more function are left. -/
theorem Affords.settled (hb : Affords n b) {f : Node .function} (h : Encloses n f) :
    Settled b f := by
  refine .enclosing h hb.1 fun k hk => ?_
  cases f with
  | function =>
    cases hk
    exact hb.2

/-- A member of a class that is settled, and whether it is a constructor. Only the first
constructor is let through. -/
structure IsMember (b : Budget) (hasConstructor : Bool) (a : Node .classElement × Bool) : Prop where
  settled : Settled b a.1
  isConstructor_eq : a.1.isConstructor = a.2
  first : a.2 = true → hasConstructor = false

/-- A method follows the rules, if its key and its modifiers have passed the checks. -/
theorem methodMember_gives (hg : g.Builds text n) (hb : Affords n b) (ctx : Context) (start : Nat)
    (derived : Bool) {isStatic isConstructor hasConstructor : Bool} {m : Modifiers}
    {key : Node .propertyKey} (hkey : Settled (level n) key) (hmember : key.NamesMember isStatic)
    (hname : isConstructor = true ↔ isStatic = false ∧ key.staticName? = some "constructor")
    (hcheck : isConstructor = true → constructorFlaw? m = none ∧ hasConstructor = false) :
    Gives text (methodMember g ctx start derived isStatic m key isConstructor) s
      fun a _ => IsMember b hasConstructor a := by
  have hkind : methodKindOf m isConstructor = .constructor ↔ isConstructor = true :=
    methodKindOf_eq_constructor fun hc => (constructorFlaw?_eq_none (hcheck hc).1).1
  refine .bind (methodFunction_gives hg _ _ _ _ _) fun f s₁ _ h₁ => .read rfl (.pure ?_)
  obtain ⟨hf, haccessor, hplain⟩ := h₁
  have hmethod : Node.IsMethod key (methodKindOf m isConstructor) isStatic f := by
    refine ⟨?_, hkind.trans hname, fun hc => ?_⟩
    · rwa [methodKindOf_accessor]
    · obtain ⟨-, hgenerator, hasync⟩ := constructorFlaw?_eq_none (hcheck (hkind.mp hc)).1
      simp [hplain, hgenerator, hasync]
  refine ⟨.wrapped rfl ⟨rfl, ⟨hmember, hmethod⟩, by simp [Node.stamps], rfl⟩ rfl ?_, ?_,
    fun hc => (hcheck hc).2⟩
  · simpa [Node.parts] using ⟨hkey.le hb.1, hb.settled hf⟩
  · rw [Bool.eq_iff_iff]
    simpa [Node.isConstructor] using hkind

/-- A field follows the rules, if its key has passed the checks. -/
theorem fieldMember_gives (hg : g.Builds text n) (hb : Affords n b) (ctx : Context) (start : Nat)
    {isStatic hasConstructor : Bool} {key : Node .propertyKey} (hkey : Settled (level n) key)
    (hmember : key.NamesMember isStatic) (hname : key.staticName? ≠ some "constructor") :
    Gives text (fieldMember g ctx start isStatic key) s fun a _ => IsMember b hasConstructor a := by
  have hfinish : ∀ (value : Option Expression) (s : State),
      (∀ e, value = some e → Settled (level n) e) → Gives text (do
        semicolon
        return (Node.field (← spanFrom start) key isStatic value, false)) s
        fun a _ => IsMember b hasConstructor a := by
    intro value s hv
    refine .skip semicolon_gives fun _ s₁ _ => .read rfl (.pure ⟨?_, rfl, nofun⟩)
    refine .wrapped rfl ⟨rfl, ⟨hmember, hname⟩, by simp [Node.stamps], rfl⟩ rfl ?_
    simpa [Node.parts] using ⟨hkey.le hb.1, fun e he => (hv e he).le hb.1⟩
  refine .eat (fun s₁ _ => ?_) (.read rfl (hfinish none s (by simp)))
  refine .bind (fieldInitializer_gives hg ctx) fun value s₂ _ h₂ => .read rfl (hfinish _ s₂ ?_)
  rintro _ ⟨⟩
  exact h₂

/-- A method or a field is a member as the checks let it through. -/
theorem methodOrField_gives (hg : g.Builds text n) (hb : Affords n b) (ctx : Context)
    (start : Nat) (derived isStatic hasConstructor : Bool) :
    Gives text (methodOrField g ctx start derived isStatic hasConstructor) s
      fun a _ => IsMember b hasConstructor a := by
  rw [methodOrField_eq]
  refine .skip (modifiers_gives _) fun m s₁ _ => .read rfl ?_
  refine .bind (propertyKey_gives hg ctx true) fun key s₂ _ h₂ => ?_
  refine .bind (checkMemberKey_gives isStatic _ key) fun _ s₃ _ hmember => ?_
  refine .read rfl (.ite (fun _ => ?_) fun _ => ?_)
  · refine .bind (checkConstructor_gives _ _ m _) fun _ s₄ _ hcheck => ?_
    exact methodMember_gives hg hb ctx start derived h₂ hmember (by simp) hcheck
  · refine .bind (checkField_gives m _ key) fun _ s₄ _ hname => ?_
    exact fieldMember_gives hg hb ctx start h₂ hmember hname

/-- An element of a class is a member, or a static block. -/
theorem classElement_gives (hg : g.Builds text n) (hb : Affords n b) (ctx : Context)
    (derived hasConstructor : Bool) :
    Gives text (classElement g ctx derived hasConstructor) s
      fun a _ => IsMember b hasConstructor a := by
  refine .read rfl (.read rfl (.read rfl (.ite (fun _ => ?_) fun _ => ?_)))
  · refine .bind (staticBlock_gives hg ctx) fun a s₁ _ h₁ => .pure ?_
    exact ⟨h₁.1.le hb.1, h₁.2, nofun⟩
  · refine .skip (eatModifier_gives _ _) fun isStatic s₁ _ => ?_
    exact methodOrField_gives hg hb ctx _ derived isStatic hasConstructor

/-- The members of a class, of which at most one is a constructor. -/
theorem classElements_gives (hg : g.Builds text n) (hb : Affords n b) (ctx : Context)
    (derived : Bool) :
    Gives text (classElements g ctx derived) s fun as _ =>
      (∀ a ∈ as, Settled b a) ∧ as.countP Node.isConstructor ≤ 1 := by
  -- Whether there has been a constructor is how many there have been.
  refine iterate_gives (I := fun x _ => (∀ a ∈ x.1, Settled b a) ∧
    x.1.countP Node.isConstructor = x.2.toNat) ?_ (by simp)
  rintro ⟨found, hasConstructor⟩ s ⟨hfound, hcount⟩
  refine .read rfl (.ite (fun _ => .pure ⟨fun a ha => hfound a (List.mem_reverse.mp ha), ?_⟩)
    fun _ => .eat (fun s₁ _ => .pure ⟨hfound, hcount⟩) ?_)
  · rw [List.countP_reverse, hcount]
    exact Bool.toNat_le hasConstructor
  · refine .bind (classElement_gives hg hb ctx derived hasConstructor) fun x s₁ _ h₁ => .pure ?_
    refine ⟨List.forall_mem_cons.mpr ⟨h₁.settled, hfound⟩, ?_⟩
    simp only at hcount
    rw [List.countP_cons, hcount, h₁.isConstructor_eq]
    cases hx : x.2 with
    | false => simp
    | true => simp [h₁.first hx]

/-- The name of a class has no scope yet. -/
theorem className_gives (ctx : Context) (isDeclaration : Bool) :
    Gives text (className ctx isDeclaration) s
      fun name _ => ∀ id, name = some id → id.scope = 0 := by
  refine .read rfl (.ite (fun _ => ?_) fun _ => .ite (fun _ => unexpected_gives) fun _ =>
    .pure (by simp))
  refine .bind (identifier_gives ctx) fun id s₁ _ hid => .pure ?_
  rintro _ ⟨⟩
  exact hid

/-- What a class extends is a whole operand. -/
theorem superClass_gives {g : Grammar} (hg : g.Builds text n) (ctx : Context) :
    Gives text (superClass g ctx) s fun a s' => ∀ e, a = some e → IsTerm ctx (simple n) e s' := by
  refine .eat (fun s₁ _ => ?_) (.pure (by simp))
  refine .bind (hg.heritage ctx s₁) fun e s₂ _ h₂ => .pure ?_
  rintro _ ⟨⟩
  exact h₂

/-- A class fits where an operand fits. -/
theorem classDefinition_gives {g : Grammar} (hg : g.Builds text n) (hb : simple n ≤ b)
    (ctx : Context) (isDeclaration : Bool) :
    Gives text (classDefinition g ctx isDeclaration) s fun a s' => Open b a s' := by
  have hlt : ∀ {k : Kind}, k ≠ .conditional → k ≠ .statement → n < b k :=
    fun hc hs => Nat.lt_of_lt_of_le (lt_simple n hc hs) (hb _)
  have hmembers : Affords n (b.spend (some .classDefinition)) := by
    refine ⟨level_le_spend ((level_le_simple n).trans hb) ?_, ?_⟩
    · rintro _ ⟨⟩
      exact hlt (by simp) (by simp)
    · rw [spend_of_ne _ (by simp)]
      exact hlt (by simp) (by simp)
  rw [classDefinition_eq]
  refine .read rfl (.skip expect_gives fun _ s₁ _ => ?_)
  refine .bind (className_gives ctx isDeclaration) fun name s₂ _ hname => ?_
  refine .bind (superClass_gives hg ctx) fun superClass s₃ _ h₃ => .read rfl ?_
  refine .bind expect_gives fun _ s₄ hl₄ hbrace => ?_
  have hheritage : ∀ e, superClass = some e → Open (simple n) e s₃ := by
    intro e he
    refine (h₃ e he).open (eq_false_of_ne_true fun hprivate => ?_)
    -- Behind a private name there is `in`, and here there is a brace.
    have hin := ((h₃ e he).hidden hprivate).2
    rw [hbrace] at hin
    exact nomatch hin
  refine .bind (classElements_gives hg.nested hmembers _ _) fun elements s₅ hl₅ h₅ => ?_
  refine .skip expect_gives fun _ s₆ hl₆ => .read rfl (.read rfl (.pure ?_))
  refine .of_plain rfl ⟨rfl, h₅.2, by simpa [Node.stamps] using hname, rfl⟩ ?_ ?_
  · rintro _ ⟨⟩
    exact Nat.zero_lt_of_lt (hlt (k := .classDefinition) (by simp) (by simp))
  · have hl := hl₄.trans (hl₅.trans hl₆)
    simpa [Node.parts, Node.kind?, or_imp, forall_and] using
      ⟨fun e he => ((hheritage e he).later _ _ _ hl).le hb, h₅.1⟩

end

end EcmaScript.Parser
