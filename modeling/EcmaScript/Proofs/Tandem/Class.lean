import EcmaScript.Proofs.Parser.Class
import EcmaScript.Proofs.Tandem.Binding

/-!
# Classes in step

Whether a word modifies a member is known from the token behind it, which then is taken too.
-/

namespace EcmaScript.Parser

open Place

section

variable {w : Tandem} {K : Prop} {s t : State} {g : Nested}

/-- Whether the current word modifies the token behind it. -/
def modifies (ends : TokenKind → Bool) (lexer : Lexer) : Bool :=
  !ends lexer.scan.token.kind &&
    !(lexer.token.kind == .word .asyncKw && lexer.scan.token.afterLineBreak)

/-- A word modifies a member in both texts if the next token is the same. -/
theorem modifies_eq {ends : TokenKind → Bool} (h : Alike w s t) (hnext : Alike w s.next t.next)
    (hb : w.base < s.next.consumed) : modifies ends t.lexer = modifies ends s.lexer := by
  have hkind : t.lexer.scan.token.kind = s.lexer.scan.token.kind := hnext.twin.kind
  have hline : t.lexer.scan.token.afterLineBreak = s.lexer.scan.token.afterLineBreak :=
    hnext.lineBreak hb
  rw [modifies, modifies, hkind, hline, h.twin.kind]

/-- A word that modifies what is behind it. The end of the text is nothing that it can modify, nor
is a semicolon where a field may end. -/
theorem eatModifier_follows {ends : TokenKind → Bool} (hends : ends .endOfFile = true)
    (word : Keyword) (hsemi : K → s.lexer.token.kind = .word word → ¬modifies ends s.lexer = true →
      ends (.mark .semicolon) = true ∨ w.Ahead 2 s.post) :
    Follows w K 0 nowhere id (eatModifier ends word) (eatModifier ends word) s t := by
  refine .isAt_nowhere (fun hk => ?_) fun _ => .pure rfl
  have hreread : isReread s.lexer.token.kind = false := by rw [hk]; rfl
  have hne : s.lexer.token.kind ≠ .endOfFile := by rw [hk]; simp
  refine .of_base fun hb hs => ?_
  have hbase : w.base < s.next.consumed :=
    Nat.lt_of_le_of_lt hb.base_le (hs.place.offset_lt_stop hne)
  refine .read (a := modifies ends s.lexer) (c := modifies ends t.lexer) rfl rfl ?_
  refine .branch_nowhere (m := 1) (fun _ => advance_mute.bind fun _ _ _ _ _ hrun => ?_)
    (fun _ => .andThen (advance_follows hne) fun _ _ _ _ _ => .pure rfl)
    (fun _ => .pure rfl) (fun hm hs hb ha hin _ => ?_) (fun hm hs hb ha hin hk => ?_) (by decide)
  · cases hrun
    rfl
  · rw [modifies_eq (InStep.alike hin hs ha) (InStep.alike_next hin hs hb hne hreread ha) hbase]
    exact hm
  · have hsame : Alike w s.next t.next → ¬modifies ends t.lexer = true := fun halike => by
      rw [modifies_eq (InStep.alike hin hs ha) halike hbase]
      exact hm
    rcases InStep.cases_next hin hs hb hne hreread ha with halike | hend
    · exact hsame halike
    · rcases hsemi hk ‹_› hm with hsemi | hmore
      · have hkind : ends t.lexer.scan.token.kind = true :=
          hend.of_kind (motive := fun k => ends k = true) hends hsemi
        rw [modifies, hkind]
        simp
      · exact hsame (InStep.alike_next hin hs hb hne hreread hmore)

/-- What is no modifier stays. -/
theorem eatModifier_same {ends : TokenKind → Bool} {word : Keyword} {s₁ : State}
    (h : eatModifier ends word s = .ok (false, s₁)) : s₁ = s := by
  obtain ⟨isWord, s₂, hword, h⟩ := bind_eq_ok h
  cases hword
  cases hw : s.lexer.token.kind == .word word with
  | false =>
    rw [hw] at h
    cases h
    rfl
  | true =>
    rw [hw] at h
    obtain ⟨isModifier, s₃, hmodifier, h⟩ := bind_eq_ok h
    cases hmodifier
    split at h
    · cases h
    · cases h
      rfl

/-- Modifiers are read in step. -/
theorem modifiers_follows {ends : TokenKind → Bool} (hends : ends .endOfFile = true)
    (hsemi : K → ends (.mark .semicolon) = true ∨ ∀ word, s.lexer.token.kind = .word word →
      ¬modifies ends s.lexer = true → w.Ahead 2 s.post) :
    Follows w K 0 nowhere id (modifiers ends) (modifiers ends) s t := by
  have hmore : ∀ {L : Prop} (word : Keyword), (L → K) → L → s.lexer.token.kind = .word word →
      ¬modifies ends s.lexer = true → ends (.mark .semicolon) = true ∨ w.Ahead 2 s.post :=
    fun word hK hL hk hm => (hsemi (hK hL)).imp_right fun h => h word hk hm
  refine .within (eatModifier_follows hends _ (hmore _ id)) fun isAsync s₁ t₁ h₁ => ?_
  refine .within (eat_follows rfl).freely fun isGenerator s₂ t₂ h₂ => ?_
  refine .ite Iff.rfl (fun _ => .pure rfl) fun hno => ?_
  obtain ⟨rfl, rfl⟩ : isAsync = false ∧ isGenerator = false := by
    simpa only [Bool.or_eq_true, not_or, Bool.not_eq_true] using hno
  obtain rfl := eatModifier_same h₁.run
  obtain rfl := eat_same h₂.run
  refine .within (eatModifier_follows hends _ (hmore _ fun hk => hk.1.1))
    fun isGetter s₃ t₃ h₃ => ?_
  refine .ite Iff.rfl (fun _ => .pure rfl) fun hno => ?_
  obtain rfl : isGetter = false := Bool.eq_false_iff.mpr hno
  obtain rfl := eatModifier_same h₃.run
  refine .within (eatModifier_follows hends _ (hmore _ fun hk => hk.1.1.1))
    fun isSetter s₄ t₄ _ => ?_
  exact .ite Iff.rfl (fun _ => .pure rfl) fun _ => .pure rfl

/-- The values of fields are read in step. -/
theorem fieldInitializer_follows (hg : g.Keeps w) (ctx : Context) :
    Follows w K 1 anywhere (Node.relocate w.relocation) (fieldInitializer g (ctx.widen w.base))
      (fieldInitializer g (w.context ctx)) s t :=
  ownSuspensions_follows fun _ _ _ => hg.value ctx.classInit

/-- Static blocks are read in step. -/
theorem staticBlock_follows (hg : g.Keeps w) (ctx : Context)
    (hk : s.lexer.token.kind ≠ .endOfFile) :
    Follows w K 2 (resting w) (Node.relocate w.relocation) (staticBlock g (ctx.widen w.base))
      (staticBlock g (w.context ctx)) s t := by
  refine .offset fun start _ => .token (advance_follows hk) advance_mute fun _ s₁ t₁ _ _ => ?_
  refine .expect rfl fun s₂ t₂ _ _ =>
    .bind (ownSuspensions_follows (φ := List.map (Node.relocate w.relocation))
    (n := 0) fun _ s t => ?_) fun body s₃ t₃ _ => .extent fun span => ?_
  · exact .before (hg.statementsUntil ctx.classInit (Or.inl rfl)).starts fun body s₁ t₁ _ =>
      .expect_behind rfl fun _ _ _ _ => .pure rfl
  · rw [← Node.mapStatements_eq]
    rfl

@[simp] theorem staticName?_relocate (f : Relocation) (key : Node .propertyKey) :
    (key.relocate f).staticName? = key.staticName? := by
  cases key <;> rfl

/-- A key that a member may have is one in both texts. -/
theorem checkMemberKey_follows (isStatic : Bool) (place place' : Nat) (key : Node .propertyKey) :
    Follows w K 0 anywhere id (checkMemberKey isStatic place key)
      (checkMemberKey isStatic place' (key.relocate w.relocation)) s t := by
  have hstatic : Follows w K 0 anywhere id
      (if isStatic && key.staticName? == some "prototype" then fail place .staticPrototype
      else pure ())
      (if isStatic && (key.relocate w.relocation).staticName? == some "prototype" then
        fail place' .staticPrototype else pure ()) s t :=
    .ite (by rw [staticName?_relocate]) (fun _ => .error fail_fails) fun _ => .pure rfl
  cases key with
  | privateKey name =>
    unfold checkMemberKey
    exact .refuse (r := fail _ .privateConstructor) fail_fails (fun _ _ => id) fun _ => hstatic
  | _ => exact hstatic

/-- A constructor that is allowed in the first text is allowed in the other. -/
theorem checkConstructor_follows (isConstructor hasConstructor : Bool) (m : Modifiers)
    (place place' : Nat) : Follows w K 0 anywhere id
      (checkConstructor isConstructor hasConstructor m place)
      (checkConstructor isConstructor hasConstructor m place') s t := by
  unfold checkConstructor
  refine .ite Iff.rfl (fun _ => ?_) fun _ => .pure rfl
  cases constructorFlaw? m with
  | none => exact .ite Iff.rfl (fun _ => .error fail_fails) fun _ => .pure rfl
  | some flaw => exact .error fail_fails.bind

/-- A key that a field may have is one in both texts. -/
theorem checkField_follows (m : Modifiers) (place place' : Nat) (key : Node .propertyKey) :
    Follows w K 0 anywhere id (checkField m place key)
    (checkField m place' (key.relocate w.relocation)) s t := by
  unfold checkField
  refine .refuse unexpected_fails (fun _ _ => id) fun _ => ?_
  exact .ite (by rw [staticName?_relocate]) (fun _ => .error fail_fails) fun _ => .pure rfl

/-- A member with what is known of it besides. -/
abbrev relocateMember (f : Relocation) (r : Node .classElement × Bool) :
    Node .classElement × Bool :=
  (r.1.relocate f, r.2)

/-- Methods of classes are read in step. -/
theorem methodMember_follows (hg : g.Keeps w) (ctx : Context) (start : Nat)
    (derived isStatic : Bool)
    (m : Modifiers) (key : Node .propertyKey) (isConstructor : Bool) :
    Follows w K 1 (resting w) (relocateMember w.relocation)
      (methodMember g (ctx.widen w.base) start derived isStatic m key isConstructor)
      (methodMember g (w.context ctx) (w.start start) derived isStatic m (key.relocate w.relocation)
      isConstructor) s t :=
  .andThen (methodFunction_follows hg ctx _ _ _ _) fun _ _ _ _ _ => .extent fun _ => rfl

/-- Fields of classes are read in step, up to their semicolon. -/
theorem fieldMember_closes (hg : g.Keeps w) (ctx : Context) (start : Nat) (isStatic : Bool)
    (key : Node .propertyKey) (hb : Begun w s) (hp : s.Plain) :
    Tracks w .inside .closing K 0 (resting w) (relocateMember w.relocation)
      (fieldMember g (ctx.widen w.base) start isStatic key)
      (fieldMember g (w.context ctx) (w.start start) isStatic (key.relocate w.relocation)) s t := by
  have hfinish : ∀ {K : Prop} (value : Option Expression) (s t : State), Begun w s → s.Plain →
      Tracks w .inside .closing K 0 (resting w) (relocateMember w.relocation)
        (do
          semicolon
          return (Node.field (← spanFrom start) key isStatic value, false))
        (do
          semicolon
          return (Node.field (← spanFrom (w.start start)) (key.relocate w.relocation) isStatic
            (value.map (Node.relocate w.relocation)), false)) s t := by
    intro K value s t hb hp
    refine .ending (semicolon_closes hb hp).freely fun _ span => ?_
    rw [← Node.mapExpression?_eq]
    rfl
  refine .eat rfl (fun s₁ t₁ _ _ hb₁ => ?_) fun _ => hfinish none s t hb hp
  refine .bind (fieldInitializer_follows hg ctx) fun value s₂ t₂ h₂ => ?_
  have hplain := ((fieldInitializer_makes hg.sound _ _ h₂.before).ok h₂.run).1.plain
  exact hfinish (some value) s₂ t₂ (h₂.begun hb₁) hplain

/-- A method or a field starts with its modifiers. -/
theorem methodOrField_closes (hg : g.Keeps w) (ctx : Context) (start : Nat)
    (derived isStatic hasConstructor : Bool) :
    Tracks w .inside .closing K 1 (resting w) (relocateMember w.relocation)
      (methodOrField g (ctx.widen w.base) start derived isStatic hasConstructor)
      (methodOrField g (w.context ctx) (w.start start) derived isStatic hasConstructor) s t := by
  rw [methodOrField_eq, methodOrField_eq]
  refine .before (modifiers_follows rfl fun _ => Or.inl rfl) fun m s₁ t₁ _ =>
    .offset fun place _ => ?_
  refine .andThen (propertyKey_follows hg ctx true) fun key s₂ t₂ h₂ hb₂ => ?_
  have hp₂ := ((propertyKey_makes hg.sound _ _ _ h₂.before).ok h₂.run).1.plain
  refine .bind (checkMemberKey_follows isStatic _ _ key) fun _ s₃ t₃ h₃ => ?_
  obtain rfl : s₃ = s₂ := (checkMemberKey_meets isStatic _ key h₃.before).ok h₃.run
  rw [staticName?_relocate]
  refine .isAt rfl (fun _ => ?_) fun _ => ?_
  · refine .bind (checkConstructor_follows _ hasConstructor m _ _) fun _ s₄ t₄ _ => ?_
    exact (methodMember_follows hg ctx start derived isStatic m key _).settled
  · refine .bind (checkField_follows m _ _ key) fun _ s₄ t₄ h₄ => ?_
    obtain rfl : s₄ = s₃ := (checkField_meets m _ key h₄.before).ok h₄.run
    exact fieldMember_closes hg ctx start isStatic key hb₂ hp₂

/-- Elements of classes are read in step. -/
theorem classElement_concludes (hg : g.Keeps w) (ctx : Context) (derived hasConstructor : Bool) :
    Concludes w K 1 (resting w) (relocateMember w.relocation)
      (classElement g (ctx.widen w.base) derived hasConstructor)
      (classElement g (w.context ctx) derived hasConstructor) s t := by
  refine .concludes (.offset fun start _ => .read rfl rfl (.read rfl rfl ?_))
  refine .branch (m := 2) (fun hk => ?_) (fun _ => ?_) (fun hk hs hb ha hin _ => ?_)
    (fun hk hs hb ha hin _ => ?_) (by decide)
  · refine .settled (.map (staticBlock_follows hg ctx ?_) (fun _ => rfl) fun _ _ => id)
    rw [eq_of_beq (Bool.and_eq_true_iff.mp hk).1]
    simp
  · refine .before (eatModifier_follows rfl _ fun _ _ _ => Or.inl rfl) fun isStatic s₁ t₁ _ => ?_
    exact methodOrField_closes hg ctx start derived isStatic hasConstructor
  · have hstatic := eq_of_beq (Bool.and_eq_true_iff.mp hk).1
    have hkind : t.lexer.scan.token.kind = s.lexer.scan.token.kind :=
      (InStep.alike_next hin hs hb (by rw [hstatic]; simp) (by rw [hstatic]; rfl) ha).twin.kind
    rw [(InStep.alike hin hs ha).twin.kind, hkind]
    exact hk
  · rw [(InStep.alike hin hs ha).twin.kind]
    by_cases hstatic : s.lexer.token.kind = .word .staticKw
    · rcases InStep.cases_next hin hs hb (by rw [hstatic]; simp) (by rw [hstatic]; rfl) ha with
        halike | hend
      · have hkind : t.lexer.scan.token.kind = s.lexer.scan.token.kind := halike.twin.kind
        rw [hkind]
        exact hk
      · have hkind : (t.lexer.scan.token.kind == .mark .openBrace) = false :=
          hend.of_kind (motive := fun k => (k == .mark .openBrace) = false) rfl rfl
        rw [hkind]
        simp
    · simp [hstatic]

/-- A slash is no other token. -/
theorem isAt_of_isSlash {k : TokenKind} (hslash : Lexer.isSlash s.lexer.token.kind = true)
    (hk : Lexer.isSlash k = false) : isAt k s = .ok (false, s) := by
  have hne : s.lexer.token.kind ≠ k := by
    rintro rfl
    exact Bool.false_ne_true (hk.symm.trans hslash)
  show Except.ok (s.lexer.token.kind == k, s) = _
  rw [beq_eq_false_iff_ne.mpr hne]

/-- A slash modifies no member. -/
theorem modifiers_of_isSlash (hslash : Lexer.isSlash s.lexer.token.kind = true)
    (ends : TokenKind → Bool) : modifiers ends s = .ok ({}, s) := by
  have hno : ∀ word, eatModifier ends word s = .ok (false, s) := fun _ =>
    bind_run (isAt_of_isSlash hslash rfl)
  have hstar : eat (.mark .times) s = .ok (false, s) := bind_run (isAt_of_isSlash hslash rfl)
  refine (bind_run (hno _)).trans ((bind_run hstar).trans ?_)
  exact (bind_run (hno _)).trans (bind_run (hno _))

/-- No key starts with a slash. -/
theorem propertyKey_fails {ctx : Context} {allowPrivate : Bool}
    (hslash : Lexer.isSlash s.lexer.token.kind = true) :
    Fails (propertyKey g ctx allowPrivate) s := by
  refine .step (p := kind) rfl ?_
  rcases Lexer.isSlash_iff.mp hslash with hk | hk
  · rw [hk]
    exact unexpected_fails
  · rw [hk]
    exact unexpected_fails

/-- No element of a class starts with a slash. -/
theorem classElement_fails {ctx : Context} {derived hasConstructor : Bool}
    (hslash : Lexer.isSlash s.lexer.token.kind = true) :
    Fails (classElement g ctx derived hasConstructor) s := by
  refine .step (p := offset) rfl (.step (isAt_of_isSlash hslash rfl) (.step (p := peek) rfl ?_))
  refine .step (bind_run (isAt_of_isSlash hslash rfl)) ?_
  refine .step (modifiers_of_isSlash hslash _) (.step (p := offset) rfl ?_)
  exact (propertyKey_fails hslash).bind

/-- All elements of a class are read in step, with at most one constructor. -/
theorem classElements_follows (hg : g.Keeps w) (ctx : Context) (derived : Bool) :
    Tracks w .behind .behind K 0 nowhere (List.map (Node.relocate w.relocation))
      (classElements g (ctx.widen w.base) derived) (classElements g (w.context ctx)
      derived) s t := by
  refine iterate_follows_nowhere (χ := fun a : List (Node .classElement) × Bool =>
    (a.1.map (Node.relocate w.relocation), a.2)) (fun a s t => ?_) ([], false)
  obtain ⟨found, hasConstructor⟩ := a
  refine .of_fails ?_ fun hslash => ?_
  · refine .isAt_nowhere (fun _ => .pure (congrArg Round.done List.map_reverse.symm)) fun _ => ?_
    refine .eat_nowhere rfl (fun s₁ t₁ _ _ _ => .pure rfl) fun _ => ?_
    exact .map (classElement_concludes hg ctx derived hasConstructor) (fun _ => rfl) fun _ _ =>
      False.elim
  · refine .step (isAt_of_isSlash hslash rfl) (.step (bind_run (isAt_of_isSlash hslash rfl)) ?_)
    exact (classElement_fails hslash).bind

/-- The name of a class is read in step, if it has one. -/
theorem className_follows (ctx : Context) (isDeclaration : Bool) :
    Follows w K 0 nowhere (Option.map (Identifier.relocate w.span))
      (className (ctx.widen w.base) isDeclaration) (className (w.context ctx) isDeclaration)
      s t := by
  refine .kind_nowhere (.ite Iff.rfl (fun _ => ?_) fun _ => ?_)
  · exact .map (identifier_follows ctx) (fun _ => rfl) fun _ _ => False.elim
  · exact .ite Iff.rfl (fun _ => .error unexpected_fails) fun _ => .pure rfl

end

/-- The parsers that a construct is made of are followed. That of the class that a class
extends asks for what is known where the outermost class starts. -/
structure Grammar.Keeps (w : Tandem) (K₀ : Prop) (g g' : Grammar) : Prop where
  nested : g.toNested.Keeps w
  toNested_eq : g'.toNested = g.toNested
  heritage : ∀ {K : Prop} ctx s t, (K → K₀) → Begun w s →
    Follows w K 1 (ends (isInOperator ctx)) (Node.relocate w.relocation)
      (g.heritage (ctx.widen w.base)) (g'.heritage (w.context ctx)) s t

section

variable {w : Tandem} {K K₀ : Prop} {s t : State} {g g' : Grammar}

/-- The heritage of a class is read in step, if it has one. -/
theorem superClass_follows (hg : g.Keeps w K₀ g') (hK : K → K₀) (ctx : Context) :
    Follows w K 0 nowhere (Option.map (Node.relocate w.relocation))
    (superClass g (ctx.widen w.base))
      (superClass g' (w.context ctx)) s t :=
  .eat rfl (fun s₁ t₁ _ _ hb => .map (hg.heritage ctx s₁ t₁ (fun hk => hK hk.1) hb) (fun _ => rfl)
    fun _ _ => False.elim) fun _ => .pure rfl

/-- Classes are read in step. -/
theorem classDefinition_follows (hg : g.Keeps w K₀ g') (hK : K → K₀) (ctx : Context)
    (isDeclaration : Bool) : Follows w K 1 anywhere (Node.relocate w.relocation)
      (classDefinition g (ctx.widen w.base) isDeclaration) (classDefinition g' (w.context ctx)
      isDeclaration) s t := by
  rw [classDefinition_eq, classDefinition_eq, hg.toNested_eq]
  refine .offset fun start _ => .expect rfl fun s₁ t₁ _ _ => ?_
  refine .before (className_follows ctx isDeclaration) fun name s₂ t₂ _ => ?_
  refine .before (superClass_follows hg (fun hk => hK hk.1.1) ctx) fun heritage s₃ t₃ _ => ?_
  refine .offset fun bodyStart _ => .expect rfl fun s₄ t₄ _ _ => ?_
  rw [Option.isSome_map]
  refine .before (classElements_follows hg.nested { ctx with inClass := true }
    heritage.isSome).starts fun elements s₅ t₅ _ => .expect_behind rfl fun s₆ t₆ _ hb =>
      .span hb (.node hb fun span => ?_)
  rw [← Node.mapExpression?_eq, ← Node.mapClassElements_eq]
  rfl

end

end EcmaScript.Parser
