import EcmaScript.Parser.Class
import EcmaScript.Proofs.Parser.Binding

/-!
# Classes make nodes

The members of a class, and classes themselves. The words that modify a member belong to
its span.
-/

namespace EcmaScript.Parser

open Sketch

section

variable {text : String} {s : State} {g : Nested}

/-- A modifier that is no modifier is not taken. -/
theorem eatModifier_meets (ends : TokenKind → Bool) (w : Keyword) (hs : s.Sound text) :
    Meets text (eatModifier ends w) s fun b s' => Kept text s s' ∧ (b = false → s' = s) := by
  refine .step rfl (.ite (fun hk => .step rfl (.ite (fun _ => ?_) fun _ => ?_)) fun _ => ?_)
  · have hw : isOrdinary s.lexer.token.kind = true := by
      rw [eq_of_beq hk]
      rfl
    exact .bind (advance_meets hs hw) fun _ _ h => .pure ⟨h.1.kept, nofun⟩
  · exact .pure ⟨.refl hs, fun _ => rfl⟩
  · exact .pure ⟨.refl hs, fun _ => rfl⟩

/-- Without a modifier nothing is taken. -/
theorem modifiers_meets (ends : TokenKind → Bool) (hs : s.Sound text) :
    Meets text (modifiers ends) s fun m s' =>
      Kept text s s' ∧ (m.requireMethod = false → s' = s) := by
  have hrest : ∀ (isAsync isGenerator : Bool) (s₁ : State), Kept text s s₁ →
      (isAsync = false → isGenerator = false → s₁ = s) → Meets text (do
        if isAsync || isGenerator then return { isAsync, isGenerator }
        else if ← eatModifier ends .getKw then return { accessor := .getter }
        else if ← eatModifier ends .setKw then return { accessor := .setter }
        else return ({} : Modifiers)) s₁ fun m s' =>
          Kept text s s' ∧ (m.requireMethod = false → s' = s) := by
    intro isAsync isGenerator s₁ h₁ hsame
    refine .ite (fun hm => .pure ⟨h₁, fun hn => ?_⟩) fun hm => ?_
    · rw [Modifiers.requireMethod, hm] at hn
      exact absurd hn (by simp)
    · have heq : s₁ = s := by
        rw [Bool.or_eq_true, not_or, Bool.not_eq_true, Bool.not_eq_true] at hm
        exact hsame hm.1 hm.2
      refine .bind (eatModifier_meets ends _ h₁.sound) fun get s₂ ⟨h₂, hget⟩ => ?_
      refine .ite (fun _ => .pure ⟨h₁.trans h₂, nofun⟩) fun hg => ?_
      refine .bind (eatModifier_meets ends _ h₂.sound) fun set s₃ ⟨h₃, hset⟩ => ?_
      refine .ite (fun _ => .pure ⟨h₁.trans (h₂.trans h₃), nofun⟩) fun hs => ?_
      rw [Bool.not_eq_true] at hg hs
      exact .pure ⟨h₁.trans (h₂.trans h₃), fun _ => (hset hs).trans ((hget hg).trans heq)⟩
  refine .bind (eatModifier_meets ends _ hs) fun isAsync s₁ ⟨h₁, hasync⟩ => ?_
  refine .eat h₁.sound rfl (fun s₂ h₂ _ => ?_) ?_
  · exact hrest isAsync true s₂ (h₁.trans h₂.kept) nofun
  · exact hrest isAsync false s₁ h₁ fun h _ => hasync h

/-- The value of a field is an expression. -/
theorem fieldInitializer_makes (hg : g.Sound text) (ctx : Context) :
    Makes text Node.sketch (fieldInitializer g ctx) :=
  ownSuspensions_makes (hg.value_makes _)

/-- A static block lies between its word and its closing brace. -/
theorem staticBlock_meets (hg : g.Sound text) (ctx : Context) (hs : s.Sound text)
    (hk : isOrdinary s.lexer.token.kind = true) :
    Meets text (staticBlock g ctx) s (Made text Node.sketch s) := by
  refine .step rfl (.bind (advance_meets hs hk) fun _ s₁ h₁ => ?_)
  refine .expect h₁.1.sound rfl fun s₂ h₂ => ?_
  have ht₂ := h₁.1.trans h₂.kept
  refine .bind (P := fun body s' => Took text s s' ∧
    AllPlaced text s.offset s'.front (body.flatMap Node.sketch)) ?_ fun body s₃ h₃ => ?_
  · refine ownSuspensions_meets h₂.sound fun s₃ h₃ => ?_
    refine .bind (hg.statementsUntil_meets _ _ h₃.sound) fun body s₄ h₄ => ?_
    refine .expect h₄.1.1.sound rfl fun s₅ h₅ => .pure ⟨h₅.sound, fun s₆ h₆ => ?_⟩
    have ht₃ := ht₂.trans h₃.kept
    refine ⟨ht₃.trans (h₄.1.1.trans (h₅.kept.trans h₆.kept)), ?_⟩
    exact placed_from ht₃.toOnto (placed_upTo (h₅.trans h₆.kept).toOnto h₄.1.2.placed)
  · refine .step rfl (.pure ⟨h₃.1, h₃.1.node ?_⟩)
    rw [Node.sketchStatements_eq]
    exact h₃.2

/-- Checks that the key of a member is not reserved. -/
def checkMemberKey (isStatic : Bool) (place : Nat) (key : Node .propertyKey) : Parser Unit := do
  if let .privateKey name := key then
    if name.name == "constructor" then fail place .privateConstructor
  if isStatic && key.staticName? == some "prototype" then fail place .staticPrototype

/-- Checks that a constructor is a plain method and the only constructor. -/
def checkConstructor (isConstructor hasConstructor : Bool) (m : Modifiers) (place : Nat) :
    Parser Unit := do
  if isConstructor then
    if let some flaw := constructorFlaw? m then fail place (.constructorKind flaw)
    if hasConstructor then fail place .secondConstructor

/-- The kind of a method with the given modifiers. -/
def methodKindOf (m : Modifiers) (isConstructor : Bool) : MethodKind :=
  match m.accessor with
  | .getter => .getter
  | .setter => .setter
  | .init => if isConstructor then .constructor else .method

/-- A method from its parameters on. -/
def methodMember (g : Nested) (ctx : Context) (start : Nat) (derived isStatic : Bool)
    (m : Modifiers) (key : Node .propertyKey) (isConstructor : Bool) :
    Parser (Node .classElement × Bool) := do
  let value ← methodFunction g ctx m.isAsync m.isGenerator m.accessor (isConstructor && derived)
  return (.method (← spanFrom start) key (methodKindOf m isConstructor) isStatic value,
  isConstructor)

/-- Checks that a field is one. -/
def checkField (m : Modifiers) (place : Nat) (key : Node .propertyKey) : Parser Unit := do
  if m.requireMethod then unexpected
  if key.staticName? == some "constructor" then fail place .constructorField

/-- A field from behind its key on. -/
def fieldMember (g : Nested) (ctx : Context) (start : Nat) (isStatic : Bool)
    (key : Node .propertyKey) : Parser (Node .classElement × Bool) := do
  let value ← if ← eat (.mark .assign) then pure (some (← fieldInitializer g ctx)) else pure none
  semicolon
  return (.field (← spanFrom start) key isStatic value, false)

/-- A method or a field in parts: its modifiers and its key, which are checked, and what is
behind them. -/
theorem methodOrField_eq (g : Nested) (ctx : Context) (start : Nat)
    (derived isStatic hasConstructor : Bool) :
    methodOrField g ctx start derived isStatic hasConstructor = (do
      let m ← modifiers endsClassName
      let place ← offset
      let key ← propertyKey g ctx true
      checkMemberKey isStatic place key
      if ← isAt (.mark .openParen) then
        let isConstructor := !isStatic && key.staticName? == some "constructor"
        checkConstructor isConstructor hasConstructor m place
        methodMember g ctx start derived isStatic m key isConstructor
      else
        checkField m place key
        fieldMember g ctx start isStatic key) := by
  unfold methodOrField
  congr 1
  funext m
  congr 1
  funext place
  congr 1
  funext key
  cases key <;> cases hflaw : constructorFlaw? m <;>
    simp only [checkMemberKey, checkConstructor, checkField, methodMember, fieldMember, bind_assoc,
      pure_bind, ite_bind, hflaw]
  all_goals rfl

/-- Looking at the key of a member takes no token. -/
theorem checkMemberKey_meets (isStatic : Bool) (place : Nat) (key : Node .propertyKey)
    (hs : s.Sound text) :
    Meets text (checkMemberKey isStatic place key) s fun _ s' => s' = s := by
  have hstatic : Meets text (if isStatic && key.staticName? == some "prototype" then
      fail place .staticPrototype else pure ()) s fun _ s' => s' = s :=
    .ite (fun _ => fail_meets hs _ rfl) fun _ => .pure rfl
  cases key with
  | privateKey name =>
    unfold checkMemberKey
    exact .refuse (p := fail _ .privateConstructor) (fail_meets hs _ rfl) fun _ => hstatic
  | _ => exact hstatic

/-- Looking at a constructor takes no token. -/
theorem checkConstructor_meets (isConstructor hasConstructor : Bool) (m : Modifiers) (place : Nat)
    (hs : s.Sound text) :
    Meets text (checkConstructor isConstructor hasConstructor m place) s fun _ s' => s' = s := by
  have hsecond : Meets text (if hasConstructor then fail place .secondConstructor else pure ()) s
      fun _ s' => s' = s := .ite (fun _ => fail_meets hs _ rfl) fun _ => .pure rfl
  unfold checkConstructor
  refine .ite (fun _ => ?_) fun _ => .pure rfl
  cases constructorFlaw? m with
  | none => exact hsecond
  | some flaw => exact .cut (fail_meets hs _ rfl)

/-- Looking at a field takes no token. -/
theorem checkField_meets (m : Modifiers) (place : Nat) (key : Node .propertyKey)
    (hs : s.Sound text) : Meets text (checkField m place key) s fun _ s' => s' = s := by
  unfold checkField
  refine .refuse (unexpected_meets hs) fun _ => ?_
  exact .ite (fun _ => fail_meets hs _ rfl) fun _ => .pure rfl

/-- A method lies behind the modifiers and the key that have been read. -/
theorem methodMember_meets (hg : g.Sound text) (ctx : Context) (derived isStatic : Bool)
    (m : Modifiers) {key : Node .propertyKey} (isConstructor : Bool) {s₀ : State}
    (h₀ : Took text s₀ s) (hk : AllPlaced text s₀.offset s.front key.sketch) :
    Meets text (methodMember g ctx s₀.offset derived isStatic m key isConstructor) s
      (Made text (fun r => r.1.sketch) s₀) := by
  refine .bind (methodFunction_makes hg _ _ _ _ _ s h₀.sound) fun value s₁ h₁ =>
    .step rfl (.pure ?_)
  have ht := h₀.trans h₁.1.kept
  exact ⟨ht, ht.node (placed_append h₀.offset_le h₁.1.toOnto hk h₁.2)⟩

/-- A field lies behind the modifiers and the key that have been read. -/
theorem fieldMember_meets (hg : g.Sound text) (ctx : Context) (isStatic : Bool)
    {key : Node .propertyKey} {s₀ : State} (h₀ : Took text s₀ s)
    (hk : AllPlaced text s₀.offset s.front key.sketch) :
    Meets text (fieldMember g ctx s₀.offset isStatic key) s
      (Made text (fun r => r.1.sketch) s₀) := by
  have hfinish : ∀ (value : Option Expression) (s₁ : State), Took text s₀ s₁ →
      AllPlaced text s₀.offset s₁.front (key.sketch ++ Node.sketchExpression? value) →
      Meets text (do
        semicolon
        return (Node.field (← spanFrom s₀.offset) key isStatic value, false)) s₁
        (Made text (fun r => r.1.sketch) s₀) := by
    intro value s₁ h₁ hv
    exact .bind (semicolon_meets h₁.sound) fun _ s₂ h₂ => .step rfl (.pure (h₁.ended h₂ hv))
  refine .eat h₀.sound rfl (fun s₁ h₁ _ => ?_) ?_
  · refine .bind (fieldInitializer_makes hg ctx s₁ h₁.sound) fun value s₂ h₂ => .step rfl ?_
    have ht := h₁.trans h₂.1.kept
    refine hfinish _ s₂ (h₀.trans ht.kept) ?_
    exact placed_append h₀.offset_le ht.toOnto hk (placed_from h₁.toOnto h₂.2)
  · refine .step rfl (hfinish _ s h₀ ?_)
    exact placed_append h₀.offset_le (Kept.refl h₀.sound).toOnto hk allPlaced_nil

/-- A method or a field starts with its modifiers. -/
theorem methodOrField_meets (hg : g.Sound text) (ctx : Context)
    (derived isStatic hasConstructor : Bool) {s₀ : State} (h₀ : Onto text s₀ s) :
    Meets text (methodOrField g ctx s₀.offset derived isStatic hasConstructor) s
      (Made text (fun r => r.1.sketch) s₀) := by
  rw [methodOrField_eq]
  refine .bind (modifiers_meets _ h₀.sound) fun m s₁ ⟨h₁, _⟩ => .step rfl ?_
  refine .bind (propertyKey_makes hg ctx true s₁ h₁.sound) fun key s₂ h₂ => ?_
  refine .bind (checkMemberKey_meets isStatic _ key h₂.1.sound) fun _ s₃ h₃ => ?_
  subst h₃
  have h₀₁ := h₀.trans h₁.toOnto
  have ht := h₀₁.took h₂.1
  have hk := placed_from h₀₁ h₂.2
  refine .step rfl (.ite (fun _ => ?_) fun _ => ?_)
  · refine .bind (checkConstructor_meets _ _ m _ ht.sound) fun _ s₄ h₄ => ?_
    subst h₄
    exact methodMember_meets hg ctx derived isStatic m _ ht hk
  · refine .bind (checkField_meets m _ key ht.sound) fun _ s₄ h₄ => ?_
    subst h₄
    exact fieldMember_meets hg ctx isStatic ht hk

/-- A member of a class lies between its ends. -/
theorem classElement_makes (hg : g.Sound text) (ctx : Context) (derived hasConstructor : Bool) :
    Makes text (fun r => r.1.sketch) (classElement g ctx derived hasConstructor) := by
  intro s hs
  refine .step rfl (.step rfl (.step rfl (.ite (fun hk => ?_) fun _ => ?_)))
  · have hw : isOrdinary s.lexer.token.kind = true := by
      rw [eq_of_beq (Bool.and_eq_true_iff.mp hk).1]
      rfl
    exact .bind (staticBlock_meets hg ctx hs hw) fun _ _ h => .pure h
  · refine .bind (eatModifier_meets _ _ hs) fun isStatic s₁ ⟨h₁, _⟩ => ?_
    exact methodOrField_meets hg ctx derived isStatic hasConstructor h₁.toOnto

/-- The members of a class lie behind its brace. -/
theorem classElements_meets (hg : g.Sound text) (ctx : Context) (derived : Bool)
    (hs : s.Sound text) :
    Meets text (classElements g ctx derived) s fun elements s' =>
      Kept text s s' ∧ InOrder text Node.sketch s.offset s'.front elements := by
  refine iterate_meets (I := fun a s₁ =>
    Kept text s s₁ ∧ InOrder text Node.sketch s.offset s₁.front a.1.reverse)
    (fun _ _ h => h.1.sound) ?_ ⟨.refl hs, .nil⟩
  rintro ⟨found, hasConstructor⟩ s₁ ⟨hk, hfound⟩
  refine .step rfl (.ite (fun _ => .pure ⟨hk, hfound⟩) fun _ => ?_)
  refine .eat hk.sound rfl (fun s₂ h₂ _ => ?_) ?_
  · exact .pure ⟨hk.trans h₂.kept, hfound.mono h₂.toOnto.upto⟩
  · refine .bind (classElement_makes hg ctx derived hasConstructor s₁ hk.sound) fun r s₂ h₂ => ?_
    refine .pure ⟨hk.trans h₂.1.kept, ?_⟩
    rw [List.reverse_cons]
    exact hfound.append_made hk.toOnto.offset_le h₂

/-- The name of a class; a declared one must have it. -/
def className (ctx : Context) (isDeclaration : Bool) : Parser (Option Identifier) := do
  let k ← kind
  if k.isIdentifierLike || k == .escapedReservedWord then return some (← identifier ctx)
  else if isDeclaration then unexpected
  else return none

/-- The class that a class extends, if it extends one. -/
def superClass (g : Grammar) (ctx : Context) : Parser (Option Expression) := do
  if ← eat (.word .extendsKw) then return some (← g.heritage ctx) else return none

/-- A class in parts. -/
theorem classDefinition_eq (g : Grammar) (ctx : Context) (isDeclaration : Bool) :
    classDefinition g ctx isDeclaration = (do
      let start ← offset
      expect (.word .classKw)
      let name ← className ctx isDeclaration
      let superClass ← superClass g ctx
      let bodyStart ← offset
      expect (.mark .openBrace)
      let elements ← classElements g.toNested { ctx with inClass := true } superClass.isSome
      expect (.mark .closeBrace)
      let bodySpan ← spanFrom bodyStart
      return .classDefinition (← spanFrom start) name superClass bodySpan elements 0) := by
  simp only [classDefinition, className, superClass, bind_assoc, pure_bind, ite_bind]

/-- The name of a class is one token, if it has a name. -/
theorem className_meets (ctx : Context) (isDeclaration : Bool) (hs : s.Sound text) :
    Meets text (className ctx isDeclaration) s fun name s' => Kept text s s' ∧
      AllPlaced text s.offset s'.front (name.toList.flatMap Identifier.sketch) := by
  refine .step rfl (.ite (fun _ => ?_) fun _ => .ite (fun _ => ?_) fun _ => ?_)
  · refine .bind (identifier_makes ctx s hs) fun id s₁ h₁ => .pure ⟨h₁.1.kept, ?_⟩
    rw [Option.toList_some, List.flatMap_singleton]
    exact h₁.2
  · exact unexpected_meets hs
  · exact .pure ⟨.refl hs, allPlaced_nil⟩

/-- The heritage of a class lies behind its word, if there is one. -/
theorem superClass_meets {g : Grammar} (hg : g.Sound text) (ctx : Context) (hs : s.Sound text) :
    Meets text (superClass g ctx) s fun e s' => Kept text s s' ∧
      AllPlaced text s.offset s'.front (Node.sketchExpression? e) := by
  refine .eat hs rfl (fun s₁ h₁ _ => ?_) (.pure ⟨.refl hs, allPlaced_nil⟩)
  refine .bind (hg.heritage ctx s₁ h₁.sound) fun e s₂ h₂ => .pure ?_
  exact ⟨h₁.kept.trans h₂.1.kept, placed_from h₁.toOnto h₂.2⟩

/-- A class lies between its word and its closing brace. -/
theorem classDefinition_makes {g : Grammar} (hg : g.Sound text) (ctx : Context)
    (isDeclaration : Bool) : Makes text Node.sketch (classDefinition g ctx isDeclaration) := by
  intro s hs
  rw [classDefinition_eq]
  refine .step rfl (.expect hs rfl fun s₁ h₁ => ?_)
  refine .bind (className_meets ctx isDeclaration h₁.sound) fun name s₂ h₂ => ?_
  refine .bind (superClass_meets hg ctx h₂.1.sound) fun heritage s₃ h₃ => .step rfl ?_
  refine .expect h₃.1.sound rfl fun s₄ h₄ => ?_
  refine .bind (classElements_meets hg.toSound _ _ h₄.sound) fun elements s₅ h₅ => ?_
  refine .expect h₅.1.sound rfl fun s₆ h₆ => .step rfl (.step rfl (.pure ?_))
  have hbody := h₄.trans (h₅.1.trans h₆.kept)
  have ht := h₁.trans (h₂.1.trans (h₃.1.trans hbody.kept))
  have hclass : AllPlaced text s₃.offset s₆.front
      (node (.ofOffsets s₃.offset s₆.consumed) (Node.sketchClassElements elements)) := by
    refine hbody.node ?_
    rw [Node.sketchClassElements_eq]
    exact placed_from h₄.toOnto (placed_upTo h₆.toOnto h₅.2.placed)
  have hbehind := placed_append h₃.1.offset_le hbody.toOnto h₃.2 hclass
  refine ⟨ht, ht.node (placed_from h₁.toOnto ?_)⟩
  exact placed_append h₂.1.offset_le (h₃.1.trans hbody.kept).toOnto h₂.2 hbehind

end

end EcmaScript.Parser
