import EcmaScript.Parser.Operand
import EcmaScript.Proofs.Parser.Primary

/-!
# Operands make nodes

Properties, calls and templates are attached to an operand one after the other, and each
time the node starts where the operand does. A class in the heritage of a class is an
operand again.
-/

namespace EcmaScript.Parser

open Sketch

section

variable {text : String} {β : Type} {s s₀ : State} {g : Nested}

/-- Asking whether an arrow function is complete changes nothing. -/
theorem isCompleteArrow_run (e : Expression) (s : State) :
    ∃ b, isCompleteArrow e s = .ok (b, s) := by
  cases e <;> exact ⟨_, rfl⟩

/-- Whether an arrow function is complete is only looked at. -/
theorem Meets.completeArrow {e : Expression} {f : Bool → Parser β} {Q : β → State → Prop}
    (h : ∀ b, Meets text (f b) s Q) : Meets text (isCompleteArrow e >>= f) s Q := by
  obtain ⟨b, hb⟩ := isCompleteArrow_run e s
  exact .step hb (h b)

/-- A name behind a dot is one token. -/
theorem memberName_makes (ctx : Context) :
    Makes text MemberName.sketch (memberName ctx) := by
  intro s hs
  refine .step rfl (.ite (fun hk => ?_) fun _ => .ite (fun hk => ?_) fun _ => unexpected_meets hs)
  · refine .require (failHere_meets hs rfl) fun _ => ?_
    exact .bind (takePrivateName_meets hs (eq_of_beq hk)) fun _ _ h => .pure h
  · exact .bind (takeIdentifier_meets hs hk) fun _ _ h => .pure h.1

/-- The key of a property lies between its brackets. -/
theorem computedMember_makes (hg : g.Sound text) (ctx : Context) :
    Makes text Node.sketch (computedMember g ctx) := by
  intro s hs
  refine .expect hs rfl fun s₁ h₁ => ?_
  refine .bind (hg.expression_makes _ s₁ h₁.sound) fun e s₂ h₂ => ?_
  exact .expect h₂.1.sound rfl fun s₃ h₃ => .pure ((h₂.from h₁.toOnto).upTo h₃.kept)

/-- Arguments lie between their parentheses. -/
theorem arguments_makes (hg : g.Sound text) (ctx : Context) :
    Makes text Node.sketchExpressions (arguments g ctx) := by
  intro s hs
  refine .expect hs rfl fun s₁ h₁ => ?_
  refine .bind (commaList_meets _ (spreadable_makes (hg.value_makes _)) h₁.sound)
    fun items s₂ h₂ => ?_
  refine .expect h₂.1.sound rfl fun s₃ h₃ => .pure ⟨h₁.trans (h₂.1.trans h₃.kept), ?_⟩
  rw [Node.sketchExpressions_eq]
  exact placed_from h₁.toOnto (placed_upTo h₃.toOnto h₂.2.placed)

/-- A node that starts with an operand, and holds it and what is attached to it. -/
theorem Took.attached {s₁ s₂ : State} {operand parts : List Sketch} (h₀ : Took text s₀ s₁)
    (ho : AllPlaced text s₀.offset s₁.front operand) (h₂ : Took text s₁ s₂)
    (hp : AllPlaced text s₁.offset s₂.front parts) : Took text s₀ s₂ ∧
      AllPlaced text s₀.offset s₂.front
        (Sketch.node (.ofOffsets s₀.offset s₂.consumed) (operand ++ parts)) := by
  have ht := h₀.trans h₂.kept
  exact ⟨ht, ht.node (placed_append h₀.offset_le h₂.toOnto ho hp)⟩

/-- What is linked to an operand lies behind it. -/
theorem optionalLink_meets (hg : g.Sound text) (ctx : Context) {object : Expression} {s₁ : State}
    (h₀ : Took text s₀ s₁) (ho : AllPlaced text s₀.offset s₁.front object.sketch)
    (h₁ : Onto text s₁ s) :
    Meets text (optionalLink g ctx s₀.offset object) s (Made text Node.sketch s₀) := by
  refine .step rfl ?_
  split
  · refine .bind (arguments_makes hg ctx s h₁.sound) fun items s₂ h₂ => .step rfl (.pure ?_)
    exact h₀.attached ho (h₁.took h₂.1) (placed_from h₁ h₂.2)
  · refine .bind (computedMember_makes hg ctx s h₁.sound) fun items s₂ h₂ => .step rfl (.pure ?_)
    exact h₀.attached ho (h₁.took h₂.1) (placed_from h₁ h₂.2)
  · exact failHere_meets h₁.sound rfl
  · exact failHere_meets h₁.sound rfl
  · refine .bind (memberName_makes ctx s h₁.sound) fun items s₂ h₂ => .step rfl (.pure ?_)
    exact h₀.attached ho (h₁.took h₂.1) (placed_from h₁ h₂.2)

/-- Attaches what a token of kind `k` announces. -/
def attach (g : Nested) (ctx : Context) (start : Nat) (behindNew : Bool) (operand : Expression)
    (chained : Bool) (k : TokenKind) : Parser (Round (Expression × Bool) (Expression × Bool)) := do
  match k with
  | .mark .dot =>
    advance
    let property ← memberName ctx
    return .next (.member (← spanFrom start) operand property false, chained)
  | .mark .questionDot =>
    if behindNew then failHere .optionalChainFromNew
    advance
    return .next (← optionalLink g ctx start operand, true)
  | .mark .openBracket =>
    let property ← computedMember g ctx
    return .next (.index (← spanFrom start) operand property false, chained)
  | .mark .openParen =>
    if behindNew then return .done (operand, chained)
    let items ← arguments g ctx
    return .next (.call (← spanFrom start) operand items false, chained)
  | .template | .templateHead =>
    if chained then failHere .templateOnOptionalChain
    let quasi ← templateLiteral g ctx true
    return .next (.taggedTemplate (← spanFrom start) operand quasi, chained)
  | _ => return .done (operand, chained)

/-- A round of attaching in parts: a check, and then what the token announces. -/
theorem subscript_eq (g : Nested) (ctx : Context) (start : Nat) (behindNew : Bool)
    (operand : Expression) (chained : Bool) :
    subscript g ctx start behindNew (operand, chained) = (do
      let k ← kind
      if isSubscript k then checkCoverInit
      attach g ctx start behindNew operand chained k) := rfl

/-- The operand read so far lies between the start and the end of the last token. -/
def IsOperand (text : String) (s₀ : State) (a : Expression × Bool) (s : State) : Prop :=
  Made text Node.sketch s₀ a.1 s

/-- What is attached to an operand lies behind it. -/
theorem attach_meets (hg : g.Sound text) (ctx : Context) (behindNew : Bool) {operand : Expression}
    {chained : Bool} (ho : Made text Node.sketch s₀ operand s) :
    Meets text (attach g ctx s₀.offset behindNew operand chained s.lexer.token.kind) s
      (AfterRound (IsOperand text s₀) (IsOperand text s₀)) := by
  have hs := ho.1.sound
  unfold attach
  split
  · rename_i hk
    refine .bind (advance_onto hs (by rw [hk]; simp)) fun _ s₁ h₁ => ?_
    refine .bind (memberName_makes ctx s₁ h₁.1.sound) fun name s₂ h₂ => .step rfl (.pure ?_)
    exact ho.1.attached ho.2 (h₁.1.took h₂.1) (placed_from h₁.1 h₂.2)
  · rename_i hk
    refine .refuse (failHere_meets hs rfl) fun _ => ?_
    refine .bind (advance_onto hs (by rw [hk]; simp)) fun _ s₁ h₁ => ?_
    exact .bind (optionalLink_meets hg ctx ho.1 ho.2 h₁.1) fun _ _ h => .pure h
  · refine .bind (computedMember_makes hg ctx s hs) fun property s₁ h₁ => .step rfl (.pure ?_)
    exact ho.1.attached ho.2 h₁.1 h₁.2
  · refine .ite (fun _ => .pure ho) fun _ => ?_
    refine .bind (arguments_makes hg ctx s hs) fun items s₁ h₁ => .step rfl (.pure ?_)
    exact ho.1.attached ho.2 h₁.1 h₁.2
  · rename_i hk
    refine .refuse (failHere_meets hs rfl) fun _ => ?_
    refine .bind (templateLiteral_meets hg ctx true hs (by rw [hk]; rfl)) fun quasi s₁ h₁ => ?_
    exact .step rfl (.pure (ho.1.attached ho.2 h₁.1 h₁.2))
  · rename_i hk
    refine .refuse (failHere_meets hs rfl) fun _ => ?_
    refine .bind (templateLiteral_meets hg ctx true hs (by rw [hk]; rfl)) fun quasi s₁ h₁ => ?_
    exact .step rfl (.pure (ho.1.attached ho.2 h₁.1 h₁.2))
  · exact .pure ho

/-- One round of attaching something to an operand. -/
theorem subscript_meets (hg : g.Sound text) (ctx : Context) (behindNew : Bool)
    (a : Expression × Bool) (ho : IsOperand text s₀ a s) :
    Meets text (subscript g ctx s₀.offset behindNew a) s
      (AfterRound (IsOperand text s₀) (IsOperand text s₀)) := by
  obtain ⟨operand, chained⟩ := a
  rw [subscript_eq]
  refine .step rfl (.ite (fun _ => ?_) fun _ => attach_meets hg ctx behindNew ho)
  refine .bind (checkCoverInit_meets ho.1.sound) fun _ s₁ h₁ => ?_
  rw [← h₁.lexer_eq]
  exact attach_meets hg ctx behindNew (Made.upTo ho h₁.kept)

/-- All that is attached to an operand lies behind it. -/
theorem subscripts_meets (hg : g.Sound text) (ctx : Context) (behindNew : Bool)
    {operand : Expression} (ho : Made text Node.sketch s₀ operand s) :
    Meets text (subscripts g ctx s₀.offset behindNew operand) s (Made text Node.sketch s₀) := by
  refine .bind (iterate_meets (I := IsOperand text s₀) (Q := IsOperand text s₀) (fun _ _ h =>
    h.1.sound)
    (fun a s h => subscript_meets hg ctx behindNew a h) ho) fun r s₁ h₁ => ?_
  refine .ite (fun _ => .step rfl (.pure ⟨h₁.1, h₁.1.node h₁.2⟩)) fun _ => .pure h₁

/-- The word `super` is one token. -/
theorem superBase_meets (ctx : Context) (hs : s.Sound text)
    (hk : isOrdinary s.lexer.token.kind = true) :
    Meets text (superBase ctx) s (Made text Node.sketch s) := by
  refine .step rfl (.bind (advance_meets hs hk) fun _ s₁ h₁ => .step rfl ?_)
  refine .require (fail_meets h₁.1.sound _ rfl) fun _ => .step rfl (.pure ?_)
  exact ⟨h₁.1, h₁.1.node allPlaced_nil⟩

/-- The target of `new` is a word, a dot and a word. -/
theorem newTarget_meets (ctx : Context) (h₀ : Took text s₀ s)
    (hn : ∃ t ∈ s.taken,
      Identifier.IsNew { span := .ofOffsets s₀.offset s.consumed, name := "new" } t)
    (hk : s.lexer.token.kind = .mark .dot) :
    Meets text (newTarget ctx s₀.offset) s (Made text Node.sketch s₀) := by
  refine .step rfl (.bind (advance_onto h₀.sound (by rw [hk]; simp)) fun _ s₁ h₁ => .step rfl ?_)
  refine .require (unexpected_meets h₁.1.sound) fun hw => ?_
  refine .require (fail_meets h₁.1.sound _ rfl) fun _ => ?_
  refine .bind (takeIdentifier_meets h₁.1.sound (by rw [eq_of_beq hw]; rfl))
    fun property s₂ ⟨h₂, _⟩ => .step rfl (.pure ?_)
  exact h₀.attached (h₀.owing hn allPlaced_nil) (h₁.1.took h₂.1) (placed_from h₁.1 h₂.2)

/-- What `new` is applied to lies behind its word. -/
theorem construct_meets {g : Grammar} (hg : g.Sound text) (ctx : Context) (hs : s.Sound text)
    (hk : s.lexer.token.kind = .word .newKw) :
    Meets text (construct g ctx) s (Made text Node.sketch s) := by
  refine .step rfl (.bind (advance_meets hs (by rw [hk]; rfl)) fun _ s₁ h₁ =>
    .step rfl (.ite (fun hd => ?_) fun _ => ?_))
  · refine newTarget_meets ctx h₁.1 ⟨_, h₁.2.2, hk, ?_, rfl⟩ (eq_of_beq hd)
    rw [h₁.2.1]
    rfl
  · refine .step rfl (.bind (hg.newCallee ctx s₁ h₁.1.sound) fun base s₂ h₂ => ?_)
    refine .bind (subscripts_meets hg.toSound ctx true h₂) fun callee s₃ h₃ => .step rfl ?_
    have ht₃ := h₁.1.trans h₃.1.kept
    have hcallee := placed_from h₁.1.toOnto h₃.2
    refine .ite (fun _ => ?_) fun _ => ?_
    · refine .bind (arguments_makes hg.toSound ctx s₃ h₃.1.sound) fun items s₄ h₄ => ?_
      exact .step rfl (.pure (ht₃.attached hcallee h₄.1 h₄.2))
    · refine .step rfl (.step rfl (.pure ⟨ht₃, ht₃.node ?_⟩))
      exact placed_append ht₃.offset_le (Kept.refl ht₃.sound).toOnto hcallee allPlaced_nil

/-- An operand lies between its ends before anything is attached to it. -/
theorem operandBase_makes {g : Grammar} (hg : g.Sound text) (ctx : Context) :
    Makes text Node.sketch (operandBase g ctx) := by
  intro s hs
  refine .step rfl ?_
  split
  · rename_i hk
    exact construct_meets hg ctx hs hk
  · rename_i hk
    exact superBase_meets ctx hs (by rw [hk]; rfl)
  · exact primary_makes hg ctx s hs

/-- An operand and what is attached to it lie between their ends. -/
theorem operand_makes {g : Grammar} (hg : g.Sound text) (ctx : Context) :
    Makes text Node.sketch (operand g ctx) := by
  intro s hs
  refine .step rfl (.bind (takeCoverInit_meets hs) fun outer s₁ h₁ => ?_)
  refine .bind (operandBase_makes hg ctx s₁ h₁.sound) fun base s₂ h₂ => ?_
  have hbase := h₂.from h₁.kept.toOnto
  refine .completeArrow fun b => .ite (fun _ => .step rfl ?_) fun _ => ?_
  · refine .bind (mergeCoverInit_meets outer h₂.1.sound) fun _ s₃ h₃ => .pure ?_
    exact hbase.upTo h₃.kept
  · refine .bind (subscripts_meets hg.toSound ctx false hbase) fun e s₃ h₃ => ?_
    refine .bind (mergeCoverInit_meets outer h₃.1.sound) fun _ s₄ h₄ => .pure ?_
    exact h₃.upTo h₄.kept

/-- The heritage of a class is an operand, with classes in it or without. -/
theorem Nested.Sound.grammar (hg : g.Sound text) : g.grammar.Sound text where
  toSound := hg
  heritage := by
    intro ctx s hs
    refine recursive_meets (fun again hagain ctx s hs => ?_) ctx hs
    have hgrammar : Grammar.Sound text { g with heritage := again } :=
      ⟨hg, fun ctx s hs => hagain ctx s hs⟩
    exact operand_makes hgrammar ctx s hs

end

end EcmaScript.Parser
