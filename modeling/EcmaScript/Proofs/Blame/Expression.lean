import EcmaScript.Proofs.Blame.Cover
import EcmaScript.Proofs.Blame.Careful
import EcmaScript.Proofs.Parser.Expression

/-!
# Places that names, functions and classes blame

These constructs blame the current token, or the start of one of their parts. The start of a name
or a key is at hand when it is blamed, and the parameters of an accessor lie before the body. They
close the braces that they open.
-/

namespace EcmaScript.Parser

open Sketch

/-- The parsers one level further in blame places that they have come to. -/
structure Nested.Cares (text : String) (g : Nested) : Prop where
  statement (ctx : Context) (s : State) : Careful text (g.statement ctx) s
  expressionStatement (ctx : Context) (s : State) : Careful text (g.expressionStatement ctx) s
  bindingTarget (ctx : Context) (s : State) : Careful text (g.bindingTarget ctx) s
  assignment (ctx : Context) (s : State) : Careful text (g.assignment ctx) s
  binary (ctx : Context) (min : Precedence) (s : State) : Careful text (g.binary ctx min) s
  unary (ctx : Context) (s : State) : Careful text (g.unary ctx) s
  newCallee (ctx : Context) (s : State) : Careful text (g.newCallee ctx) s
  sound : g.Sound text

/-- The parsers that a construct is made of blame places that they have come to. -/
structure Grammar.Cares (text : String) (g : Grammar) : Prop
    extends Nested.Cares text g.toNested where
  heritage (ctx : Context) (s : State) : Careful text (g.heritage ctx) s

section

variable {text : String} {α : Type} {s : State} {g : Nested} {ctx : Context} {place : Nat}

/-- The nodes that were made start at places that have been come to. -/
theorem State.Sound.allStart {lo : Nat} {sketches : List Sketch} (hs : s.Sound text)
    (h : AllPlaced text lo s.front sketches) : AllStart (s.Met text) sketches :=
  h.each.allStart fun _ hb hle => hs.met_of_le hb hle

namespace Nested.Cares

/-- A value claims no defaults for a pattern outside of it. -/
theorem value (hg : g.Cares text) (ctx : Context) (s : State) : Careful text (g.value ctx) s :=
  closed_careful (hg.assignment ctx)

/-- A sequence blames nothing but its expressions. -/
theorem expressionOrCover (hg : g.Cares text) (ctx : Context) (s : State) :
    Careful text (g.expressionOrCover ctx) s := by
  refine .read rfl ((hg.assignment ctx s).bind fun first s₁ _ => .isAt fun _ => ?_)
  refine .ite (fun _ => ?_) fun _ => .pure
  exact (commaItems_careful (hg.assignment ctx)).bind fun _ _ _ => .node

/-- An expression claims no defaults for a pattern outside of it. -/
theorem expression (hg : g.Cares text) (ctx : Context) (s : State) :
    Careful text (g.expression ctx) s := closed_careful (hg.expressionOrCover ctx)

/-- In a list of statements the end of the text is unexpected. -/
theorem statementsUntil (hg : g.Cares text) (ctx : Context) (close : TokenKind) (s : State) :
    Careful text (g.statementsUntil ctx close) s := by
  refine many_careful fun s => .isAt fun _ => .ite (fun _ => .pure) fun _ => .isAt fun _ => ?_
  exact .refuse (fun _ => unexpected_blames) fun _ => (hg.statement ctx s).map

/-- A block closes the brace that it opens. -/
theorem block (hg : g.Cares text) (ctx : Context) (s : State) :
    Careful text (g.block ctx) s := by
  refine .read rfl (openBrace_leads.bind fun _ s₁ _ => ?_)
  refine (hg.statementsUntil ctx _ s₁).bind fun body s₂ _ => ?_
  exact closeBrace_leads.bind fun _ _ _ => .node

end Nested.Cares

/-- A reserved name is blamed where it starts. -/
theorem checkName_careful {k : TokenKind} (h : s.Met text place) :
    Careful text (checkName ctx k place) s := .check fun _ => fail_blames h rfl

/-- A name is blamed before it is taken. -/
theorem identifier_careful (ctx : Context) (s : State) : Careful text (identifier ctx) s := by
  refine .of_mindful fun hs => .read (a := s.lexer.token) rfl ?_
  refine .refuse (fun _ => failHere_blames rfl) fun _ => .require (fun _ => unexpected_blames)
    fun hlike => ?_
  refine (checkName_careful hs.sound.met_offset).bind_meets (checkName_meets ctx _ _)
    fun _ s₁ h₁ _ => ?_
  subst h₁
  exact takeAs_careful (isUncounted_of_isIdentifierName
    (isIdentifierName_of_isIdentifierLike hlike))

/-- A key is one token, or an expression in brackets. -/
theorem propertyKey_careful (hg : g.Cares text) (ctx : Context) (allowPrivate : Bool) (s : State) :
    Careful text (propertyKey g ctx allowPrivate) s := by
  refine .kind ?_
  split
  · rename_i hk
    exact (takeAs_careful (by rw [hk]; rfl)).map
  · rename_i hk
    exact (takeAs_careful (by rw [hk]; rfl)).map
  · rename_i hk
    exact (takeAs_careful (by rw [hk]; rfl)).map
  · rename_i hk
    refine (advance_careful (by rw [hk]; rfl)).bind fun _ s₁ _ => (hg.value _ s₁).bind
      fun e s₂ _ => ?_
    exact (expect_careful rfl).bind fun _ _ _ => .pure
  · rename_i hk
    exact .ite (fun _ => (takeAs_careful (by rw [hk]; rfl)).map) fun _ => unexpected_leads
  · refine .ite (fun hname => ?_) fun _ => unexpected_leads
    exact (takeAs_careful (isUncounted_of_isIdentifierName hname)).map

/-- A key that stands for a variable is blamed where it starts. -/
theorem shorthandName_careful {k : TokenKind} {key : Node .propertyKey} (h : s.Met text place) :
    Careful text (shorthandName ctx k place key) s := by
  cases key with
  | identifierKey id =>
    refine .ite (fun _ => (checkName_careful h).bind fun _ _ _ => .pure) fun _ => ?_
    exact .ite (fun _ => fail_leads h rfl) fun _ => unexpected_leads
  | _ => exact unexpected_leads

/-- A value behind a pattern is announced by a mark that counts nothing. -/
theorem optionalInitializer_careful (hg : g.Cares text) (ctx : Context) (s : State) :
    Careful text (optionalInitializer g ctx) s :=
  (eat_careful rfl).bind fun _ s₁ _ => .ite (fun _ => (hg.value ctx s₁).map) fun _ => .pure

/-- An element of a pattern is a target with an optional value. -/
theorem bindingElement_careful (hg : g.Cares text) (ctx : Context) (s : State) :
    Careful text (bindingElement g ctx) s :=
  .read rfl ((hg.bindingTarget ctx s).bind fun _ s₁ _ =>
    (optionalInitializer_careful hg _ s₁).bind fun _ _ _ => .node)

/-- Only a spread starts the rest of a pattern. -/
theorem optionalRest_careful {rest : Parser (Node .rest)}
    (h : ∀ s, s.lexer.token.kind = .mark .ellipsis → Careful text rest s) (s : State) :
    Careful text (optionalRest rest) s := .isAt_of (fun hk => (h s hk).map) .pure

/-- What follows the rest of a pattern is blamed at once. -/
theorem bindingRest_careful {argument : Parser Pattern} {close : TokenKind}
    (h : ∀ s, Careful text argument s) (s : State) (hk : s.lexer.token.kind = .mark .ellipsis) :
    Careful text (bindingRest argument close) s := by
  refine .read rfl ((advance_careful (by rw [hk]; rfl)).bind fun _ s₁ _ =>
    (h s₁).bind fun _ s₂ _ => ?_)
  exact .read rfl (.isAt fun _ => .require (fun _ => failHere_blames rfl) fun _ => .pure)

/-- Items stand before the rest of a pattern. -/
theorem itemsBeforeRest_careful {close : TokenKind} {item : Parser α}
    (h : ∀ s, Careful text item s) (s : State) :
    Careful text (itemsBeforeRest close item) s := by
  refine many_careful fun s => .isAt fun _ => .isAt fun _ => .ite (fun _ => .pure) fun _ => ?_
  exact (h s).bind fun _ _ _ => .itemEnd fun _ => .pure

/-- Elements of an array pattern may be missing. -/
theorem bindingElements_careful (hg : g.Cares text) (ctx : Context) (s : State) :
    Careful text (bindingElements g ctx) s := by
  refine many_careful fun s => .kind ?_
  split
  · exact .pure
  · exact .pure
  · rename_i hk
    exact (advance_careful (by rw [hk]; rfl)).bind fun _ _ _ => .pure
  · exact (bindingElement_careful hg ctx s).bind fun _ _ _ => .itemEnd fun _ => .pure

/-- An array pattern stands in brackets, which count nothing. -/
theorem arrayBinding_careful (hg : g.Cares text) (ctx : Context) (s : State) :
    Careful text (arrayBinding g ctx) s := by
  refine .read rfl ((expect_careful rfl).bind fun _ s₁ _ => ?_)
  refine (bindingElements_careful hg ctx s₁).bind fun _ s₂ _ => ?_
  refine (optionalRest_careful (bindingRest_careful (hg.bindingTarget ctx)) s₂).bind
    fun _ s₃ _ => ?_
  exact (expect_careful rfl).bind fun _ _ _ => .node

/-- A property of a pattern may be blamed at its key when more has been read. -/
theorem bindingProperty_careful (hg : g.Cares text) (ctx : Context) (s : State) :
    Careful text (bindingProperty g ctx) s := by
  refine .of_mindful fun hs => .read (a := s.lexer.token) rfl ?_
  have hplace := hs.sound.met_offset
  refine (propertyKey_careful hg ctx false s).bind fun key s₁ h₁ => ?_
  refine (eat_careful rfl).bind fun _ s₂ h₂ => .ite (fun _ => ?_) fun _ => ?_
  · exact (bindingElement_careful hg ctx s₂).bind fun _ _ _ => .node
  · refine (shorthandName_careful ((hplace.later h₁).later h₂)).bind fun _ s₃ _ => ?_
    exact (optionalInitializer_careful hg _ s₃).bind fun _ _ _ => .node

/-- An object pattern closes the brace that it opens. -/
theorem objectBinding_careful (hg : g.Cares text) (ctx : Context) (s : State) :
    Careful text (objectBinding g ctx) s := by
  refine .read rfl (openBrace_leads.bind fun _ s₁ _ => ?_)
  refine (itemsBeforeRest_careful (bindingProperty_careful hg ctx) s₁).bind fun _ s₂ _ => ?_
  refine (optionalRest_careful (bindingRest_careful fun s =>
    (identifier_careful ctx s).map) s₂).bind
    fun _ s₃ _ => ?_
  exact closeBrace_leads.bind fun _ _ _ => .node

/-- A declared pattern is an array, an object or a name. -/
theorem bindingTarget_careful (hg : g.Cares text) (ctx : Context) (s : State) :
    Careful text (bindingTarget g ctx) s := by
  refine .kind ?_
  split
  · exact arrayBinding_careful hg ctx s
  · exact objectBinding_careful hg ctx s
  · exact (identifier_careful ctx s).map

/-- What follows a rest parameter is blamed at once. -/
theorem restParameter_careful (hg : g.Cares text) (ctx : Context) (s : State)
    (hk : s.lexer.token.kind = .mark .ellipsis) : Careful text (restParameter g ctx) s := by
  refine .read rfl ((advance_careful (by rw [hk]; rfl)).bind fun _ s₁ _ => ?_)
  refine (hg.bindingTarget ctx s₁).bind fun _ s₂ _ => ?_
  refine .kind ?_
  split
  · exact .node
  · exact failHere_leads rfl
  · exact failHere_leads rfl
  · exact unexpected_leads

/-- Parameters stand in parentheses, which count nothing. -/
theorem formalParameters_careful (hg : g.Cares text) (ctx : Context) (s : State) :
    Careful text (formalParameters g ctx) s := by
  refine .read rfl ((expect_careful rfl).bind fun _ s₁ _ => ?_)
  refine (itemsBeforeRest_careful (bindingElement_careful hg _) s₁).bind fun _ s₂ _ => ?_
  refine (optionalRest_careful (restParameter_careful hg _) s₂).bind fun _ s₃ _ => ?_
  exact (expect_careful rfl).bind fun _ _ _ => .node

/-- Parameters of an accessor are blamed where they start. -/
theorem checkAccessorParameters_careful {accessor : PropertyKind} {params : Node .parameters}
    (h : s.Met text params.offset) : Careful text (checkAccessorParameters accessor params) s := by
  cases params with
  | parameters span items rest =>
    cases accessor with
    | getter => exact .check fun _ => fail_blames h rfl
    | setter =>
      unfold checkAccessorParameters
      refine .refuse (p := fail _ .setterRest) (fun _ => fail_blames h rfl) fun _ => ?_
      exact .check fun _ => fail_blames h rfl
    | init => exact .pure

/-- The parameters of an accessor can be blamed when all of them have been read. -/
theorem parametersAndBody_careful (hg : g.Cares text) (ctx : Context) (accessor : PropertyKind)
    (s : State) : Careful text (parametersAndBody g ctx accessor) s := by
  refine ownSuspensions_leads fun s => ?_
  refine (formalParameters_careful hg ctx s).bind_meets (formalParameters_makes hg.sound ctx s)
    fun params s₁ hm _ => ?_
  have hparams : s₁.Met text params.offset := by
    have h := hm.1.sound.allStart hm.2
    cases params with
    | parameters span items rest => exact (allStart_mk.mp h).1
  refine (checkAccessorParameters_careful hparams).bind fun _ s₂ _ => ?_
  exact (hg.block ctx s₂).bind fun _ _ _ => .pure

/-- Only an expression need not have a name. -/
theorem functionName_careful (ctx : Context) (isAsync isGenerator isDeclaration : Bool)
    (s : State) :
    Careful text (functionName ctx isAsync isGenerator isDeclaration) s := by
  refine .isAt fun _ => .ite (fun _ => (identifier_careful _ s).map) fun _ => ?_
  exact .ite (fun _ => .pure) fun _ => (identifier_careful _ s).map

/-- A function has a name, parameters and a body one behind the other. -/
theorem functionDefinition_careful (hg : g.Cares text) (ctx : Context) (start : Nat)
    (isAsync isDeclaration : Bool) (s : State) :
    Careful text (functionDefinition g ctx start isAsync isDeclaration) s := by
  rw [functionDefinition_eq]
  refine (expect_careful rfl).bind fun _ s₁ _ => (eat_careful rfl).bind fun _ s₂ _ => ?_
  refine (functionName_careful ctx _ _ _ s₂).bind fun _ s₃ _ => ?_
  exact (parametersAndBody_careful hg _ _ s₃).bind fun _ _ _ => .node

/-- A method has parameters and a body. -/
theorem methodFunction_careful (hg : g.Cares text) (ctx : Context) (isAsync isGenerator : Bool)
    (accessor : PropertyKind) (superCall : Bool) (s : State) :
    Careful text (methodFunction g ctx isAsync isGenerator accessor superCall) s :=
  .read rfl ((parametersAndBody_careful hg _ _ s).bind fun _ _ _ => .node)

/-- The body of an arrow function is a block or a value. -/
theorem arrowFunction_careful (hg : g.Cares text) (ctx : Context) (start : Nat)
    (params : Node .parameters) (isAsync : Bool) (s : State) :
    Careful text (arrowFunction g ctx start params isAsync) s := by
  refine (expect_careful rfl).bind fun _ s₁ _ => .isAt fun _ => .ite (fun _ => ?_) fun _ => ?_
  · exact (ownSuspensions_leads fun s => hg.block _ s).bind fun _ _ _ => .node
  · exact (ownSuspensions_leads fun s => hg.value _ s).bind fun _ _ _ => .node

/-- A modifier is a word that something else follows. -/
theorem eatModifier_careful (ends : TokenKind → Bool) (w : Keyword) (s : State) :
    Careful text (eatModifier ends w) s := by
  refine .isAt_of (fun hk => ?_) .pure
  refine Leads.read (p := isModifier ends) (a := _) rfl (.ite (fun _ => ?_) fun _ => .pure)
  exact (advance_careful (by rw [hk]; rfl)).map

/-- Modifiers are words and a star, none of which counts. -/
theorem modifiers_careful (ends : TokenKind → Bool) (s : State) :
    Careful text (modifiers ends) s := by
  refine (eatModifier_careful ends _ s).bind fun _ s₁ _ => ?_
  refine (eat_careful rfl).bind fun _ s₂ _ => .ite (fun _ => .pure) fun _ => ?_
  refine (eatModifier_careful ends _ s₂).bind fun _ s₃ _ => .ite (fun _ => .pure) fun _ => ?_
  refine (eatModifier_careful ends _ s₃).bind fun _ s₄ _ => ?_
  exact .ite (fun _ => .pure) fun _ => .pure

/-- The value of a field has its own suspensions. -/
theorem fieldInitializer_careful (hg : g.Cares text) (ctx : Context) (s : State) :
    Careful text (fieldInitializer g ctx) s := ownSuspensions_leads fun s => hg.value _ s

/-- A static block closes its brace within its own suspensions. -/
theorem staticBlock_careful (hg : g.Cares text) (ctx : Context) (s : State)
    (hk : isUncounted s.lexer.token.kind = true) : Careful text (staticBlock g ctx) s := by
  intro D
  refine .read rfl ((advance_careful hk).bind fun _ s₁ _ => openBrace_leads.bind fun _ s₂ _ => ?_)
  refine (ownSuspensions_leads (E := D) fun s => ?_).bind fun _ _ _ => .node
  exact (hg.statementsUntil _ _ s).bind fun _ _ _ => closeBrace_leads.bind fun _ _ _ => .pure

/-- A reserved key of a member is blamed where it starts. -/
theorem checkMemberKey_careful {isStatic : Bool} {key : Node .propertyKey} (h : s.Met text place) :
    Careful text (checkMemberKey isStatic place key) s := by
  intro D
  have hstatic : Leads text D D (if isStatic && key.staticName? == some "prototype" then
      fail place .staticPrototype else pure ()) s := .check fun _ => fail_blames h rfl
  cases key with
  | privateKey name =>
    unfold checkMemberKey
    exact .refuse (p := fail _ .privateConstructor) (fun _ => fail_blames h rfl) fun _ => hstatic
  | _ => exact hstatic

/-- A constructor that cannot be one is blamed at its key. -/
theorem checkConstructor_careful {isConstructor hasConstructor : Bool} {m : Modifiers}
    (h : s.Met text place) :
    Careful text (checkConstructor isConstructor hasConstructor m place) s := by
  intro D
  have hsecond : Leads text D D
      (if hasConstructor then fail place .secondConstructor else pure ()) s :=
    .check fun _ => fail_blames h rfl
  unfold checkConstructor
  refine .ite (fun _ => ?_) fun _ => .pure
  cases constructorFlaw? m with
  | none => exact hsecond
  | some flaw => exact (fail_blames h rfl).cut

/-- A field that cannot be one is blamed at its key or behind it. -/
theorem checkField_careful {m : Modifiers} {key : Node .propertyKey} (h : s.Met text place) :
    Careful text (checkField m place key) s := by
  unfold checkField
  refine .refuse (fun _ => unexpected_blames) fun _ => ?_
  exact .check fun _ => fail_blames h rfl

/-- A member of a class may be blamed at its key up to what makes it a method or a field. -/
theorem methodOrField_careful (hg : g.Cares text) (ctx : Context) (start : Nat)
    (derived isStatic hasConstructor : Bool) (s : State) :
    Careful text (methodOrField g ctx start derived isStatic hasConstructor) s := by
  rw [methodOrField_eq]
  refine (modifiers_careful _ s).bind fun m s₁ _ => .offset fun hplace => ?_
  refine (propertyKey_careful hg ctx true s₁).bind fun key s₂ h₂ => ?_
  replace hplace := hplace.later h₂
  refine (checkMemberKey_careful hplace).bind fun _ s₃ h₃ => .isAt fun _ => ?_
  replace hplace := hplace.later h₃
  refine .ite (fun _ => ?_) fun _ => ?_
  · refine (checkConstructor_careful hplace).bind fun _ s₄ _ => ?_
    exact (methodFunction_careful hg ctx _ _ _ _ s₄).bind fun _ _ _ => .node
  · refine (checkField_careful hplace).bind fun _ s₄ _ => ?_
    have hend : ∀ (value : Option Expression) (s : State), Careful text (do
        semicolon
        return (Node.field (← spanFrom start) key isStatic value, false)) s := fun _ _ =>
      semicolon_careful.bind fun _ _ _ => .node
    refine (eat_careful rfl).bind fun _ s₅ _ => .ite (fun _ => ?_) fun _ => Leads.pure.bind
      fun _ s₆ _ => hend _ s₆
    refine (fieldInitializer_careful hg ctx s₅).bind fun _ s₆ _ => ?_
    exact Leads.pure.bind fun _ s₇ _ => hend _ s₇

/-- A member of a class is a static block, a method or a field. -/
theorem classElement_careful (hg : g.Cares text) (ctx : Context) (derived hasConstructor : Bool)
    (s : State) : Careful text (classElement g ctx derived hasConstructor) s := by
  refine .read rfl (.read (a := s.lexer.token.kind == .word .staticKw) rfl
    (.read (p := peek) rfl (.ite (fun hk => ?_) fun _ => ?_)))
  · have hstatic := eq_of_beq (Bool.and_eq_true_iff.mp hk).1
    exact (staticBlock_careful hg ctx s (by rw [hstatic]; rfl)).map
  · refine (eatModifier_careful _ _ s).bind fun _ s₁ _ => ?_
    exact methodOrField_careful hg ctx _ derived _ hasConstructor s₁

/-- Between the members of a class there may be semicolons. -/
theorem classElements_careful (hg : g.Cares text) (ctx : Context) (derived : Bool) (s : State) :
    Careful text (classElements g ctx derived) s := by
  refine iterate_careful fun (found, hasConstructor) s => .isAt fun _ => ?_
  refine .ite (fun _ => .pure) fun _ => (eat_careful rfl).bind fun _ s₁ _ => .ite (fun _ => .pure)
    fun _ => ?_
  exact (classElement_careful hg ctx derived hasConstructor s₁).bind fun _ _ _ => .pure

/-- Only the name of a declared class must be there. -/
theorem className_careful (ctx : Context) (isDeclaration : Bool) (s : State) :
    Careful text (className ctx isDeclaration) s := by
  refine .kind (.ite (fun _ => (identifier_careful ctx s).map) fun _ => ?_)
  exact .ite (fun _ => unexpected_leads) fun _ => .pure

/-- A class closes the brace of its body. -/
theorem classDefinition_careful {g : Grammar} (hg : g.Cares text) (ctx : Context)
    (isDeclaration : Bool) (s : State) : Careful text (classDefinition g ctx isDeclaration) s := by
  rw [classDefinition_eq]
  refine .read rfl ((expect_careful rfl).bind fun _ s₁ _ => ?_)
  refine (className_careful ctx isDeclaration s₁).bind fun _ s₂ _ => ?_
  refine Leads.bind ((eat_careful rfl).bind fun _ s₃ _ =>
    .ite (fun _ => (hg.heritage ctx s₃).map) fun _ => .pure) fun heritage s₃ _ => .read rfl ?_
  refine openBrace_leads.bind fun _ s₄ _ => ?_
  refine (classElements_careful hg.toCares _ _ s₄).bind fun _ s₅ _ => ?_
  exact closeBrace_leads.bind fun _ _ _ => .read rfl .node

end

end EcmaScript.Parser
