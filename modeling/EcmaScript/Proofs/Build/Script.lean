import EcmaScript.Proofs.Build.Loop
import EcmaScript.Proofs.Parser.Spans
import EcmaScript.Proofs.Syntax.Relocate

/-!
# What accepted scripts are built like

Every statement of an accepted script is built with all the levels that there are, and with
nothing left open but what stands in the heritage of a declared class. From this follows what
can be below it: how deep constructs can be nested, where a default of an object literal can
be left that no pattern has claimed, and what can be attached to an arrow function. The last
part compares the two ways in which parameters are read.
-/

namespace EcmaScript

open EcmaScript.Parser

/-- The first statement is a part of the script. -/
theorem Program.mem_parts {program : Program} {statement : Statement} {more : List Statement}
    (h : program.body = statement :: more) : ⟨.complete, statement⟩ ∈ program.parts := by
  rw [parts, h]
  exact List.mem_cons_self

/-- Every statement of an accepted script is built with all the levels, and can stand where it
stands. -/
theorem parse_wellBuilt {text : String} {program : Program} (h : parse text = .ok program) :
    ∀ p ∈ program.parts, WellBuilt (.level maxDepth) true p.node := by
  obtain ⟨body, last, hrun, -, rfl⟩ := parse_ok_inv h
  have hbuilds : (Nested.ofDepth maxDepth).Builds text maxDepth := Nested.ofDepth_builds maxDepth
  have hgives := hbuilds.statementsUntil (s := State.ofString text) {} .endOfFile
  obtain ⟨-, -, hbody⟩ := hgives (State.sound_ofString text) body last hrun
  simpa [Program.parts] using hbody

/-- Every statement of an accepted script is built with all the levels. -/
theorem parse_built {text : String} {program : Program} (h : parse text = .ok program) :
    ∀ p ∈ program.parts, Built (.level maxDepth) true false p.node :=
  fun p hp => (parse_wellBuilt h p hp).built

/-- A default in an object literal of an accepted script that no pattern has claimed stands in
the heritage of a declared class. Everywhere else such a default is refused. -/
theorem parse_claims_defaults {text : String} {program : Program}
    (h : parse text = .ok program) {p q : Part} (hp : p ∈ program.parts) (hq : p.Reaches q)
    (hu : q.node.isUnclaimed = true) : p.InHeritage q :=
  (parse_built h p hp).inHeritage hq hu

/-- A declared class that extends an object literal with a default. -/
def defaultInHeritage : Accepted "class A extends {a = 1} {}" fun program =>
    match program.body with
    | [.classDeclaration (.classDefinition _ _ (some (.object _ [.shorthand _ _ (some _)]))
        _ _ _)] =>
      true
    | _ => false :=
  .ofRun (by decide +kernel)

/-- The default is let through where the theorem says: the declaration of a class does not ask
for what its heritage leaves open. -/
theorem parse_claims_defaults_heritage : ∃ program p q,
    parse "class A extends {a = 1} {}" = .ok program ∧ p ∈ program.parts ∧ p.Reaches q ∧
      q.node.isUnclaimed = true ∧ p.InHeritage q := by
  obtain ⟨program, h, hok⟩ := defaultInHeritage
  simp only at hok
  split at hok
  · rename_i whole className span inner name value bodySpan elements scope hbody
    have hp := Program.mem_parts hbody
    let object : Expression := .object span [.shorthand inner name (some value)]
    let definition : Node .classDefinition :=
      .classDefinition whole className (some object) bodySpan elements scope
    have hq : Part.Reaches ⟨.complete, .classDeclaration definition⟩
        ⟨.cover, .shorthand inner name (some value)⟩ :=
      .head (b := ⟨.declared, definition⟩) List.mem_cons_self
        (.head (b := ⟨.heritage, object⟩) List.mem_cons_self (.single List.mem_cons_self))
    exact ⟨program, _, _, h, hp, hq, rfl, parse_claims_defaults h hp hq rfl⟩
  · cases hok

/-- On a way down from a statement of an accepted script there are at most as many constructs
of a kind as there are levels, arrays and objects counted together with their patterns. Only
of classes there can be more, one with each step into what a class extends. -/
theorem parse_nesting {text : String} {program : Program} (h : parse text = .ok program)
    {path : List Part} (hpath : path.IsChain Part.Holds)
    (hhead : ∀ p ∈ path.head?, p ∈ program.parts) (k : Kind) :
    Part.nesting k path ≤ maxDepth + Part.extensions k path := by
  cases path with
  | nil => simp [Part.nesting]
  | cons p path =>
    have hle := (parse_built h p (hhead p rfl)).nesting_le hpath k
    rw [Budget.level_apply] at hle
    rw [Part.extensions_cons]
    omega

/-- A class that extends a class, which extends what an array in an array is. -/
def nestedHeritage : Accepted "class A extends class extends [[a]] \x7b\x7d \x7b\x7d" fun program =>
    match program.body with
    | [.classDeclaration (.classDefinition _ _ (some (.classExpression (.classDefinition _ _
        (some (.array _ [some (.array _ _)])) _ _ _))) _ _ _)] => true
    | _ => false :=
  .ofRun (by decide +kernel)

/-- The theorem at a way down through classes and arrays in each other: of the classes there may
be as many more as the way takes steps into what a class extends. -/
theorem parse_nesting_heritage : ∃ program path,
    parse "class A extends class extends [[a]] \x7b\x7d \x7b\x7d" = .ok program ∧
      path.IsChain Part.Holds ∧ (∀ p ∈ path.head?, p ∈ program.parts) ∧
        Part.nesting .classDefinition path = 2 ∧ Part.extensions .classDefinition path = 2 ∧
          Part.nesting .array path = 2 ∧ Part.extensions .array path = 0 ∧
            2 ≤ maxDepth + Part.extensions .classDefinition path ∧
              2 ≤ maxDepth + Part.extensions .array path := by
  obtain ⟨program, h, hok⟩ := nestedHeritage
  simp only at hok
  split at hok
  · rename_i span name innerSpan innerName outerArray innerArray items innerBody innerElements
      innerScope body elements scope hbody
    let array : Expression := .array innerArray items
    let arrays : Expression := .array outerArray [some array]
    let inner : Node .classDefinition :=
      .classDefinition innerSpan innerName (some arrays) innerBody innerElements innerScope
    let outer : Node .classDefinition :=
      .classDefinition span name (some (.classExpression inner)) body elements scope
    have hpath : List.IsChain Part.Holds
        [⟨.complete, .classDeclaration outer⟩, ⟨.declared, outer⟩,
        ⟨.heritage, .classExpression inner⟩,
          ⟨.cover, inner⟩, ⟨.heritage, arrays⟩, ⟨.cover, array⟩] :=
      .cons_cons List.mem_cons_self (.cons_cons List.mem_cons_self (.cons_cons List.mem_cons_self
        (.cons_cons List.mem_cons_self (.cons_cons List.mem_cons_self (.singleton _)))))
    have hhead : ∀ p ∈ [(⟨.complete, .classDeclaration outer⟩ : Part), ⟨.declared, outer⟩,
        ⟨.heritage, .classExpression inner⟩, ⟨.cover, inner⟩, ⟨.heritage, arrays⟩,
        ⟨.cover, array⟩].head?, p ∈ program.parts := by
      rintro _ ⟨⟩
      exact Program.mem_parts hbody
    exact ⟨program, _, h, hpath, hhead, rfl, rfl, rfl, rfl,
      parse_nesting h hpath hhead .classDefinition, parse_nesting h hpath hhead .array⟩
  · cases hok

/-- Something attached to an arrow function without parentheses in an accepted script is a
property or a template, never an operator or a call, and it stands behind `new`. -/
theorem parse_leaves_arrows {text : String} {program : Program} (h : parse text = .ok program)
    {p q : Part} (hp : p ∈ program.parts) (hq : p.Reaches q) (ho : q.node.OpensArrow) :
    q.node.isAccess = true ∧ ∃ c, p.Reaches c ∧ c.role = .callee ∧ c.Spine q := by
  obtain ⟨haccess, ⟨hr, -⟩ | hcallee⟩ := (parse_built h p hp).spine_of_opensArrow hq ho
  · cases hr
  · exact ⟨haccess, hcallee⟩

/-- An arrow function behind `new`, with a property. -/
def arrowBehindNew : Accepted "new x => {}.y" fun program =>
    match program.body with
    | [.expressionStatement _ (.construct _ (.member span (.arrow inner _ _ _ _) _ _) _)] =>
      inner.start == span.start
    | _ => false :=
  .ofRun (by decide +kernel)

/-- The property is let through where the theorem says: what stands behind `new` is not asked
whether it is an arrow function. -/
theorem parse_leaves_arrows_new : ∃ program p q, parse "new x => {}.y" = .ok program ∧
    p ∈ program.parts ∧ p.Reaches q ∧ q.node.OpensArrow ∧
      q.node.isAccess = true ∧ ∃ c, p.Reaches c ∧ c.role = .callee ∧ c.Spine q := by
  obtain ⟨program, h, hok⟩ := arrowBehindNew
  simp only at hok
  split at hok
  · rename_i whole outer span inner params body isAsync scope name isOptional arguments hbody
    have hp := Program.mem_parts hbody
    let callee : Expression := .member span (.arrow inner params body isAsync scope) name isOptional
    have hq : Part.Reaches ⟨.complete, .expressionStatement whole (.construct outer callee
      arguments)⟩
        ⟨.callee, callee⟩ :=
      .head (b := ⟨.complete, .construct outer callee arguments⟩) List.mem_cons_self
        (.single List.mem_cons_self)
    have ho : callee.OpensArrow := ⟨_, rfl, rfl, eq_of_beq hok⟩
    exact ⟨program, _, _, h, hp, hq, ho, parse_leaves_arrows h hp hq ho⟩
  · cases hok

/-- The text is refused because it is nested too deeply. -/
def TooDeep (text : String) : Prop :=
  ∃ faults, parseFaults text = .error faults ∧ ∃ fault ∈ faults, fault.problem = .nestingTooDeep

/-- The parameters of the only function that is declared in the only function of a script. -/
def Program.declaredParameters? (program : Program) : Option (Node .parameters) :=
  match program.body with
  | [.functionDeclaration (.function _ _ _
      (.block _ [.functionDeclaration (.function _ _ params ..)] _) ..)] => some params
  | _ => none

/-- The parameters of the arrow function that is all there is in the only function of a
script. -/
def Program.arrowParameters? (program : Program) : Option (Node .parameters) :=
  match program.body with
  | [.functionDeclaration (.function _ _ _
      (.block _ [.expressionStatement _ (.arrow _ params ..)] _) ..)] => some params
  | _ => none

/-- The parameters that are found in a text, if they go from the parenthesis at `start` to the one
behind `inner`, as they would be at the start of a text. -/
def parametersAt (start : Nat) (inner : String) (find : Program → Option (Node .parameters))
    (text : String) : Option (Node .parameters) :=
  ((parse text).toOption.bind find).filter
    (·.span == .ofOffsets start (start + inner.utf8ByteSize + 2)) |>.map (Node.back start)

/-- A function with the given parameters, in the body of another one. -/
def declaringText (inner : String) : String :=
  "function g() \x7b function f(" ++ inner ++ ") \x7b\x7d \x7d"

/-- An arrow function with the given parameters, in the body of another function. -/
def arrowText (inner : String) : String :=
  "function g() \x7b (" ++ inner ++ ") => \x7b\x7d \x7d"

/-- A text in which parameters are found is accepted, so it is not nested too deeply. -/
theorem not_tooDeep_of_isSome {start : Nat} {inner text : String}
    {find : Program → Option (Node .parameters)}
    (h : (parametersAt start inner find text).isSome = true) : ¬TooDeep text := by
  rintro ⟨faults, herror, -⟩
  rw [parametersAt, parse, herror] at h
  exact nomatch h

/-- A text that is refused for other problems only. -/
theorem refused_of_all {start : Nat} {inner text : String}
    {find : Program → Option (Node .parameters)}
    (h : (match parseFaults text with
      | .error faults => faults.all fun fault => fault.problem != .nestingTooDeep
      | .ok _ => false) = true) :
    ¬TooDeep text ∧ (parametersAt start inner find text).isSome = false := by
  cases hfaults : parseFaults text with
  | ok program =>
    rw [hfaults] at h
    exact nomatch h
  | error faults =>
    rw [hfaults] at h
    refine ⟨?_, by rw [parametersAt, parse, hfaults]; rfl⟩
    rintro ⟨others, herror, fault, hm, hdeep⟩
    rw [hfaults] at herror
    cases herror
    have hother := List.all_eq_true.mp h fault hm
    simp [hdeep] at hother

/-- Functions and arrow functions do not agree on what parameters are. A comma behind the rest
of an object pattern is refused in the parameters of a function, but not where the pattern is
read as an object first, since no note is made of it there. -/
theorem parse_parameters_differ : ¬∀ inner : String,
    TooDeep (declaringText inner) ∨ TooDeep (arrowText inner) ∨
      parametersAt 25 inner Program.declaredParameters? (declaringText inner) =
        parametersAt 15 inner Program.arrowParameters? (arrowText inner) := by
  intro h
  have hsome : (parametersAt 15 "\x7b...r,\x7d" Program.arrowParameters?
      (arrowText "\x7b...r,\x7d")).isSome = true := by decide +kernel
  have hnone : ¬TooDeep (declaringText "\x7b...r,\x7d") ∧
      (parametersAt 25 "\x7b...r,\x7d" Program.declaredParameters?
        (declaringText "\x7b...r,\x7d")).isSome = false := refused_of_all (by decide +kernel)
  rcases h "\x7b...r,\x7d" with hdeep | hdeep | heq
  · exact hnone.1 hdeep
  · exact not_tooDeep_of_isSome hsome hdeep
  · rw [← heq, hnone.2] at hsome
    cases hsome

end EcmaScript
