import EcmaScript.Proofs.Fit.Script
import EcmaScript.Proofs.Parser.Spans
import EcmaScript.Proofs.Syntax.Chains

/-!
# The rules that accepted scripts follow

Every statement of an accepted script can stand where it stands. So the rules for statements and
classes are followed wherever these stand, chains with optional links are kept together, and
private names and the word `super` stand in few places only.
-/

namespace EcmaScript

open EcmaScript.Parser

variable {text : String} {program : Program}

/-- The statements of an accepted script can stand where they stand. -/
theorem parse_proper (h : parse text = .ok program) : ∀ a ∈ program.body, Proper a := by
  intro a ha
  exact (parse_wellBuilt h ⟨.complete, a⟩ (List.mem_map_of_mem ha)).proper

/-- The statements of an accepted script are as they are parsed. -/
theorem parse_parsed (h : parse text = .ok program) : ∀ s ∈ program.body, Parsed s := by
  intro s hs
  exact (parse_proper h s hs).regular.parsed

/-- All that is in an accepted script is regular. -/
theorem parse_regular (h : parse text = .ok program) {p q : Part} (hp : p ∈ program.parts)
    (hq : p.Reaches q) : Regular q.node := by
  obtain ⟨a, ha, rfl⟩ := List.mem_map.mp hp
  have hregular := (parse_proper h a ha).regular
  exact hregular.of_reaches hq

/-- The rules for statements and classes are followed everywhere in an accepted script. Constants
and patterns that are declared have values, but in the head of a loop over values, which declares
one pattern, with a value only if it is a plain variable in a loop over property names; and `let`
is the name of no variable declared with `let` or `const`. What stands alone in another statement
declares for no list. A `try` has a handler or a block that is always executed, and a `switch` has
one default at most. Getters have no parameters and setters have one. A class has one constructor
at most, which is the method that its name says it is, and no member of it has a reserved name. -/
theorem parse_follows_rules (h : parse text = .ok program) {p q : Part} (hp : p ∈ program.parts)
    (hq : p.Reaches q) : q.node.FollowsRules := (parse_regular h hp hq).conforms.rules

/-- A class with a method whose name is a string. -/
def quotedConstructor : Accepted "class A \x7b 'constructor'() \x7b\x7d \x7d" fun program =>
    match program.body with
    | [.classDeclaration (.classDefinition _ _ none _ [.method _ key _ false _] _)] =>
      key.staticName? == some "constructor"
    | _ => false :=
  .ofRun (by decide +kernel)

/-- The theorem at a method with the name of the constructor in quotes. -/
theorem parse_follows_rules_constructor : ∃ program p span key kind f,
    parse "class A \x7b 'constructor'() \x7b\x7d \x7d" = .ok program ∧ p ∈ program.parts ∧
      p.Reaches ⟨.complete, .method span key kind false f⟩ ∧
        key.staticName? = some "constructor" ∧ kind = .constructor ∧ f.isPlainFunction = true := by
  obtain ⟨program, h, hok⟩ := quotedConstructor
  simp only at hok
  split at hok
  · rename_i classSpan name bodySpan span key kind f scope hbody
    have hname := eq_of_beq hok
    have hstatement := Program.Above.statement (Program.mem_parts hbody)
    have hclass := hstatement.part (q := ⟨.declared, _⟩) (i := 0) rfl
    have hmethod := hclass.part (q := ⟨.complete, .method span key kind false f⟩)
      (i := 0) rfl
    obtain ⟨p, hp, hq⟩ := Program.exists_above_iff.mp ⟨_, hmethod⟩
    obtain ⟨-, hrules⟩ := parse_follows_rules h hp hq
    have hkind := hrules.constructor_iff.mpr ⟨rfl, hname⟩
    exact ⟨program, p, span, key, kind, f, h, hp, hq, hname, hkind, hrules.plain hkind⟩
  · cases hok

/-- In an accepted script, an optional link is on the spine of one whole chain: going up from the
link over what is attached to what is below, there is one such chain. Every whole chain has an
optional link on its spine; a template is not attached to a spine with one, nor is one behind
`new`; and a whole chain is neither assigned to nor counted up or down. -/
theorem parse_chains (h : parse text = .ok program) :
    (∀ above q, program.Above above q → q.node.isOptionalLink = true →
      ∃! n, ChainAbove above n) ∧
    ∀ p ∈ program.parts, ∀ q, p.Reaches q → q.node.KeepsChains := by
  constructor
  · intro above q hq hoptional
    have hproper : ∀ p ∈ program.parts, Proper p.node := by
      simpa [Program.parts] using parse_proper h
    have hlinked := Node.isLinked_of_isOptionalLink hoptional
    obtain ⟨n, hn⟩ := hq.exists_chain hproper hlinked
    exact ⟨n, hn, fun m hm => hm.unique hn⟩
  · intro p hp q hq
    obtain ⟨σ, hσ⟩ := Program.exists_at hp hq
    have hshape := (parse_fits_at h hσ).is_shaped
    exact (parse_regular h hp hq).keepsChains hshape

/-- A chain that goes on behind its optional link. -/
def chainBehindLink : Accepted "a?.b.c" fun program =>
    match program.body with
    | [.expressionStatement _ (.optionalChain _ (.member _ (.member _ _ _ true) _ _))] => true
    | _ => false :=
  .ofRun (by decide +kernel)

/-- The theorem at a chain that goes on behind its optional link: from the link the whole chain
is found over one other node. -/
theorem parse_chains_member : ∃ program above q, parse "a?.b.c" = .ok program ∧
    program.Above above q ∧ q.node.isOptionalLink = true ∧ ChainAbove above 1 ∧
      ∀ n, ChainAbove above n → n = 1 := by
  obtain ⟨program, h, hok⟩ := chainBehindLink
  simp only at hok
  split at hok
  · rename_i whole span outer inner base name name' optional hbody
    have hstatement := Program.Above.statement (Program.mem_parts hbody)
    have hchain := hstatement.part (q := ⟨.complete, _⟩) (i := 0) rfl
    have hmember := hchain.part (q := ⟨.cover, _⟩) (i := 0) rfl
    have hlink := hmember.part (q := ⟨.base, .member inner base name true⟩) (i := 0) rfl
    obtain ⟨n, hn, hunique⟩ := (parse_chains h).1 _ _ hlink rfl
    refine ⟨program, _, _, h, hlink, rfl, .attached rfl .whole, fun m hm => ?_⟩
    rw [hunique m hm, hunique 1 (.attached rfl .whole)]
  · cases hok

/-- In an accepted script, a private name is an operand only to the left of `in`, or of a unary
operator, of `await` or of `new`. -/
theorem parse_places_private (h : parse text = .ok program) {p q : Part}
    (hp : p ∈ program.parts) (hq : p.Reaches q) : q.node.PlacesPrivate :=
  (parse_regular h hp hq).conforms.hidden

/-- A class that asks whether an object has a private name. -/
def privateOperand : Accepted "class A \x7b #x; y = #x in z \x7d" fun program =>
    match program.body with
    | [.classDeclaration (.classDefinition _ _ none _
        [_, .field _ _ _ (some (.binary _ _ (.privateReference _) _))] _)] => true
    | _ => false :=
  .ofRun (by decide +kernel)

/-- The theorem at a private name that is asked for. -/
theorem parse_places_private_in : ∃ program p span operator name right,
    parse "class A \x7b #x; y = #x in z \x7d" = .ok program ∧ p ∈ program.parts ∧
      p.Reaches ⟨.complete, .binary span operator (.privateReference name) right⟩ ∧
        operator = .isIn ∧ right.isPrivate = false := by
  obtain ⟨program, h, hok⟩ := privateOperand
  simp only at hok
  split at hok
  · rename_i classSpan className bodySpan first fieldSpan key isStatic span operator
      name right scope hbody
    have hstatement := Program.Above.statement (Program.mem_parts hbody)
    have hclass := hstatement.part (q := ⟨.declared, _⟩) (i := 0) rfl
    have hfield := hclass.part (q := ⟨.complete, .field fieldSpan key isStatic _⟩)
      (i := 1) rfl
    have hvalue := hfield.part
      (q := ⟨.complete, .binary span operator (.privateReference name) right⟩) (i := 1) rfl
    obtain ⟨p, hp, hq⟩ := Program.exists_above_iff.mp ⟨_, hvalue⟩
    obtain ⟨hin, hright⟩ := parse_places_private h hp hq
    exact ⟨program, p, span, operator, name, right, h, hp, hq, hin rfl, hright⟩
  · cases hok

/-- In an accepted script, the word `super` is called, stands behind `new`, or has a property. -/
theorem parse_places_super (h : parse text = .ok program) {p q : Part} (hp : p ∈ program.parts)
    (hq : p.Reaches q) : q.node.PlacesSuper := (parse_regular h hp hq).conforms.super

/-- A constructor that calls that of the class which its own class extends, with an argument. -/
def superWithArgument : Accepted
    "class A extends B \x7b constructor() \x7b super(c) \x7d \x7d" fun program =>
    match program.body with
    | [.classDeclaration (.classDefinition _ _ (some _) _ [.method _ _ _ _ (.function _ _ _
        (.block _ [.expressionStatement _ (.call _ (.superBase _) [_] _)] _) ..)] _)] => true
    | _ => false :=
  .ofRun (by decide +kernel)

/-- The theorem at a call of `super`: the argument is something else. -/
theorem parse_places_super_argument : ∃ program p span word argument optional,
    parse "class A extends B \x7b constructor() \x7b super(c) \x7d \x7d" = .ok program ∧
      p ∈ program.parts ∧
        p.Reaches ⟨.complete, .call span (.superBase word) [argument] optional⟩ ∧
          argument.isSuper = false := by
  obtain ⟨program, h, hok⟩ := superWithArgument
  simp only at hok
  split at hok
  · rename_i whole name superClass bodySpan methodSpan key kind isStatic functionSpan functionName
      params blockSpan outer span word argument optional scope isGenerator isAsync scope' scope''
      hbody
    have hstatement := Program.Above.statement (Program.mem_parts hbody)
    have hclass := hstatement.part (q := ⟨.declared, _⟩) (i := 0) rfl
    have hmethod := hclass.part (q := ⟨.complete, .method methodSpan key kind isStatic _⟩)
      (i := 1) rfl
    have hfunction := hmethod.part (q := ⟨.complete, _⟩) (i := 1) rfl
    have hblock := hfunction.part (q := ⟨.complete, _⟩) (i := 1) rfl
    have hinner := hblock.part (q := ⟨.complete, _⟩) (i := 0) rfl
    have hcall := hinner.part
      (q := ⟨.complete, .call span (.superBase word) [argument] optional⟩) (i := 0) rfl
    obtain ⟨p, hp, hq⟩ := Program.exists_above_iff.mp ⟨_, hcall⟩
    have hargument := parse_places_super h hp hq argument List.mem_cons_self
    exact ⟨program, p, span, word, argument, optional, h, hp, hq, hargument⟩
  · cases hok

end EcmaScript
