import EcmaScript.Syntax.Node
import Mathlib.Data.List.ReduceOption
import Mathlib.Logic.Relation

/-!
# Parts of nodes

The nodes right below a node, each with the role that it has there. The role says what
reading the node leaves open: most parts are complete, but an array, an object or an operand
may still turn out to be a pattern as long as nothing has been attached to it.

The kinds are those of the constructs whose nesting is limited. Arrays and objects are of one
kind with the patterns that they can become.

A part of a node is smaller than the node, so what holds of a node whenever it holds of its
parts holds of every node. What a function finds in a tree can be said without its recursion,
if it looks at each node itself and at some of its parts: it is what there is at the nodes that
can be reached over those parts.
-/

namespace EcmaScript

open Relation

/-- What a node is to the node that it is a part of. -/
inductive Role where
  /-- A part that is complete. -/
  | complete
  /-- An expression, or a part of one, that may be within what becomes a pattern. -/
  | cover
  /-- What a property or a template is attached to. -/
  | base
  /-- What stands behind `new`. -/
  | callee
  /-- The class that a class extends. -/
  | heritage
  /-- The class that is declared. -/
  | declared
deriving Repr, DecidableEq

/-- A node of any form with the role that it has. -/
structure Part where
  /-- What the node is to the one above it. -/
  role : Role
  /-- The form of the node. -/
  {form : Form}
  /-- The node itself. -/
  node : Node form

/-- The kinds of constructs whose nesting is limited. -/
inductive Kind where
  | statement | function | arrow | classDefinition | construct | unary | await | conditional
  | template
  /-- An array or the pattern of one. -/
  | array
  /-- An object or the pattern of one. -/
  | object
deriving Repr, DecidableEq

namespace Node

/-- The parts of a node in the order of the text. -/
def parts {form : Form} : Node form → List Part
  | .template literal => [⟨.complete, literal⟩]
  | .taggedTemplate _ tag quasi => [⟨.base, tag⟩, ⟨.complete, quasi⟩]
  | .array _ elements => elements.reduceOption.map (⟨.cover, ·⟩)
  | .object _ members => members.map (⟨.cover, ·⟩)
  | .functionExpression definition | .functionDeclaration definition =>
    [⟨.complete, definition⟩]
  | .arrow _ params body _ _ => [⟨.complete, params⟩, ⟨.complete, body⟩]
  | .conciseArrow _ params body _ _ => [⟨.complete, params⟩, ⟨.complete, body⟩]
  | .classExpression definition => [⟨.cover, definition⟩]
  | .unary _ _ argument | .update _ _ _ argument | .awaitValue _ argument =>
    [⟨.cover, argument⟩]
  | .binary _ _ left right => [⟨.cover, left⟩, ⟨.cover, right⟩]
  | .assignment _ _ target value => [⟨.complete, target⟩, ⟨.complete, value⟩]
  | .conditional _ test consequent alternate =>
    [⟨.cover, test⟩, ⟨.complete, consequent⟩, ⟨.complete, alternate⟩]
  | .call _ callee arguments _ => ⟨.complete, callee⟩ :: arguments.map (⟨.complete, ·⟩)
  | .construct _ callee arguments => ⟨.callee, callee⟩ :: arguments.map (⟨.complete, ·⟩)
  | .member _ base _ _ => [⟨.base, base⟩]
  | .index _ base key _ => [⟨.base, base⟩, ⟨.complete, key⟩]
  | .optionalChain _ expression => [⟨.cover, expression⟩]
  | .sequence _ expressions => expressions.map (⟨.cover, ·⟩)
  | .spread _ argument | .spreadMember _ argument => [⟨.cover, argument⟩]
  | .yieldValue _ argument _ => argument.toList.map (⟨.complete, ·⟩)
  | .templateLiteral _ _ expressions => expressions.map (⟨.complete, ·⟩)
  | .property _ key value _ _ => [⟨.complete, key⟩, ⟨.cover, value⟩]
  | .shorthand _ _ initializer => initializer.toList.map (⟨.complete, ·⟩)
  | .computedKey expression | .memberTarget expression | .expressionInit expression =>
    [⟨.complete, expression⟩]
  | .arrayPattern _ elements remainder =>
    elements.reduceOption.map (⟨.complete, ·⟩) ++ remainder.toList.map (⟨.complete, ·⟩)
  | .objectPattern _ properties remainder =>
    properties.map (⟨.complete, ·⟩) ++ remainder.toList.map (⟨.complete, ·⟩)
  | .patternProperty _ key value _ => [⟨.complete, key⟩, ⟨.complete, value⟩]
  | .element _ target initializer =>
    ⟨.complete, target⟩ :: initializer.toList.map (⟨.complete, ·⟩)
  | .rest _ argument => [⟨.complete, argument⟩]
  | .parameters _ params remainder =>
    params.map (⟨.complete, ·⟩) ++ remainder.toList.map (⟨.complete, ·⟩)
  | .function _ _ params body _ _ _ => [⟨.complete, params⟩, ⟨.complete, body⟩]
  | .block _ body _ | .staticBlock _ body _ => body.map (⟨.complete, ·⟩)
  | .classDefinition _ _ superClass _ elements _ =>
    superClass.toList.map (⟨.heritage, ·⟩) ++ elements.map (⟨.complete, ·⟩)
  | .method _ key _ _ value => [⟨.complete, key⟩, ⟨.complete, value⟩]
  | .field _ key _ value => ⟨.complete, key⟩ :: value.toList.map (⟨.complete, ·⟩)
  | .declarator _ target init => ⟨.complete, target⟩ :: init.toList.map (⟨.complete, ·⟩)
  | .declaration _ _ declarators => declarators.map (⟨.complete, ·⟩)
  | .declarationInit d | .declarationHead d | .variableStatement d => [⟨.complete, d⟩]
  | .patternHead pattern => [⟨.complete, pattern⟩]
  | .switchCase _ test consequent =>
    test.toList.map (⟨.complete, ·⟩) ++ consequent.map (⟨.complete, ·⟩)
  | .catchClause _ param body _ => param.toList.map (⟨.complete, ·⟩) ++ [⟨.complete, body⟩]
  | .blockStatement body => [⟨.complete, body⟩]
  | .expressionStatement _ expression => [⟨.complete, expression⟩]
  | .ifThen _ test consequent => [⟨.complete, test⟩, ⟨.complete, consequent⟩]
  | .ifElse _ test consequent alternate =>
    [⟨.complete, test⟩, ⟨.complete, consequent⟩, ⟨.complete, alternate⟩]
  | .forLoop _ init test step body _ =>
    ⟨.complete, init⟩ :: test.toList.map (⟨.complete, ·⟩) ++
      step.toList.map (⟨.complete, ·⟩) ++ [⟨.complete, body⟩]
  | .forIn _ left right body _ | .forOf _ _ left right body _ =>
    [⟨.complete, left⟩, ⟨.complete, right⟩, ⟨.complete, body⟩]
  | .whileLoop _ test body => [⟨.complete, test⟩, ⟨.complete, body⟩]
  | .doWhile _ body test => [⟨.complete, body⟩, ⟨.complete, test⟩]
  | .switch _ discriminant cases _ => ⟨.complete, discriminant⟩ :: cases.map (⟨.complete, ·⟩)
  | .tryCatch _ body handler finalizer =>
    ⟨.complete, body⟩ :: ⟨.complete, handler⟩ :: finalizer.toList.map (⟨.complete, ·⟩)
  | .tryFinally _ body finalizer => [⟨.complete, body⟩, ⟨.complete, finalizer⟩]
  | .throwValue _ argument => [⟨.complete, argument⟩]
  | .returnValue _ argument => argument.toList.map (⟨.complete, ·⟩)
  | .labeled _ _ body => [⟨.complete, body⟩]
  | .withObject _ base body => [⟨.complete, base⟩, ⟨.complete, body⟩]
  | .classDeclaration definition => [⟨.declared, definition⟩]
  | .reference _ | .privateReference _ | .boolean .. | .null _ | .number _ | .bigInt _
  | .string _ | .regex _ | .thisValue _ | .superBase _ | .metaProperty .. | .identifierKey _
  | .stringKey _ | .numberKey _ | .bigIntKey _ | .privateKey _ | .binding _ | .noInit
  | .emptyStatement _ | .breakFrom .. | .continueWith .. | .debugger _ => []

/-- The kind of the construct that a node is, if its nesting is limited. -/
def kind? {form : Form} : Node form → Option Kind
  | .function .. => some .function
  | .arrow .. | .conciseArrow .. => some .arrow
  | .classDefinition .. => some .classDefinition
  | .construct .. => some .construct
  | .unary .. => some .unary
  | .awaitValue .. => some .await
  | .conditional .. => some .conditional
  | .templateLiteral .. => some .template
  | .array .. | .arrayPattern .. => some .array
  | .object .. | .objectPattern .. => some .object
  | _ => if form = .statement then some .statement else none

/-- Whether a node is a default in an object literal, which is wrong unless the literal
becomes a pattern. -/
def isUnclaimed {form : Form} : Node form → Bool
  | .shorthand _ _ (some _) => true
  | _ => false

/-- Whether an expression is an arrow function. -/
def isArrow : Expression → Bool
  | .arrow .. | .conciseArrow .. => true
  | _ => false

/-- What a node starts with, if an operator, a call, a property or a template is attached to
it. -/
def leading? {form : Form} : Node form → Option Expression
  | .binary _ _ left _ => some left
  | .conditional _ test _ _ => some test
  | .call _ callee _ _ => some callee
  | .member _ base _ _ => some base
  | .index _ base _ _ => some base
  | .taggedTemplate _ tag _ => some tag
  | _ => none

/-- Whether a node is a property or a tagged template. -/
def isAccess {form : Form} : Node form → Bool
  | .member .. | .index .. | .taggedTemplate .. => true
  | _ => false

/-- Whether something is attached to an arrow function with no parenthesis before it: node
and function start at one place. -/
def OpensArrow {form : Form} (node : Node form) : Prop :=
  ∃ e, node.leading? = some e ∧ e.isArrow = true ∧ e.span.start = node.span.start

/-- Whether nothing is unsettled about a node itself: it is no default in an object literal,
and nothing is attached to what it starts with. -/
def isPlain {form : Form} (node : Node form) : Bool :=
  !node.isUnclaimed && node.leading?.isNone

end Node

namespace Part

/-- The second node is a part of the first. -/
def Holds (p q : Part) : Prop := q ∈ p.node.parts

/-- The second node is the first or stands somewhere below it. -/
abbrev Reaches : Part → Part → Prop := ReflTransGen Holds

/-- The second node is what a property or a template of the first is attached to, directly or
over further properties and templates. -/
abbrev Spine : Part → Part → Prop := ReflTransGen fun p q => p.Holds q ∧ q.role = .base

/-- Below the first node a class is declared, and the second node stands in what it extends. -/
def InHeritage (p q : Part) : Prop :=
  ∃ c e, p.Reaches c ∧ c.role = .declared ∧ c.Holds e ∧ e.role = .heritage ∧ e.Reaches q

/-- What is in a heritage is so from further out. -/
theorem InHeritage.head {p p' q : Part} (h : p'.InHeritage q) (hp : p.Holds p') :
    p.InHeritage q := by
  obtain ⟨c, e, hc, hfound⟩ := h
  exact ⟨c, e, .head hp hc, hfound⟩

/-- How many constructs of a kind there are on a way down. -/
def nesting (k : Kind) (path : List Part) : Nat := path.countP fun p => p.node.kind? = some k

/-- How many classes on a way down are there because a class extends what stands there. -/
def extensions (k : Kind) (path : List Part) : Nat :=
  path.countP fun p => k = .classDefinition ∧ p.role = .heritage

/-- A step down adds the node that it comes from. -/
theorem nesting_cons (k : Kind) (p : Part) (path : List Part) :
    nesting k (p :: path) = (if p.node.kind? = some k then 1 else 0) + nesting k path := by
  simp [nesting, List.countP_cons, Nat.add_comm]

/-- A step down adds one if it goes into what a class extends. -/
theorem extensions_cons (k : Kind) (p : Part) (path : List Part) :
    extensions k (p :: path) =
      (if k = .classDefinition ∧ p.role = .heritage then 1 else 0) + extensions k path := by
  simp [extensions, List.countP_cons, Nat.add_comm]

end Part

/-- The statements of a script as the parts of it. -/
def Program.parts (program : Program) : List Part := program.body.map (⟨.complete, ·⟩)

open Relation

/-- All the parts are smaller than a bound. -/
def Part.Below (n : Nat) (ps : List Part) : Prop := ∀ p ∈ ps, sizeOf p.node < n

namespace Part.Below

variable {form : Form} {role : Role} {n : Nat}

/-- No parts are smaller than anything. -/
theorem nil : Below n [] := fun _ hp => nomatch hp

/-- Parts are smaller if the first is and the others are. -/
theorem cons {x : Node form} {ps : List Part} :
    Below n (⟨role, x⟩ :: ps) ↔ sizeOf x < n ∧ Below n ps := List.forall_mem_cons

/-- Parts are smaller if both lists are. -/
theorem append {ps qs : List Part} : Below n (ps ++ qs) ↔ Below n ps ∧ Below n qs :=
  List.forall_mem_append

/-- Parts from a list are smaller than what is larger than the list. -/
theorem map {xs : List (Node form)} (h : sizeOf xs < n) : Below n (xs.map (⟨role, ·⟩)) := by
  simp only [Below, List.forall_mem_map]
  exact fun x hx => Nat.lt_trans (List.sizeOf_lt_of_mem hx) h

/-- A part that may be missing is smaller than what is larger. -/
theorem toList {x : Option (Node form)} (h : sizeOf x < n) :
    Below n (x.toList.map (⟨role, ·⟩)) := by
  simp only [Below, List.forall_mem_map, Option.mem_toList]
  rintro x rfl
  simp only [Option.some.sizeOf_spec] at h
  omega

/-- Parts with holes between them are smaller than what is larger. -/
theorem reduceOption {xs : List (Option (Node form))} (h : sizeOf xs < n) :
    Below n (xs.reduceOption.map (⟨role, ·⟩)) := by
  simp only [Below, List.forall_mem_map, List.reduceOption_mem_iff]
  intro x hx
  have hlt := List.sizeOf_lt_of_mem hx
  simp only [Option.some.sizeOf_spec] at hlt
  omega

end Part.Below

namespace Node

/-- The parts of a node are smaller than the node. -/
theorem sizeOf_lt_of_mem_parts {form : Form} (x : Node form) :
    ∀ p ∈ x.parts, sizeOf p.node < sizeOf x := by
  change Part.Below _ _
  generalize hn : sizeOf x = n
  -- The full simplifier only spells out the size: on the goal it would try all of arithmetic.
  cases x <;> simp at hn <;>
    simp (disch := omega) only [parts, Part.Below.nil, Part.Below.cons, Part.Below.append,
      Part.Below.map, Part.Below.toList, Part.Below.reduceOption, and_true, true_and]
  all_goals omega

/-- Induction over the parts of a node. -/
theorem induction_parts {motive : {form : Form} → Node form → Prop}
    (node : ∀ {form : Form} (x : Node form), (∀ p ∈ x.parts, motive p.node) → motive x)
    {form : Form} (x : Node form) : motive x := by
  induction hn : sizeOf x using Nat.strongRecOn generalizing form with
  | _ n ih =>
    apply node
    intro p hp
    exact ih _ (hn ▸ sizeOf_lt_of_mem_parts x p hp) p.node rfl

/-- Induction over the parts of a node and their parts. -/
theorem induction_two {motive : {form : Form} → Node form → Prop}
    (node : ∀ {form : Form} (x : Node form),
      (∀ p ∈ x.parts, motive p.node ∧ ∀ q ∈ p.node.parts, motive q.node) → motive x)
    {form : Form} (x : Node form) : motive x := by
  have hboth : motive x ∧ ∀ p ∈ x.parts, motive p.node :=
    induction_parts (motive := fun x => motive x ∧ ∀ p ∈ x.parts, motive p.node)
      (fun x ih => ⟨node x ih, fun p hp => (ih p hp).1⟩) x
  exact hboth.1

end Node

/-- What holds of a node if it holds of the node by itself or of one of the parts that it
enters, holds if such a node can be reached over those parts. -/
theorem Part.iff_reaches (found own : Part → Prop) {enters : Part → Part → Prop}
    (holds : ∀ {p q}, enters p q → p.Holds q)
    (h : ∀ p, found p ↔ own p ∨ ∃ q, enters p q ∧ found q) (p : Part) :
    found p ↔ ∃ q, ReflTransGen enters p q ∧ own q := by
  constructor
  · obtain ⟨role, node⟩ := p
    induction node using Node.induction_parts generalizing role with
    | node x ih =>
      intro hfound
      rcases (h ⟨role, x⟩).mp hfound with hown | ⟨q, henters, hq⟩
      · exact ⟨_, .refl, hown⟩
      · obtain ⟨r, hr, hown⟩ := ih q (holds henters) q.role hq
        exact ⟨r, .head henters hr, hown⟩
  · rintro ⟨q, hq, hown⟩
    induction hq using ReflTransGen.head_induction_on with
    | refl => exact (h q).mpr (Or.inl hown)
    | head hstep _ ih => exact (h _).mpr (Or.inr ⟨_, hstep, ih⟩)

end EcmaScript
