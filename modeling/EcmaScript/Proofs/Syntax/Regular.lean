import EcmaScript.Proofs.Syntax.Fits
import EcmaScript.Proofs.Syntax.Parsed
import EcmaScript.Scope.Declarations
import EcmaScript.Diagnostic.Problem

/-!
# Regular trees

What the grammar asks of single nodes beyond the types of the tree. Three kinds of operands can
stand only in a few places: chains with an optional link that are not whole, the word `super`,
and private names. The rules for statements and classes are about declarations and their values,
statements that stand alone in another, accessors, and the names of members.

A tree is regular if every node in it conforms to the rules of the grammar. Whatever is read as
an operand is regular, but only what is proper, which is no operand that needs something
around it, can stand anywhere.
-/

namespace EcmaScript

/-- The kind of property that a method is. -/
def MethodKind.accessor : MethodKind → PropertyKind
  | getter => .getter
  | setter => .setter
  | constructor | method => .init

namespace Node

/-- Whether a node is a private name. -/
def isPrivate {form : Form} : Node form → Bool
  | .privateReference _ => true
  | _ => false

/-- Whether a node can be an operand anywhere: it is no chain with an optional link that is not
whole, not the word `super`, and no private name. -/
def isFree {form : Form} (x : Node form) : Bool := !x.isLinked && !x.isSuper && !x.isPrivate

/-- A chain with an optional link goes on in calls and properties up to where it is whole, and
what is a whole chain has such a link. -/
def PlacesLinks {form : Form} (x : Node form) : Prop :=
  match x with
  | .call _ _ arguments _ => ∀ a ∈ arguments, a.isLinked = false
  | .member .. => True
  | .index _ _ key _ => key.isLinked = false
  | .optionalChain _ e => e.isLinked = true
  | _ => ∀ q ∈ x.parts, q.node.isLinked = false

/-- The word `super` is called, also with `new`, or has a property. -/
def PlacesSuper {form : Form} (x : Node form) : Prop :=
  match x with
  | .call _ _ arguments _ | .construct _ _ arguments => ∀ a ∈ arguments, a.isSuper = false
  | .member .. => True
  | .index _ _ key _ => key.isSuper = false
  | _ => ∀ q ∈ x.parts, q.node.isSuper = false

/-- A private name is the left operand of `in`, or the operand of a unary operator, of `await` or
of `new`. -/
def PlacesPrivate {form : Form} (x : Node form) : Prop :=
  match x with
  | .binary _ operator left right =>
    (left.isPrivate = true → operator = .isIn) ∧ right.isPrivate = false
  | .unary .. | .awaitValue .. => True
  | .construct _ _ arguments => ∀ a ∈ arguments, a.isPrivate = false
  | _ => ∀ q ∈ x.parts, q.node.isPrivate = false

/-- Whether a pattern is a single name. -/
def isName : Pattern → Bool
  | .binding _ => true
  | _ => false

/-- What is declared has a value if it is a constant or destructured. -/
def IsInitialized (kind : VariableKind) : Node .declarator → Prop
  | .declarator _ target init => kind = .constKind ∨ target.isName = false → init.isSome = true

/-- All that is declared has the values that it needs. -/
def HasValues : Node .declaration → Prop
  | .declaration _ kind ds => ∀ d ∈ ds, d.IsInitialized kind

/-- What a loop on a condition starts with has the values that it needs. -/
def StartsLoop : Node .forInit → Prop
  | .declarationInit d => d.HasValues
  | _ => True

/-- A declaration that a loop gives its values to is that of one pattern, and has a value itself
only if it is a plain variable in a loop over property names. -/
def IsHeadOf (loop : LoopKind) : Node .forHead → Prop
  | .declarationHead (.declaration _ kind ds) => ∃ span target init,
    ds = [.declarator span target init] ∧
      (init.isSome = true → loop = .forIn ∧ kind = .varKind ∧ target.isName = true)
  | .patternHead _ => True

/-- Whether a statement can only stand in a list of statements: it declares with `let` or
`const`, or it declares a class. -/
def needsBlock : Statement → Bool
  | .variableStatement (.declaration _ kind _) => kind.isLexical
  | .classDeclaration _ => true
  | _ => false

/-- A getter has no parameters, and a setter has one that is no rest parameter. -/
def SuitsAccessor (accessor : PropertyKind) : Node .parameters → Prop
  | .parameters _ params remainder =>
    match accessor with
    | .getter => params = [] ∧ remainder = none
    | .setter => params.length = 1 ∧ remainder = none
    | .init => True

/-- The function has the parameters of an accessor, if it is one. -/
def IsAccessor (accessor : PropertyKind) : Node .function → Prop
  | .function _ _ params .. => params.SuitsAccessor accessor

/-- Whether a function is neither a generator nor asynchronous. -/
def isPlainFunction : Node .function → Bool
  | .function _ _ _ _ isGenerator isAsync _ => !isGenerator && !isAsync

/-- Whether a member of a class is its constructor. -/
def isConstructor : Node .classElement → Bool
  | .method _ _ kind _ _ => kind == .constructor
  | _ => false

/-- Whether a key is the private name that no member can have. -/
def isPrivateConstructor : Node .propertyKey → Bool
  | .privateKey name => name.name == "constructor"
  | _ => false

/-- The key of a member is no reserved one. -/
structure NamesMember (isStatic : Bool) (key : Node .propertyKey) : Prop where
  hidden : key.isPrivateConstructor = false
  prototype : isStatic = true → key.staticName? ≠ some "prototype"

/-- A method is the constructor if its name says so and it is not static; then it is a plain
function. -/
structure IsMethod (key : Node .propertyKey) (kind : MethodKind) (isStatic : Bool)
    (f : Node .function) : Prop where
  accessor : f.IsAccessor kind.accessor
  constructor_iff : kind = .constructor ↔
    isStatic = false ∧ key.staticName? = some "constructor"
  plain : kind = .constructor → f.isPlainFunction = true

/-- Whether a case of a switch is the default. -/
def isDefault : Node .switchCase → Bool
  | .switchCase _ test _ => test.isNone

/-- Whether a statement has a clause that handles what was thrown. -/
def hasHandler {form : Form} : Node form → Bool
  | .tryCatch .. => true
  | _ => false

/-- Whether a statement has a block that is always executed. -/
def hasFinalizer {form : Form} : Node form → Bool
  | .tryCatch _ _ _ finalizer => finalizer.isSome
  | .tryFinally .. => true
  | _ => false

/-- A node follows the rules for statements and classes. -/
def FollowsRules {form : Form} (x : Node form) : Prop :=
  match x with
  | .property _ _ value kind _ =>
    kind ≠ .init → ∃ f, value = .functionExpression f ∧ f.IsAccessor kind
  | .classDefinition _ _ _ _ elements _ => elements.countP isConstructor ≤ 1
  | .method _ key kind isStatic f => key.NamesMember isStatic ∧ IsMethod key kind isStatic f
  | .field _ key isStatic _ =>
    key.NamesMember isStatic ∧ key.staticName? ≠ some "constructor"
  | .declaration _ kind ds =>
    kind.isLexical = true → ∀ id ∈ declaratorNames ds, id.name ≠ "let"
  | .variableStatement d => d.HasValues
  | .ifThen _ _ body | .whileLoop _ _ body | .doWhile _ body _ | .labeled _ _ body
  | .withObject _ _ body => body.needsBlock = false
  | .ifElse _ _ consequent alternate =>
    consequent.needsBlock = false ∧ alternate.needsBlock = false
  | .forLoop _ init _ _ body _ => init.StartsLoop ∧ body.needsBlock = false
  | .forIn _ left _ body _ => left.IsHeadOf .forIn ∧ body.needsBlock = false
  | .forOf _ _ left _ body _ => left.IsHeadOf .forOf ∧ body.needsBlock = false
  | .switch _ _ cases _ => cases.countP isDefault ≤ 1
  | .tryCatch .. | .tryFinally .. => x.hasHandler = true ∨ x.hasFinalizer = true
  | _ => True

section

variable {form : Form} {x : Node form}

theorem isFree_iff :
    x.isFree = true ↔ x.isLinked = false ∧ x.isSuper = false ∧ x.isPrivate = false := by
  simp [isFree, and_assoc]

/-- What is a chain with an optional link is neither of the other operands. -/
theorem isSuper_of_isLinked (h : x.isLinked = true) : x.isSuper = false := by
  cases x <;> first | rfl | exact nomatch h

theorem isPrivate_of_isLinked (h : x.isLinked = true) : x.isPrivate = false := by
  cases x <;> first | rfl | exact nomatch h

theorem isFree_of_isSimpleTarget {e : Expression} (h : e.isSimpleTarget = true)
    (hlinked : e.isLinked = false) : e.isFree = true := by
  cases e with
  | reference id => rfl
  | member span base name optional => simp [isFree, isSuper, isPrivate, hlinked]
  | index span base key optional => simp [isFree, isSuper, isPrivate, hlinked]
  | _ => exact nomatch h

/-- A statement that does not need a list of statements declares nothing for one. -/
theorem lexical_of_needsBlock {s : Statement} (h : s.needsBlock = false) : s.lexical = [] := by
  cases s with
  | variableStatement d =>
    cases d with
    | declaration span kind ds =>
      have hkind : kind.isLexical = false := h
      simp [lexical, hkind]
  | classDeclaration definition => exact nomatch h
  | _ => rfl

/-- Statements that stand alone in another are none that need a list. -/
theorem FollowsRules.needsBlock_eq (h : x.FollowsRules) :
    ∀ s ∈ x.substatements, s.needsBlock = false := by
  cases x with
  | ifElse span test consequent alternate =>
    obtain ⟨hconsequent, halternate⟩ := h
    exact List.forall_mem_cons.mpr ⟨hconsequent, List.forall_mem_singleton.mpr halternate⟩
  | forLoop | forIn | forOf => exact List.forall_mem_singleton.mpr h.2
  | ifThen | whileLoop | doWhile | labeled | withObject => exact List.forall_mem_singleton.mpr h
  | _ => exact List.forall_mem_nil _

end

/-- A node conforms to the rules for operands, statements and classes, and no scope in it has a
number yet. -/
structure Conforms {form : Form} (x : Node form) : Prop where
  links : x.PlacesLinks
  super : x.PlacesSuper
  hidden : x.PlacesPrivate
  rules : x.FollowsRules
  fresh : ∀ scope ∈ x.stamps, scope = 0

/-- Whether the rules for operands are the same for all parts of a node. -/
def treatsAlike {form : Form} : Node form → Bool
  | .call .. | .construct .. | .member .. | .index .. | .optionalChain .. | .unary ..
  | .awaitValue .. | .binary .. => false
  | _ => true

/-- Whether the rules ask nothing of a node but that its parts can stand anywhere, and no scope
in it can have a number. -/
def isUnruled {form : Form} : Node form → Bool
  | .boolean .. | .null _ | .number _ | .bigInt _ | .string _ | .regex _ | .template _
  | .taggedTemplate .. | .array .. | .object .. | .functionExpression _ | .classExpression _
  | .update .. | .assignment .. | .conditional .. | .sequence .. | .spread .. | .yieldValue ..
  | .thisValue _ | .templateLiteral .. | .spreadMember .. | .stringKey _ | .numberKey _
  | .bigIntKey _ | .privateKey _ | .computedKey _ | .arrayPattern .. | .objectPattern ..
  | .memberTarget _ | .patternProperty .. | .element .. | .rest .. | .parameters ..
  | .declarator .. | .noInit | .declarationInit _ | .expressionInit _ | .declarationHead _
  | .patternHead _ | .switchCase .. | .blockStatement _ | .emptyStatement _
  | .expressionStatement .. | .throwValue .. | .returnValue .. | .debugger _
  | .functionDeclaration _ | .classDeclaration _ => true
  | _ => false

end Node

/-- The node and all that is below it conform to the rules of the grammar. -/
inductive Regular : {form : Form} → Node form → Prop where
  | node {form : Form} {x : Node form} (conforms : x.Conforms)
      (parts : ∀ p ∈ x.parts, Regular p.node) : Regular x

/-- The node is regular and can stand anywhere. -/
structure Proper {form : Form} (x : Node form) : Prop where
  regular : Regular x
  free : x.isFree = true

section

variable {form : Form} {x : Node form}

namespace Regular

theorem conforms (h : Regular x) : x.Conforms := by
  cases h with
  | node hconforms _ => exact hconforms

theorem of_mem_parts (h : Regular x) : ∀ p ∈ x.parts, Regular p.node := by
  cases h with
  | node _ hparts => exact hparts

theorem of_reaches {p q : Part} (h : Regular p.node) (hq : p.Reaches q) : Regular q.node := by
  induction hq with
  | refl => exact h
  | tail _ hlast ih => exact ih.of_mem_parts _ hlast

/-- A node whose parts can stand anywhere. -/
theorem of_parts (halike : x.treatsAlike = true) (hrules : x.FollowsRules)
    (hfresh : ∀ scope ∈ x.stamps, scope = 0) (hparts : ∀ p ∈ x.parts, Proper p.node) :
    Regular x := by
  have hfree := fun p hp => Node.isFree_iff.mp (hparts p hp).free
  refine .node ⟨?_, ?_, ?_, hrules, hfresh⟩ fun p hp => (hparts p hp).regular
  · cases x <;> first | exact fun p hp => (hfree p hp).1 | exact nomatch halike
  · cases x <;> first | exact fun p hp => (hfree p hp).2.1 | exact nomatch halike
  · cases x <;> first | exact fun p hp => (hfree p hp).2.2 | exact nomatch halike

/-- The parts of a node that treats them alike can stand anywhere. -/
theorem proper_parts (h : Regular x) (halike : x.treatsAlike = true) :
    ∀ p ∈ x.parts, Proper p.node := by
  intro p hp
  refine ⟨h.of_mem_parts p hp, Node.isFree_iff.mpr ⟨?_, ?_, ?_⟩⟩
  · have hlinks := h.conforms.links
    cases x <;> first | exact hlinks p hp | exact nomatch halike
  · have hsuper := h.conforms.super
    cases x <;> first | exact hsuper p hp | exact nomatch halike
  · have hhidden := h.conforms.hidden
    cases x <;> first | exact hhidden p hp | exact nomatch halike

/-- Regular trees are as they are parsed: no scope has a number. -/
theorem parsed (h : Regular x) : Parsed x := by
  induction h with
  | node hconforms _ ih =>
    refine .node hconforms.fresh (fun s hs => ?_) ih
    exact Node.lexical_of_needsBlock (hconforms.rules.needsBlock_eq s hs)

end Regular

/-- The parts of a proper node that treats them alike. -/
theorem Proper.parts (h : Proper x) (halike : x.treatsAlike = true) :
    ∀ p ∈ x.parts, Proper p.node :=
  h.regular.proper_parts halike

end

end EcmaScript
