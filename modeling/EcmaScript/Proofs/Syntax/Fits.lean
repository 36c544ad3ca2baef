import EcmaScript.Proofs.Syntax.Surroundings

/-!
# Nodes that fit

A node fits where it stands if what it means there is legal, if it has the shape that it should
have, and if its parts fit where they stand. The types of the tree leave open much that the
grammar does not allow: a spread could be anywhere, a chain could have an optional link without
being a chain, and a declared pattern could have a property as its target.
-/

namespace EcmaScript

/-- Whether the name behind a dot is a private one. -/
def MemberName.isHidden : MemberName → Bool
  | identifier _ => false
  | hidden _ => true

/-- A pattern of names: no property is a target, at any depth. -/
inductive Declares : {form : Form} → Node form → Prop where
  | binding {id : Identifier} : Declares (.binding id)
  | arrayPattern {span : Span} {elements : List (Option (Node .element))}
      {remainder : Option (Node .rest)} (helements : ∀ e, some e ∈ elements → Declares e)
      (hremainder : ∀ r ∈ remainder, Declares r) :
      Declares (.arrayPattern span elements remainder)
  | objectPattern {span : Span} {properties : List (Node .patternProperty)}
      {remainder : Option (Node .rest)} (hproperties : ∀ p ∈ properties, Declares p)
      (hremainder : ∀ r ∈ remainder, Declares r) :
      Declares (.objectPattern span properties remainder)
  | patternProperty {span : Span} {key : Node .propertyKey} {value : Node .element}
      {isShorthand : Bool} (hvalue : Declares value) :
      Declares (.patternProperty span key value isShorthand)
  | element {span : Span} {target : Pattern} {initializer : Option Expression}
      (htarget : Declares target) : Declares (.element span target initializer)
  | rest {span : Span} {argument : Pattern} (hargument : Declares argument) :
      Declares (.rest span argument)

namespace Node

/-- Whether a node is the word `super`. -/
def isSuper {form : Form} : Node form → Bool
  | .superBase _ => true
  | _ => false

/-- A jump has a target, and a label differs from those around it. -/
def JumpsLegally {form : Form} (x : Node form) (σ : Surroundings) : Prop :=
  match x with
  | .returnValue .. => σ.CanReturn
  | .breakFrom _ none => σ.CanBreak
  | .breakFrom _ (some label) => σ.HasLabel label.name
  | .continueWith _ none => σ.CanContinue
  | .continueWith _ (some label) => σ.HasLoopLabel label.name
  | .labeled _ label _ => ¬σ.HasLabel label.name
  | _ => True

/-- What suspends a function stands in the body of one that can be suspended. -/
def SuspendsLegally {form : Form} (x : Node form) (σ : Surroundings) : Prop :=
  match x with
  | .yieldValue .. => σ.CanYield
  | .awaitValue .. => σ.CanAwait
  | .forOf _ isAwait .. => isAwait = true → σ.CanAwait
  | _ => True

/-- `new.target`, `super` and private names have a meaning. -/
def HasMeaning {form : Form} (x : Node form) (σ : Surroundings) : Prop :=
  match x with
  | .metaProperty .. => σ.HasNewTarget
  | .call _ callee _ _ => callee.isSuper = true → σ.HasSuperCall
  | .member _ base name _ =>
    (base.isSuper = true → σ.HasSuperProperty) ∧ (name.isHidden = true → σ.InClass)
  | .index _ base _ _ => base.isSuper = true → σ.HasSuperProperty
  | .privateReference _ => σ.InClass
  | _ => True

/-- What a node itself means where it stands is legal. -/
structure Legal {form : Form} (x : Node form) (σ : Surroundings) : Prop where
  jumps : x.JumpsLegally σ
  suspends : x.SuspendsLegally σ
  means : x.HasMeaning σ

/-- Whether a node is a spread. -/
def isSpread {form : Form} : Node form → Bool
  | .spread .. => true
  | _ => false

/-- Whether a node is a chain, or the beginning of one, with an optional link. The whole of a
chain is no longer one. -/
def isLinked {form : Form} : Node form → Bool
  | .call _ callee _ optional => optional || callee.isLinked
  | .member _ base _ optional => optional || base.isLinked
  | .index _ base _ optional => optional || base.isLinked
  | _ => false

/-- Whether a node can stand anywhere: it is no spread, no chain with an optional link that is
not whole, and not the word `super`. -/
def isWhole {form : Form} (x : Node form) : Bool := !x.isSpread && !x.isLinked && !x.isSuper

/-- Whether spreads are allowed among the parts of a node. -/
def holdsSpreads {form : Form} : Node form → Bool
  | .array .. | .call .. | .construct .. => true
  | _ => false

/-- Whether a node may start with a chain that is not whole. -/
def holdsLinks {form : Form} : Node form → Bool
  | .call .. | .member .. | .index .. | .optionalChain .. => true
  | _ => false

/-- Whether a node may start with the word `super`. -/
def holdsSuper {form : Form} : Node form → Bool
  | .call .. | .construct .. | .member .. | .index .. => true
  | _ => false

/-- A node may have such a part. -/
structure Admits {form : Form} (x : Node form) (q : Part) : Prop where
  spread : q.node.isSpread = true → x.holdsSpreads = true
  linked : q.node.isLinked = true → x.holdsLinks = true
  super : q.node.isSuper = true → x.holdsSuper = true

/-- Whether all parts of a node must be such as can stand anywhere. -/
def isStrict {form : Form} (x : Node form) : Bool :=
  !x.holdsSpreads && !x.holdsLinks && !x.holdsSuper

/-- Whether an expression is a property that no optional link leads to directly. -/
def isPlainMember : Expression → Bool
  | .member _ _ _ optional | .index _ _ _ optional => !optional
  | _ => false

/-- Whether an expression is a name, or a property that no optional link leads to directly. -/
def isPlainTarget : Expression → Bool
  | .reference _ => true
  | e => e.isPlainMember

/-- Whether a pattern is a single target. -/
def isSingle : Pattern → Bool
  | .binding _ | .memberTarget _ => true
  | _ => false

/-- The pattern that takes all that is left. -/
def restTarget : Node .rest → Pattern
  | .rest _ argument => argument

/-- Whether the operator of an expression stands in front and cannot be followed by a power. -/
def isPrefixed : Expression → Bool
  | .unary .. | .awaitValue .. => true
  | _ => false

/-- All escapes in the template mean something. -/
def IsCooked : Node .template → Prop
  | .templateLiteral _ quasis _ => ∀ q ∈ quasis, q.cooked.isSome = true

/-- The property has the name that it declares or assigns to. -/
def IsShorthand (key : Node .propertyKey) (value : Node .element) : Prop :=
  ∃ k id span initializer, key = .identifierKey k ∧
    value = .element span (.binding id) initializer ∧ k.name = id.name

/-- A node itself has the shape that it should have. -/
def Shaped {form : Form} (x : Node form) : Prop :=
  match x with
  | .sequence _ expressions => 2 ≤ expressions.length
  | .call _ callee _ _ | .construct _ callee _ => callee.isSpread = false
  | .template literal => literal.IsCooked
  | .templateLiteral _ quasis expressions =>
    quasis.map (·.tail) = List.replicate expressions.length false ++ [true]
  | .update _ _ _ argument => argument.isPlainTarget = true
  | .assignment _ operator target _ => operator ≠ .assign → target.isSingle = true
  | .binary span operator left _ =>
    operator = .power → left.span.start = span.start → left.isPrefixed = false
  | .memberTarget expression => expression.isPlainMember = true
  | .objectPattern _ _ remainder => ∀ r ∈ remainder, r.restTarget.isSingle = true
  | .patternProperty _ key value isShorthand => isShorthand = true → IsShorthand key value
  | .declarator _ target _ => Declares target
  | .parameters _ params remainder => (∀ e ∈ params, Declares e) ∧ ∀ r ∈ remainder, Declares r
  | .catchClause _ param _ _ => ∀ p ∈ param, Declares p
  | _ => True

/-- Whether nothing is asked of the node itself, and around its parts stands what stands around
the node. -/
def isNeutral {form : Form} : Node form → Bool
  | .reference _ | .boolean .. | .null _ | .number _ | .bigInt _ | .string _ | .regex _
  | .taggedTemplate .. | .object .. | .functionExpression _ | .classExpression _ | .unary ..
  | .conditional .. | .thisValue _ | .shorthand .. | .spreadMember ..
  | .identifierKey _ | .stringKey _ | .numberKey _ | .bigIntKey _ | .privateKey _
  | .computedKey _ | .binding _ | .arrayPattern .. | .element .. | .rest .. | .block ..
  | .declaration .. | .noInit | .declarationInit _ | .expressionInit _ | .declarationHead _
  | .patternHead _ | .switchCase .. | .blockStatement _ | .emptyStatement _
  | .expressionStatement .. | .ifThen .. | .ifElse .. | .tryCatch .. | .tryFinally ..
  | .throwValue .. | .withObject .. | .debugger _ | .variableStatement _
  | .functionDeclaration _ | .classDeclaration _ => true
  | _ => false

section

variable {form : Form} {x : Node form}

/-- What is whole is none of the three operands that need something around them. -/
theorem isWhole_iff :
    x.isWhole = true ↔ x.isSpread = false ∧ x.isLinked = false ∧ x.isSuper = false := by
  simp [isWhole, and_assoc]

/-- What is whole is admitted everywhere. -/
theorem admits_of_isWhole {q : Part} (h : q.node.isWhole = true) : x.Admits q := by
  obtain ⟨hspread, hlinked, hsuper⟩ := isWhole_iff.mp h
  exact ⟨fun h => absurd h (by simp [hspread]), fun h => absurd h (by simp [hlinked]),
    fun h => absurd h (by simp [hsuper])⟩

/-- What a strict node admits is whole. -/
theorem Admits.isWhole {q : Part} (h : x.Admits q) (hx : x.isStrict = true) :
    q.node.isWhole = true := by
  simp only [isStrict, Bool.and_eq_true, Bool.not_eq_true'] at hx
  refine isWhole_iff.mpr ⟨Bool.eq_false_iff.mpr fun hq => ?_, Bool.eq_false_iff.mpr fun hq => ?_,
    Bool.eq_false_iff.mpr fun hq => ?_⟩
  · exact absurd (h.spread hq) (by simp [hx.1.1])
  · exact absurd (h.linked hq) (by simp [hx.1.2])
  · exact absurd (h.super hq) (by simp [hx.2])

/-- Only expressions can fail to stand anywhere. -/
theorem isWhole_of_ne (h : form ≠ .expression) : x.isWhole = true := by
  cases x <;> first | rfl | exact absurd rfl h

/-- What is no spread by its form is none. -/
theorem isSpread_of_ne {e : Expression} (h : ∀ span argument, e ≠ .spread span argument) :
    e.isSpread = false := by
  cases e with
  | spread span argument => exact absurd rfl (h span argument)
  | _ => rfl

/-- A whole target that is no name is a property. -/
theorem isPlainMember_of_isWhole {e : Expression} (h : e.isWhole = true)
    (hs : e.isSimpleTarget = true) (hr : ∀ id, e ≠ .reference id) : e.isPlainMember = true := by
  rw [isWhole_iff] at h
  cases e with
  | reference id => exact absurd rfl (hr id)
  | member span base name optional =>
    have hlinked : (optional || base.isLinked) = false := h.2.1
    simpa [isPlainMember] using (Bool.or_eq_false_iff.mp hlinked).1
  | index span base key optional =>
    have hlinked : (optional || base.isLinked) = false := h.2.1
    simpa [isPlainMember] using (Bool.or_eq_false_iff.mp hlinked).1
  | _ => exact nomatch hs

/-- A whole simple target is a name or a property. -/
theorem isPlainTarget_of_isWhole {e : Expression} (h : e.isWhole = true)
    (hs : e.isSimpleTarget = true) : e.isPlainTarget = true := by
  cases e with
  | reference id => rfl
  | member span base name optional => exact isPlainMember_of_isWhole h hs (by simp)
  | index span base key optional => exact isPlainMember_of_isWhole h hs (by simp)
  | _ => exact nomatch hs

/-- A neutral node is legal wherever it stands. -/
theorem legal_of_isNeutral (h : x.isNeutral = true) (σ : Surroundings) : x.Legal σ := by
  cases x <;> first | exact ⟨trivial, trivial, trivial⟩ | exact nomatch h

/-- A neutral node has the shape that it should have. -/
theorem shaped_of_isNeutral (h : x.isNeutral = true) : x.Shaped := by
  cases x <;> first | exact trivial | exact nomatch h

/-- A neutral node adds nothing to what is around its parts. -/
theorem within_of_isNeutral (h : x.isNeutral = true) (inner : Form) (σ : Surroundings) :
    x.within inner σ = σ := by
  cases x <;> first | rfl | exact nomatch h

/-- A neutral node is whole. -/
theorem isWhole_of_isNeutral (h : x.isNeutral = true) : x.isWhole = true := by
  cases x <;> first | rfl | exact nomatch h

end

end Node

/-- The node and all that is below it are legal where they stand and have the shape that they
should have. -/
inductive Fits : {form : Form} → Surroundings → Node form → Prop where
  | node {form : Form} {σ : Surroundings} {x : Node form} (legal : x.Legal σ)
      (shaped : x.Shaped) (admits : ∀ q ∈ x.parts, x.Admits q)
      (parts : ∀ q ∈ x.parts, Fits (x.within q.form σ) q.node) : Fits σ x

namespace Fits

variable {form : Form} {σ : Surroundings} {x : Node form}

/-- A node that fits is legal where it stands. -/
theorem is_legal (h : Fits σ x) : x.Legal σ := by
  cases h with
  | node legal _ _ _ => exact legal

/-- A node that fits has the shape that it should have. -/
theorem is_shaped (h : Fits σ x) : x.Shaped := by
  cases h with
  | node _ shaped _ _ => exact shaped

/-- A node that fits admits its parts. -/
theorem admits_parts (h : Fits σ x) : ∀ q ∈ x.parts, x.Admits q := by
  cases h with
  | node _ _ admits _ => exact admits

/-- The parts of a node that fits fit within it. -/
theorem of_mem_parts (h : Fits σ x) : ∀ q ∈ x.parts, Fits (x.within q.form σ) q.node := by
  cases h with
  | node _ _ _ parts => exact parts

/-- If the statements of a program fit, so does every node where it stands. -/
theorem of_at {program : Program} (h : ∀ p ∈ program.parts, Fits [] p.node) {q : Part}
    (hq : program.At σ q) : Fits σ q.node := by
  induction hq with
  | statement hp => exact h _ hp
  | part _ hpq ih => exact ih.of_mem_parts _ hpq

end Fits

/-- The node fits wherever it stands in surroundings as described. -/
def FitsIn {form : Form} (P : Surroundings → Prop) (x : Node form) : Prop := ∀ σ, P σ → Fits σ x

/-- The node fits wherever it stands in surroundings as described, and it can be any part of
another. -/
structure Suits {form : Form} (P : Surroundings → Prop) (x : Node form) : Prop where
  whole : x.isWhole = true
  fits : FitsIn P x

/-- The expression fits wherever it stands in surroundings as described, where it can be a
spread. -/
structure SuitsLoosely (P : Surroundings → Prop) (e : Expression) : Prop where
  unlinked : e.isLinked = false
  unsuper : e.isSuper = false
  fits : FitsIn P e

/-- The expression fits wherever it stands in surroundings as described, where something can be
attached to it. -/
structure SuitsAsBase (P : Surroundings → Prop) (e : Expression) : Prop where
  unspread : e.isSpread = false
  fits : FitsIn P e

section

variable {form : Form} {x : Node form} {P Q : Surroundings → Prop} {σ : Surroundings}

/-- What suits more surroundings suits fewer. -/
theorem Suits.mono (h : Suits P x) (hpq : ∀ σ, Q σ → P σ) : Suits Q x :=
  ⟨h.whole, fun σ hσ => h.fits σ (hpq σ hσ)⟩

/-- A part whose surroundings hang on those of the node. -/
theorem Suits.inner {f : Surroundings → Surroundings} (h : Suits P x)
    (hf : ∀ σ, Q σ → P (f σ)) : Suits (fun τ => ∃ σ, Q σ ∧ f σ = τ) x := by
  refine h.mono ?_
  rintro _ ⟨σ, hσ, rfl⟩
  exact hf σ hσ

/-- What suits surroundings suits each of them. -/
theorem Suits.at (h : Suits P x) (hσ : P σ) : Suits (Eq σ) x :=
  ⟨h.whole, by rintro _ rfl; exact h.fits σ hσ⟩

/-- What suits each of the surroundings suits them. -/
theorem Suits.of_at (hwhole : x.isWhole = true) (h : ∀ σ, P σ → Suits (Eq σ) x) : Suits P x :=
  ⟨hwhole, fun σ hσ => (h σ hσ).fits σ rfl⟩

/-- What suits may stand where spreads are allowed. -/
theorem Suits.loosely {e : Expression} (h : Suits P e) : SuitsLoosely P e :=
  have hwhole := Node.isWhole_iff.mp h.whole
  ⟨hwhole.2.1, hwhole.2.2, h.fits⟩

/-- What suits may stand where something is attached to it. -/
theorem Suits.asBase {e : Expression} (h : Suits P e) : SuitsAsBase P e :=
  ⟨(Node.isWhole_iff.mp h.whole).1, h.fits⟩

/-- What may be a spread suits each of the surroundings. -/
theorem SuitsLoosely.at {e : Expression} (h : SuitsLoosely P e) (hσ : P σ) :
    SuitsLoosely (Eq σ) e := ⟨h.unlinked, h.unsuper, by rintro _ rfl; exact h.fits σ hσ⟩

/-- What may be a spread and is none suits. -/
theorem SuitsLoosely.suits {e : Expression} (h : SuitsLoosely P e) (he : e.isSpread = false) :
    Suits P e := ⟨Node.isWhole_iff.mpr ⟨he, h.unlinked, h.unsuper⟩, h.fits⟩

/-- What something may be attached to suits if it is whole. -/
theorem SuitsAsBase.suits {e : Expression} (h : SuitsAsBase P e) (hl : e.isLinked = false)
    (hs : e.isSuper = false) : Suits P e := ⟨Node.isWhole_iff.mpr ⟨h.unspread, hl, hs⟩, h.fits⟩

/-- A node whose parts can be parts of any node. -/
theorem Suits.of_within (hwhole : x.isWhole = true) (hlegal : ∀ σ, P σ → x.Legal σ)
    (hshaped : x.Shaped)
    (hparts : ∀ q ∈ x.parts, Suits (fun τ => ∃ σ, P σ ∧ x.within q.form σ = τ) q.node) :
    Suits P x :=
  ⟨hwhole, fun σ hσ => .node (hlegal σ hσ) hshaped
    (fun q hq => Node.admits_of_isWhole (hparts q hq).whole)
    fun q hq => (hparts q hq).fits _ ⟨σ, hσ, rfl⟩⟩

/-- A node around whose parts stands what stands around the node. -/
theorem Suits.of_shaped (hwhole : x.isWhole = true) (hlegal : ∀ σ, P σ → x.Legal σ)
    (hshaped : x.Shaped) (hwithin : ∀ inner σ, x.within inner σ = σ)
    (hparts : ∀ q ∈ x.parts, Suits P q.node) : Suits P x := by
  refine .of_within hwhole hlegal hshaped fun q hq => (hparts q hq).inner fun σ hσ => ?_
  rwa [hwithin]

/-- A node of which nothing is asked, from its parts. -/
theorem Suits.of_parts (h : x.isNeutral = true) (hparts : ∀ q ∈ x.parts, Suits P q.node) :
    Suits P x :=
  .of_shaped (Node.isWhole_of_isNeutral h) (fun σ _ => Node.legal_of_isNeutral h σ)
    (Node.shaped_of_isNeutral h) (Node.within_of_isNeutral h) hparts

/-- A neutral node without parts suits everywhere. -/
theorem Suits.leaf (h : x.isNeutral = true) (hparts : x.parts = []) : Suits P x :=
  .of_parts h (by simp [hparts])

/-- The parts of a node that can be parts of any node. -/
theorem Suits.part (h : Suits (Eq σ) x) (hx : x.isStrict = true) {q : Part} (hq : q ∈ x.parts)
    (hwithin : x.within q.form σ = σ) : Suits (Eq σ) q.node := by
  have hfits := h.fits σ rfl
  refine ⟨(hfits.admits_parts q hq).isWhole hx, ?_⟩
  rintro _ rfl
  have hpart := hfits.of_mem_parts q hq
  rwa [hwithin] at hpart

/-- What is spread is not spread again. -/
theorem SuitsLoosely.argument {span : Span} {e : Expression}
    (h : SuitsLoosely (Eq σ) (.spread span e)) : Suits (Eq σ) e := by
  have hfits := h.fits σ rfl
  have hmem : (⟨.cover, e⟩ : Part) ∈ (Node.spread span e).parts := by simp [Node.parts]
  refine ⟨(hfits.admits_parts _ hmem).isWhole rfl, ?_⟩
  rintro _ rfl
  exact hfits.of_mem_parts _ hmem

end

end EcmaScript
