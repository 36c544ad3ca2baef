import EcmaScript.Proofs.Estree.Read
import EcmaScript.Proofs.Fit.Script
import EcmaScript.Proofs.Syntax.Faithful
import EcmaScript.Proofs.Syntax.Relocate

/-!
# Nothing is lost in JSON

What is read from the JSON of a tree that comes from a text is the tree, but for the spans of
parameters, which are not written. So trees with the same JSON are the same up to those spans.
-/

namespace EcmaScript

open Sketch Estree

/-- The spans of parameters are dropped, all others stay. -/
def Relocation.dropParameters : Relocation
  | .parameters, _ => .unset
  | _, span => span

/-- The node comes from a text: it is placed there, and fits where it stands in the tree. -/
structure Node.Genuine {form : Form} (x : Node form) : Prop where
  placed : ∃ text lo front, EachPlaced text lo front x.sketch ∧ ∀ t ∈ front.taken, t.IsRead text
  fits : ∃ σ, Fits σ x

namespace Node.Genuine

variable {form : Form} {x : Node form}

/-- The parts of a genuine node are genuine. -/
theorem of_mem_parts (h : x.Genuine) : ∀ p ∈ x.parts, p.node.Genuine := by
  intro p hp
  obtain ⟨text, lo, front, hplaced, hread⟩ := h.placed
  obtain ⟨σ, hfits⟩ := h.fits
  exact ⟨⟨text, lo, front, placed_parts x hplaced p hp, hread⟩, _, hfits.of_mem_parts p hp⟩

/-- A span that comes from a text is known from its offsets. -/
theorem span_eq {span : Span} {debt : Debt} {row : List Span} {parts : List Sketch}
    (h : x.Genuine) (hsketch : x.sketch = [.mk span true debt row parts]) :
    .ofOffsets span.offsets.1 span.offsets.2 = span := by
  obtain ⟨text, lo, front, hplaced, -⟩ := h.placed
  rw [hsketch] at hplaced
  obtain ⟨start, stop, rfl, -⟩ := hplaced.of_mk
  rfl

/-- A span of what a node itself consists of is known from its offsets. -/
theorem inner_span_eq {span inner : Span} {debt debt' : Debt} {row row' : List Span}
    {solid : Bool} {parts parts' : List Sketch} (h : x.Genuine)
    (hsketch : x.sketch = [.mk span true debt row parts])
    (hmem : Sketch.mk inner solid debt' row' parts' ∈ parts) :
    .ofOffsets inner.offsets.1 inner.offsets.2 = inner := by
  obtain ⟨text, lo, front, hplaced, -⟩ := h.placed
  rw [hsketch] at hplaced
  cases hplaced.inner _ hmem with
  | mk => rfl

/-- A node that is a token is one that was read from a text. -/
theorem token {span : Span} {is : Token → Prop} (h : x.Genuine)
    (hsketch : x.sketch = leaf span is) :
    ∃ text t, t.IsRead text ∧ is t := by
  obtain ⟨text, lo, front, hplaced, hread⟩ := h.placed
  rw [hsketch] at hplaced
  obtain ⟨t, ht, his⟩ := hplaced.paid
  exact ⟨text, t, hread t ht, his⟩

/-- The parts of what is genuine without its scopes are genuine without theirs. -/
theorem erased_part (h : x.erase.Genuine) : ∀ p ∈ x.parts, p.node.erase.Genuine := by
  intro p hp
  refine h.of_mem_parts p.erase ?_
  rw [parts_erase]
  exact List.mem_map_of_mem hp

end Node.Genuine

/-- What is read from the JSON of a node is the node. -/
def Reads (read : Reader) {form : Form} (x : Node form) : Prop :=
  read form x.toJson = x.relocate .dropParameters

namespace Estree

/-- A name is read from its record. -/
theorem identifierOf_identifier {id : Identifier}
    (h : .ofOffsets id.span.offsets.1 id.span.offsets.2 = id.span) :
    identifierOf (identifier id) = id.relocate (Relocation.dropParameters .expression) := by
  obtain ⟨span, name, scope⟩ := id
  have hread : identifierOf (identifier ⟨span, name, scope⟩) =
      ⟨.ofOffsets span.offsets.1 span.offsets.2, name, scope⟩ := by
    cases scope <;> rfl
  rw [hread, h]
  rfl

/-- A private name is read back from its record. -/
theorem privateNameOf_privateName {name : PrivateName}
    (h : .ofOffsets name.span.offsets.1 name.span.offsets.2 = name.span) :
    privateNameOf (privateName name) = name.relocate (Relocation.dropParameters .expression) :=
  congrArg (PrivateName.mk · name.name) h

/-- A name that may be missing is read back from its record or from null. -/
theorem identifierOf_option {name : Option Identifier}
    (h : ∀ id ∈ name, .ofOffsets id.span.offsets.1 id.span.offsets.2 = id.span) :
    (identifier? name).option identifierOf =
      name.map (Identifier.relocate (Relocation.dropParameters .expression)) := by
  cases name with
  | none => rfl
  | some id => exact congrArg some (identifierOf_identifier (h id rfl))

/-- The name behind a dot is read back from its record, private or not. -/
theorem memberNameOf_memberName {name : MemberName}
    (h : .ofOffsets name.span.offsets.1 name.span.offsets.2 = name.span) :
    memberNameOf (memberName name) = name.relocate (Relocation.dropParameters .expression) := by
  cases name with
  | identifier id => exact congrArg MemberName.identifier (identifierOf_identifier h)
  | hidden name => exact congrArg MemberName.hidden (privateNameOf_privateName h)

/-- A piece of a template is read back from its record, the cooked text included. -/
theorem templateElementOf_templateElement {e : TemplateElement}
    (h : .ofOffsets e.span.offsets.1 e.span.offsets.2 = e.span) :
    templateElementOf (templateElement e) =
      e.relocate (Relocation.dropParameters .expression) := by
  obtain ⟨span, raw, cooked, tail⟩ := e
  have hread : templateElementOf (templateElement ⟨span, raw, cooked, tail⟩) =
      ⟨.ofOffsets span.offsets.1 span.offsets.2, raw, cooked, tail⟩ := by
    cases cooked <;> rfl
  rw [hread, h]
  rfl

/-- The value of a number is no string and no truth value. -/
theorem numberValue_cases (x : Double) : (∃ n, numberValue x = .integer n) ∨
    (∃ d, numberValue x = .double d) ∨ numberValue x = .null := by
  unfold numberValue
  split
  · split
    · exact Or.inl ⟨_, rfl⟩
    · exact Or.inr (Or.inl ⟨_, rfl⟩)
  · exact Or.inr (Or.inl ⟨_, rfl⟩)
  · exact Or.inr (Or.inr rfl)

/-- A number that is a token has the value of its spelling, which is not `null`. -/
theorem numberLiteral_eq {n : NumberLiteral} {text : String} {t : Token} (h : n.IsToken t)
    (ht : t.IsRead text) : n.value = Numeral.value n.raw ∧ n.raw ≠ "null" := by
  refine ⟨by rw [h.value, h.raw], fun hnull => ?_⟩
  have hs := ht.spells
  rw [h.kind, ← h.raw, hnull] at hs
  obtain ⟨ch, hch, hdigit⟩ := hs
  cases hch
  exact absurd hdigit (by decide)

/-- A number is read back, as its value is the one that its spelling denotes. -/
theorem numberOf_number {n : NumberLiteral}
    (hspan : .ofOffsets n.span.offsets.1 n.span.offsets.2 = n.span)
    (hvalue : n.value = Numeral.value n.raw) :
    numberOf (number n) = n.relocate (Relocation.dropParameters .expression) := by
  obtain ⟨span, value, raw⟩ := n
  exact (NumberLiteral.mk.injEq ..).mpr ⟨hspan, hvalue.symm, rfl⟩

/-- A number is told from the other literals by its spelling, which is never `null`. -/
theorem literalOf_number {n : NumberLiteral} (hraw : n.raw ≠ "null") :
    literalOf (number n) = .number (numberOf (number n)) := by
  have hread : ∀ value : Json,
      (∃ k, value = .integer k) ∨ (∃ d, value = .double d) ∨ value = .null →
        literalOf (literal n.span value n.raw) =
          .number (numberOf (literal n.span value n.raw)) := by
    rintro _ (⟨k, rfl⟩ | ⟨d, rfl⟩ | rfl) <;> exact if_neg hraw
  exact hread _ (numberValue_cases n.value)

/-- A key that has no other mark of a literal is read as a number. -/
theorem literalKeyOf_number (n : NumberLiteral) :
    literalKeyOf (number n) = .numberKey (numberOf (number n)) := by
  have hread : ∀ value : Json,
      (∃ k, value = .integer k) ∨ (∃ d, value = .double d) ∨ value = .null →
        literalKeyOf (literal n.span value n.raw) =
          .numberKey (numberOf (literal n.span value n.raw)) := by
    rintro _ (⟨k, rfl⟩ | ⟨d, rfl⟩ | rfl) <;> rfl
  exact hread _ (numberValue_cases n.value)

end Estree

section

variable {read : Reader} {form : Form}

/-- What is written one behind the other is read one behind the other. -/
theorem read_list {xs ys : List (Node form)} {items : List Json}
    (hitems : items = xs.map Node.toJson)
    (hys : ys = xs.map (Node.relocate .dropParameters)) (h : ∀ x ∈ xs, Reads read x) :
    items.map (read form) = ys := by
  rw [hitems, hys, List.map_map]
  exact List.map_congr_left h

/-- What may be missing is read back, since no node is written as null. -/
theorem read_option {x y : Option (Node form)} {json : Json}
    (hjson : json = Json.ofOption Node.toJson x)
    (hy : y = x.map (Node.relocate .dropParameters))
    (hnull : ∀ x : Node form, x.toJson.isNull = false) (h : ∀ z, x = some z → Reads read z) :
    json.option (read form) = y := by
  rw [hjson, hy]
  cases x with
  | none => rfl
  | some x =>
    show (if x.toJson.isNull then none else some (read form x.toJson)) = some _
    rw [hnull x, h x rfl]
    rfl

/-- A list with holes is read back, the holes from null. -/
theorem read_holes {xs ys : List (Option (Node form))} {items : List Json}
    (hitems : items = xs.map (Json.ofOption Node.toJson))
    (hys : ys = xs.map (Option.map (Node.relocate .dropParameters)))
    (hnull : ∀ x : Node form, x.toJson.isNull = false) (h : ∀ x, some x ∈ xs → Reads read x) :
    items.map (Json.option (read form)) = ys := by
  rw [hitems, hys, List.map_map]
  refine List.map_congr_left fun x hx => read_option rfl rfl hnull fun z hz => h z (hz ▸ hx)

/-- The parts of a node are read as they are, and those of its keys and definitions. -/
structure ReadsParts (read : Reader) {form : Form} (x : Node form) : Prop where
  parts : ∀ p ∈ x.parts, p.form ≠ .propertyKey → Reads read p.node
  inner : ∀ p ∈ x.parts, ∀ q ∈ p.node.parts, q.form ≠ .propertyKey → Reads read q.node

/-- No expression is written as null. -/
theorem isNull_expression (e : Expression) : e.toJson.isNull = false := by
  cases e with
  | template t => cases t; rfl
  | functionExpression f => cases f; rfl
  | classExpression c => cases c; rfl
  | _ => rfl

/-- An expression is read back when its parts are. -/
theorem expressionOf_toJson (x : Expression) (hx : Node.Genuine x.erase)
    (h : ∀ p ∈ x.parts, p.form ≠ .propertyKey → Reads read p.node) :
    expressionOf read x.toJson = x.relocate .dropParameters := by
  cases x with
  | reference id => exact congrArg Node.reference (identifierOf_identifier (hx.span_eq rfl))
  | privateReference name =>
    exact congrArg Node.privateReference (privateNameOf_privateName (hx.span_eq rfl))
  | boolean span value => exact (Node.boolean.injEq ..).mpr ⟨hx.span_eq rfl, rfl⟩
  | null span => exact (Node.null.injEq ..).mpr (hx.span_eq rfl)
  | number n =>
    obtain ⟨text, t, ht, his⟩ := hx.token rfl
    obtain ⟨hvalue, hraw⟩ := numberLiteral_eq his ht
    exact (literalOf_number hraw).trans
      (congrArg Node.number (numberOf_number (hx.span_eq rfl) hvalue))
  | bigInt n => exact congrArg (fun span => Node.bigInt ⟨span, n.raw⟩) (hx.span_eq rfl)
  | string s => exact congrArg (fun span => Node.string ⟨span, s.value, s.raw⟩) (hx.span_eq rfl)
  | regex r =>
    exact congrArg (fun span => Node.regex ⟨span, r.pattern, r.flags⟩) (hx.span_eq rfl)
  | template t =>
    simp only [Node.parts, List.forall_mem_cons, ne_eq, reduceCtorEq, not_false_eq_true,
      true_imp_iff] at h
    cases t
    exact congrArg Node.template h.1
  | functionExpression f =>
    simp only [Node.parts, List.forall_mem_cons, ne_eq, reduceCtorEq, not_false_eq_true,
      true_imp_iff] at h
    cases f
    exact congrArg Node.functionExpression h.1
  | classExpression c =>
    simp only [Node.parts, List.forall_mem_cons, ne_eq, reduceCtorEq, not_false_eq_true,
      true_imp_iff] at h
    cases c
    exact congrArg Node.classExpression h.1
  | taggedTemplate span tag quasi =>
    simp only [Node.parts, List.forall_mem_cons, ne_eq, reduceCtorEq, not_false_eq_true,
      true_imp_iff] at h
    exact (Node.taggedTemplate.injEq ..).mpr ⟨hx.span_eq rfl, h.1, h.2.1⟩
  | array span elements =>
    simp only [Node.parts, List.forall_mem_map, List.reduceOption_mem_iff, ne_eq, reduceCtorEq,
      not_false_eq_true, true_imp_iff] at h
    exact (Node.array.injEq ..).mpr ⟨hx.span_eq rfl, read_holes (Node.optionalExpressions_eq _)
      (Node.mapOptionals_eq _ _) isNull_expression h⟩
  | object span members =>
    simp only [Node.parts, List.forall_mem_map, ne_eq, reduceCtorEq, not_false_eq_true,
      true_imp_iff] at h
    exact (Node.object.injEq ..).mpr ⟨hx.span_eq rfl, read_list (Node.objectMembers_eq _)
      (Node.mapMembers_eq _ _) h⟩
  | arrow span params body isAsync scope =>
    simp only [Node.parts, List.forall_mem_cons, ne_eq, reduceCtorEq, not_false_eq_true,
      true_imp_iff] at h
    cases scope <;> exact (Node.arrow.injEq ..).mpr ⟨hx.span_eq rfl, h.1, h.2.1, rfl, rfl⟩
  | conciseArrow span params body isAsync scope =>
    simp only [Node.parts, List.forall_mem_cons, ne_eq, reduceCtorEq, not_false_eq_true,
      true_imp_iff] at h
    cases scope <;> exact (Node.conciseArrow.injEq ..).mpr ⟨hx.span_eq rfl, h.1, h.2.1, rfl, rfl⟩
  | unary span operator argument =>
    simp only [Node.parts, List.forall_mem_cons, ne_eq, reduceCtorEq, not_false_eq_true,
      true_imp_iff] at h
    exact (Node.unary.injEq ..).mpr ⟨hx.span_eq rfl, ofText_text operator, h.1⟩
  | update span operator leading argument =>
    simp only [Node.parts, List.forall_mem_cons, ne_eq, reduceCtorEq, not_false_eq_true,
      true_imp_iff] at h
    exact (Node.update.injEq ..).mpr ⟨hx.span_eq rfl, ofText_text operator, rfl, h.1⟩
  | binary span operator left right =>
    simp only [Node.parts, List.forall_mem_cons, ne_eq, reduceCtorEq, not_false_eq_true,
      true_imp_iff] at h
    have hread : ∀ logical : Bool, expressionOf read
        (record (if logical then "LogicalExpression" else "BinaryExpression") span
          [("operator", .string operator.text), ("left", left.toJson), ("right", right.toJson)]) =
        (Node.binary span operator left right).relocate .dropParameters := by
      intro logical
      cases logical <;>
        exact (Node.binary.injEq ..).mpr ⟨hx.span_eq rfl, ofText_text operator, h.1, h.2.1⟩
    exact hread operator.isLogical
  | assignment span operator target value =>
    simp only [Node.parts, List.forall_mem_cons, ne_eq, reduceCtorEq, not_false_eq_true,
      true_imp_iff] at h
    exact (Node.assignment.injEq ..).mpr ⟨hx.span_eq rfl, ofText_text operator, h.1, h.2.1⟩
  | conditional span test consequent alternate =>
    simp only [Node.parts, List.forall_mem_cons, ne_eq, reduceCtorEq, not_false_eq_true,
      true_imp_iff] at h
    exact (Node.conditional.injEq ..).mpr ⟨hx.span_eq rfl, h.1, h.2.1, h.2.2.1⟩
  | call span callee arguments optional =>
    simp only [Node.parts, List.forall_mem_cons, List.forall_mem_map, ne_eq, reduceCtorEq,
      not_false_eq_true, true_imp_iff] at h
    exact (Node.call.injEq ..).mpr ⟨hx.span_eq rfl, h.1, read_list (Node.expressions_eq _)
      (Node.mapExpressions_eq _ _) h.2, rfl⟩
  | construct span callee arguments =>
    simp only [Node.parts, List.forall_mem_cons, List.forall_mem_map, ne_eq, reduceCtorEq,
      not_false_eq_true, true_imp_iff] at h
    exact (Node.construct.injEq ..).mpr ⟨hx.span_eq rfl, h.1, read_list (Node.expressions_eq _)
      (Node.mapExpressions_eq _ _) h.2⟩
  | member span base name optional =>
    simp only [Node.parts, List.forall_mem_cons, ne_eq, reduceCtorEq, not_false_eq_true,
      true_imp_iff] at h
    have hname : .ofOffsets name.span.offsets.1 name.span.offsets.2 = name.span := by
      cases name <;>
        exact hx.inner_span_eq rfl (List.mem_append_right _ (List.mem_singleton.mpr rfl))
    exact (Node.member.injEq ..).mpr ⟨hx.span_eq rfl, h.1, memberNameOf_memberName hname, rfl⟩
  | index span base key optional =>
    simp only [Node.parts, List.forall_mem_cons, ne_eq, reduceCtorEq, not_false_eq_true,
      true_imp_iff] at h
    exact (Node.index.injEq ..).mpr ⟨hx.span_eq rfl, h.1, h.2.1, rfl⟩
  | optionalChain span expression =>
    simp only [Node.parts, List.forall_mem_cons, ne_eq, reduceCtorEq, not_false_eq_true,
      true_imp_iff] at h
    exact (Node.optionalChain.injEq ..).mpr ⟨hx.span_eq rfl, h.1⟩
  | sequence span expressions =>
    simp only [Node.parts, List.forall_mem_map, ne_eq, reduceCtorEq, not_false_eq_true,
      true_imp_iff] at h
    exact (Node.sequence.injEq ..).mpr ⟨hx.span_eq rfl, read_list (Node.expressions_eq _)
      (Node.mapExpressions_eq _ _) h⟩
  | spread span argument =>
    simp only [Node.parts, List.forall_mem_cons, ne_eq, reduceCtorEq, not_false_eq_true,
      true_imp_iff] at h
    exact (Node.spread.injEq ..).mpr ⟨hx.span_eq rfl, h.1⟩
  | yieldValue span argument delegate =>
    simp only [Node.parts, List.forall_mem_map, Option.mem_toList, ne_eq, reduceCtorEq,
      not_false_eq_true, true_imp_iff] at h
    exact (Node.yieldValue.injEq ..).mpr ⟨hx.span_eq rfl, read_option (Node.expression?_eq _)
      (Node.mapExpression?_eq _ _) isNull_expression h, rfl⟩
  | awaitValue span argument =>
    simp only [Node.parts, List.forall_mem_cons, ne_eq, reduceCtorEq, not_false_eq_true,
      true_imp_iff] at h
    exact (Node.awaitValue.injEq ..).mpr ⟨hx.span_eq rfl, h.1⟩
  | thisValue span => exact (Node.thisValue.injEq ..).mpr (hx.span_eq rfl)
  | superBase span => exact (Node.superBase.injEq ..).mpr (hx.span_eq rfl)
  | metaProperty span holder name =>
    have hholder : identifierOf (identifier holder) = _ := identifierOf_identifier
      (hx.inner_span_eq rfl (List.mem_append_left _ (List.mem_singleton.mpr rfl)))
    have hname : identifierOf (identifier name) = _ := identifierOf_identifier
      (hx.inner_span_eq rfl (List.mem_append_right _ (List.mem_singleton.mpr rfl)))
    exact (Node.metaProperty.injEq ..).mpr ⟨hx.span_eq rfl, hholder, hname⟩

/-- A key is read back when its parts are and it is known whether it is computed. -/
theorem keyOf_toJson (x : Node .propertyKey) (hx : Node.Genuine x.erase)
    (h : ∀ p ∈ x.parts, p.form ≠ .propertyKey → Reads read p.node) :
    keyOf read x.toJson x.isComputed = x.relocate .dropParameters := by
  cases x with
  | identifierKey id => exact congrArg Node.identifierKey (identifierOf_identifier (hx.span_eq rfl))
  | stringKey s =>
    exact congrArg (fun span => Node.stringKey ⟨span, s.value, s.raw⟩) (hx.span_eq rfl)
  | numberKey n =>
    obtain ⟨text, t, ht, his⟩ := hx.token rfl
    obtain ⟨hvalue, -⟩ := numberLiteral_eq his ht
    exact (literalKeyOf_number n).trans
      (congrArg Node.numberKey (numberOf_number (hx.span_eq rfl) hvalue))
  | bigIntKey n => exact congrArg (fun span => Node.bigIntKey ⟨span, n.raw⟩) (hx.span_eq rfl)
  | privateKey name =>
    exact congrArg Node.privateKey (privateNameOf_privateName (hx.span_eq rfl))
  | computedKey e =>
    exact congrArg Node.computedKey (h ⟨.complete, e⟩ List.mem_cons_self nofun)

/-- The key of a property is read back from the member that holds it. -/
theorem ReadsParts.key {x : Node form} {key : Node .propertyKey} {role : Role}
    (h : ReadsParts read x) (hx : x.erase.Genuine)
    (hkey : (⟨role, key⟩ : Part) ∈ x.parts) :
    keyOf read key.toJson key.isComputed = key.relocate .dropParameters :=
  keyOf_toJson key (hx.erased_part _ hkey) (h.inner _ hkey)

/-- A member of an object literal is read back when its parts are. -/
theorem objectMemberOf_toJson (x : Node .objectMember) (hx : Node.Genuine x.erase)
    (h : ReadsParts read x) :
    objectMemberOf read x.toJson = x.relocate .dropParameters := by
  cases x with
  | property span key value kind isMethod =>
    have hkey := h.key hx List.mem_cons_self
    have hvalue := h.parts ⟨.cover, value⟩ (by simp [Node.parts]) nofun
    exact (Node.property.injEq ..).mpr ⟨hx.span_eq rfl, hkey, hvalue, ofText_text kind, rfl⟩
  | shorthand span name initializer =>
    have hname : identifierOf (identifier name) = _ := identifierOf_identifier
      (hx.inner_span_eq rfl (List.mem_append_left _ (List.mem_singleton.mpr rfl)))
    cases initializer with
    | none => exact (Node.shorthand.injEq ..).mpr ⟨hx.span_eq rfl, hname, rfl⟩
    | some value =>
      have hvalue := h.parts ⟨.complete, value⟩ (by simp [Node.parts]) nofun
      exact (Node.shorthand.injEq ..).mpr ⟨hx.span_eq rfl, hname, congrArg some hvalue⟩
  | spreadMember span argument =>
    have hargument := h.parts ⟨.cover, argument⟩ (by simp [Node.parts]) nofun
    exact (Node.spreadMember.injEq ..).mpr ⟨hx.span_eq rfl, hargument⟩

/-- No item before the rest is taken for the rest. -/
theorem splitRest_snoc? {items : List Json} {last : Option (Node .rest)}
    (hitems : ∀ item ∈ items, typeOf item ≠ "RestElement") :
    splitRest (snoc? items (Node.rest? last)) = (items, last.map Node.toJson) := by
  cases last with
  | none =>
    show splitRest items = (items, none)
    unfold splitRest
    split
    · rename_i item hitem
      exact if_neg (hitems item (List.mem_of_getLast? hitem))
    · rename_i hnone
      rw [List.getLast?_eq_none_iff.mp hnone]
  | some r =>
    have htype : typeOf r.toJson = "RestElement" := by
      cases r
      rfl
    simp [splitRest, snoc?, htype]

/-- A rest that may be missing is read back. -/
theorem read_rest {x y : Option (Node .rest)} (hy : y = x.map (Node.relocate .dropParameters))
    (h : ∀ z, x = some z → Reads read z) : (x.map Node.toJson).map (read .rest) = y := by
  rw [hy]
  cases x with
  | none => rfl
  | some z => exact congrArg some (h z rfl)

/-- The types under which patterns are written; none of them is that of a rest or a default. -/
theorem typeOf_pattern {x : Pattern} (hx : Node.Genuine x.erase) :
    typeOf x.toJson = "Identifier" ∨ typeOf x.toJson = "ArrayPattern" ∨
      typeOf x.toJson = "ObjectPattern" ∨ typeOf x.toJson = "MemberExpression" := by
  cases x with
  | binding id => exact Or.inl rfl
  | arrayPattern => exact Or.inr (Or.inl rfl)
  | objectPattern => exact Or.inr (Or.inr (Or.inl rfl))
  | memberTarget e =>
    obtain ⟨σ, hfits⟩ := hx.fits
    have hmember := hfits.is_shaped
    cases e with
    | member | index => exact Or.inr (Or.inr (Or.inr rfl))
    | _ => exact absurd hmember Bool.false_ne_true

/-- An element of a pattern is not taken for a rest. -/
theorem typeOf_element {x : Node .element} (hx : x.erase.Genuine) :
    typeOf x.toJson ≠ "RestElement" ∧ typeOf x.toJson ≠ "" := by
  cases x with
  | element span target initializer =>
    cases initializer with
    | none =>
      have htarget := typeOf_pattern (hx.erased_part ⟨.complete, target⟩ (by simp [Node.parts]))
      show typeOf target.toJson ≠ _ ∧ typeOf target.toJson ≠ _
      rcases htarget with h | h | h | h <;> rw [h] <;> decide
    | some value =>
      show "AssignmentPattern" ≠ _ ∧ "AssignmentPattern" ≠ _
      decide

/-- A pattern is written with its own offsets. -/
theorem spanOf_pattern {x : Pattern} (hx : Node.Genuine x.erase) : spanOf x.toJson = x.span := by
  cases x with
  | binding id =>
    have hspan : .ofOffsets id.span.offsets.1 id.span.offsets.2 = id.span := hx.span_eq rfl
    exact congrArg Identifier.span (identifierOf_identifier hspan)
  | arrayPattern | objectPattern => exact hx.span_eq rfl
  | memberTarget e =>
    obtain ⟨σ, hfits⟩ := hx.fits
    have hmember := hfits.is_shaped
    cases e with
    | member | index => exact hx.span_eq rfl
    | _ => exact absurd hmember Bool.false_ne_true

/-- A node stands at the same place without its scopes. -/
theorem Node.span_erase {form : Form} (x : Node form) : x.erase.span = x.span := by
  induction x using Node.induction_parts with
  | node x ih =>
    cases x with
    | template y | functionExpression y | classExpression y | computedKey y | memberTarget y
    | expressionInit y | declarationInit y | declarationHead y | patternHead y | blockStatement y
    | variableStatement y | functionDeclaration y | classDeclaration y =>
      exact ih _ List.mem_cons_self
    | _ => rfl

/-- No element of a pattern is written as null, so a null is a hole. -/
theorem isNull_element (x : Node .element) : x.toJson.isNull = false := by
  cases x with
  | element span target initializer =>
    cases initializer with
    | none =>
      cases target with
      | memberTarget e => exact isNull_expression e
      | _ => rfl
    | some value => rfl

/-- An element without a default stands where its target stands. -/
theorem Node.Genuine.target_span {span : Span} {target : Pattern}
    (hx : (Node.element span target none).erase.Genuine) : span = target.span := by
  obtain ⟨text, lo, front, hplaced, -⟩ := hx.placed
  obtain ⟨start, stop, -, -, -, -, -, -, hfact, -⟩ := EachPlaced.of_mk hplaced
  exact (hfact rfl).trans (Node.span_erase target)

/-- An element of a pattern is read back, with its default when it has one. -/
theorem elementOf_toJson (x : Node .element) (hx : x.erase.Genuine)
    (h : ∀ p ∈ x.parts, p.form ≠ .propertyKey → Reads read p.node) :
    elementOf read x.toJson = x.relocate .dropParameters := by
  cases x with
  | element span target initializer =>
    have htarget := h ⟨.complete, target⟩ (by simp [Node.parts]) nofun
    cases initializer with
    | none =>
      have hgenuine := hx.erased_part ⟨.complete, target⟩ (by simp [Node.parts])
      have hspan : spanOf target.toJson = span := (spanOf_pattern hgenuine).trans
        hx.target_span.symm
      have hread : elementOf read target.toJson =
          .element (spanOf target.toJson) (read .pattern target.toJson) none := by
        unfold elementOf
        rcases typeOf_pattern hgenuine with h | h | h | h <;> rw [h] <;> rfl
      exact hread.trans ((Node.element.injEq ..).mpr ⟨hspan, htarget, rfl⟩)
    | some value =>
      have hvalue := h ⟨.complete, value⟩ (by simp [Node.parts]) nofun
      exact (Node.element.injEq ..).mpr ⟨hx.span_eq rfl, htarget, congrArg some hvalue⟩

/-- A property of a pattern is read back when its parts are. -/
theorem patternPropertyOf_toJson (x : Node .patternProperty) (hx : x.erase.Genuine)
    (h : ReadsParts read x) :
    patternPropertyOf read x.toJson = x.relocate .dropParameters := by
  cases x with
  | patternProperty span key value short =>
    have hkey := h.key hx List.mem_cons_self
    have hvalue := h.parts ⟨.complete, value⟩ (by simp [Node.parts]) nofun
    exact (Node.patternProperty.injEq ..).mpr ⟨hx.span_eq rfl, hkey, hvalue, rfl⟩

/-- A rest is read back when its target is. -/
theorem restOf_toJson (x : Node .rest) (hx : x.erase.Genuine)
    (h : ∀ p ∈ x.parts, p.form ≠ .propertyKey → Reads read p.node) :
    restOf read x.toJson = x.relocate .dropParameters := by
  cases x with
  | rest span argument =>
    exact (Node.rest.injEq ..).mpr ⟨hx.span_eq rfl, h ⟨.complete, argument⟩
      (by simp [Node.parts]) nofun⟩

/-- A pattern is read back when its parts are; a rest is the last of the items. -/
theorem patternOf_toJson (x : Pattern) (hx : Node.Genuine x.erase)
    (h : ∀ p ∈ x.parts, p.form ≠ .propertyKey → Reads read p.node) :
    patternOf read x.toJson = x.relocate .dropParameters := by
  cases x with
  | binding id => exact congrArg Node.binding (identifierOf_identifier (hx.span_eq rfl))
  | arrayPattern span elements remainder =>
    have hgenuine : ∀ e, some e ∈ elements → e.erase.Genuine := by
      intro e he
      exact hx.erased_part ⟨.complete, e⟩ (by simp [Node.parts, List.reduceOption_mem_iff, he])
    simp only [Node.parts, List.forall_mem_append, List.forall_mem_map, Option.mem_toList,
      List.reduceOption_mem_iff, ne_eq, reduceCtorEq, not_false_eq_true, true_imp_iff] at h
    have hitems : ∀ item ∈ Node.optionalElements elements, typeOf item ≠ "RestElement" := by
      rw [Node.optionalElements_eq]
      refine List.forall_mem_map.mpr fun e he => ?_
      cases e with
      | none => exact (by decide : "" ≠ "RestElement")
      | some e => exact (typeOf_element (hgenuine e he)).1
    have hsplit : splitRest (snoc? _ (Node.rest? remainder)) = _ := splitRest_snoc? hitems
    refine (Node.arrayPattern.injEq ..).mpr ⟨hx.span_eq rfl, ?_, ?_⟩
    · refine (congrArg (fun s => s.1.map (Json.option (read .element))) hsplit).trans ?_
      exact read_holes (Node.optionalElements_eq _) (Node.mapOptionalElements_eq _ _)
        isNull_element h.1
    · refine (congrArg (fun s => s.2.map (read .rest)) hsplit).trans ?_
      exact read_rest (Node.mapRest?_eq _ _) h.2
  | objectPattern span properties remainder =>
    simp only [Node.parts, List.forall_mem_append, List.forall_mem_map, Option.mem_toList, ne_eq,
      reduceCtorEq, not_false_eq_true, true_imp_iff] at h
    have hitems : ∀ item ∈ Node.patternProperties properties, typeOf item ≠ "RestElement" := by
      rw [Node.patternProperties_eq]
      refine List.forall_mem_map.mpr fun p _ => ?_
      cases p
      exact (by decide : "Property" ≠ "RestElement")
    have hsplit : splitRest (snoc? _ (Node.rest? remainder)) = _ := splitRest_snoc? hitems
    refine (Node.objectPattern.injEq ..).mpr ⟨hx.span_eq rfl, ?_, ?_⟩
    · refine (congrArg (fun s => s.1.map (read .patternProperty)) hsplit).trans ?_
      exact read_list (Node.patternProperties_eq _) (Node.mapProperties_eq _ _) h.1
    · refine (congrArg (fun s => s.2.map (read .rest)) hsplit).trans ?_
      exact read_rest (Node.mapRest?_eq _ _) h.2
  | memberTarget e =>
    have hread : patternOf read e.toJson = .memberTarget (read .expression e.toJson) := by
      obtain ⟨σ, hfits⟩ := hx.fits
      have hmember := hfits.is_shaped
      cases e with
      | member | index => rfl
      | _ => exact absurd hmember Bool.false_ne_true
    exact hread.trans (congrArg Node.memberTarget
      (h ⟨.complete, e⟩ (by simp [Node.parts]) (by simp)))

/-- Parameters are read back but for their span, which is not written. -/
theorem parametersOf_toJson (x : Node .parameters) (hx : x.erase.Genuine)
    (h : ∀ p ∈ x.parts, p.form ≠ .propertyKey → Reads read p.node) :
    parametersOf read x.toJson = x.relocate .dropParameters := by
  cases x with
  | parameters span params remainder =>
    have hgenuine : ∀ e ∈ params, e.erase.Genuine := by
      intro e he
      exact hx.erased_part ⟨.complete, e⟩ (by simp [Node.parts, he])
    simp only [Node.parts, List.forall_mem_append, List.forall_mem_map, Option.mem_toList, ne_eq,
      reduceCtorEq, not_false_eq_true, true_imp_iff] at h
    have hitems : ∀ item ∈ Node.elements params, typeOf item ≠ "RestElement" := by
      rw [Node.elements_eq]
      exact List.forall_mem_map.mpr fun e he => (typeOf_element (hgenuine e he)).1
    have hsplit : splitRest (snoc? _ (Node.rest? remainder)) = _ := splitRest_snoc? hitems
    refine (Node.parameters.injEq ..).mpr ⟨rfl, ?_, ?_⟩
    · refine (congrArg (fun s => s.1.map (read .element)) hsplit).trans ?_
      exact read_list (Node.elements_eq _) (Node.mapElements_eq _ _) h.1
    · refine (congrArg (fun s => s.2.map (read .rest)) hsplit).trans ?_
      exact read_rest (Node.mapRest?_eq _ _) h.2

/-- A function is read from its record, of whatever type. -/
theorem functionOf_function {type : String} {span : Span} {name : Option Identifier}
    {params : Node .parameters} {body : Node .block} {isGenerator isAsync : Bool} {scope : ScopeId}
    (hx : (Node.function span name params body isGenerator isAsync scope).erase.Genuine)
    (hparams : Reads read params) (hbody : Reads read body) :
    functionOf read (Estree.function type span name params.toJson body.toJson isGenerator isAsync
      scope) = (Node.function span name params body isGenerator isAsync scope).relocate
        .dropParameters := by
  have hname : ∀ id ∈ name, .ofOffsets id.span.offsets.1 id.span.offsets.2 = id.span := by
    intro id hid
    cases hid
    exact hx.inner_span_eq rfl (List.mem_append_left _ (List.mem_singleton.mpr rfl))
  cases scope <;>
    exact (Node.function.injEq ..).mpr
      ⟨hx.span_eq rfl, identifierOf_option hname, hparams, hbody, rfl, rfl, rfl⟩

/-- A block is read back when its statements are. -/
theorem blockOf_toJson (x : Node .block) (hx : x.erase.Genuine)
    (h : ∀ p ∈ x.parts, p.form ≠ .propertyKey → Reads read p.node) :
    blockOf read x.toJson = x.relocate .dropParameters := by
  cases x with
  | block span body scope =>
    simp only [Node.parts, List.forall_mem_map, ne_eq, reduceCtorEq, not_false_eq_true,
      true_imp_iff] at h
    have hbody := read_list (Node.statements_eq body)
      (Node.mapStatements_eq _ body) h
    cases scope <;> exact (Node.block.injEq ..).mpr ⟨hx.span_eq rfl, hbody, rfl⟩

/-- A class is read from its record, of whatever type. -/
theorem classDefinitionOf_class {type : String} {span bodySpan : Span} {name : Option Identifier}
    {superClass : Option Expression} {elements : List (Node .classElement)} {scope : ScopeId}
    (hx : (Node.classDefinition span name superClass bodySpan elements scope).erase.Genuine)
    (hsuper : ∀ e, superClass = some e → Reads read e) (helements : ∀ e ∈ elements, Reads read e) :
    classDefinitionOf read (classRecord type span name (Node.expression? superClass) bodySpan
      (Node.classElements elements) scope) =
      (Node.classDefinition span name superClass bodySpan elements scope).relocate
        .dropParameters := by
  have hname : ∀ id ∈ name, .ofOffsets id.span.offsets.1 id.span.offsets.2 = id.span := by
    intro id hid
    cases hid
    exact hx.inner_span_eq rfl (List.mem_append_left _ (List.mem_singleton.mpr rfl))
  have hbody : .ofOffsets bodySpan.offsets.1 bodySpan.offsets.2 = bodySpan :=
    hx.inner_span_eq rfl (List.mem_append_right _ (List.mem_append_right _
      (List.mem_singleton.mpr rfl)))
  have hsuper := read_option (Node.expression?_eq superClass)
    (Node.mapExpression?_eq _ superClass) isNull_expression hsuper
  have helements := read_list (Node.classElements_eq elements)
    (Node.mapClassElements_eq _ elements) helements
  cases scope <;>
    exact (Node.classDefinition.injEq ..).mpr
      ⟨hx.span_eq rfl, identifierOf_option hname, hsuper, hbody, helements, rfl⟩

/-- An element of a class is read back when its parts are. -/
theorem classElementOf_toJson (x : Node .classElement) (hx : x.erase.Genuine)
    (h : ReadsParts read x) :
    classElementOf read x.toJson = x.relocate .dropParameters := by
  cases x with
  | method span key kind isStatic value =>
    have hkey := h.key hx List.mem_cons_self
    have hvalue := h.parts ⟨.complete, value⟩ (by simp [Node.parts]) nofun
    exact (Node.method.injEq ..).mpr ⟨hx.span_eq rfl, hkey, ofText_text kind, rfl, hvalue⟩
  | field span key isStatic value =>
    have hkey := h.key hx List.mem_cons_self
    have hvalue := read_option (Node.expression?_eq value)
      (Node.mapExpression?_eq _ value) isNull_expression fun e he =>
        h.parts ⟨.complete, e⟩ (by simp [Node.parts, he]) nofun
    exact (Node.field.injEq ..).mpr ⟨hx.span_eq rfl, hkey, rfl, hvalue⟩
  | staticBlock span body scope =>
    have hbody := read_list (Node.statements_eq body)
      (Node.mapStatements_eq _ body) fun s hs =>
        h.parts ⟨.complete, s⟩ (by simp [Node.parts, hs]) nofun
    cases scope <;> exact (Node.staticBlock.injEq ..).mpr ⟨hx.span_eq rfl, hbody, rfl⟩

/-- A declarator is read back when its parts are. -/
theorem declaratorOf_toJson (x : Node .declarator) (hx : x.erase.Genuine)
    (h : ∀ p ∈ x.parts, p.form ≠ .propertyKey → Reads read p.node) :
    declaratorOf read x.toJson = x.relocate .dropParameters := by
  cases x with
  | declarator span target init =>
    simp only [Node.parts, List.forall_mem_cons, List.forall_mem_map, Option.mem_toList, ne_eq,
      reduceCtorEq, not_false_eq_true, true_imp_iff] at h
    exact (Node.declarator.injEq ..).mpr ⟨hx.span_eq rfl, h.1, read_option (Node.expression?_eq _)
      (Node.mapExpression?_eq _ _) isNull_expression h.2⟩

/-- A declaration is read back when its declarators are. -/
theorem declarationOf_toJson (x : Node .declaration) (hx : x.erase.Genuine)
    (h : ∀ p ∈ x.parts, p.form ≠ .propertyKey → Reads read p.node) :
    declarationOf read x.toJson = x.relocate .dropParameters := by
  cases x with
  | declaration span kind ds =>
    simp only [Node.parts, List.forall_mem_map, ne_eq, reduceCtorEq, not_false_eq_true,
      true_imp_iff] at h
    exact (Node.declaration.injEq ..).mpr ⟨hx.span_eq rfl, ofText_text kind,
      read_list (Node.declarators_eq _) (Node.mapDeclarators_eq _ _) h⟩

/-- No expression is written with declarators, which tells the two heads of a loop apart. -/
theorem isNull_declarations (x : Expression) : (x.toJson.get "declarations").isNull = true := by
  cases x with
  | template t => cases t; rfl
  | functionExpression f =>
    cases f with
    | function _ _ _ _ _ _ scope => cases scope <;> rfl
  | classExpression c =>
    cases c with
    | classDefinition _ _ _ _ _ scope => cases scope <;> rfl
  | reference id =>
    obtain ⟨span, name, scope⟩ := id
    cases scope <;> rfl
  | arrow _ _ _ _ scope | conciseArrow _ _ _ _ scope => cases scope <;> rfl
  | _ => rfl

/-- What a loop starts with is read back: declarations or an expression. -/
theorem forInitOf_toJson (x : Node .forInit)
    (h : ∀ p ∈ x.parts, p.form ≠ .propertyKey → Reads read p.node) :
    forInitOf read x.toJson = x.relocate .dropParameters := by
  cases x with
  | noInit => rfl
  | declarationInit d =>
    have hd := h ⟨.complete, d⟩ (by simp [Node.parts]) nofun
    cases d
    exact congrArg Node.declarationInit hd
  | expressionInit e =>
    have he := h ⟨.complete, e⟩ (by simp [Node.parts]) nofun
    have hread : forInitOf read e.toJson = .expressionInit (read .expression e.toJson) := by
      rw [forInitOf, isNull_expression, isNull_declarations]
      rfl
    exact hread.trans (congrArg Node.expressionInit he)

/-- What a loop assigns to is read back: a declaration or a pattern. -/
theorem forHeadOf_toJson (x : Node .forHead)
    (h : ∀ p ∈ x.parts, p.form ≠ .propertyKey → Reads read p.node) :
    forHeadOf read x.toJson = x.relocate .dropParameters := by
  cases x with
  | declarationHead d =>
    have hd := h ⟨.complete, d⟩ (by simp [Node.parts]) nofun
    cases d
    exact congrArg Node.declarationHead hd
  | patternHead pattern =>
    have hpattern := h ⟨.complete, pattern⟩ (by simp [Node.parts]) nofun
    have hnull : (pattern.toJson.get "declarations").isNull = true := by
      cases pattern with
      | memberTarget e => exact isNull_declarations e
      | binding id => exact isNull_declarations (.reference id)
      | _ => rfl
    have hread : forHeadOf read pattern.toJson = .patternHead (read .pattern pattern.toJson) := by
      rw [forHeadOf, hnull]
      rfl
    exact hread.trans (congrArg Node.patternHead hpattern)

/-- A case of a switch is read back when its parts are. -/
theorem switchCaseOf_toJson (x : Node .switchCase) (hx : x.erase.Genuine)
    (h : ∀ p ∈ x.parts, p.form ≠ .propertyKey → Reads read p.node) :
    switchCaseOf read x.toJson = x.relocate .dropParameters := by
  cases x with
  | switchCase span test consequent =>
    simp only [Node.parts, List.forall_mem_append, List.forall_mem_map, Option.mem_toList, ne_eq,
      reduceCtorEq, not_false_eq_true, true_imp_iff] at h
    exact (Node.switchCase.injEq ..).mpr ⟨hx.span_eq rfl, read_option (Node.expression?_eq _)
      (Node.mapExpression?_eq _ _) isNull_expression h.1, read_list (Node.statements_eq _)
      (Node.mapStatements_eq _ _) h.2⟩

/-- No pattern is written as null. -/
theorem isNull_pattern (x : Pattern) : x.toJson.isNull = false := by
  cases x with
  | memberTarget e => exact isNull_expression e
  | _ => rfl

/-- No block is written as null. -/
theorem isNull_block (x : Node .block) : x.toJson.isNull = false := by
  cases x
  rfl

/-- No catch clause is written as null. -/
theorem isNull_catchClause (x : Node .catchClause) : x.toJson.isNull = false := by
  cases x
  rfl

/-- No statement is written as null. -/
theorem isNull_statement (x : Statement) : x.toJson.isNull = false := by
  cases x with
  | blockStatement b => exact isNull_block b
  | variableStatement d => cases d; rfl
  | functionDeclaration f => cases f; rfl
  | classDeclaration c => cases c; rfl
  | _ => rfl

/-- A catch clause is read back, with its parameter when it has one. -/
theorem catchClauseOf_toJson (x : Node .catchClause) (hx : x.erase.Genuine)
    (h : ∀ p ∈ x.parts, p.form ≠ .propertyKey → Reads read p.node) :
    catchClauseOf read x.toJson = x.relocate .dropParameters := by
  cases x with
  | catchClause span param body scope =>
    simp only [Node.parts, List.forall_mem_append, List.forall_mem_map, List.forall_mem_cons,
      Option.mem_toList, ne_eq, reduceCtorEq, not_false_eq_true, true_imp_iff] at h
    have hparam := read_option (Node.pattern?_eq param)
      (Node.mapPattern?_eq _ param) isNull_pattern h.1
    cases scope <;>
      exact (Node.catchClause.injEq ..).mpr ⟨hx.span_eq rfl, hparam, h.2.1, rfl⟩

/-- The label of a jump is read from its record. -/
theorem identifierOf_label {span : Span} {label : Option Identifier} {x : Statement}
    (hx : Node.Genuine x) (hsketch : x.sketch =
      owing span .ending ((label.map Identifier.erase).toList.flatMap Identifier.sketch)) :
    (identifier? label).option identifierOf =
      label.map (Identifier.relocate (Relocation.dropParameters .expression)) := by
  refine identifierOf_option fun id hid => ?_
  cases hid
  exact hx.inner_span_eq hsketch (List.mem_singleton.mpr rfl)

/-- A statement is read back when its parts are. -/
theorem statementOf_toJson (x : Statement) (hx : Node.Genuine x.erase)
    (h : ReadsParts read x) : statementOf read x.toJson = x.relocate .dropParameters := by
  have hparts := h.parts
  cases x with
  | blockStatement b =>
    simp only [Node.parts, List.forall_mem_cons, ne_eq, reduceCtorEq, not_false_eq_true,
      true_imp_iff] at hparts
    cases b
    exact congrArg Node.blockStatement hparts.1
  | emptyStatement span => exact (Node.emptyStatement.injEq ..).mpr (hx.span_eq rfl)
  | debugger span => exact (Node.debugger.injEq ..).mpr (hx.span_eq rfl)
  | expressionStatement span e =>
    simp only [Node.parts, List.forall_mem_cons, ne_eq, reduceCtorEq, not_false_eq_true,
      true_imp_iff] at hparts
    exact (Node.expressionStatement.injEq ..).mpr ⟨hx.span_eq rfl, hparts.1⟩
  | ifThen span test consequent =>
    simp only [Node.parts, List.forall_mem_cons, ne_eq, reduceCtorEq, not_false_eq_true,
      true_imp_iff] at hparts
    exact (Node.ifThen.injEq ..).mpr ⟨hx.span_eq rfl, hparts.1, hparts.2.1⟩
  | ifElse span test consequent alternate =>
    simp only [Node.parts, List.forall_mem_cons, ne_eq, reduceCtorEq, not_false_eq_true,
      true_imp_iff] at hparts
    have hread : statementOf read (Node.ifElse span test consequent alternate).toJson =
        .ifElse (.ofOffsets span.offsets.1 span.offsets.2) (read .expression test.toJson)
          (read .statement consequent.toJson) (read .statement alternate.toJson) :=
      if_neg (Bool.eq_false_iff.mp (isNull_statement alternate))
    exact hread.trans
      ((Node.ifElse.injEq ..).mpr ⟨hx.span_eq rfl, hparts.1, hparts.2.1, hparts.2.2.1⟩)
  | forLoop span init test step body scope =>
    simp only [Node.parts, List.forall_mem_cons, List.forall_mem_append, List.forall_mem_map,
      Option.mem_toList, ne_eq, reduceCtorEq, not_false_eq_true, true_imp_iff] at hparts
    have htest := read_option (Node.expression?_eq test)
      (Node.mapExpression?_eq _ test) isNull_expression hparts.1.1.2
    have hstep := read_option (Node.expression?_eq step)
      (Node.mapExpression?_eq _ step) isNull_expression hparts.1.2
    cases scope <;> exact (Node.forLoop.injEq ..).mpr
      ⟨hx.span_eq rfl, hparts.1.1.1, htest, hstep, hparts.2.1, rfl⟩
  | forIn span left right body scope =>
    simp only [Node.parts, List.forall_mem_cons, ne_eq, reduceCtorEq, not_false_eq_true,
      true_imp_iff] at hparts
    cases scope <;> exact (Node.forIn.injEq ..).mpr
      ⟨hx.span_eq rfl, hparts.1, hparts.2.1, hparts.2.2.1, rfl⟩
  | forOf span isAwait left right body scope =>
    simp only [Node.parts, List.forall_mem_cons, ne_eq, reduceCtorEq, not_false_eq_true,
      true_imp_iff] at hparts
    cases scope <;> exact (Node.forOf.injEq ..).mpr
      ⟨hx.span_eq rfl, rfl, hparts.1, hparts.2.1, hparts.2.2.1, rfl⟩
  | whileLoop span test body =>
    simp only [Node.parts, List.forall_mem_cons, ne_eq, reduceCtorEq, not_false_eq_true,
      true_imp_iff] at hparts
    exact (Node.whileLoop.injEq ..).mpr ⟨hx.span_eq rfl, hparts.1, hparts.2.1⟩
  | doWhile span body test =>
    simp only [Node.parts, List.forall_mem_cons, ne_eq, reduceCtorEq, not_false_eq_true,
      true_imp_iff] at hparts
    exact (Node.doWhile.injEq ..).mpr ⟨hx.span_eq rfl, hparts.1, hparts.2.1⟩
  | switch span discriminant cases scope =>
    simp only [Node.parts, List.forall_mem_cons, List.forall_mem_map, ne_eq, reduceCtorEq,
      not_false_eq_true, true_imp_iff] at hparts
    have hcases := read_list (Node.switchCases_eq cases)
      (Node.mapCases_eq _ cases) hparts.2
    cases scope <;> exact (Node.switch.injEq ..).mpr ⟨hx.span_eq rfl, hparts.1, hcases, rfl⟩
  | tryCatch span body handler finalizer =>
    simp only [Node.parts, List.forall_mem_cons, List.forall_mem_map, Option.mem_toList, ne_eq,
      reduceCtorEq, not_false_eq_true, true_imp_iff] at hparts
    have hfinalizer := read_option (Node.block?_eq finalizer)
      (Node.mapBlock?_eq _ finalizer) isNull_block hparts.2.2
    have hread : statementOf read (Node.tryCatch span body handler finalizer).toJson =
        .tryCatch (.ofOffsets span.offsets.1 span.offsets.2) (read .block body.toJson)
          (read .catchClause handler.toJson) ((Node.block? finalizer).option (read .block)) :=
      if_neg (Bool.eq_false_iff.mp (isNull_catchClause handler))
    exact hread.trans
      ((Node.tryCatch.injEq ..).mpr ⟨hx.span_eq rfl, hparts.1, hparts.2.1, hfinalizer⟩)
  | tryFinally span body finalizer =>
    simp only [Node.parts, List.forall_mem_cons, ne_eq, reduceCtorEq, not_false_eq_true,
      true_imp_iff] at hparts
    exact (Node.tryFinally.injEq ..).mpr ⟨hx.span_eq rfl, hparts.1, hparts.2.1⟩
  | throwValue span argument =>
    simp only [Node.parts, List.forall_mem_cons, ne_eq, reduceCtorEq, not_false_eq_true,
      true_imp_iff] at hparts
    exact (Node.throwValue.injEq ..).mpr ⟨hx.span_eq rfl, hparts.1⟩
  | returnValue span argument =>
    simp only [Node.parts, List.forall_mem_map, Option.mem_toList, ne_eq, reduceCtorEq,
      not_false_eq_true, true_imp_iff] at hparts
    exact (Node.returnValue.injEq ..).mpr ⟨hx.span_eq rfl, read_option (Node.expression?_eq _)
      (Node.mapExpression?_eq _ _) isNull_expression hparts⟩
  | breakFrom span label =>
    exact (Node.breakFrom.injEq ..).mpr ⟨hx.span_eq rfl, identifierOf_label hx rfl⟩
  | continueWith span label =>
    exact (Node.continueWith.injEq ..).mpr ⟨hx.span_eq rfl, identifierOf_label hx rfl⟩
  | labeled span label body =>
    simp only [Node.parts, List.forall_mem_cons, ne_eq, reduceCtorEq, not_false_eq_true,
      true_imp_iff] at hparts
    have hlabel : identifierOf (identifier label) = _ := identifierOf_identifier
      (hx.inner_span_eq rfl (List.mem_append_left _ (List.mem_singleton.mpr rfl)))
    exact (Node.labeled.injEq ..).mpr ⟨hx.span_eq rfl, hlabel, hparts.1⟩
  | withObject span base body =>
    simp only [Node.parts, List.forall_mem_cons, ne_eq, reduceCtorEq, not_false_eq_true,
      true_imp_iff] at hparts
    exact (Node.withObject.injEq ..).mpr ⟨hx.span_eq rfl, hparts.1, hparts.2.1⟩
  | variableStatement d =>
    simp only [Node.parts, List.forall_mem_cons, ne_eq, reduceCtorEq, not_false_eq_true,
      true_imp_iff] at hparts
    cases d
    exact congrArg Node.variableStatement hparts.1
  | functionDeclaration f =>
    have hgenuine := hx.erased_part ⟨.complete, f⟩ (by simp [Node.parts])
    have hinner := h.inner ⟨.complete, f⟩ (by simp [Node.parts])
    cases f with
    | function span name params body isGenerator isAsync scope =>
      exact congrArg Node.functionDeclaration (functionOf_function hgenuine
        (hinner ⟨.complete, params⟩ (by simp [Node.parts]) (by simp))
        (hinner ⟨.complete, body⟩ (by simp [Node.parts]) (by simp)))
  | classDeclaration c =>
    have hgenuine := hx.erased_part ⟨.declared, c⟩ (by simp [Node.parts])
    have hinner := h.inner ⟨.declared, c⟩ (by simp [Node.parts])
    cases c with
    | classDefinition span name superClass bodySpan elements scope =>
      exact congrArg Node.classDeclaration (classDefinitionOf_class hgenuine
        (fun e he => hinner ⟨.heritage, e⟩ (by simp [Node.parts, he]) (by simp))
        (fun e he => hinner ⟨.complete, e⟩ (by simp [Node.parts, he]) (by simp)))

/-- A template is read back when its expressions are. -/
theorem templateOf_toJson (x : Node .template) (hx : x.erase.Genuine)
    (h : ∀ p ∈ x.parts, p.form ≠ .propertyKey → Reads read p.node) :
    templateOf read x.toJson = x.relocate .dropParameters := by
  cases x with
  | templateLiteral span quasis expressions =>
    have hquasis : (quasis.map templateElement).map templateElementOf =
        quasis.map (TemplateElement.relocate (Relocation.dropParameters .expression)) := by
      rw [List.map_map]
      refine List.map_congr_left fun e he => templateElementOf_templateElement ?_
      exact hx.inner_span_eq rfl (List.mem_append_left _
        (List.mem_flatMap.mpr ⟨_, List.mem_map_of_mem he, List.mem_singleton.mpr rfl⟩))
    simp only [Node.parts, List.forall_mem_map, ne_eq, reduceCtorEq, not_false_eq_true,
      true_imp_iff] at h
    exact (Node.templateLiteral.injEq ..).mpr ⟨hx.span_eq rfl, hquasis,
      read_list (Node.expressions_eq _) (Node.mapExpressions_eq _ _) h⟩

/-- A node is read from its record if its parts are. -/
theorem nodeOf_toJson (x : Node form) (hx : x.erase.Genuine) (hform : form ≠ .propertyKey)
    (h : ReadsParts read x) : nodeOf read form x.toJson = x.relocate .dropParameters := by
  cases form with
  | expression => exact expressionOf_toJson x hx h.parts
  | template => exact templateOf_toJson x hx h.parts
  | objectMember => exact objectMemberOf_toJson x hx h
  | propertyKey => exact absurd rfl hform
  | pattern => exact patternOf_toJson x hx h.parts
  | patternProperty => exact patternPropertyOf_toJson x hx h
  | element => exact elementOf_toJson x hx h.parts
  | rest => exact restOf_toJson x hx h.parts
  | parameters => exact parametersOf_toJson x hx h.parts
  | function =>
    cases x with
    | function span name params body isGenerator isAsync scope =>
      exact functionOf_function hx (h.parts ⟨.complete, params⟩ (by simp [Node.parts]) nofun)
        (h.parts ⟨.complete, body⟩ (by simp [Node.parts]) nofun)
  | block => exact blockOf_toJson x hx h.parts
  | classDefinition =>
    cases x with
    | classDefinition span name superClass bodySpan elements scope =>
      exact classDefinitionOf_class hx
        (fun e he => h.parts ⟨.heritage, e⟩ (by simp [Node.parts, he]) nofun)
        (fun e he => h.parts ⟨.complete, e⟩ (by simp [Node.parts, he]) nofun)
  | classElement => exact classElementOf_toJson x hx h
  | declarator => exact declaratorOf_toJson x hx h.parts
  | declaration => exact declarationOf_toJson x hx h.parts
  | forInit => exact forInitOf_toJson x h.parts
  | forHead => exact forHeadOf_toJson x h.parts
  | switchCase => exact switchCaseOf_toJson x hx h.parts
  | catchClause => exact catchClauseOf_toJson x hx h.parts
  | statement => exact statementOf_toJson x hx h

/-- What is read from the JSON of a tree from a text, if one looks deep enough, is the tree. -/
theorem readNode_toJson (depth : Nat) (x : Node form) (hx : x.erase.Genuine)
    (hform : form ≠ .propertyKey) (hdepth : sizeOf x < depth) : Reads (readNode depth) x := by
  induction depth generalizing form with
  | zero => exact absurd hdepth (Nat.not_lt_zero _)
  | succ depth ih =>
    refine nodeOf_toJson x hx hform ⟨?_, ?_⟩
    · intro p hp hform
      have hlt := Node.sizeOf_lt_of_mem_parts x p hp
      exact ih p.node (hx.erased_part p hp) hform (by omega)
    · intro p hp q hq hform
      have hlt := Node.sizeOf_lt_of_mem_parts x p hp
      have hlt' := Node.sizeOf_lt_of_mem_parts p.node q hq
      exact ih q.node ((hx.erased_part p hp).erased_part q hq) hform (by omega)

end

end EcmaScript
