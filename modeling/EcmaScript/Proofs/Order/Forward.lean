import EcmaScript.Proofs.Order.Ordered
import EcmaScript.Proofs.Parser.Spans

/-!
# A walk goes forward

Where a tree is placed in a text, the parts of each node stand one behind the other between its
ends. So the calls of a walk through the tree are ordered. The key and the target of a shorthand in
an object pattern are one name, which is met only once, and the pieces of a template are met in turn
with the expressions between them.
-/

namespace EcmaScript

open Sketch Call

/-- Where the sketches are placed one behind the other, the calls are ordered. -/
def Sketch.Guides (sketches : List Sketch) (calls : List Call) : Prop :=
  ∀ (text : String) (lo : Nat) (front : Front), AllPlaced text lo front sketches →
    lo ≤ front.stop → Ordered lo front.stop calls

section

variable {span : Span} {debt : Debt} {row : List Span} {parts xs ys : List Sketch}
  {visits : List Visit} {made cs ds es : List Call}

/-- Without sketches there are no calls. -/
theorem guides_nil : Guides [] [] := fun _ _ _ _ hle => .nil hle

/-- Calls for what stands one behind the other. -/
theorem guides_append (hx : Guides xs cs) (hy : Guides ys ds) : Guides (xs ++ ys) (cs ++ ds) := by
  intro text lo front h hle
  obtain ⟨mid, hlo, hhi, hxs, hys⟩ := h.split hle
  exact (hx text lo _ hxs hlo).append (hy text mid front hys hhi)

/-- Calls may be put together in another way. -/
theorem guides_assoc (h : Guides xs (cs ++ (ds ++ es))) : Guides xs (cs ++ ds ++ es) := by
  rwa [List.append_assoc]

/-- Calls that are made out of each other for one node. -/
theorem guides_mk (hv : ∀ v ∈ visits, v.span = span)
    (h : ∀ (text : String) (lo : Nat) (front : Front), EachPlaced text lo front parts →
      row.Pairwise Span.Precedes → lo ≤ front.stop → Ordered lo front.stop made) :
    Guides [.mk span true debt row parts] (chain visits made) := by
  intro text lo front hp _
  obtain ⟨start, stop, rfl, hlo, hlt, hhi, -, -, -, hrow, hin⟩ := hp.each.of_mk
  exact (Ordered.chain hv (h text start _ hin hrow (Nat.le_of_lt hlt))).mono hlo hhi

/-- The parts of a node mostly stand one behind the other. -/
theorem guides_owing (hv : ∀ v ∈ visits, v.span = span) (h : Guides parts made) :
    Guides (owing span debt parts) (chain visits made) :=
  guides_mk hv fun text lo front hin hrow => h text lo front ⟨hin, hrow⟩

/-- The call for a token. -/
theorem guides_leaf {visit : Visit} {is : Token → Prop} (hv : visit.span = span) :
    Guides (Sketch.leaf span is) (Call.leaf visit) :=
  guides_owing (List.forall_mem_singleton.mpr hv) guides_nil

/-- The call for a name, if there is one. -/
theorem guides_name? (role : NameRole) (name : Option Identifier) :
    Guides (name.toList.flatMap Identifier.sketch) (Node.callName? role name) := by
  cases name with
  | none => exact guides_nil
  | some id =>
    exact guides_append (guides_leaf (Eq.refl id.span)) guides_nil

/-- The call for a piece of a template, which may be empty. -/
theorem guides_piece (e : TemplateElement) :
    Guides e.sketch (Call.leaf (.construct "template_element" e.span)) := by
  intro text lo front h _
  obtain ⟨start, stop, hspan, hlo, hle, hhi⟩ := (allPlaced_singleton.mp h).exists_span
  have hvisit : (Visit.construct "template_element" e.span).span = .ofOffsets start stop := hspan
  exact (Ordered.leaf hvisit hle).mono hlo hhi

/-- The calls for the pieces of a template without expressions. -/
theorem guides_pieces (quasis : List TemplateElement) :
    Guides (TemplateElement.inTurn quasis []) (interleave quasis []) := by
  induction quasis with
  | nil => exact guides_nil
  | cons e more ih => exact guides_append (guides_piece e) ih

end

namespace Node

variable {form : Form} {debt : Debt} {row : List Span} {parts : List Sketch} {made : List Call}

/-- The calls for a node and for what is inside. -/
theorem guides_entry (x : Node form) (hs : x.sketch = [.mk x.span true debt row parts])
    (h : ∀ (text : String) (lo : Nat) (front : Front), EachPlaced text lo front parts →
      row.Pairwise Span.Precedes → lo ≤ front.stop → Ordered lo front.stop made) :
    Guides x.sketch (chain x.callsAtEntry made) := by
  rw [hs]
  exact guides_mk (fun _ hv => x.span_of_mem_callsAtEntry hv) h

/-- The calls for a node and for parts that stand one behind the other. -/
theorem guides_node (x : Node form) (hs : x.sketch = owing x.span debt parts)
    (h : Guides parts made) : Guides x.sketch (chain x.callsAtEntry made) :=
  guides_entry x hs fun text lo front hin hrow => h text lo front ⟨hin, hrow⟩

/-- The calls for a node that stands where the only node in it stands. -/
theorem guides_around {inner : Form} (outer : Node form) (x : Node inner) (hf : inner ≠ .forInit)
    (hs : outer.span = x.span) (h : Guides x.sketch x.calls) :
    Guides x.sketch (chain outer.callsAtEntry x.calls) := by
  obtain ⟨debt, row, parts, hx⟩ := x.exists_sketch hf
  rw [hx] at h ⊢
  intro text lo front hp _
  obtain ⟨start, stop, hspan, hlo, hlt, hhi, hb, hb', hd, hrow, hin⟩ := hp.each.of_mk
  rw [hspan] at h
  have hle := Nat.le_of_lt hlt
  have hown : AllPlaced text start (front.upTo stop)
      [.mk (.ofOffsets start stop) true debt row parts] :=
    allPlaced_mk (Nat.le_refl _) hlt (Nat.le_refl _) hb hb' hd hrow hin
  exact (ordered_entry outer (hs.trans hspan) (h text start _ hown hle)).mono hlo hhi

/-- A single node is in a row. -/
theorem allPlaced_of_each {text : String} {lo : Nat} {front : Front} (x : Node form)
    (hf : form ≠ .forInit) (h : EachPlaced text lo front x.sketch) :
    AllPlaced text lo front x.sketch := by
  obtain ⟨debt, row, parts, hx⟩ := x.exists_sketch hf
  rw [hx] at h ⊢
  exact h.single

mutual

/-- Where a tree is placed, the calls of a walk through it are ordered. -/
theorem guides_calls {form : Form} : (node : Node form) → Guides node.sketch node.calls
  | .reference _ | .binding _ | .identifierKey _ | .privateReference _ | .privateKey _
  | .boolean .. | .null _ | .thisValue _ | .superBase _ | .emptyStatement _ | .debugger _
  | .number _ | .numberKey _ | .bigInt _ | .bigIntKey _ | .string _ | .stringKey _ | .regex _ =>
    guides_node _ rfl guides_nil
  | .noInit => guides_nil
  | .template x | .functionExpression x | .functionDeclaration x | .classExpression x
  | .classDeclaration x | .computedKey x | .memberTarget x | .expressionInit x
  | .declarationInit x | .declarationHead x | .patternHead x | .blockStatement x =>
    guides_around _ x (by decide) rfl (guides_calls x)
  | .variableStatement (.declaration span kind xs) => fun text lo front h hle =>
    guides_around (.variableStatement (.declaration span kind xs)) (.declaration span kind xs)
      (by decide) rfl (guides_node _ rfl (guides_declarators xs)) text lo front h.unowed hle
  | .unary _ _ x | .update _ _ _ x | .optionalChain _ x | .spread _ x | .spreadMember _ x
  | .awaitValue _ x | .rest _ x | .expressionStatement _ x | .throwValue _ x =>
    guides_node _ rfl (guides_calls x)
  | .taggedTemplate _ x y | .arrow _ x y _ _ | .conciseArrow _ x y _ _ | .binary _ _ x y
  | .assignment _ _ x y | .index _ x y _ | .property _ x y _ _ | .method _ x _ _ y
  | .ifThen _ x y | .whileLoop _ x y | .doWhile _ x y | .tryFinally _ x y | .withObject _ x y =>
    guides_node _ rfl (guides_append (guides_calls x) (guides_calls y))
  | .conditional _ x y z | .ifElse _ x y z | .forIn _ x y z _ | .forOf _ _ x y z _ =>
    guides_node _ rfl (guides_assoc
      (guides_append (guides_calls x) (guides_append (guides_calls y) (guides_calls z))))
  | .patternProperty _ _ y true =>
    guides_entry _ rfl fun text lo front hin _ =>
      guides_calls y text lo front (y.allPlaced_of_each (by decide) (eachPlaced_append.mp hin).2)
  | .patternProperty _ x y false =>
    guides_node _ rfl (guides_append (guides_calls x) (guides_calls y))
  | .forLoop _ init test step body _ =>
    guides_node _ rfl (guides_assoc (guides_assoc (guides_append (guides_calls init)
      (guides_append (guides_expression? test)
        (guides_append (guides_expression? step) (guides_calls body))))))
  | .array _ xs => guides_node _ rfl (guides_optionals xs)
  | .object _ xs => guides_node _ rfl (guides_members xs)
  | .call _ x xs _ | .construct _ x xs =>
    guides_node _ rfl (guides_append (guides_calls x) (guides_expressions xs))
  | .member _ x name _ =>
    guides_node _ rfl (guides_append (guides_calls x)
      (guides_leaf (by cases name <;> rfl)))
  | .metaProperty _ _ _ => guides_node _ rfl (guides_append (guides_leaf rfl) (guides_leaf rfl))
  | .sequence _ xs => guides_node _ rfl (guides_expressions xs)
  | .yieldValue _ x _ | .returnValue _ x => guides_node _ rfl (guides_expression? x)
  | .templateLiteral _ quasis xs =>
    guides_entry _ rfl fun text lo front hin hrow =>
      guides_interleave quasis xs text lo front ⟨eachPlaced_inTurn.mpr hin, hrow⟩
  | .shorthand _ _ x =>
    guides_node _ rfl (guides_append (guides_leaf rfl) (guides_expression? x))
  | .arrayPattern _ xs x =>
    guides_node _ rfl (guides_append (guides_optionalElements xs) (guides_rest? x))
  | .objectPattern _ xs x =>
    guides_node _ rfl (guides_append (guides_properties xs) (guides_rest? x))
  | .parameters _ xs x =>
    guides_node _ rfl (guides_append (guides_elements xs) (guides_rest? x))
  | .element _ x y | .declarator _ x y | .field _ x _ y =>
    guides_node _ rfl (guides_append (guides_calls x) (guides_expression? y))
  | .function _ name x y _ _ _ =>
    guides_node _ rfl (guides_assoc (guides_append (guides_name? .binding name)
      (guides_append (guides_calls x) (guides_calls y))))
  | .block _ xs _ | .staticBlock _ xs _ => guides_node _ rfl (guides_statements xs)
  | .classDefinition _ name x _ xs _ =>
    guides_node _ rfl (guides_assoc (guides_append (guides_name? .binding name)
      (guides_append (guides_expression? x)
        (guides_owing (List.forall_mem_singleton.mpr rfl) (guides_classElements xs)))))
  | .declaration _ _ xs => guides_node _ rfl (guides_declarators xs)
  | .switchCase _ x xs =>
    guides_node _ rfl (guides_append (guides_expression? x) (guides_statements xs))
  | .catchClause _ x y _ =>
    guides_node _ rfl (guides_append (guides_pattern? x) (guides_calls y))
  | .switch _ x xs _ => guides_node _ rfl (guides_append (guides_calls x) (guides_cases xs))
  | .tryCatch _ x y z =>
    guides_node _ rfl (guides_assoc
      (guides_append (guides_calls x) (guides_append (guides_calls y) (guides_block? z))))
  | .breakFrom _ label | .continueWith _ label => guides_node _ rfl (guides_name? .label label)
  | .labeled _ _ x => guides_node _ rfl (guides_append (guides_leaf rfl) (guides_calls x))

theorem guides_expression? :
    (x : Option (Node .expression)) → Guides (sketchExpression? x) (callsOfExpression? x)
  | none => guides_nil
  | some x => guides_calls x

theorem guides_pattern? :
    (x : Option (Node .pattern)) → Guides (sketchPattern? x) (callsOfPattern? x)
  | none => guides_nil
  | some x => guides_calls x

theorem guides_block? :
    (x : Option (Node .block)) → Guides (sketchBlock? x) (callsOfBlock? x)
  | none => guides_nil
  | some x => guides_calls x

theorem guides_rest? :
    (x : Option (Node .rest)) → Guides (sketchRest? x) (callsOfRest? x)
  | none => guides_nil
  | some x => guides_calls x

theorem guides_expressions :
    (xs : List (Node .expression)) → Guides (sketchExpressions xs) (callsOfExpressions xs)
  | [] => guides_nil
  | x :: more => guides_append (guides_calls x) (guides_expressions more)

theorem guides_interleave : (quasis : List TemplateElement) → (xs : List (Node .expression)) →
    Guides (TemplateElement.inTurn quasis (sketchEach xs)) (interleave quasis (callsOfEach xs))
  | [], _ => fun _ _ _ _ hle => .nil hle
  | e :: more, [] => guides_pieces (e :: more)
  | e :: more, x :: xs =>
    guides_append (guides_piece e) (guides_append (guides_calls x) (guides_interleave more xs))

theorem guides_optionals :
    (xs : List (Option (Node .expression))) → Guides (sketchOptionals xs) (callsOfOptionals xs)
  | [] => guides_nil
  | x :: more => guides_append (guides_expression? x) (guides_optionals more)

theorem guides_members :
    (xs : List (Node .objectMember)) → Guides (sketchMembers xs) (callsOfMembers xs)
  | [] => guides_nil
  | x :: more => guides_append (guides_calls x) (guides_members more)

theorem guides_optionalElements : (xs : List (Option (Node .element))) →
    Guides (sketchOptionalElements xs) (callsOfOptionalElements xs)
  | [] => guides_nil
  | none :: more => guides_optionalElements more
  | some x :: more => guides_append (guides_calls x) (guides_optionalElements more)

theorem guides_properties :
    (xs : List (Node .patternProperty)) → Guides (sketchProperties xs) (callsOfProperties xs)
  | [] => guides_nil
  | x :: more => guides_append (guides_calls x) (guides_properties more)

theorem guides_elements :
    (xs : List (Node .element)) → Guides (sketchElements xs) (callsOfElements xs)
  | [] => guides_nil
  | x :: more => guides_append (guides_calls x) (guides_elements more)

theorem guides_statements :
    (xs : List (Node .statement)) → Guides (sketchStatements xs) (callsOfStatements xs)
  | [] => guides_nil
  | x :: more => guides_append (guides_calls x) (guides_statements more)

theorem guides_classElements :
    (xs : List (Node .classElement)) → Guides (sketchClassElements xs) (callsOfClassElements xs)
  | [] => guides_nil
  | x :: more => guides_append (guides_calls x) (guides_classElements more)

theorem guides_declarators :
    (xs : List (Node .declarator)) → Guides (sketchDeclarators xs) (callsOfDeclarators xs)
  | [] => guides_nil
  | x :: more => guides_append (guides_calls x) (guides_declarators more)

theorem guides_cases :
    (xs : List (Node .switchCase)) → Guides (sketchCases xs) (callsOfCases xs)
  | [] => guides_nil
  | x :: more => guides_append (guides_calls x) (guides_cases more)

end

end Node

/-- The calls out of the call for an accepted script are ordered, and none of them is for something
that starts before the script. -/
theorem ordered_made_call {text : String} {program : Program} (h : parse text = .ok program) :
    ∃ lo hi, Ordered lo hi program.call.made ∧
      ∀ visit ∈ visitsOf program.call.made, program.span.start ≤ visit.span.start := by
  obtain ⟨body, last, hrun, -, rfl⟩ := parse_ok_inv h
  obtain ⟨⟨-, hin⟩, -⟩ := (Parser.script_meets text).ok hrun
  cases body with
  | nil => exact ⟨0, 0, .nil (Nat.le_refl 0), fun _ hv => absurd hv List.not_mem_nil⟩
  | cons first more =>
    obtain ⟨start, stop, hspan, hle, hrow, hparts⟩ :=
      (Program.placed_ofStatements hin (List.cons_ne_nil first more)).inside
    have hordered : Ordered start stop (Program.ofStatements (first :: more)).call.made :=
      Node.guides_statements _ text start _ ⟨hparts, hrow⟩ hle
    refine ⟨start, stop, hordered, fun visit hv => ?_⟩
    obtain ⟨n, hn, hlo, -⟩ := hordered.exists_start hv
    rw [hspan, hn]
    exact Nat.add_le_add_right hlo 1

/-- A walk through an accepted script goes forward only. In the order in which they are made, the
calls are for what starts further and further on, and of the calls made out of one call each is for
something that ends before what the later ones are for. -/
theorem walk_goes_forward {text : String} {program : Program} (h : parse text = .ok program) :
    program.call.visits = program.visits.filter Visit.isCall ∧
    (program.call.visits.Pairwise fun v w => v.span.start ≤ w.span.start) ∧
    ∀ call, Reaches program.call call → call.made.Pairwise fun a b =>
      a.span.start ≤ a.span.stop ∧ a.span.stop ≤ b.span.start := by
  obtain ⟨lo, hi, hordered, hstart⟩ := ordered_made_call h
  refine ⟨program.visits_call, .cons hstart hordered.pairwise_visitsOf, fun call hr => ?_⟩
  obtain ⟨a, b, hin⟩ := Ordered.of_reaches hr hordered
  exact hin.siblings

/-- A script with parameters that were read as expressions, a template and a shorthand. -/
def coveredParameters : Accepted "([a = `<$\x7bb\x7d>`, \x7bc\x7d]) => d?.e"
    fun program => !program.body.isEmpty :=
  .ofRun (by decide +kernel)

/-- The theorem at this script. -/
theorem walk_goes_forward_coveredParameters : ∃ program,
    parse "([a = `<$\x7bb\x7d>`, \x7bc\x7d]) => d?.e" = .ok program ∧
    program.call.visits = program.visits.filter Visit.isCall ∧
    (program.call.visits.Pairwise fun v w => v.span.start ≤ w.span.start) ∧
    ∀ call, Reaches program.call call → call.made.Pairwise fun a b =>
      a.span.start ≤ a.span.stop ∧ a.span.stop ≤ b.span.start := by
  obtain ⟨program, h, -⟩ := coveredParameters
  exact ⟨program, h, walk_goes_forward h⟩

end EcmaScript
