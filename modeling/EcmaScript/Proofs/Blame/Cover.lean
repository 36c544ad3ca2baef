import EcmaScript.Proofs.Syntax.Cover
import EcmaScript.Syntax.BoundNames

/-!
# Places that conversions blame

An expression that cannot be a pattern is blamed at one of its nodes, or at a comma that is noted
behind one of its spreads. So if all nodes of the expression start at places of some sort, and all
commas that are noted are such places, then the blame falls on one.
-/

namespace EcmaScript

namespace Sketch

/-- The node starts at a place of the sort, as do all the nodes below it. -/
inductive Starts (P : Nat → Prop) : Sketch → Prop where
  | mk {span : Span} {solid : Bool} {debt : Debt} {row : List Span} {parts : List Sketch} :
      P (Position.offset span.start) → (∀ part ∈ parts, Starts P part) →
      Starts P (mk span solid debt row parts)

/-- All nodes of all the sketches start at places of the sort. -/
def AllStart (P : Nat → Prop) (sketches : List Sketch) : Prop :=
  ∀ sketch ∈ sketches, sketch.Starts P

section

variable {P : Nat → Prop} {text : String} {lo : Nat} {front : Front}

/-- Nodes that are placed start on boundaries that lie in front. -/
theorem Placed.starts {sketch : Sketch} (h : sketch.Placed text lo front)
    (hP : ∀ place, IsBoundary text place → place ≤ front.stop → P place) : sketch.Starts P := by
  induction h with
  | mk _ hh hle _ hb _ _ _ _ ih =>
    refine .mk (hP _ hb (Nat.le_trans hle hh)) fun part hpart => ih part hpart ?_
    exact fun place hb hle => hP place hb (Nat.le_trans hle hh)

/-- What is placed in a text starts at a boundary of it. -/
theorem EachPlaced.allStart {sketches : List Sketch} (h : EachPlaced text lo front sketches)
    (hP : ∀ place, IsBoundary text place → place ≤ front.stop → P place) :
    AllStart P sketches :=
  fun sketch hs => (h sketch hs).starts hP

/-- Starts of two lists are those of each. -/
theorem allStart_append {xs ys : List Sketch} :
    AllStart P (xs ++ ys) ↔ AllStart P xs ∧ AllStart P ys := by
  simp only [AllStart, List.mem_append, or_imp, forall_and]

/-- A node starts where its span does, and its parts start where they do. -/
theorem allStart_mk {span : Span} {debt : Debt} {row : List Span} {parts : List Sketch} :
    AllStart P [mk span true debt row parts] ↔
      P (Position.offset span.start) ∧ AllStart P parts := by
  constructor
  · intro h
    cases h _ (List.mem_singleton.mpr rfl) with
    | mk hp hparts => exact ⟨hp, hparts⟩
  · intro h sketch hs
    rw [List.mem_singleton.mp hs]
    exact .mk h.1 h.2

/-- An expression starts where its sketch does. -/
theorem AllStart.expression {e : Expression} (h : AllStart P e.sketch) : P e.offset := by
  obtain ⟨debt, row, parts, hs⟩ := Node.sketch_expression e
  rw [hs] at h
  exact (allStart_mk.mp h).1

/-- A pattern starts where its sketch does. -/
theorem AllStart.pattern {p : Pattern} (h : AllStart P p.sketch) : P p.offset := by
  obtain ⟨debt, row, parts, hs⟩ := Node.sketch_pattern p
  rw [hs] at h
  exact (allStart_mk.mp h).1

/-- What holds for expressions holds for one of them. -/
theorem AllStart.expressions {es : List Expression} {e : Expression}
    (h : AllStart P (Node.sketchExpressions es)) (he : e ∈ es) : AllStart P e.sketch := by
  rw [Node.sketchExpressions_eq] at h
  exact fun sketch hs => h sketch (List.mem_flatMap.mpr ⟨e, he, hs⟩)

/-- What holds for declarations holds for one of them. -/
theorem AllStart.declarators {ds : List (Node .declarator)}
    (h : AllStart P (Node.sketchDeclarators ds)) : ∀ d ∈ ds, P d.offset := by
  intro d hd
  rw [Node.sketchDeclarators_eq] at h
  have hmem : AllStart P d.sketch := fun sketch hs => h sketch (List.mem_flatMap.mpr ⟨d, hd, hs⟩)
  cases d with
  | declarator span target init => exact (allStart_mk.mp hmem).1

end

end Sketch

namespace CoverNotes

/-- A comma that is found was noted. -/
theorem mem_of_spreadComma {notes : CoverNotes} {array comma : Nat}
    (h : notes.spreadComma? array = some comma) : (array, comma) ∈ notes.spreadCommas := by
  obtain ⟨before, behind, hn, -⟩ := List.lookup_eq_some_iff.mp h
  rw [hn]
  exact List.mem_append_right _ List.mem_cons_self

end CoverNotes

namespace Node

open Sketch

variable {P : Nat → Prop}

mutual

/-- The names that a pattern binds are among its nodes. -/
theorem starts_boundNames (pattern : Pattern) (h : AllStart P pattern.sketch) :
    ∀ id ∈ pattern.boundNames, P (Position.offset id.span.start) := by
  intro id hid
  match pattern with
  | .binding id' =>
    rw [List.mem_singleton.mp hid]
    exact (allStart_mk.mp h).1
  | .memberTarget expression => exact nomatch hid
  | .arrayPattern _ elements remainder =>
    obtain ⟨he, hr⟩ := allStart_append.mp (allStart_mk.mp h).2
    rcases List.mem_append.mp hid with hid | hid
    · exact starts_elementNames elements he id hid
    · exact starts_restNames remainder hr id hid
  | .objectPattern _ properties remainder =>
    obtain ⟨hp, hr⟩ := allStart_append.mp (allStart_mk.mp h).2
    rcases List.mem_append.mp hid with hid | hid
    · exact starts_propertyNames properties hp id hid
    · exact starts_restNames remainder hr id hid
termination_by sizeOf pattern
decreasing_by
  all_goals
    simp only [arrayPattern.sizeOf_spec, objectPattern.sizeOf_spec]
    omega

/-- Names that the elements of an array pattern bind start at nodes of it. -/
theorem starts_elementNames (elements : List (Option (Node .element)))
    (h : AllStart P (sketchOptionalElements elements)) :
    ∀ id ∈ elementNames elements, P (Position.offset id.span.start) := by
  intro id hid
  match elements with
  | [] => exact nomatch hid
  | none :: more => exact starts_elementNames more h id hid
  | some (.element _ target _) :: more =>
    obtain ⟨he, hmore⟩ := allStart_append.mp h
    rcases List.mem_append.mp hid with hid | hid
    · exact starts_boundNames target (allStart_append.mp (allStart_mk.mp he).2).1 id hid
    · exact starts_elementNames more hmore id hid
termination_by sizeOf elements
decreasing_by
  all_goals
    simp only [List.cons.sizeOf_spec, Option.some.sizeOf_spec, element.sizeOf_spec]
    omega

/-- Names that the properties of an object pattern bind start at nodes of it. -/
theorem starts_propertyNames (properties : List (Node .patternProperty))
    (h : AllStart P (sketchProperties properties)) :
    ∀ id ∈ propertyNames properties, P (Position.offset id.span.start) := by
  intro id hid
  match properties with
  | [] => exact nomatch hid
  | .patternProperty _ _ (.element _ target _) _ :: more =>
    obtain ⟨hp, hmore⟩ := allStart_append.mp h
    obtain ⟨-, he⟩ := allStart_append.mp (allStart_mk.mp hp).2
    rcases List.mem_append.mp hid with hid | hid
    · exact starts_boundNames target (allStart_append.mp (allStart_mk.mp he).2).1 id hid
    · exact starts_propertyNames more hmore id hid
termination_by sizeOf properties
decreasing_by
  all_goals
    simp only [List.cons.sizeOf_spec, patternProperty.sizeOf_spec, element.sizeOf_spec]
    omega

/-- Names that the rest of a pattern binds start at nodes of it. -/
theorem starts_restNames (remainder : Option (Node .rest))
    (h : AllStart P (sketchRest? remainder)) :
    ∀ id ∈ restNames remainder, P (Position.offset id.span.start) := by
  intro id hid
  match remainder with
  | none => exact nomatch hid
  | some (.rest _ argument) => exact starts_boundNames argument (allStart_mk.mp h).2 id hid
termination_by sizeOf remainder
decreasing_by
  all_goals
    simp only [Option.some.sizeOf_spec, rest.sizeOf_spec]
    omega

end

end Node

namespace Cover

open Sketch

/-- A conversion that is refused at most for a problem of syntax, at a place of the sort. -/
def RefusesAt (P : Nat → Prop) {α : Type} (r : Except Fault α) : Prop :=
  ∀ fault, r = .error fault → fault.IsSyntactic ∧ P fault.offset

section

variable {α β : Type} {P : Nat → Prop}

/-- A result blames nothing. -/
theorem RefusesAt.ok {a : α} : RefusesAt P (.ok a) := nofun

/-- A result that is given blames nothing. -/
theorem RefusesAt.pure {a : α} : RefusesAt P (Pure.pure a) := nofun

/-- What is refused at a known place. -/
theorem RefusesAt.blame {problem : Problem} {place : Nat} (h : P place)
    (hp : problem.category = .syntactic) :
    RefusesAt P (Cover.blame problem place : Except Fault α) := by
  rintro fault ⟨⟩
  exact ⟨hp, h⟩

/-- A rule behind another one. -/
theorem RefusesAt.bind {r : Except Fault α} {f : α → Except Fault β} (h : RefusesAt P r)
    (hf : ∀ a, r = .ok a → RefusesAt P (f a)) : RefusesAt P (r >>= f) := by
  cases r with
  | ok a => exact hf a rfl
  | error fault =>
    rintro fault ⟨⟩
    exact h _ rfl

/-- Either way of a choice. -/
theorem RefusesAt.ite {c : Prop} [Decidable c] {r q : Except Fault α}
    (hr : c → RefusesAt P r) (hq : ¬c → RefusesAt P q) : RefusesAt P (if c then r else q) := by
  by_cases hc : c
  · rw [if_pos hc]
    exact hr hc
  · rw [if_neg hc]
    exact hq hc

end

section

variable {P : Nat → Prop} {notes : CoverNotes}

mutual

/-- In parameters a target that declares nothing is blamed where it starts. -/
theorem checkDeclaring_refusesAt (pattern : Pattern) (h : AllStart P pattern.sketch) :
    RefusesAt P (checkDeclaring notes pattern) := by
  unfold checkDeclaring
  refine .ite (fun _ => .blame h.pattern rfl) fun _ => ?_
  match pattern with
  | .binding _ => exact .ok
  | .memberTarget expression => exact .blame (AllStart.expression h) rfl
  | .arrayPattern _ elements rest =>
    obtain ⟨he, hr⟩ := allStart_append.mp (allStart_mk.mp h).2
    exact .bind (checkElements_refusesAt elements he) fun _ _ => checkRest_refusesAt rest hr
  | .objectPattern _ properties rest =>
    obtain ⟨hp, hr⟩ := allStart_append.mp (allStart_mk.mp h).2
    exact .bind (checkProperties_refusesAt properties hp) fun _ _ => checkRest_refusesAt rest hr
termination_by sizeOf pattern
decreasing_by
  all_goals
    simp only [Node.arrayPattern.sizeOf_spec, Node.objectPattern.sizeOf_spec]
    omega

/-- Elements of an array pattern are blamed where they start. -/
theorem checkElements_refusesAt (elements : List (Option (Node .element)))
    (h : AllStart P (Node.sketchOptionalElements elements)) :
    RefusesAt P (checkElements notes elements) := by
  match elements with
  | [] =>
    rw [checkElements]
    exact .ok
  | none :: more =>
    rw [checkElements]
    exact checkElements_refusesAt more h
  | some (.element _ target _) :: more =>
    obtain ⟨he, hmore⟩ := allStart_append.mp h
    rw [checkElements]
    refine .bind (checkDeclaring_refusesAt target ?_) fun _ _ => checkElements_refusesAt more hmore
    exact (allStart_append.mp (allStart_mk.mp he).2).1
termination_by sizeOf elements
decreasing_by
  all_goals
    simp only [List.cons.sizeOf_spec, Option.some.sizeOf_spec, Node.element.sizeOf_spec]
    omega

/-- Properties of an object pattern are blamed where they start. -/
theorem checkProperties_refusesAt (properties : List (Node .patternProperty))
    (h : AllStart P (Node.sketchProperties properties)) :
    RefusesAt P (checkProperties notes properties) := by
  match properties with
  | [] =>
    rw [checkProperties]
    exact .ok
  | .patternProperty _ _ (.element _ target _) _ :: more =>
    obtain ⟨hp, hmore⟩ := allStart_append.mp h
    obtain ⟨-, he⟩ := allStart_append.mp (allStart_mk.mp hp).2
    rw [checkProperties]
    refine .bind (checkDeclaring_refusesAt target ?_) fun _ _ =>
      checkProperties_refusesAt more hmore
    exact (allStart_append.mp (allStart_mk.mp he).2).1
termination_by sizeOf properties
decreasing_by
  all_goals
    simp only [List.cons.sizeOf_spec, Node.patternProperty.sizeOf_spec, Node.element.sizeOf_spec]
    omega

/-- The rest of a pattern is blamed where it starts. -/
theorem checkRest_refusesAt (rest : Option (Node .rest))
    (h : AllStart P (Node.sketchRest? rest)) : RefusesAt P (checkRest notes rest) := by
  match rest with
  | none =>
    rw [checkRest]
    exact .ok
  | some (.rest _ argument) =>
    rw [checkRest]
    exact checkDeclaring_refusesAt argument (allStart_mk.mp h).2
termination_by sizeOf rest
decreasing_by
  all_goals
    simp only [Option.some.sizeOf_spec, Node.rest.sizeOf_spec]
    omega

end

/-- An element is blamed where its expression is. -/
theorem elementOf_refusesAt {declaring : Bool} {expression : Expression}
    {pattern : Except Fault Pattern} (h : AllStart P expression.sketch)
    (hp : RefusesAt P pattern) : RefusesAt P (elementOf notes declaring expression pattern) := by
  unfold elementOf
  split
  · refine .ite (fun _ => .blame h.expression rfl) fun _ => .ite (fun _ => ?_) fun _ => ?_
    · obtain ⟨htarget, -⟩ := allStart_append.mp (allStart_mk.mp h).2
      exact .ite (fun _ => .bind (checkDeclaring_refusesAt _ htarget) fun _ _ => .pure)
        fun _ => .pure
    · exact .bind hp fun _ _ => .pure
  · exact .bind hp fun _ _ => .pure

/-- The rest of an object pattern must be a name or a target. -/
theorem objectRest_refusesAt {declaring : Bool} {span : Span} {argument : Expression}
    (h : AllStart P argument.sketch) : RefusesAt P (objectRest notes declaring span argument) := by
  unfold objectRest
  refine .ite (fun _ => .blame h.expression rfl) fun _ => ?_
  split
  · exact .ok
  · exact .ite (fun _ => .ok) fun _ => .blame h.expression rfl

mutual

/-- What is no pattern is blamed at one of its nodes, or at a comma that was noted. -/
theorem toPattern_refusesAt (hn : ∀ note ∈ notes.spreadCommas, P note.2) (declaring : Bool)
    (e : Expression) (h : AllStart P e.sketch) : RefusesAt P (toPattern notes declaring e) := by
  rw [toPattern.eq_def]
  refine .ite (fun _ => .blame h.expression rfl) fun _ => ?_
  split
  · exact .ok
  · rename_i span elements _
    exact .bind (toElements_refusesAt hn declaring _ elements (allStart_mk.mp h).2)
      fun _ _ => .pure
  · rename_i span members _
    exact .bind (toProperties_refusesAt hn declaring members (allStart_mk.mp h).2)
      fun _ _ => .pure
  · exact .ite (fun _ => .ok) fun _ => .blame h.expression rfl
termination_by sizeOf e
decreasing_by
  all_goals
    subst_vars
    simp only [Node.array.sizeOf_spec, Node.object.sizeOf_spec]
    omega

/-- Expressions in an array are blamed at one of their nodes, or at a comma that was noted. -/
theorem toElements_refusesAt (hn : ∀ note ∈ notes.spreadCommas, P note.2) (declaring : Bool)
    (array : Nat) (elements : List (Option Expression))
    (h : AllStart P (Node.sketchOptionals elements)) :
    RefusesAt P (toElements notes declaring array elements) := by
  match elements with
  | [] =>
    rw [toElements.eq_1]
    exact .ok
  | none :: more =>
    rw [toElements.eq_2]
    exact .bind (toElements_refusesAt hn declaring array more h) fun _ _ => .pure
  | some expression :: more =>
    obtain ⟨he, hmore⟩ := allStart_append.mp h
    rcases spread_cases expression with ⟨span, argument, rfl⟩ | hne
    · obtain ⟨hs, hargument⟩ := allStart_mk.mp he
      rw [toElements.eq_3]
      refine .ite (fun _ => .blame hs rfl) fun _ => ?_
      split
      · rename_i comma hcomma
        exact .blame (hn _ (CoverNotes.mem_of_spreadComma hcomma)) rfl
      · exact .bind (toPattern_refusesAt hn declaring argument hargument) fun _ _ => .pure
    · rw [toElements.eq_4 _ _ _ _ _ hne]
      refine .bind (elementOf_refusesAt he (toPattern_refusesAt hn declaring expression he))
        fun _ _ => ?_
      exact .bind (toElements_refusesAt hn declaring array more hmore) fun _ _ => .pure
termination_by sizeOf elements
decreasing_by
  all_goals
    subst_vars
    simp only [List.cons.sizeOf_spec, Option.some.sizeOf_spec, Node.spread.sizeOf_spec]
    omega

/-- Members of an object are blamed at one of their nodes, or at a comma that was noted. -/
theorem toProperties_refusesAt (hn : ∀ note ∈ notes.spreadCommas, P note.2) (declaring : Bool)
    (members : List (Node .objectMember)) (h : AllStart P (Node.sketchMembers members)) :
    RefusesAt P (toProperties notes declaring members) := by
  match members with
  | [] =>
    rw [toProperties.eq_1]
    exact .ok
  | .property span key value kind method :: more =>
    obtain ⟨hm, hmore⟩ := allStart_append.mp h
    obtain ⟨hs, hm⟩ := allStart_mk.mp hm
    obtain ⟨-, hvalue⟩ := allStart_append.mp hm
    rw [toProperties.eq_2]
    refine .ite (fun _ => .blame hs rfl) fun _ => ?_
    refine .bind (elementOf_refusesAt hvalue (toPattern_refusesAt hn declaring value hvalue))
      fun _ _ => ?_
    exact .bind (toProperties_refusesAt hn declaring more hmore) fun _ _ => .pure
  | .shorthand span name initializer :: more =>
    rw [toProperties.eq_3]
    exact .bind (toProperties_refusesAt hn declaring more (allStart_append.mp h).2)
      fun _ _ => .pure
  | .spreadMember span argument :: more =>
    obtain ⟨hs, hargument⟩ := allStart_mk.mp (allStart_append.mp h).1
    rw [toProperties.eq_4]
    refine .ite (fun _ => .blame hs rfl) fun _ => ?_
    exact .bind (objectRest_refusesAt hargument) fun _ _ => .pure
termination_by sizeOf members
decreasing_by
  all_goals
    simp only [List.cons.sizeOf_spec, Node.property.sizeOf_spec]
    omega

end

/-- Expressions in parentheses are blamed at one of their nodes, or at a comma that was noted. -/
theorem toParameterItems_refusesAt (hn : ∀ note ∈ notes.spreadCommas, P note.2)
    {trailingComma : Bool} (items : List Expression)
    (h : AllStart P (Node.sketchExpressions items)) :
    RefusesAt P (toParameterItems notes trailingComma items) := by
  induction items with
  | nil =>
    rw [toParameterItems.eq_1]
    exact .ok
  | cons expression more ih =>
    obtain ⟨he, hmore⟩ := allStart_append.mp h
    rcases spread_cases expression with ⟨span, argument, rfl⟩ | hne
    · obtain ⟨hs, hargument⟩ := allStart_mk.mp he
      rw [toParameterItems.eq_2]
      refine .ite (fun _ => .blame hs rfl) fun _ => .ite (fun _ => .blame hs rfl) fun _ => ?_
      exact .bind (toPattern_refusesAt hn true argument hargument) fun _ _ => .pure
    · rw [toParameterItems.eq_3 _ _ _ _ hne]
      refine .bind (elementOf_refusesAt he (toPattern_refusesAt hn true expression he))
        fun _ _ => ?_
      exact .bind (ih hmore) fun _ _ => .pure

/-- Parameters that parentheses cannot be are blamed inside the parentheses. -/
theorem toParameters_refusesAt (hn : ∀ note ∈ notes.spreadCommas, P note.2)
    {cover : Parenthesized} (h : AllStart P (Node.sketchExpressions cover.items)) :
    RefusesAt P (cover.toParameters notes) :=
  .bind (toParameterItems_refusesAt hn cover.items h) fun _ _ => .pure

/-- What cannot be assigned to is blamed at one of its nodes, or at a comma that was noted. -/
theorem toTarget_refusesAt (hn : ∀ note ∈ notes.spreadCommas, P note.2)
    {problem : Problem} {expression : Expression} (hp : problem.category = .syntactic)
    (h : AllStart P expression.sketch) :
    RefusesAt P (toTarget notes problem expression) := by
  unfold toTarget
  extract_lets valid
  exact .ite (fun _ => toPattern_refusesAt hn false expression h) fun _ => .blame h.expression hp

/-- What cannot be changed by an operator is blamed where it starts. -/
theorem toSimpleTarget_refusesAt {expression : Expression} (h : AllStart P expression.sketch) :
    RefusesAt P (toSimpleTarget expression) := by
  unfold toSimpleTarget
  split
  · exact .ok
  · exact .ite (fun _ => .ok) fun _ => .blame h.expression rfl

/-- An expression that parentheses cannot be is blamed at a spread, behind a comma or at the
closing parenthesis. -/
theorem toExpression_refusesAt {cover : Parenthesized}
    (h : AllStart P (Node.sketchExpressions cover.items))
    (hcomma : ∀ place, cover.trailingComma = some place → P place)
    (hclose : P (Position.offset cover.span.stop - 1)) : RefusesAt P cover.toExpression := by
  unfold Parenthesized.toExpression
  split
  · rename_i place htrailing
    exact .blame (hcomma place htrailing) rfl
  · rename_i spread _ hspread
    exact .blame (h.expressions (List.mem_of_find?_eq_some hspread)).expression rfl
  · split
    · exact .blame hclose rfl
    · exact .ok
    · exact .ok

end

end Cover

end EcmaScript
