import EcmaScript.Proofs.Syntax.Sketch

/-!
# Placing what becomes a pattern

Turning an expression into a pattern keeps the spans: whatever lies between two offsets
still does. When it is refused, the problem is one of syntax.
-/

namespace EcmaScript

/-- Whether the parser is the part of the front end that meets the problem. -/
def Fault.IsSyntactic (fault : Fault) : Prop := fault.problem.category = .syntactic

namespace Cover

open Sketch

/-- A conversion that gives what it should, or is refused for a problem of syntax. -/
def Yields {α : Type} (r : Except Fault α) (Q : α → Prop) : Prop :=
  match r with
  | .ok a => Q a
  | .error fault => fault.IsSyntactic

section

variable {α β : Type}

/-- What is got satisfies the condition. -/
theorem Yields.ok {Q : α → Prop} {a : α} (h : Q a) : Yields (.ok a) Q := h

/-- What is given back satisfies the condition. -/
theorem Yields.pure {Q : α → Prop} {a : α} (h : Q a) : Yields (Pure.pure a) Q := h

/-- A fault that is blamed is one of the syntax. -/
theorem Yields.blame {Q : α → Prop} {problem : Problem} (offset : Nat)
    (h : problem.category = .syntactic) :
    Yields (Cover.blame problem offset : Except Fault α) Q := h

/-- Two steps one after the other. -/
theorem Yields.bind {r : Except Fault α} {f : α → Except Fault β} {P : α → Prop} {Q : β → Prop}
    (h : Yields r P) (hf : ∀ a, P a → Yields (f a) Q) : Yields (r >>= f) Q := by
  cases r with
  | ok a => exact hf a h
  | error fault => exact h

/-- What satisfies one condition satisfies a weaker one. -/
theorem Yields.imp {r : Except Fault α} {P Q : α → Prop} (h : Yields r P)
    (hpq : ∀ a, P a → Q a) : Yields r Q := by
  cases r with
  | ok a => exact hpq a h
  | error fault => exact h

end

mutual

/-- Only faults of the syntax are found in a pattern that declares. -/
theorem checkDeclaring_yields (notes : CoverNotes) (pattern : Pattern) :
    Yields (checkDeclaring notes pattern) fun _ => True := by
  unfold checkDeclaring
  split
  · exact .blame _ rfl
  · match pattern with
    | .binding _ => exact .ok trivial
    | .memberTarget expression => exact .blame _ rfl
    | .arrayPattern _ elements rest =>
      exact .bind (checkElements_yields notes elements) fun _ _ => checkRest_yields notes rest
    | .objectPattern _ properties rest =>
      exact .bind (checkProperties_yields notes properties) fun _ _ => checkRest_yields notes rest
termination_by sizeOf pattern
decreasing_by
  all_goals
    simp only [Node.arrayPattern.sizeOf_spec, Node.objectPattern.sizeOf_spec]
    omega

/-- Only faults of the syntax are found in elements that declare. -/
theorem checkElements_yields (notes : CoverNotes) (elements : List (Option (Node .element))) :
    Yields (checkElements notes elements) fun _ => True := by
  match elements with
  | [] => rw [checkElements]; exact .ok trivial
  | none :: more => rw [checkElements]; exact checkElements_yields notes more
  | some (.element _ target _) :: more =>
    rw [checkElements]
    exact .bind (checkDeclaring_yields notes target) fun _ _ => checkElements_yields notes more
termination_by sizeOf elements
decreasing_by
  all_goals
    simp only [List.cons.sizeOf_spec, Option.some.sizeOf_spec, Node.element.sizeOf_spec]
    omega

/-- Only faults of the syntax are found in properties that declare. -/
theorem checkProperties_yields (notes : CoverNotes) (properties : List (Node .patternProperty)) :
    Yields (checkProperties notes properties) fun _ => True := by
  match properties with
  | [] => rw [checkProperties]; exact .ok trivial
  | .patternProperty _ _ (.element _ target _) _ :: more =>
    rw [checkProperties]
    exact .bind (checkDeclaring_yields notes target) fun _ _ => checkProperties_yields notes more
termination_by sizeOf properties
decreasing_by
  all_goals
    simp only [List.cons.sizeOf_spec, Node.patternProperty.sizeOf_spec, Node.element.sizeOf_spec]
    omega

/-- Only faults of the syntax are found in a rest that declares. -/
theorem checkRest_yields (notes : CoverNotes) (rest : Option (Node .rest)) :
    Yields (checkRest notes rest) fun _ => True := by
  match rest with
  | none => rw [checkRest]; exact .ok trivial
  | some (.rest _ argument) => rw [checkRest]; exact checkDeclaring_yields notes argument
termination_by sizeOf rest
decreasing_by
  all_goals
    simp only [Option.some.sizeOf_spec, Node.rest.sizeOf_spec]
    omega

end

section

variable {text : String} {lo : Nat} {hi : Front}

/-- An element is placed where its expression was. -/
theorem elementOf_yields (notes : CoverNotes) (declaring : Bool) (expression : Expression)
    {pattern : Except Fault Pattern} (he : AllPlaced text lo hi expression.sketch)
    (hp : ∀ lo hi, AllPlaced text lo hi expression.sketch →
      Yields pattern fun p => AllPlaced text lo hi p.sketch ∧ p.span = expression.span) :
    Yields (elementOf notes declaring expression pattern) fun e =>
      AllPlaced text lo hi e.sketch := by
  have hplain : Yields (do return .element expression.span (← pattern) none) fun e =>
      AllPlaced text lo hi (Node.sketch e) := by
    obtain ⟨debt, row, inner, ho⟩ := Node.sketch_expression expression
    rw [ho] at he
    obtain ⟨start, stop, hs, hl, hlt, hh, hb, hb', hd, hr, hin⟩ := he.each.of_mk
    refine .bind (hp start (hi.upTo stop) ?_) fun p hp => .pure ?_
    · rw [ho, hs]
      exact allPlaced_mk (Nat.le_refl _) hlt (Nat.le_refl _) hb hb' hd hr hin
    · show AllPlaced text lo hi (owing expression.span (.fact _) (p.sketch ++ []))
      have hn := allPlaced_node hl hlt hh hb hb' hp.1
      rw [← hs] at hn
      rw [List.append_nil]
      exact hn.fact fun _ => hp.2.symm
  unfold elementOf
  split
  · rename_i span operator target value
    split
    · exact .blame _ rfl
    · split
      · have hel : AllPlaced text lo hi (Node.sketch (.element span target (some value))) :=
          AllPlaced.fact he nofun
        split
        · exact .bind (checkDeclaring_yields notes target) fun _ _ => .pure hel
        · exact .pure hel
      · exact hplain
  · exact hplain

/-- The rest of an object pattern is placed where the spread was. -/
theorem objectRest_yields (notes : CoverNotes) (declaring : Bool) {span : Span}
    {argument : Expression} (h : AllPlaced text lo hi (node span argument.sketch)) :
    Yields (objectRest notes declaring span argument) fun r => AllPlaced text lo hi r.sketch := by
  unfold objectRest
  split
  · exact .blame _ rfl
  · split
    · exact .ok h
    · split
      · exact .ok h
      · exact .blame _ rfl

/-- One more item in front of those that are placed with a rest behind them. -/
theorem placed_item {mid : Nat} {item items rest : List Sketch}
    (h : AllPlaced text lo (hi.upTo mid) item) (hmore : AllPlaced text mid hi (items ++ rest))
    (hl : lo ≤ mid) (hm : mid ≤ hi.stop) : AllPlaced text lo hi ((item ++ items) ++ rest) := by
  rw [List.append_assoc]
  exact h.append hmore hl (Nat.le_refl mid) (hi.upto_of_le hm)

/-- An expression is a spread, or it is none. -/
theorem spread_cases (e : Expression) :
    (∃ span argument, e = .spread span argument) ∨
      ∀ span argument, e = .spread span argument → False := by
  cases e with
  | spread span argument => exact Or.inl ⟨span, argument, rfl⟩
  | _ => exact Or.inr fun _ _ h => nomatch h

mutual

/-- The pattern that an expression is lies where the expression lies. -/
theorem toPattern_yields (notes : CoverNotes) (declaring : Bool) (e : Expression) (lo : Nat)
    (hi : Front) (he : AllPlaced text lo hi e.sketch) :
    Yields (toPattern notes declaring e) fun p =>
      AllPlaced text lo hi p.sketch ∧ p.span = e.span := by
  rw [toPattern.eq_def]
  split
  · exact .blame _ rfl
  · split
    · exact .ok ⟨he, rfl⟩
    · rename_i span elements _
      obtain ⟨start, stop, hs, hl, hlt, hh, hb, hb', hin⟩ := AllPlaced.of_node he
      refine .bind (toElements_yields notes declaring _ elements start _ (Nat.le_of_lt hlt) hin)
        fun r hr => .pure ⟨?_, rfl⟩
      rw [hs]
      exact allPlaced_node hl hlt hh hb hb' hr
    · rename_i span members _
      obtain ⟨start, stop, hs, hl, hlt, hh, hb, hb', hin⟩ := AllPlaced.of_node he
      refine .bind (toProperties_yields notes declaring members start _ (Nat.le_of_lt hlt) hin)
        fun r hr => .pure ⟨?_, rfl⟩
      rw [hs]
      exact allPlaced_node hl hlt hh hb hb' hr
    · split
      · exact .ok ⟨he, rfl⟩
      · exact .blame _ rfl
termination_by sizeOf e
decreasing_by
  all_goals
    subst_vars
    simp only [Node.array.sizeOf_spec, Node.object.sizeOf_spec]
    omega

/-- The elements of a pattern are placed where those of the array were. -/
theorem toElements_yields (notes : CoverNotes) (declaring : Bool) (array : Nat)
    (elements : List (Option Expression)) (lo : Nat) (hi : Front) (hle : lo ≤ hi.stop)
    (he : AllPlaced text lo hi (Node.sketchOptionals elements)) :
    Yields (toElements notes declaring array elements) fun r =>
      AllPlaced text lo hi (Node.sketchOptionalElements r.1 ++ Node.sketchRest? r.2) := by
  match elements with
  | [] =>
    rw [toElements.eq_1]
    exact .ok allPlaced_nil
  | none :: more =>
    rw [toElements.eq_2]
    exact .bind (toElements_yields notes declaring array more lo hi hle he) fun r hr => .pure hr
  | some expression :: more =>
    obtain ⟨mid, hlm, hmh, he, hmore⟩ := AllPlaced.split he hle
    rcases spread_cases expression with ⟨span, argument, rfl⟩ | hne
    · rw [toElements.eq_3]
      split
      · exact .blame _ rfl
      · split
        · exact .blame _ rfl
        · obtain ⟨start, stop, hs, hl, hlt, hh, hb, hb', hin⟩ := AllPlaced.of_node he
          refine .bind (toPattern_yields notes declaring argument start _ hin) fun p hp => ?_
          rw [hs]
          exact .pure (allPlaced_node hl hlt (Nat.le_trans hh hmh) hb hb' hp.1)
    · rw [toElements.eq_4 _ _ _ _ _ hne]
      refine .bind (elementOf_yields notes declaring expression he fun lo hi h =>
        toPattern_yields notes declaring expression lo hi h) fun e hel => ?_
      refine .bind (toElements_yields notes declaring array more mid hi hmh hmore)
        fun r hr => .pure ?_
      exact placed_item hel hr hlm hmh
termination_by sizeOf elements
decreasing_by
  all_goals
    subst_vars
    simp only [List.cons.sizeOf_spec, Option.some.sizeOf_spec, Node.spread.sizeOf_spec]
    omega

/-- The properties of a pattern are placed where the members were. -/
theorem toProperties_yields (notes : CoverNotes) (declaring : Bool)
    (members : List (Node .objectMember)) (lo : Nat) (hi : Front) (hle : lo ≤ hi.stop)
    (he : AllPlaced text lo hi (Node.sketchMembers members)) :
    Yields (toProperties notes declaring members) fun r =>
      AllPlaced text lo hi (Node.sketchProperties r.1 ++ Node.sketchRest? r.2) := by
  match members with
  | [] =>
    rw [toProperties.eq_1]
    exact .ok allPlaced_nil
  | .property span key value kind method :: more =>
    rw [toProperties.eq_2]
    obtain ⟨mid, hlm, hmh, he, hmore⟩ := AllPlaced.split he hle
    split
    · exact .blame _ rfl
    · obtain ⟨start, stop, hs, hl, hlt, hh, hb, hb', hin⟩ := AllPlaced.of_node he
      obtain ⟨middle, hsm, hms, hkey, hvalue⟩ := hin.split (Nat.le_of_lt hlt)
      refine .bind (elementOf_yields notes declaring value hvalue fun lo hi h =>
        toPattern_yields notes declaring value lo hi h) fun e hel => ?_
      refine .bind (toProperties_yields notes declaring more mid hi hmh hmore)
        fun r hr => .pure ?_
      rw [hs]
      refine placed_item (allPlaced_node hl hlt hh hb hb' ?_) hr hlm hmh
      exact hkey.append hel hsm (Nat.le_refl _) ((hi.upTo stop).upto_of_le hms)
  | .shorthand span name initializer :: more =>
    rw [toProperties.eq_3]
    obtain ⟨mid, hlm, hmh, he, hmore⟩ := AllPlaced.split he hle
    refine .bind (toProperties_yields notes declaring more mid hi hmh hmore) fun r hr => .pure ?_
    obtain ⟨start, stop, hs, hl, hlt, hh, hb, hb', hd, hin⟩ := AllPlaced.of_owing he
    rw [hs] at hd ⊢
    have hvalue : AllPlaced text start ((hi.upTo mid).upTo stop)
        (Node.element (.ofOffsets start stop) (.binding name) initializer).sketch :=
      allPlaced_owing (Nat.le_refl _) hlt (Nat.le_refl _) hb hb' hd hin
    refine placed_item (allPlaced_mk hl hlt hh hb hb' trivial .nil ?_) hr hlm hmh
    exact eachPlaced_append.mpr ⟨(eachPlaced_append.mp hin.each).1, hvalue.each⟩
  | .spreadMember span argument :: more =>
    rw [toProperties.eq_4]
    obtain ⟨mid, -, hmh, he, -⟩ := AllPlaced.split he hle
    split
    · exact .blame _ rfl
    · exact .bind (objectRest_yields notes declaring he) fun r hr =>
        .pure (hr.mono (Nat.le_refl lo) (hi.upto_of_le hmh))
termination_by sizeOf members
decreasing_by
  all_goals
    simp only [List.cons.sizeOf_spec, Node.property.sizeOf_spec]
    omega

end

/-- An element is placed where its expression was, with its default or without. -/
theorem toElement_yields (notes : CoverNotes) (declaring : Bool) (expression : Expression)
    (he : AllPlaced text lo hi expression.sketch) :
    Yields (toElement notes declaring expression) fun e => AllPlaced text lo hi e.sketch :=
  elementOf_yields notes declaring expression he fun lo hi h =>
    toPattern_yields notes declaring expression lo hi h

/-- Parameters are placed where the expressions were. -/
theorem toParameterItems_yields (notes : CoverNotes) (trailingComma : Bool)
    (items : List Expression) (hle : lo ≤ hi.stop)
    (he : AllPlaced text lo hi (Node.sketchExpressions items)) :
    Yields (toParameterItems notes trailingComma items) fun r =>
      AllPlaced text lo hi (Node.sketchElements r.1 ++ Node.sketchRest? r.2) := by
  induction items generalizing lo with
  | nil =>
    rw [toParameterItems.eq_1]
    exact .ok allPlaced_nil
  | cons expression more ih =>
    obtain ⟨mid, hlm, hmh, he, hmore⟩ := AllPlaced.split he hle
    rcases spread_cases expression with ⟨span, argument, rfl⟩ | hne
    · rw [toParameterItems.eq_2]
      split
      · exact .blame _ rfl
      · split
        · exact .blame _ rfl
        · obtain ⟨start, stop, hs, hl, hlt, hh, hb, hb', hin⟩ := AllPlaced.of_node he
          refine .bind (toPattern_yields notes true argument start _ hin) fun p hp => ?_
          rw [hs]
          exact .pure (allPlaced_node hl hlt (Nat.le_trans hh hmh) hb hb' hp.1)
    · rw [toParameterItems.eq_3 _ _ _ _ hne]
      refine .bind (toElement_yields notes true expression he) fun e hel => ?_
      exact .bind (ih hmh hmore) fun r hr => .pure (placed_item hel hr hlm hmh)

/-- The target of an assignment lies where it was read as an expression. -/
theorem toTarget_yields (notes : CoverNotes) {problem : Problem} (expression : Expression)
    (hp : problem.category = .syntactic) (he : AllPlaced text lo hi expression.sketch) :
    Yields (toTarget notes problem expression) fun p => AllPlaced text lo hi p.sketch := by
  unfold toTarget
  extract_lets valid
  split
  · exact (toPattern_yields notes false expression lo hi he).imp fun _ h => h.1
  · exact .blame _ hp

/-- A simple target is placed where its expression was. -/
theorem toSimpleTarget_yields (expression : Expression)
    (he : AllPlaced text lo hi expression.sketch) :
    Yields (toSimpleTarget expression) fun p => AllPlaced text lo hi p.sketch := by
  unfold toSimpleTarget
  split
  · exact .ok he
  · split
    · exact .ok he
    · exact .blame _ rfl

end

end Cover

end EcmaScript
