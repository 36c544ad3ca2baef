import EcmaScript.Proofs.Syntax.Cover
import EcmaScript.Proofs.Syntax.WellBuilt

/-!
# Building patterns from expressions

Turning an expression into a pattern claims the defaults in it. So the pattern is built with
the budget of the expression, and whatever was left open in the expression is settled. An
expression that can stand anywhere becomes a pattern that can, since nothing else becomes a
part of it than parts of the expression.
-/

namespace EcmaScript

namespace Cover

/-- A conversion that gives what it should whenever it gives something. -/
def Gets {α : Type} (r : Except Fault α) (Q : α → Prop) : Prop := ∀ a, r = .ok a → Q a

section

variable {α β : Type}

/-- What is got satisfies the condition. -/
theorem Gets.ok {Q : α → Prop} {a : α} (h : Q a) : Gets (.ok a) Q := by
  intro _ hr
  cases hr
  exact h

/-- What is given back satisfies the condition. -/
theorem Gets.pure {Q : α → Prop} {a : α} (h : Q a) : Gets (Pure.pure a) Q := .ok h

/-- Where a fault is blamed, nothing is got. -/
theorem Gets.blame {Q : α → Prop} {problem : Problem} {offset : Nat} :
    Gets (Cover.blame problem offset) Q := fun _ hr => nomatch hr

/-- Two steps one after the other. -/
theorem Gets.bind {r : Except Fault α} {f : α → Except Fault β} {P : α → Prop} {Q : β → Prop}
    (h : Gets r P) (hf : ∀ a, P a → Gets (f a) Q) : Gets (r >>= f) Q := by
  cases r with
  | ok a => exact hf a (h a rfl)
  | error fault => exact fun _ hr => nomatch hr

/-- A check in front of a conversion does not matter. -/
theorem Gets.after {r : Except Fault α} {f : α → Except Fault β} {Q : β → Prop}
    (hf : ∀ a, Gets (f a) Q) : Gets (r >>= f) Q :=
  .bind (P := fun _ => True) (fun _ _ => trivial) fun a _ => hf a

end

section

variable {b : Budget} {t : Bool}

/-- In a name or a property nothing is left open. -/
theorem wellBuilt_of_isSimpleTarget {e : Expression} (h : WellBuilt b t e)
    (hs : e.isSimpleTarget = true) : WellBuilt b true e := by
  refine ⟨?_, h.proper⟩
  have hbuilt := h.built
  cases e with
  | reference id => exact .of_plain rfl (by simp [Node.kind?]) (by simp [Node.parts])
  | member | index =>
    cases hbuilt with
    | node hk _ ho hp =>
      exact .node hk (by simp [Node.isUnclaimed]) ho (by simpa [Node.parts, Node.kind?] using hp)
  | _ => exact absurd hs Bool.false_ne_true

/-- A name that is assigned to is well built as the name that it was read as. -/
theorem wellBuilt_binding {id : Identifier} (h : WellBuilt b t (.reference id)) :
    WellBuilt b true (.binding id) :=
  .binding (h.scope_eq (List.mem_singleton.mpr rfl))

/-- A name or a property that is assigned to is well built as the expression is. -/
theorem wellBuilt_memberTarget {e : Expression} (h : WellBuilt b t e)
    (hs : e.isSimpleTarget = true) : WellBuilt b true (.memberTarget e) :=
  .unruled rfl (by simpa [Node.parts] using wellBuilt_of_isSimpleTarget h hs)

/-- An element of a pattern is well built if the expression is. -/
theorem elementOf_wellBuilt (notes : CoverNotes) (declaring : Bool) {e : Expression}
    {pattern : Except Fault Pattern} (he : WellBuilt b t e)
    (hp : Gets pattern fun p => WellBuilt b true p) :
    Gets (elementOf notes declaring e pattern) fun el => WellBuilt b true el := by
  have hplain : Gets (do return .element e.span (← pattern) none) fun el : Node .element =>
      WellBuilt b true el :=
    .bind hp fun p hp => .pure (.unruled rfl (by simpa [Node.parts] using hp))
  unfold elementOf
  split
  · rename_i span operator target value
    split
    · exact .blame
    · split
      · have hparts := he.parts rfl
        simp only [Node.parts, Node.kind?, Role.budget, Role.tidy, List.forall_mem_cons] at hparts
        have hel : WellBuilt b true (Node.element span target (some value)) :=
          .unruled rfl (by simpa [Node.parts] using ⟨hparts.1, hparts.2.1⟩)
        split
        · exact .after fun _ => .pure hel
        · exact .pure hel
      · exact hplain
  · exact hplain

/-- The rest of a pattern for an object is well built if the expression is. -/
theorem objectRest_wellBuilt (notes : CoverNotes) (declaring : Bool) (span : Span)
    {argument : Expression} (h : WellBuilt b t argument) :
    Gets (objectRest notes declaring span argument) fun x => WellBuilt b true x := by
  unfold objectRest
  split
  · exact .blame
  · split
    · exact .ok (.unruled rfl (by simpa [Node.parts] using wellBuilt_binding h))
    · split
      · rename_i hs
        rw [Bool.and_eq_true] at hs
        exact .ok (.unruled rfl (by simpa [Node.parts] using wellBuilt_memberTarget h hs.1))
      · exact .blame

mutual

/-- The pattern that an expression is. -/
theorem toPattern_wellBuilt (notes : CoverNotes) (declaring : Bool) (e : Expression)
    {b : Budget} {t : Bool} (he : WellBuilt b t e) :
    Gets (toPattern notes declaring e) fun p => WellBuilt b true p := by
  rw [toPattern.eq_def]
  split
  · exact .blame
  · split
    · exact .ok (wellBuilt_binding he)
    · rename_i span elements _
      have hp := he.parts rfl
      simp only [Node.parts, List.forall_mem_map, List.reduceOption_mem_iff] at hp
      refine .bind (toElements_wellBuilt notes declaring _ elements hp) fun x hx => .pure ?_
      refine .of_plain rfl (.unruled rfl) he.built.kind_pos ?_
      simpa [Node.parts, Node.kind?, or_imp, forall_and, List.reduceOption_mem_iff] using hx
    · rename_i span members _
      have hp := he.parts rfl
      simp only [Node.parts, List.forall_mem_map] at hp
      refine .bind (toProperties_wellBuilt notes declaring members hp) fun x hx => .pure ?_
      refine .of_plain rfl (.unruled rfl) he.built.kind_pos ?_
      simpa [Node.parts, Node.kind?, or_imp, forall_and] using hx
    · split
      · rename_i hs
        rw [Bool.and_eq_true] at hs
        exact .ok (wellBuilt_memberTarget he hs.1)
      · exact .blame
termination_by sizeOf e
decreasing_by
  all_goals
    subst_vars
    simp only [Node.array.sizeOf_spec, Node.object.sizeOf_spec]
    omega

/-- The elements of a pattern, from those of an array. -/
theorem toElements_wellBuilt (notes : CoverNotes) (declaring : Bool) (array : Nat)
    (elements : List (Option Expression)) {b : Budget} {t : Bool}
    (he : ∀ e, some e ∈ elements → WellBuilt b t e) :
    Gets (toElements notes declaring array elements) fun x =>
      (∀ e, some e ∈ x.1 → WellBuilt b true e) ∧ ∀ e, x.2 = some e → WellBuilt b true e := by
  match elements with
  | [] =>
    rw [toElements.eq_1]
    exact .ok (by simp)
  | none :: more =>
    rw [toElements.eq_2]
    refine .bind (toElements_wellBuilt notes declaring array more fun e hm =>
      he e (List.mem_cons_of_mem _ hm)) fun x hx => .pure ?_
    simpa using hx
  | some expression :: more =>
    have hfirst := he expression List.mem_cons_self
    rcases spread_cases expression with ⟨span, argument, rfl⟩ | hne
    · rw [toElements.eq_3]
      split
      · exact .blame
      · split
        · exact .blame
        · have hargument : WellBuilt b t argument := by
            simpa [Node.parts, Node.kind?] using hfirst.parts rfl
          refine .bind (toPattern_wellBuilt notes declaring argument hargument) fun p hp => .pure ?_
          refine ⟨by simp, ?_⟩
          rintro _ ⟨⟩
          exact .unruled rfl (by simpa [Node.parts] using hp)
    · rw [toElements.eq_4 _ _ _ _ _ hne]
      refine .bind (elementOf_wellBuilt notes declaring hfirst
        (toPattern_wellBuilt notes declaring expression hfirst)) fun el hel => ?_
      refine .bind (toElements_wellBuilt notes declaring array more fun e hm =>
        he e (List.mem_cons_of_mem _ hm)) fun x hx => .pure ⟨?_, hx.2⟩
      intro e hm
      rcases List.mem_cons.mp hm with h | h
      · cases h
        exact hel
      · exact hx.1 e h
termination_by sizeOf elements
decreasing_by
  all_goals
    subst_vars
    simp only [List.cons.sizeOf_spec, Option.some.sizeOf_spec, Node.spread.sizeOf_spec]
    omega

/-- The properties of a pattern, from the members of an object. -/
theorem toProperties_wellBuilt (notes : CoverNotes) (declaring : Bool)
    (members : List (Node .objectMember)) {b : Budget} {t : Bool}
    (he : ∀ m ∈ members, WellBuilt b t m) :
    Gets (toProperties notes declaring members) fun x =>
      (∀ e ∈ x.1, WellBuilt b true e) ∧ ∀ e, x.2 = some e → WellBuilt b true e := by
  match members with
  | [] =>
    rw [toProperties.eq_1]
    exact .ok (by simp)
  | .property span key value kind method :: more =>
    have hfirst := (he _ List.mem_cons_self).parts rfl
    simp only [Node.parts, Node.kind?, List.forall_mem_cons, Role.budget, Role.tidy]
      at hfirst
    rw [toProperties.eq_2]
    split
    · exact .blame
    · refine .bind (elementOf_wellBuilt notes declaring hfirst.2.1
        (toPattern_wellBuilt notes declaring value hfirst.2.1)) fun el hel => ?_
      refine .bind (toProperties_wellBuilt notes declaring more fun m hm =>
        he m (List.mem_cons_of_mem _ hm)) fun x hx => .pure ⟨?_, hx.2⟩
      rw [List.forall_mem_cons]
      exact ⟨.unruled rfl (by simpa [Node.parts] using ⟨hfirst.1, hel⟩), hx.1⟩
  | .shorthand span name initializer :: more =>
    have hmember := he _ List.mem_cons_self
    have hname : name.scope = 0 := hmember.scope_eq (by simp [Node.stamps])
    have hparts := hmember.parts rfl
    simp only [Node.parts, Node.kind?, List.forall_mem_map, Role.budget, Role.tidy]
      at hparts
    rw [toProperties.eq_3]
    refine .bind (toProperties_wellBuilt notes declaring more fun m hm =>
      he m (List.mem_cons_of_mem _ hm)) fun x hx => .pure ⟨?_, hx.2⟩
    rw [List.forall_mem_cons]
    have hkey : WellBuilt b true (Node.identifierKey name) :=
      .wrapped rfl (.identifierKey hname) rfl (by simp [Node.parts])
    have hel : WellBuilt b true (Node.element span (.binding name) initializer) :=
      .unruled rfl (by
        simp only [Node.parts, List.forall_mem_cons, List.forall_mem_map]
        exact ⟨.binding hname, hparts⟩)
    exact ⟨.unruled rfl (by simpa [Node.parts] using ⟨hkey, hel⟩), hx.1⟩
  | .spreadMember span argument :: more =>
    have hargument : WellBuilt b t argument := by
      simpa [Node.parts, Node.kind?] using (he _ List.mem_cons_self).parts rfl
    rw [toProperties.eq_4]
    split
    · exact .blame
    · refine .bind (objectRest_wellBuilt notes declaring span hargument) fun x hx => .pure ?_
      exact ⟨by simp, by rintro _ ⟨⟩; exact hx⟩
termination_by sizeOf members
decreasing_by
  all_goals
    simp only [List.cons.sizeOf_spec, Node.property.sizeOf_spec]
    omega

end

/-- Parameters of an arrow function, from the items in parentheses. -/
theorem toParameterItems_wellBuilt (notes : CoverNotes) (trailingComma : Bool)
    (items : List Expression) (he : ∀ e ∈ items, WellBuilt b t e) :
    Gets (toParameterItems notes trailingComma items) fun x =>
      (∀ e ∈ x.1, WellBuilt b true e) ∧ ∀ e, x.2 = some e → WellBuilt b true e := by
  induction items with
  | nil =>
    rw [toParameterItems.eq_1]
    exact .ok (by simp)
  | cons expression more ih =>
    rw [List.forall_mem_cons] at he
    rcases spread_cases expression with ⟨span, argument, rfl⟩ | hne
    · rw [toParameterItems.eq_2]
      split
      · exact .blame
      · split
        · exact .blame
        · have hargument : WellBuilt b t argument := by
            simpa [Node.parts, Node.kind?] using he.1.parts rfl
          refine .bind (toPattern_wellBuilt notes true argument hargument) fun p hp => .pure ?_
          refine ⟨by simp, ?_⟩
          rintro _ ⟨⟩
          exact .unruled rfl (by simpa [Node.parts] using hp)
    · rw [toParameterItems.eq_3 _ _ _ _ hne]
      refine .bind (elementOf_wellBuilt notes true he.1
        (toPattern_wellBuilt notes true expression he.1)) fun el hel => ?_
      refine .bind (ih he.2) fun x hx => .pure ⟨?_, hx.2⟩
      rw [List.forall_mem_cons]
      exact ⟨hel, hx.1⟩

/-- What stands in parentheses becomes parameters that are well built. -/
theorem Parenthesized.toParameters_wellBuilt (cover : Parenthesized) (notes : CoverNotes)
    (he : ∀ e ∈ cover.items, WellBuilt b t e) :
    Gets (cover.toParameters notes) fun x => WellBuilt b true x := by
  refine .bind (toParameterItems_wellBuilt notes _ cover.items he) fun x hx => .pure ?_
  refine .unruled rfl ?_
  simpa [Node.parts, or_imp, forall_and] using hx

/-- What stands in parentheses becomes an expression that is well built. -/
theorem Parenthesized.toExpression_wellBuilt (cover : Parenthesized)
    (he : ∀ e ∈ cover.items, WellBuilt b t e) :
    Gets cover.toExpression fun x => WellBuilt b t x := by
  unfold toExpression
  split
  · exact .blame
  · exact .blame
  · split
    · exact .blame
    · rename_i e hi
      exact .ok (he e (by simp [hi]))
    · refine .ok (.of_plain rfl (.unruled rfl) (by simp [Node.kind?]) ?_)
      simpa [Node.parts, Node.kind?] using he

/-- The target of a plain assignment claims all defaults in the expression. -/
theorem toTarget_wellBuilt (notes : CoverNotes) (problem : Problem) {e : Expression}
    (he : WellBuilt b t e) :
    Gets (toTarget notes problem e) fun p => WellBuilt b true p := by
  unfold toTarget
  extract_lets valid
  split
  · exact toPattern_wellBuilt notes false e he
  · exact .blame

/-- The target of any other assignment is a name or a property. -/
theorem toSimpleTarget_wellBuilt {e : Expression} (he : WellBuilt b t e) :
    Gets (toSimpleTarget e) fun p => WellBuilt b true p := by
  unfold toSimpleTarget
  split
  · exact .ok (wellBuilt_binding he)
  · split
    · rename_i hs
      exact .ok (wellBuilt_memberTarget he hs)
    · exact .blame

end

end Cover

end EcmaScript
