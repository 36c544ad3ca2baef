import EcmaScript.Proofs.Build.Cover
import EcmaScript.Proofs.Syntax.Fits

/-!
# Patterns from expressions fit

What is turned into a pattern fits as a pattern where it fitted as an expression, and if it is to
declare, it has names only. A property becomes a target as it is, and since an operand with an
optional link is no operand of its own unless it is whole, the link to the property itself is
none of them.
-/

namespace EcmaScript

open Surroundings

/-- What a pattern takes for a spread is one. -/
theorem Cover.isSpread_eq (e : Expression) : Cover.isSpread e = e.isSpread := by
  cases e <;> rfl

namespace Suits

variable {P : Surroundings → Prop}

/-- A name stands anywhere. -/
theorem binding {id : Identifier} : Suits P (.binding id) := .leaf rfl rfl

/-- An element stands where its target and its value do. -/
theorem element {span : Span} {target : Pattern} {initializer : Option Expression}
    (htarget : Suits P target) (hinitializer : ∀ e ∈ initializer, Suits P e) :
    Suits P (.element span target initializer) :=
  .of_parts rfl (by simpa [Node.parts] using ⟨htarget, hinitializer⟩)

/-- The rest of a pattern stands where its target does. -/
theorem rest {span : Span} {argument : Pattern} (h : Suits P argument) :
    Suits P (.rest span argument) := .of_parts rfl (by simpa [Node.parts] using h)

/-- A property stands where its key and its value do, and a short one has its own shape. -/
theorem patternProperty {span : Span} {key : Node .propertyKey} {value : Node .element}
    {isShorthand : Bool} (hkey : Suits P key) (hvalue : Suits P value)
    (hshorthand : isShorthand = true → Node.IsShorthand key value) :
    Suits P (.patternProperty span key value isShorthand) :=
  .of_shaped rfl (fun _ _ => ⟨trivial, trivial, trivial⟩) hshorthand (fun _ _ => rfl)
    (by simpa [Node.parts] using ⟨hkey, hvalue⟩)

/-- A property that is named like the variable that it declares or assigns to. -/
theorem shorthandProperty {span span' : Span} {id : Identifier}
    {initializer : Option Expression} (h : ∀ e ∈ initializer, Suits P e) :
    Suits P (.patternProperty span (.identifierKey id)
      (.element span' (.binding id) initializer) true) :=
  .patternProperty (.leaf rfl rfl) (.element .binding h)
    fun _ => ⟨id, id, span', initializer, rfl, rfl, rfl⟩

/-- An array pattern stands where its elements do. -/
theorem arrayPattern {span : Span} {elements : List (Option (Node .element))}
    {remainder : Option (Node .rest)} (helements : ∀ e, some e ∈ elements → Suits P e)
    (hremainder : ∀ r ∈ remainder, Suits P r) : Suits P (.arrayPattern span elements remainder) :=
  .of_parts rfl (by
    simpa [Node.parts, or_imp, forall_and, List.reduceOption_mem_iff]
      using ⟨helements, hremainder⟩)

/-- An object pattern stands where its properties do, and its rest is a single target. -/
theorem objectPattern {span : Span} {properties : List (Node .patternProperty)}
    {remainder : Option (Node .rest)} (hproperties : ∀ p ∈ properties, Suits P p)
    (hremainder : ∀ r ∈ remainder, Suits P r ∧ r.restTarget.isSingle = true) :
    Suits P (.objectPattern span properties remainder) :=
  .of_shaped rfl (fun _ _ => ⟨trivial, trivial, trivial⟩) (fun r hr => (hremainder r hr).2)
    (fun _ _ => rfl) (by
      simpa [Node.parts, or_imp, forall_and] using ⟨hproperties, fun r hr => (hremainder r hr).1⟩)

/-- A property that is assigned to stands where it does as an expression. -/
theorem memberTarget {e : Expression} (h : Suits P e) (he : e.isPlainMember = true) :
    Suits P (.memberTarget e) :=
  .of_shaped rfl (fun _ _ => ⟨trivial, trivial, trivial⟩) he (fun _ _ => rfl)
    (by simpa [Node.parts] using h)

/-- Parameters stand where each of them does, and declare names. -/
theorem parameters {span : Span} {params : List (Node .element)}
    {remainder : Option (Node .rest)} (hparams : ∀ e ∈ params, Suits P e ∧ Declares e)
    (hremainder : ∀ r ∈ remainder, Suits P r ∧ Declares r) :
    Suits P (.parameters span params remainder) :=
  .of_shaped rfl (fun _ _ => ⟨trivial, trivial, trivial⟩)
    ⟨fun e he => (hparams e he).2, fun r hr => (hremainder r hr).2⟩ (fun _ _ => rfl) (by
      simpa [Node.parts, or_imp, forall_and]
        using ⟨fun e he => (hparams e he).1, fun r hr => (hremainder r hr).1⟩)

/-- At least two expressions between commas stand where each of them does. -/
theorem sequence {span : Span} {expressions : List Expression} (h : ∀ e ∈ expressions, Suits P e)
    (hlength : 2 ≤ expressions.length) : Suits P (.sequence span expressions) :=
  .of_shaped rfl (fun _ _ => ⟨trivial, trivial, trivial⟩) hlength (fun _ _ => rfl)
    (by simpa [Node.parts] using h)

end Suits

namespace Cover

/-- What is got is got with less said about it. -/
theorem Gets.imp {α : Type} {r : Except Fault α} {P Q : α → Prop} (h : Gets r P)
    (hpq : ∀ a, P a → Q a) : Gets r Q := fun a hr => hpq a (h a hr)

/-- What is made of an expression: it fits where the expression did, and if it is to declare, it
has names only. -/
structure Becomes (σ : Surroundings) (declaring : Bool) {form : Form} (x : Node form) : Prop where
  suits : Suits (Eq σ) x
  declares : declaring = true → Declares x

mutual

/-- A pattern that passes the check has names only. -/
theorem checkDeclaring_declares (notes : CoverNotes) (pattern : Pattern) :
    Gets (checkDeclaring notes pattern) fun _ => Declares pattern := by
  unfold checkDeclaring
  split
  · exact .blame
  · match pattern with
    | .binding _ => exact .ok .binding
    | .memberTarget expression => exact .blame
    | .arrayPattern _ elements rest =>
      exact .bind (checkElements_declares notes elements) fun _ he =>
        (checkRest_declares notes rest).imp fun _ hr => .arrayPattern he hr
    | .objectPattern _ properties rest =>
      exact .bind (checkProperties_declares notes properties) fun _ hp =>
        (checkRest_declares notes rest).imp fun _ hr => .objectPattern hp hr
termination_by sizeOf pattern
decreasing_by
  all_goals
    simp only [Node.arrayPattern.sizeOf_spec, Node.objectPattern.sizeOf_spec]
    omega

/-- Elements that are not refused declare names. -/
theorem checkElements_declares (notes : CoverNotes) (elements : List (Option (Node .element))) :
    Gets (checkElements notes elements) fun _ => ∀ e, some e ∈ elements → Declares e := by
  match elements with
  | [] => rw [checkElements]; exact .ok (by simp)
  | none :: more =>
    rw [checkElements]
    exact (checkElements_declares notes more).imp fun _ h => by simpa using h
  | some (.element _ target _) :: more =>
    rw [checkElements]
    refine .bind (checkDeclaring_declares notes target) fun _ ht =>
      (checkElements_declares notes more).imp fun _ h => ?_
    simpa using ⟨.element ht, h⟩
termination_by sizeOf elements
decreasing_by
  all_goals
    simp only [List.cons.sizeOf_spec, Option.some.sizeOf_spec, Node.element.sizeOf_spec]
    omega

/-- Properties that are not refused declare names. -/
theorem checkProperties_declares (notes : CoverNotes)
    (properties : List (Node .patternProperty)) :
    Gets (checkProperties notes properties) fun _ => ∀ p ∈ properties, Declares p := by
  match properties with
  | [] => rw [checkProperties]; exact .ok (by simp)
  | .patternProperty _ _ (.element _ target _) _ :: more =>
    rw [checkProperties]
    refine .bind (checkDeclaring_declares notes target) fun _ ht =>
      (checkProperties_declares notes more).imp fun _ h => ?_
    exact List.forall_mem_cons.mpr ⟨.patternProperty (.element ht), h⟩
termination_by sizeOf properties
decreasing_by
  all_goals
    simp only [List.cons.sizeOf_spec, Node.patternProperty.sizeOf_spec, Node.element.sizeOf_spec]
    omega

/-- The rest of a pattern that is not refused declares names. -/
theorem checkRest_declares (notes : CoverNotes) (rest : Option (Node .rest)) :
    Gets (checkRest notes rest) fun _ => ∀ r ∈ rest, Declares r := by
  match rest with
  | none => rw [checkRest]; exact .ok (by simp)
  | some (.rest _ argument) =>
    rw [checkRest]
    exact (checkDeclaring_declares notes argument).imp fun _ h => by simpa using .rest h
termination_by sizeOf rest
decreasing_by
  all_goals
    simp only [Option.some.sizeOf_spec, Node.rest.sizeOf_spec]
    omega

end

section

variable {σ : Surroundings}

/-- An expression and its value become an element where they stand. -/
theorem elementOf_becomes (notes : CoverNotes) (declaring : Bool) {e : Expression}
    {pattern : Except Fault Pattern} (he : Suits (Eq σ) e)
    (hp : Gets pattern (Becomes σ declaring)) :
    Gets (elementOf notes declaring e pattern) (Becomes σ declaring) := by
  have hplain : Gets (do return .element e.span (← pattern) none) (Becomes σ declaring) :=
    .bind hp fun p hp => .pure ⟨.element hp.suits (by simp), fun hd => .element (hp.declares hd)⟩
  unfold elementOf
  split
  · rename_i span operator target value
    have htarget : Suits (Eq σ) target :=
      he.part rfl (q := ⟨.complete, target⟩) (by simp [Node.parts]) rfl
    have hvalue : Suits (Eq σ) value :=
      he.part rfl (q := ⟨.complete, value⟩) (by simp [Node.parts]) rfl
    have hel : Suits (Eq σ) (Node.element span target (some value)) :=
      .element htarget (by simpa using hvalue)
    split
    · exact .blame
    · split
      · split
        · exact .bind (checkDeclaring_declares notes target) fun _ hd =>
            .pure ⟨hel, fun _ => .element hd⟩
        · rename_i hd
          exact .pure ⟨hel, fun h => absurd h hd⟩
      · exact hplain
  · exact hplain

/-- What is spread in an object becomes a rest with a single target. -/
theorem objectRest_becomes (notes : CoverNotes) (declaring : Bool) (span : Span)
    {argument : Expression} (h : Suits (Eq σ) argument) :
    Gets (objectRest notes declaring span argument) fun r =>
      Becomes σ declaring r ∧ r.restTarget.isSingle = true := by
  unfold objectRest
  split
  · exact .blame
  · split
    · exact .ok ⟨⟨.rest .binding, fun _ => .rest .binding⟩, rfl⟩
    · rename_i hne
      split
      · rename_i hs
        rw [Bool.and_eq_true, Bool.not_eq_true'] at hs
        have hmember := Node.isPlainMember_of_isWhole h.whole hs.1 hne
        refine .ok ⟨⟨.rest (.memberTarget h hmember), fun hd => ?_⟩, rfl⟩
        rw [hs.2] at hd
        cases hd
      · exact .blame

mutual

/-- An expression becomes a pattern where it stands. -/
theorem toPattern_becomes (notes : CoverNotes) (declaring : Bool) (e : Expression)
    (he : Suits (Eq σ) e) : Gets (toPattern notes declaring e) (Becomes σ declaring) := by
  rw [toPattern.eq_def]
  split
  · exact .blame
  · split
    · exact .ok ⟨.binding, fun _ => .binding⟩
    · rename_i span elements _
      have helements : ∀ e, some e ∈ elements → SuitsLoosely (Eq σ) e := by
        intro e hm
        have hfits := he.fits σ rfl
        have hpart : (⟨.cover, e⟩ : Part) ∈ (Node.array span elements).parts :=
          List.mem_map_of_mem (List.reduceOption_mem_iff.mpr hm)
        have hadmits := hfits.admits_parts _ hpart
        refine ⟨Bool.eq_false_iff.mpr fun h => absurd (hadmits.linked h) Bool.false_ne_true,
          Bool.eq_false_iff.mpr fun h => absurd (hadmits.super h) Bool.false_ne_true, ?_⟩
        rintro _ rfl
        exact hfits.of_mem_parts _ hpart
      exact .bind (toElements_becomes notes declaring _ elements helements) fun x hx => .pure
        ⟨.arrayPattern (fun e he => (hx.1 e he).suits) fun r hr => (hx.2 r hr).suits,
          fun hd => .arrayPattern (fun e he => (hx.1 e he).declares hd)
            fun r hr => (hx.2 r hr).declares hd⟩
    · rename_i span members _
      have hmembers : ∀ m ∈ members, Suits (Eq σ) m := fun m hm =>
        he.part rfl (q := ⟨.cover, m⟩) (List.mem_map_of_mem hm) rfl
      exact .bind (toProperties_becomes notes declaring members hmembers) fun x hx => .pure
        ⟨.objectPattern (fun p hp => (hx.1 p hp).suits) fun r hr =>
          ⟨(hx.2 r hr).1.suits, (hx.2 r hr).2⟩,
          fun hd => .objectPattern (fun p hp => (hx.1 p hp).declares hd)
            fun r hr => (hx.2 r hr).1.declares hd⟩
    · rename_i hne _ _
      split
      · rename_i hs
        rw [Bool.and_eq_true, Bool.not_eq_true'] at hs
        have hmember := Node.isPlainMember_of_isWhole he.whole hs.1 hne
        refine .ok ⟨.memberTarget he hmember, fun hd => ?_⟩
        rw [hs.2] at hd
        cases hd
      · exact .blame
termination_by sizeOf e
decreasing_by
  all_goals
    subst_vars
    simp only [Node.array.sizeOf_spec, Node.object.sizeOf_spec]
    omega

/-- Expressions in an array become elements where they stand. -/
theorem toElements_becomes (notes : CoverNotes) (declaring : Bool) (array : Nat)
    (elements : List (Option Expression)) (he : ∀ e, some e ∈ elements → SuitsLoosely (Eq σ) e) :
    Gets (toElements notes declaring array elements) fun x =>
      (∀ e, some e ∈ x.1 → Becomes σ declaring e) ∧ ∀ r ∈ x.2, Becomes σ declaring r := by
  match elements with
  | [] =>
    rw [toElements.eq_1]
    exact .ok (by simp)
  | none :: more =>
    rw [toElements.eq_2]
    refine .bind (toElements_becomes notes declaring array more fun e hm =>
      he e (List.mem_cons_of_mem _ hm)) fun x hx => .pure ?_
    simpa using hx
  | some expression :: more =>
    have hfirst := he expression List.mem_cons_self
    rcases spread_cases expression with ⟨span, argument, rfl⟩ | hne
    · rw [toElements.eq_3]
      split
      · exact .blame
      · split
        · exact .blame
        · have hargument := hfirst.argument
          refine .bind (toPattern_becomes notes declaring argument hargument) fun p hp => .pure ?_
          exact ⟨by simp, by simpa using ⟨.rest hp.suits, fun hd => .rest (hp.declares hd)⟩⟩
    · rw [toElements.eq_4 _ _ _ _ _ hne]
      have hsuits := hfirst.suits (Node.isSpread_of_ne hne)
      refine .bind (elementOf_becomes notes declaring hsuits
        (toPattern_becomes notes declaring expression hsuits)) fun el hel => ?_
      refine .bind (toElements_becomes notes declaring array more fun e hm =>
        he e (List.mem_cons_of_mem _ hm)) fun x hx => .pure ⟨?_, hx.2⟩
      intro e hm
      rcases List.mem_cons.mp hm with h | h
      · cases h
        exact hel
      · exact hx.1 e h
termination_by sizeOf elements
decreasing_by
  all_goals
    subst_vars
    simp only [List.cons.sizeOf_spec, Option.some.sizeOf_spec, Node.spread.sizeOf_spec]
    omega

/-- Members of an object become properties where they stand. -/
theorem toProperties_becomes (notes : CoverNotes) (declaring : Bool)
    (members : List (Node .objectMember)) (he : ∀ m ∈ members, Suits (Eq σ) m) :
    Gets (toProperties notes declaring members) fun x =>
      (∀ p ∈ x.1, Becomes σ declaring p) ∧
        ∀ r ∈ x.2, Becomes σ declaring r ∧ r.restTarget.isSingle = true := by
  match members with
  | [] =>
    rw [toProperties.eq_1]
    exact .ok (by simp)
  | .property span key value kind method :: more =>
    have hfirst := he _ List.mem_cons_self
    have hkey : Suits (Eq σ) key :=
      hfirst.part rfl (q := ⟨.complete, key⟩) (by simp [Node.parts]) rfl
    rw [toProperties.eq_2]
    split
    · exact .blame
    · rename_i hplain
      have hvalue : Suits (Eq σ) value := by
        refine hfirst.part rfl (q := ⟨.cover, value⟩) (by simp [Node.parts]) ?_
        have hmethod : value.isMethodOf kind method = false := by
          cases value <;> first | rfl | exact Bool.eq_false_iff.mpr hplain
        show (if value.isMethodOf kind method then .objectMethod :: σ else σ) = σ
        rw [hmethod]
        rfl
      refine .bind (elementOf_becomes notes declaring hvalue
        (toPattern_becomes notes declaring value hvalue)) fun el hel => ?_
      refine .bind (toProperties_becomes notes declaring more fun m hm =>
        he m (List.mem_cons_of_mem _ hm)) fun x hx => .pure ⟨?_, hx.2⟩
      refine List.forall_mem_cons.mpr ⟨⟨.patternProperty hkey hel.suits nofun, fun hd => ?_⟩, hx.1⟩
      exact .patternProperty (hel.declares hd)
  | .shorthand span name initializer :: more =>
    have hinitializer : ∀ e ∈ initializer, Suits (Eq σ) e := fun e hm =>
      (he _ List.mem_cons_self).part rfl (q := ⟨.complete, e⟩)
        (by simpa [Node.parts] using hm) rfl
    rw [toProperties.eq_3]
    refine .bind (toProperties_becomes notes declaring more fun m hm =>
      he m (List.mem_cons_of_mem _ hm)) fun x hx => .pure ⟨?_, hx.2⟩
    refine List.forall_mem_cons.mpr ⟨⟨.shorthandProperty hinitializer, fun _ => ?_⟩, hx.1⟩
    exact .patternProperty (.element .binding)
  | .spreadMember span argument :: more =>
    have hargument : Suits (Eq σ) argument :=
      (he _ List.mem_cons_self).part rfl (q := ⟨.cover, argument⟩) (by simp [Node.parts]) rfl
    rw [toProperties.eq_4]
    split
    · exact .blame
    · refine .bind (objectRest_becomes notes declaring span hargument) fun x hx => .pure ?_
      exact ⟨by simp, by simpa using hx⟩
termination_by sizeOf members
decreasing_by
  all_goals
    simp only [List.cons.sizeOf_spec, Node.property.sizeOf_spec]
    omega

end

/-- Expressions in parentheses become parameters where they stand. -/
theorem toParameterItems_becomes (notes : CoverNotes) (trailingComma : Bool)
    (items : List Expression) (he : ∀ e ∈ items, SuitsLoosely (Eq σ) e) :
    Gets (toParameterItems notes trailingComma items) fun x =>
      (∀ e ∈ x.1, Becomes σ true e) ∧ ∀ r ∈ x.2, Becomes σ true r := by
  induction items with
  | nil =>
    rw [toParameterItems.eq_1]
    exact .ok (by simp)
  | cons expression more ih =>
    rw [List.forall_mem_cons] at he
    rcases spread_cases expression with ⟨span, argument, rfl⟩ | hne
    · rw [toParameterItems.eq_2]
      split
      · exact .blame
      · split
        · exact .blame
        · refine .bind (toPattern_becomes notes true argument he.1.argument) fun p hp => .pure ?_
          exact ⟨by simp, by simpa using ⟨.rest hp.suits, fun hd => .rest (hp.declares hd)⟩⟩
    · rw [toParameterItems.eq_3 _ _ _ _ hne]
      have hsuits := he.1.suits (Node.isSpread_of_ne hne)
      refine .bind (elementOf_becomes notes true hsuits
        (toPattern_becomes notes true expression hsuits)) fun el hel => ?_
      refine .bind (ih he.2) fun x hx => .pure ⟨?_, hx.2⟩
      exact List.forall_mem_cons.mpr ⟨hel, hx.1⟩

end

section

variable {P : Surroundings → Prop}

/-- The parameters that expressions become fit where the expressions did. -/
theorem Parenthesized.toParameters_suits (cover : Parenthesized) (notes : CoverNotes)
    (he : ∀ e ∈ cover.items, SuitsLoosely P e) :
    Gets (cover.toParameters notes) (Suits P) := by
  intro params hparams
  refine .of_at (Node.isWhole_of_ne (by simp)) fun σ hσ => ?_
  have hitems : ∀ e ∈ cover.items, SuitsLoosely (Eq σ) e := fun e hm => (he e hm).at hσ
  have hget : Gets (cover.toParameters notes) (Suits (Eq σ)) :=
    .bind (toParameterItems_becomes notes _ cover.items hitems) fun _ hx => .pure (.parameters
      (fun e he => ⟨(hx.1 e he).suits, (hx.1 e he).declares rfl⟩)
      fun r hr => ⟨(hx.2 r hr).suits, (hx.2 r hr).declares rfl⟩)
  exact hget params hparams

/-- What is no spread among the expressions in parentheses stands where they do. -/
theorem Parenthesized.toExpression_suits (cover : Parenthesized)
    (he : ∀ e ∈ cover.items, SuitsLoosely P e) : Gets cover.toExpression (Suits P) := by
  unfold toExpression
  split
  · exact .blame
  · exact .blame
  · rename_i hspread
    have hitems : ∀ e ∈ cover.items, Suits P e := by
      intro e hm
      refine (he e hm).suits ?_
      have hnone := List.find?_eq_none.mp hspread e hm
      rwa [Bool.not_eq_true, isSpread_eq] at hnone
    split
    · exact .blame
    · rename_i e hi
      exact .ok (hitems e (by simp [hi]))
    · rename_i first more hmore hi
      refine .ok (.sequence hitems ?_)
      cases more with
      | nil => exact (hmore rfl).elim
      | cons second more => simp [hi]

/-- What is assigned to stands where the expression does. -/
theorem toTarget_suits (notes : CoverNotes) (problem : Problem) {e : Expression}
    (he : Suits P e) : Gets (toTarget notes problem e) (Suits P) := by
  unfold toTarget
  extract_lets valid
  split
  · intro pattern hp
    exact .of_at (Node.isWhole_of_ne (by simp)) fun σ hσ =>
      (toPattern_becomes notes false e (he.at hσ) pattern hp).suits
  · exact .blame

/-- What an operator changes is a single target. -/
theorem toSimpleTarget_suits {e : Expression} (he : Suits P e) :
    Gets (toSimpleTarget e) fun p => Suits P p ∧ p.isSingle = true := by
  unfold toSimpleTarget
  split
  · exact .ok ⟨.binding, rfl⟩
  · rename_i hne
    split
    · rename_i hs
      exact .ok ⟨.memberTarget he (Node.isPlainMember_of_isWhole he.whole hs hne), rfl⟩
    · exact .blame

end

end Cover

end EcmaScript
