import EcmaScript.Proofs.Parser.Makes
import EcmaScript.Proofs.Syntax.Cover
import EcmaScript.Proofs.Syntax.Relocate

/-!
# Moved expressions read as patterns

Where the offsets of a text are moved, so that no two of them fall together, an expression that
can be read as a pattern can be read so behind the move. There may be fewer notes then, since
notes only speak against a reading.
-/

namespace EcmaScript

/-- Where the offsets of a text go from a base on: those at which something starts, and those at
which something stops. A statement may end elsewhere, since it ends with its semicolon. -/
structure Shift where
  /-- Offsets before this one are not moved. -/
  base : Nat
  /-- Where the start of something goes. -/
  start : Nat → Nat
  /-- Where the end of something goes. -/
  stop : Nat → Nat
  /-- Where the end of a statement goes. -/
  close : Nat → Nat
  start_inj : ∀ {a b}, base ≤ a → base ≤ b → start a = start b → a = b
  stop_inj : ∀ {a b}, base < b → stop a = stop b → a = b
  start_lt_stop : ∀ {a b}, base ≤ a → a < b → start a < stop b

namespace Shift

/-- Where a span goes. -/
def span (w : Shift) (s : Span) : Span :=
  .ofOffsets (w.start (Position.offset s.start)) (w.stop (Position.offset s.stop))

/-- Where the span of a statement goes. -/
def extent (w : Shift) (s : Span) : Span :=
  .ofOffsets (w.start (Position.offset s.start)) (w.close (Position.offset s.stop))

/-- Where the spans of the nodes of each form go. Statements, and what ends with a statement or as
one does, go where their ends do. -/
def relocation (w : Shift) : Relocation
  | .statement | .declaration | .switchCase | .classElement => w.extent
  | _ => w.span

@[simp] theorem span_ofOffsets (w : Shift) (start stop : Nat) :
    w.span (.ofOffsets start stop) = .ofOffsets (w.start start) (w.stop stop) := rfl

@[simp] theorem extent_ofOffsets (w : Shift) (start stop : Nat) :
    w.extent (.ofOffsets start stop) = .ofOffsets (w.start start) (w.close stop) := rfl

/-- The span from a first node through a last one moves with the two. -/
theorem span_through (w : Shift) {a b : Span} (ha : w.base ≤ Position.offset a.start)
    (hlt : Position.offset a.start < Position.offset b.stop) :
    w.span (a.through b) = (w.span a).through (w.span b) := by
  have hmoved : w.start (Position.offset a.start) < w.stop (Position.offset b.stop) :=
    w.start_lt_stop ha hlt
  have hmax : max b.stop a.start = b.stop := Nat.max_eq_left
    (by unfold Position.offset at hlt; omega)
  have hmax' : max (w.span b).stop (w.span a).start = (w.span b).stop :=
    Nat.max_eq_left (Nat.le_of_lt (Nat.succ_lt_succ hmoved))
  rw [Span.through, Span.through, hmax, hmax']
  rfl

end Shift

/-- Spans are equal if their ends are. -/
theorem Span.ofOffsets_inj {a b c d : Nat} : ofOffsets a b = ofOffsets c d ↔ a = c ∧ b = d := by
  rw [ofOffsets, ofOffsets, Span.mk.injEq, Position.ofOffset, Position.ofOffset,
    Nat.add_right_cancel_iff]
  exact and_congr_right fun _ => Nat.add_right_cancel_iff

/-- What is noted behind the move is noted before it. -/
structure CoverNotes.Narrow (w : Shift) (wide narrow : CoverNotes) : Prop where
  parenthesized : ∀ start stop, w.base ≤ start →
    narrow.isParenthesized (.ofOffsets (w.start start) (w.stop stop)) = true →
    wide.isParenthesized (.ofOffsets start stop) = true
  spreadComma : ∀ array, w.base ≤ array → wide.spreadComma? array = none →
    narrow.spreadComma? (w.start array) = none

namespace CoverNotes.Narrow

variable {w : Shift} {wide narrow : CoverNotes}

/-- What is not in parentheses in the first text is not so in the other. -/
theorem isParenthesized (h : Narrow w wide narrow) {start stop : Nat} (hs : w.base ≤ start)
    (hw : wide.isParenthesized (.ofOffsets start stop) = false) :
    narrow.isParenthesized (w.span (.ofOffsets start stop)) = false := by
  refine Bool.eq_false_iff.mpr fun hn => ?_
  have hp := h.parenthesized start stop hs hn
  rw [hw] at hp
  cases hp

/-- Notes of the two texts stay as they are to each other with parentheses noted in both. -/
theorem addParenthesized (h : Narrow w wide narrow) {start stop : Nat} (hs : w.base ≤ start)
    (he : w.base < stop) :
    Narrow w (wide.addParenthesized (.ofOffsets start stop))
      (narrow.addParenthesized (w.span (.ofOffsets start stop))) where
  parenthesized a b ha hab := by
    simp only [CoverNotes.isParenthesized, CoverNotes.addParenthesized, List.contains_cons,
      Bool.or_eq_true, beq_iff_eq] at hab ⊢
    rcases hab with hab | hab
    · left
      rw [Shift.span_ofOffsets, Span.ofOffsets_inj] at hab
      rw [w.start_inj ha hs hab.1, w.stop_inj he hab.2]
    · exact Or.inr (h.parenthesized a b ha hab)
  spreadComma := h.spreadComma

/-- Notes of the two texts stay as they are to each other with a comma behind a spread noted in
both. -/
theorem addSpreadComma (h : Narrow w wide narrow) {array : Nat} (comma comma' : Nat)
    (ha : w.base ≤ array) :
    Narrow w (wide.addSpreadComma array comma) (narrow.addSpreadComma (w.start array) comma') where
  parenthesized := h.parenthesized
  spreadComma a hb hw := by
    simp only [CoverNotes.spreadComma?, CoverNotes.addSpreadComma, List.lookup_cons] at hw ⊢
    split at hw
    · exact nomatch hw
    · rename_i hne
      have hne' : (w.start a == w.start array) = false := by
        rw [beq_eq_false_iff_ne] at hne ⊢
        exact fun heq => hne (w.start_inj hb ha heq)
      rw [hne']
      exact h.spreadComma a hb hw

end CoverNotes.Narrow

@[simp] theorem Node.span_relocate_expression (w : Shift) (e : Expression) :
    (e.relocate w.relocation).span = w.span e.span := by
  cases e with
  | template t => cases t; rfl
  | functionExpression f => cases f; rfl
  | classExpression c => cases c; rfl
  | _ => rfl

@[simp] theorem Node.span_relocate_pattern (w : Shift) (p : Pattern) :
    (p.relocate w.relocation).span = w.span p.span := by
  cases p with
  | memberTarget e => exact span_relocate_expression w e
  | _ => rfl

@[simp] theorem Node.isSimpleTarget_relocate (w : Shift) (e : Expression) :
    (e.relocate w.relocation).isSimpleTarget = e.isSimpleTarget := by
  cases e <;> rfl

namespace Cover

open Sketch

/-- If the first conversion succeeds, the second one gives the same further to the left. -/
def Carries {α : Type} (f : α → α) (r r' : Except Fault α) : Prop := ∀ a, r = .ok a → r' = .ok (f a)

section

variable {α β : Type}

/-- Where a conversion succeeds in both texts, the results are the same but for their places. -/
theorem Carries.ok {f : α → α} {a b : α} (h : f a = b) :
    Carries f (.ok a) (.ok b) := by
  rintro x hx
  cases hx
  rw [h]

/-- Where a conversion fails in the first text, nothing is asked of the other. -/
theorem Carries.blame {f : α → α} {problem : Problem} {offset : Nat} {r' : Except Fault α} :
    Carries f (Cover.blame problem offset) r' :=
  fun _ h => nomatch h

/-- Conversions one behind the other. -/
theorem Carries.bind {f : α → α} {g : β → β} {r r' : Except Fault α}
    {k k' : α → Except Fault β} (h : Carries f r r')
    (hk : ∀ a, r = .ok a → Carries g (k a) (k' (f a))) : Carries g (r >>= k) (r' >>= k') := by
  intro b hb
  cases r with
  | error e => exact nomatch hb
  | ok a =>
    rw [h a rfl]
    exact hk a rfl b hb

end

section

variable {w : Shift} {text : String} {lo : Nat} {hi : Front} {wide narrow : CoverNotes}

/-- An expression that is in the range of the stretch and stands in no parentheses in the first
text does not stand in any in the other one. -/
theorem isParenthesized_expression (hn : wide.Narrow w narrow) (hlo : w.base ≤ lo) {e : Expression}
    (he : EachPlaced text lo hi e.sketch) (hw : wide.isParenthesized e.span = false) :
    narrow.isParenthesized (e.relocate w.relocation).span = false := by
  obtain ⟨debt, row, parts, hparts⟩ := Node.sketch_expression e
  rw [hparts] at he
  obtain ⟨start, stop, hs, hl, hlt, -⟩ := he.of_mk
  rw [hs] at hw
  rw [Node.span_relocate_expression, hs]
  exact hn.isParenthesized (by omega) hw

/-- A pattern that is not in parentheses in the first text is not so in the other. -/
theorem isParenthesized_pattern (hn : wide.Narrow w narrow) (hlo : w.base ≤ lo) {p : Pattern}
    (hp : EachPlaced text lo hi p.sketch) (hw : wide.isParenthesized p.span = false) :
    narrow.isParenthesized (p.relocate w.relocation).span = false := by
  obtain ⟨debt, row, parts, hparts⟩ := Node.sketch_pattern p
  rw [hparts] at hp
  obtain ⟨start, stop, hs, hl, hlt, -⟩ := hp.of_mk
  rw [hs] at hw
  rw [Node.span_relocate_pattern, hs]
  exact hn.isParenthesized (by omega) hw

/-- Conversions that both begin with the question whether the node is in parentheses. -/
theorem Carries.unless {α : Type} {f : α → α} {b b' : Bool} {problem : Problem}
    {offset offset' : Nat}
    {r r' : Except Fault α} (hb : b = false → b' = false) (h : Carries f r r') :
    Carries f (if b = true then Cover.blame problem offset else r)
      (if b' = true then Cover.blame problem offset' else r') := by
  cases b with
  | true => exact .blame
  | false =>
    rw [hb rfl]
    exact h

mutual

/-- What a pattern may declare in the first text it may declare in the other. -/
theorem checkDeclaring_carries (hn : wide.Narrow w narrow) (pattern : Pattern) (lo : Nat)
    (hi : Front)
    (hlo : w.base ≤ lo) (hp : EachPlaced text lo hi pattern.sketch) :
    Carries id (checkDeclaring wide pattern)
    (checkDeclaring narrow (pattern.relocate w.relocation)) := by
  rw [checkDeclaring.eq_def wide, checkDeclaring.eq_def narrow]
  refine .unless (isParenthesized_pattern hn hlo hp) ?_
  match pattern with
  | .binding _ => exact .ok rfl
  | .memberTarget expression => exact .blame
  | .arrayPattern _ elements rest =>
    obtain ⟨start, stop, -, hl, -, -, -, -, -, -, hin⟩ := EachPlaced.of_mk hp
    rw [eachPlaced_append] at hin
    exact .bind (checkElements_carries hn elements start _ (by omega) hin.1) fun _ _ =>
      checkRest_carries hn rest start _ (by omega) hin.2
  | .objectPattern _ properties rest =>
    obtain ⟨start, stop, -, hl, -, -, -, -, -, -, hin⟩ := EachPlaced.of_mk hp
    rw [eachPlaced_append] at hin
    exact .bind (checkProperties_carries hn properties start _ (by omega) hin.1) fun _ _ =>
      checkRest_carries hn rest start _ (by omega) hin.2
termination_by sizeOf pattern
decreasing_by
  all_goals
    simp only [Node.arrayPattern.sizeOf_spec, Node.objectPattern.sizeOf_spec]
    omega

/-- The same for the elements of a pattern. -/
theorem checkElements_carries (hn : wide.Narrow w narrow)
    (elements : List (Option (Node .element))) (lo : Nat) (hi : Front) (hlo : w.base ≤ lo)
    (hp : EachPlaced text lo hi (Node.sketchOptionalElements elements)) :
    Carries id (checkElements wide elements)
      (checkElements narrow (Node.mapOptionalElements (.relocating w.relocation) elements)) := by
  match elements with
  | [] =>
    rw [checkElements, Node.mapOptionalElements, checkElements]
    exact .ok rfl
  | none :: more =>
    rw [checkElements, Node.mapOptionalElements, checkElements]
    exact checkElements_carries hn more lo hi hlo hp
  | some (.element _ target _) :: more =>
    change Carries id _ (checkElements narrow
      (some (.element _ (target.relocate w.relocation) _) :: Node.mapOptionalElements
      (.relocating w.relocation) more))
    rw [checkElements, checkElements]
    replace hp := eachPlaced_append.mp hp
    obtain ⟨start, stop, -, hl, -, -, -, -, -, -, hin⟩ := EachPlaced.of_mk hp.1
    exact .bind (checkDeclaring_carries hn target start _ (by omega) (eachPlaced_append.mp hin).1)
      fun _ _ => checkElements_carries hn more lo hi hlo hp.2
termination_by sizeOf elements
decreasing_by
  all_goals
    simp only [List.cons.sizeOf_spec, Option.some.sizeOf_spec, Node.element.sizeOf_spec]
    omega

/-- The same for its properties. -/
theorem checkProperties_carries (hn : wide.Narrow w narrow)
    (properties : List (Node .patternProperty)) (lo : Nat) (hi : Front) (hlo : w.base ≤ lo)
    (hp : EachPlaced text lo hi (Node.sketchProperties properties)) :
    Carries id (checkProperties wide properties)
      (checkProperties narrow (Node.mapProperties (.relocating w.relocation) properties)) := by
  match properties with
  | [] =>
    rw [checkProperties, Node.mapProperties, checkProperties]
    exact .ok rfl
  | .patternProperty _ _ (.element _ target _) _ :: more =>
    change Carries id _ (checkProperties narrow
      (.patternProperty _ _ (.element _ (target.relocate w.relocation) _) _ :: Node.mapProperties
      (.relocating w.relocation) more))
    rw [checkProperties, checkProperties]
    replace hp := eachPlaced_append.mp hp
    obtain ⟨start, stop, -, hl, -, -, -, -, -, -, hin⟩ := EachPlaced.of_mk hp.1
    obtain ⟨start', stop', -, hl', -, -, -, -, -, -, hin'⟩ :=
      EachPlaced.of_mk (eachPlaced_append.mp hin).2
    exact .bind
      (checkDeclaring_carries hn target start' _ (by omega) (eachPlaced_append.mp hin').1)
      fun _ _ => checkProperties_carries hn more lo hi hlo hp.2
termination_by sizeOf properties
decreasing_by
  all_goals
    simp only [List.cons.sizeOf_spec, Node.patternProperty.sizeOf_spec, Node.element.sizeOf_spec]
    omega

/-- The same for its rest. -/
theorem checkRest_carries (hn : wide.Narrow w narrow) (rest : Option (Node .rest)) (lo : Nat)
    (hi : Front)
    (hlo : w.base ≤ lo) (hp : EachPlaced text lo hi (Node.sketchRest? rest)) :
    Carries id (checkRest wide rest)
    (checkRest narrow (Node.mapRest? (.relocating w.relocation) rest)) := by
  match rest with
  | none =>
    rw [checkRest, Node.mapRest?, checkRest]
    exact .ok rfl
  | some (.rest _ argument) =>
    change Carries id _ (checkRest narrow (some (.rest _ (argument.relocate w.relocation))))
    rw [checkRest, checkRest]
    obtain ⟨start, stop, -, hl, -, -, -, -, -, -, hin⟩ := EachPlaced.of_mk hp
    exact checkDeclaring_carries hn argument start _ (by omega) hin
termination_by sizeOf rest
decreasing_by
  all_goals
    simp only [Option.some.sizeOf_spec, Node.rest.sizeOf_spec]
    omega

end

/-- An element of a pattern is made in the same way in both texts. -/
theorem elementOf_carries (hn : wide.Narrow w narrow) (declaring : Bool) (e : Expression)
    {pattern pattern' : Except Fault Pattern} (hlo : w.base ≤ lo)
    (he : EachPlaced text lo hi e.sketch)
    (hp : Carries (Node.relocate w.relocation) pattern pattern') :
    Carries (Node.relocate w.relocation) (elementOf wide declaring e pattern)
      (elementOf narrow declaring (e.relocate w.relocation) pattern') := by
  have hplain : Carries (Node.relocate w.relocation)
      (do return Node.element e.span (← pattern) none)
      (do return .element (e.relocate w.relocation).span (← pattern') none) := by
    refine .bind hp fun p _ => .ok ?_
    rw [Node.span_relocate_expression]
    rfl
  cases e with
  | assignment span operator target value =>
    unfold elementOf
    refine .unless (isParenthesized_expression hn hlo he) ?_
    split
    · obtain ⟨start, stop, -, hl, -, -, -, -, -, -, hin⟩ := EachPlaced.of_mk he
      split
      · exact .bind (checkDeclaring_carries hn target start _ (by omega)
          (eachPlaced_append.mp hin).1) fun _ _ => .ok rfl
      · exact .ok rfl
    · exact hplain
  | _ => exact hplain

/-- A node that may be in parentheses where nothing is declared. -/
theorem declaring_and_eq_false {declaring b b' : Bool} (h : b = false → b' = false)
    (hd : (declaring && b) = false) : (declaring && b') = false := by
  cases declaring with
  | false => rfl
  | true => exact h hd

/-- The rest of a pattern for an object is made in the same way in both texts. -/
theorem objectRest_carries (hn : wide.Narrow w narrow) (declaring : Bool) {span : Span}
    {argument : Expression} (hlo : w.base ≤ lo)
    (h : EachPlaced text lo hi (node span argument.sketch)) :
    Carries (Node.relocate w.relocation) (objectRest wide declaring span argument)
      (objectRest narrow declaring (w.span span) (argument.relocate w.relocation)) := by
  obtain ⟨start, stop, -, hl, -, -, -, -, -, -, hin⟩ := h.of_mk
  refine .unless (declaring_and_eq_false (isParenthesized_expression hn (by omega) hin)) ?_
  have hplain : Carries (Node.relocate w.relocation)
      (if argument.isSimpleTarget && !declaring then .ok (.rest span (.memberTarget argument))
        else blame .destructuringTarget argument.offset)
      (if (argument.relocate w.relocation).isSimpleTarget && !declaring then
          .ok (.rest (w.span span) (.memberTarget (argument.relocate w.relocation)))
        else blame .destructuringTarget (argument.relocate w.relocation).offset) := by
    rw [Node.isSimpleTarget_relocate]
    split
    · exact .ok rfl
    · exact .blame
  cases argument with
  | reference id => exact .ok rfl
  | _ => exact hplain

/-- The pair of what a list of parts becomes: elements and the rest. -/
def relocateElements (w : Shift) (r : List (Option (Node .element)) × Option (Node .rest)) :
    List (Option (Node .element)) × Option (Node .rest) :=
  (Node.mapOptionalElements (.relocating w.relocation) r.1,
    Node.mapRest? (.relocating w.relocation) r.2)

/-- The pair of what a list of members becomes: properties and the rest. -/
def relocateProperties (w : Shift) (r : List (Node .patternProperty) × Option (Node .rest)) :
    List (Node .patternProperty) × Option (Node .rest) :=
  (Node.mapProperties (.relocating w.relocation) r.1, Node.mapRest? (.relocating w.relocation) r.2)

/-- An expression other than a spread stays one. -/
theorem relocate_ne_spread {e : Expression}
    (h : ∀ span argument, e = .spread span argument → False) :
    ∀ span argument, e.relocate w.relocation = .spread span argument → False := by
  cases e with
  | spread span argument => exact absurd rfl (h span argument)
  | _ => exact fun _ _ h => nomatch h

/-- The test for what may not be in parentheses gives the same in both texts. -/
theorem isParenthesized_and_eq_false {declaring : Bool} {e : Expression} {b b' : Bool}
    (h : b = false → b' = false) (hb : (b && (declaring || !e.isSimpleTarget)) = false) :
    (b' && (declaring || !(e.relocate w.relocation).isSimpleTarget)) = false := by
  rw [Node.isSimpleTarget_relocate]
  cases hc : (declaring || !e.isSimpleTarget) with
  | false => exact Bool.and_false b'
  | true =>
    rw [hc, Bool.and_true] at hb
    rw [h hb]
    rfl

mutual

/-- An expression that is a pattern in the first text is the same one in the other. -/
theorem toPattern_carries (hn : wide.Narrow w narrow) (declaring : Bool) (e : Expression)
    (lo : Nat) (hi : Front) (hlo : w.base ≤ lo) (he : EachPlaced text lo hi e.sketch) :
    Carries (Node.relocate w.relocation) (toPattern wide declaring e)
    (toPattern narrow declaring (e.relocate w.relocation)) := by
  have hplain : Carries (Node.relocate w.relocation)
      (if e.isSimpleTarget && !declaring then .ok (.memberTarget e)
        else blame .destructuringTarget e.offset)
      (if (e.relocate w.relocation).isSimpleTarget && !declaring then .ok
      (.memberTarget (e.relocate w.relocation))
        else blame .destructuringTarget (e.relocate w.relocation).offset) := by
    rw [Node.isSimpleTarget_relocate]
    split
    · exact .ok rfl
    · exact .blame
  rw [toPattern.eq_def wide, toPattern.eq_def narrow]
  refine .unless (isParenthesized_and_eq_false (isParenthesized_expression hn hlo he)) ?_
  cases e with
  | reference id => exact .ok rfl
  | array span elements =>
    obtain ⟨start, stop, hs, hl, -, -, -, -, -, -, hin⟩ := EachPlaced.of_mk he
    refine .bind (f := relocateElements w)
      (toElements_carries hn declaring _ elements start _ (by omega) ?_ hin) fun r _ => .ok rfl
    rw [hs]
    exact Nat.le_trans hlo hl
  | object span members =>
    obtain ⟨start, stop, -, hl, -, -, -, -, -, -, hin⟩ := EachPlaced.of_mk he
    exact .bind (f := relocateProperties w)
      (toProperties_carries hn declaring members start _ (by omega) hin) fun r _ => .ok rfl
  | _ => exact hplain
termination_by sizeOf e
decreasing_by
  all_goals
    subst_vars
    simp only [Node.array.sizeOf_spec, Node.object.sizeOf_spec]
    omega

/-- Elements of an array become those of a pattern in the same way in both texts. -/
theorem toElements_carries (hn : wide.Narrow w narrow) (declaring : Bool) (array : Nat)
    (elements : List (Option Expression)) (lo : Nat) (hi : Front) (hlo : w.base ≤ lo)
    (ha : w.base ≤ array)
    (he : EachPlaced text lo hi (Node.sketchOptionals elements)) :
    Carries (relocateElements w) (toElements wide declaring array elements)
      (toElements narrow declaring (w.start array) (Node.mapOptionals (.relocating w.relocation)
      elements)) := by
  match elements with
  | [] =>
    rw [toElements.eq_1, Node.mapOptionals, toElements.eq_1]
    exact .ok rfl
  | none :: more =>
    rw [Node.mapOptionals, Node.mapExpression?, toElements.eq_2, toElements.eq_2]
    exact .bind (toElements_carries hn declaring array more lo hi hlo ha he) fun r _ => .ok rfl
  | some expression :: more =>
    replace he := eachPlaced_append.mp he
    rw [Node.mapOptionals, Node.mapExpression?]
    rcases spread_cases expression with ⟨span, argument, rfl⟩ | hne
    · change Carries _ _ (toElements narrow declaring _
        (some (.spread _ (argument.relocate w.relocation)) :: _))
      rw [toElements.eq_3, toElements.eq_3]
      have hempty : (Node.mapOptionals (.relocating w.relocation) more).isEmpty = more.isEmpty := by
        cases more <;> rfl
      rw [hempty]
      split
      · exact .blame
      · cases hw : wide.spreadComma? array with
        | some comma => exact .blame
        | none =>
          rw [hn.spreadComma array ha hw]
          obtain ⟨start, stop, hs, hl, -, -, -, -, -, -, hin⟩ := EachPlaced.of_mk he.1
          exact .bind (toPattern_carries hn declaring argument start _ (by omega) hin)
            fun p _ => .ok rfl
    · rw [toElements.eq_4 _ _ _ _ _ hne, toElements.eq_4 _ _ _ _ _ (relocate_ne_spread hne)]
      refine .bind (elementOf_carries hn declaring expression hlo he.1
        (toPattern_carries hn declaring expression lo hi hlo he.1)) fun element _ => ?_
      exact .bind (toElements_carries hn declaring array more lo hi hlo ha he.2) fun r _ => .ok rfl
termination_by sizeOf elements
decreasing_by
  all_goals
    subst_vars
    simp only [List.cons.sizeOf_spec, Option.some.sizeOf_spec, Node.spread.sizeOf_spec]
    omega

/-- Members of an object become properties of a pattern in the same way in both texts. -/
theorem toProperties_carries (hn : wide.Narrow w narrow) (declaring : Bool)
    (members : List (Node .objectMember)) (lo : Nat) (hi : Front) (hlo : w.base ≤ lo)
    (he : EachPlaced text lo hi (Node.sketchMembers members)) :
    Carries (relocateProperties w) (toProperties wide declaring members)
      (toProperties narrow declaring (Node.mapMembers (.relocating w.relocation) members)) := by
  match members with
  | [] =>
    rw [toProperties.eq_1, Node.mapMembers, toProperties.eq_1]
    exact .ok rfl
  | .property span key value kind method :: more =>
    change Carries _ _ (toProperties narrow declaring
      (.property _ (key.relocate w.relocation) (value.relocate w.relocation) kind method ::
      Node.mapMembers (.relocating w.relocation) more))
    rw [toProperties.eq_2, toProperties.eq_2]
    replace he := eachPlaced_append.mp he
    split
    · exact .blame
    · obtain ⟨start, stop, -, hl, -, -, -, -, -, -, hin⟩ := EachPlaced.of_mk he.1
      rw [eachPlaced_append] at hin
      refine .bind (elementOf_carries hn declaring value (by omega) hin.2
        (toPattern_carries hn declaring value start _ (by omega) hin.2)) fun element _ => ?_
      exact .bind (toProperties_carries hn declaring more lo hi hlo he.2) fun r _ => .ok rfl
  | .shorthand span name initializer :: more =>
    change Carries _ _ (toProperties narrow declaring
      (.shorthand _ (name.relocate w.span) (Node.mapExpression? (.relocating w.relocation)
      initializer) :: Node.mapMembers (.relocating w.relocation) more))
    rw [toProperties.eq_3, toProperties.eq_3]
    replace he := eachPlaced_append.mp he
    exact .bind (toProperties_carries hn declaring more lo hi hlo he.2) fun r _ => .ok rfl
  | .spreadMember span argument :: more =>
    change Carries _ _ (toProperties narrow declaring
      (.spreadMember _ (argument.relocate w.relocation) :: Node.mapMembers
      (.relocating w.relocation) more))
    rw [toProperties.eq_4, toProperties.eq_4]
    replace he := eachPlaced_append.mp he
    have hempty : (Node.mapMembers (.relocating w.relocation) more).isEmpty = more.isEmpty := by
      cases more <;> rfl
    rw [hempty]
    split
    · exact .blame
    · exact .bind (objectRest_carries hn declaring hlo he.1) fun r _ => .ok rfl
termination_by sizeOf members
decreasing_by
  all_goals
    simp only [List.cons.sizeOf_spec, Node.property.sizeOf_spec]
    omega

end

/-- An expression becomes an element in the same way in both texts. -/
theorem toElement_carries (hn : wide.Narrow w narrow) (declaring : Bool) (e : Expression)
    (hlo : w.base ≤ lo) (he : EachPlaced text lo hi e.sketch) :
    Carries (Node.relocate w.relocation) (toElement wide declaring e)
    (toElement narrow declaring (e.relocate w.relocation)) :=
  elementOf_carries hn declaring e hlo he (toPattern_carries hn declaring e lo hi hlo he)

/-- The pair of what expressions become: parameters and the rest. -/
def relocateParameters (w : Shift) (r : List (Node .element) × Option (Node .rest)) :
    List (Node .element) × Option (Node .rest) :=
  (Node.mapElements (.relocating w.relocation) r.1, Node.mapRest? (.relocating w.relocation) r.2)

/-- An assignment is one wherever it stands. -/
theorem isAssignment_relocate (w : Shift) (e : Expression) :
    isAssignment (e.relocate w.relocation) = isAssignment e := by
  cases e <;> rfl

/-- What is spread is so wherever it stands. -/
theorem isSpread_relocate (w : Shift) (e : Expression) : isSpread (e.relocate w.relocation) =
    isSpread e := by
  cases e <;> rfl

/-- Items in parentheses become parameters in the same way in both texts. -/
theorem toParameterItems_carries (hn : wide.Narrow w narrow) (trailingComma : Bool)
    (items : List Expression) (hlo : w.base ≤ lo)
    (he : EachPlaced text lo hi (Node.sketchExpressions items)) :
    Carries (relocateParameters w) (toParameterItems wide trailingComma items)
      (toParameterItems narrow trailingComma (Node.mapExpressions (.relocating w.relocation)
      items)) := by
  induction items with
  | nil =>
    rw [toParameterItems.eq_1, Node.mapExpressions, toParameterItems.eq_1]
    exact .ok rfl
  | cons e more ih =>
    replace he := eachPlaced_append.mp he
    rw [Node.mapExpressions]
    rcases spread_cases e with ⟨span, argument, rfl⟩ | hne
    · change Carries _ _ (toParameterItems narrow trailingComma
        (.spread _ (argument.relocate w.relocation) :: _))
      rw [toParameterItems.eq_2, toParameterItems.eq_2, isAssignment_relocate]
      have hempty : (Node.mapExpressions (.relocating w.relocation) more).isEmpty =
        more.isEmpty := by
        cases more <;> rfl
      rw [hempty]
      split
      · exact .blame
      · split
        · exact .blame
        · obtain ⟨start, stop, -, hl, -, -, -, -, -, -, hin⟩ := EachPlaced.of_mk he.1
          exact .bind (toPattern_carries hn true argument start _ (by omega) hin)
            fun p _ => .ok rfl
    · rw [toParameterItems.eq_3 _ _ _ _ hne, toParameterItems.eq_3 _ _ _ _ (relocate_ne_spread hne)]
      refine .bind (toElement_carries hn true e hlo he.1) fun element _ => ?_
      exact .bind (ih he.2) fun r _ => .ok rfl

/-- Expressions in parentheses so many bytes further to the left. -/
def Parenthesized.relocate (w : Shift) (cover : Parenthesized) : Parenthesized :=
  { span := w.span cover.span
    items := Node.mapExpressions (.relocating w.relocation) cover.items
    trailingComma := cover.trailingComma.map w.start }

/-- Expressions that are parameters in the first text are so in the other. -/
theorem Parenthesized.toParameters_carries (hn : wide.Narrow w narrow) (cover : Parenthesized)
    (hlo : w.base ≤ lo) (he : EachPlaced text lo hi (Node.sketchExpressions cover.items)) :
    Carries (Node.relocate w.relocation) (cover.toParameters wide)
    ((cover.relocate w).toParameters narrow) := by
  have htrailing : (cover.relocate w).trailingComma.isSome = cover.trailingComma.isSome :=
    Option.isSome_map
  rw [toParameters, toParameters, htrailing]
  exact .bind (toParameterItems_carries hn _ cover.items hlo he) fun r _ => .ok rfl

/-- Expressions in parentheses are the same expression in the other text. -/
theorem Parenthesized.toExpression_carries {cover : Parenthesized} (hlo : w.base ≤ lo)
    (ho : Parser.InOrder text Node.sketch lo hi cover.items) :
    Carries (Node.relocate w.relocation) cover.toExpression (cover.relocate w).toExpression := by
  obtain ⟨span, items, trailingComma⟩ := cover
  cases trailingComma with
  | some offset => exact .blame
  | none =>
    have hspread : (Node.mapExpressions (.relocating w.relocation) items).find? isSpread =
        (items.find? isSpread).map (Node.relocate w.relocation) := by
      rw [Node.mapExpressions_eq, List.find?_map]
      exact congrArg (fun p => (items.find? p).map (Node.relocate w.relocation))
        (funext (isSpread_relocate w))
    unfold Parenthesized.toExpression
    simp only [Parenthesized.relocate, hspread, Option.map_none]
    cases items.find? isSpread with
    | some spread => exact .blame
    | none =>
      match items with
      | [] => exact .blame
      | [e] => exact .ok rfl
      | first :: second :: more =>
        have hlast : (Node.mapExpressions (.relocating w.relocation) (second :: more)).getLast?.getD
          (first.relocate w.relocation) =
            Node.relocate w.relocation ((second :: more).getLast?.getD first) := by
          rw [Node.mapExpressions_eq, List.getLast?_map, Option.getD_map]
        have hfirst : w.base ≤ Position.offset first.span.start ∧ Position.offset first.span.start <
            Position.offset ((second :: more).getLast?.getD first).span.stop := by
          obtain ⟨start, stop, hs, he, hl, hlt, -⟩ := ho.covered Node.sketch_expression
          rw [List.getLast_eq_getLastD, List.getLastD_eq_getLast?] at he
          rw [Position.offset, Position.offset, hs, he]
          omega
        simp only [Node.mapExpressions] at hlast ⊢
        rw [hlast, Node.span_relocate_expression, Node.span_relocate_expression,
          ← w.span_through hfirst.1 hfirst.2]
        exact .ok rfl

/-- An expression becomes a target in the same way in both texts. -/
theorem toTarget_carries (hn : wide.Narrow w narrow) {problem problem' : Problem} (e : Expression)
    (hlo : w.base ≤ lo) (he : EachPlaced text lo hi e.sketch) :
    Carries (Node.relocate w.relocation) (toTarget wide problem e)
    (toTarget narrow problem' (e.relocate w.relocation)) := by
  have hparenthesized := isParenthesized_expression hn hlo he
  have hnot : (!wide.isParenthesized e.span) = true →
      (!narrow.isParenthesized (e.relocate w.relocation).span) = true := by
    intro h
    rw [hparenthesized (Bool.not_eq_true' _ ▸ h)]
    rfl
  have hpattern := toPattern_carries hn false e lo hi hlo he
  unfold toTarget
  extract_lets valid valid'
  have hvalid : valid = true → valid' = true := by
    cases e with
    | array span elements => exact hnot
    | object span members => exact hnot
    | reference id => exact fun _ => rfl
    | member span base name optional => exact fun _ => rfl
    | index span base key optional => exact fun _ => rfl
    | _ => exact fun h => nomatch h
  cases hv : valid with
  | false => exact .blame
  | true =>
    rw [hvalid hv]
    exact hpattern

/-- The target of a compound assignment is the same in the other text. -/
theorem toSimpleTarget_carries (e : Expression) :
    Carries (Node.relocate w.relocation) (toSimpleTarget e)
    (toSimpleTarget (e.relocate w.relocation)) := by
  have hplain : Carries (Node.relocate w.relocation)
      (if e.isSimpleTarget then .ok (.memberTarget e) else blame .assignmentTarget e.offset)
      (if (e.relocate w.relocation).isSimpleTarget then .ok
      (.memberTarget (e.relocate w.relocation))
        else blame .assignmentTarget (e.relocate w.relocation).offset) := by
    rw [Node.isSimpleTarget_relocate]
    split
    · exact .ok rfl
    · exact .blame
  cases e with
  | reference id => exact .ok rfl
  | _ => exact hplain

end

end Cover

end EcmaScript
