import EcmaScript.Number.Numeral
import EcmaScript.Proofs.Syntax.Parts
import EcmaScript.Proofs.Syntax.Outline

/-!
# Sketches of syntax trees

The sketch of a tree is its outline together with what its nodes owe to the tokens: a name or a
literal is one of the tokens that were taken, a statement that may end without a semicolon has
one or ends where it was implied, and an element without a default stands where its target
stands. A sketch is placed in a text, in front of what a parser has come to, when its spans lie
there on character boundaries, hold the spans of their parts, one behind the other, and what is
owed is there. Two nodes have their parts in another order: a template has its pieces before the
expressions between them, and a shorthand in an object pattern has one name twice.
-/

namespace EcmaScript

/-- What a parser has come to. -/
structure Front where
  /-- The offset behind the token that was taken last. -/
  stop : Nat
  /-- The tokens that were taken. -/
  taken : List Token
  /-- The offsets at which a semicolon was implied. -/
  implied : List Nat

namespace Front

/-- The second one was come to later. -/
structure Upto (a b : Front) : Prop where
  stop : a.stop ≤ b.stop
  taken : ∀ t ∈ a.taken, t ∈ b.taken
  implied : ∀ offset ∈ a.implied, offset ∈ b.implied

/-- What was come to, up to an earlier offset. -/
def upTo (front : Front) (stop : Nat) : Front := { front with stop }

/-- A statement ends at the offset: a semicolon ends there, or was implied there. -/
def Ends (front : Front) (stop : Nat) : Prop :=
  (∃ t ∈ front.taken, t.kind = .mark .semicolon ∧ t.stop.offset = stop) ∨ stop ∈ front.implied

/-- What was come to was come to no later. -/
theorem Upto.refl (a : Front) : a.Upto a := ⟨Nat.le_refl _, fun _ h => h, fun _ h => h⟩

/-- What was come to later was so up to an earlier offset. -/
theorem Upto.upTo {a b : Front} (h : a.Upto b) (stop : Nat) : (a.upTo stop).Upto (b.upTo stop) :=
  ⟨Nat.le_refl _, h.taken, h.implied⟩

/-- What was come to up to an earlier offset was come to earlier. -/
theorem upto_of_le (front : Front) {stop : Nat} (h : stop ≤ front.stop) :
    (front.upTo stop).Upto front := ⟨h, fun _ ht => ht, fun _ ho => ho⟩

/-- Where a statement ends it still ends later on. -/
theorem Ends.mono {a b : Front} {stop : Nat} (h : a.Ends stop) (hab : a.Upto b) : b.Ends stop := by
  rcases h with ⟨t, ht, hk, hstop⟩ | h
  · exact Or.inl ⟨t, hab.taken t ht, hk, hstop⟩
  · exact Or.inr (hab.implied stop h)

end Front

/-- What a node owes besides its place. -/
inductive Debt where
  /-- Nothing. -/
  | none
  /-- A fact about the tree. -/
  | fact (holds : Prop)
  /-- A token that it is. -/
  | token (is : Token → Prop)
  /-- The end of a statement. -/
  | ending

/-- What the node that ends at an offset owes is there. -/
def Debt.Paid (debt : Debt) (stop : Nat) (front : Front) : Prop :=
  match debt with
  | none => True
  | fact holds => holds
  | token is => ∃ t ∈ front.taken, is t
  | ending => front.Ends stop

/-- What was paid is still paid later on. -/
theorem Debt.Paid.mono {debt : Debt} {stop : Nat} {a b : Front} (h : debt.Paid stop a)
    (hab : a.Upto b) : debt.Paid stop b := by
  cases debt with
  | none => trivial
  | fact => exact h
  | token =>
    obtain ⟨t, ht, his⟩ := h
    exact ⟨t, hab.taken t ht, his⟩
  | ending => exact Front.Ends.mono h hab

/-- The second span starts where the first one ends, or behind it. -/
def Span.Precedes (a b : Span) : Prop := a.stop ≤ b.start

/-- The spans of a node and of all that it consists of, with what the nodes owe. -/
inductive Sketch where
  /-- A node with its parts; `solid` when its span may not be empty. The spans in the `row` stand
  one behind the other. -/
  | mk (span : Span) (solid : Bool) (debt : Debt) (row : List Span) (parts : List Sketch)

namespace Sketch

/-- The span of the node. -/
def span : Sketch → Span
  | mk span _ _ _ _ => span

/-- A node that owes something, with parts one behind the other. -/
def owing (span : Span) (debt : Debt) (parts : List Sketch) : List Sketch :=
  [mk span true debt (parts.map Sketch.span) parts]

/-- A node with parts one behind the other. -/
def node (span : Span) (parts : List Sketch) : List Sketch := owing span .none parts

/-- A node that is a token. -/
def leaf (span : Span) (is : Token → Prop) : List Sketch := owing span (.token is) []

/-- `Placed text lo front sketch` says that all spans of the sketch lie where they should,
between the offset `lo` of the text and what was come to, and that nothing is owed. -/
inductive Placed (text : String) : Nat → Front → Sketch → Prop where
  | mk {lo start stop : Nat} {front : Front} {solid : Bool} {debt : Debt} {row : List Span}
      {parts : List Sketch} :
      lo ≤ start → stop ≤ front.stop → start ≤ stop → (solid = true → start < stop) →
      IsBoundary text start → IsBoundary text stop → debt.Paid stop front →
      row.Pairwise Span.Precedes →
      (∀ part ∈ parts, Placed text start (front.upTo stop) part) →
      Placed text lo front (mk (.ofOffsets start stop) solid debt row parts)

/-- Each of the sketches is placed. -/
def EachPlaced (text : String) (lo : Nat) (front : Front) (sketches : List Sketch) : Prop :=
  ∀ sketch ∈ sketches, sketch.Placed text lo front

/-- All of the sketches are placed, one behind the other. -/
structure AllPlaced (text : String) (lo : Nat) (front : Front) (sketches : List Sketch) : Prop
    where
  each : EachPlaced text lo front sketches
  inRow : (sketches.map span).Pairwise Span.Precedes

section

variable {text : String} {lo lo' mid : Nat} {front front' : Front} {xs ys : List Sketch}

/-- What is placed is so in more of the text. -/
theorem Placed.mono {sketch : Sketch} (h : sketch.Placed text lo front) (hl : lo' ≤ lo)
    (hf : front.Upto front') : sketch.Placed text lo' front' := by
  induction h generalizing lo' front' with
  | mk h1 h2 h3 h4 h5 h6 h7 h8 _ ih =>
    exact .mk (Nat.le_trans hl h1) (Nat.le_trans h2 hf.stop) h3 h4 h5 h6 (h7.mono hf) h8
      fun part hp => ih part hp (Nat.le_refl _) (hf.upTo _)

/-- What is placed stands between two places. -/
theorem Placed.exists_span {sketch : Sketch} (h : sketch.Placed text lo front) :
    ∃ start stop, sketch.span = .ofOffsets start stop ∧ lo ≤ start ∧ start ≤ stop ∧
      stop ≤ front.stop := by
  cases h with
  | mk h1 h2 h3 _ _ _ _ _ _ => exact ⟨_, _, rfl, h1, h3, h2⟩

/-- A placed node has its parts between its ends. -/
theorem Placed.inside {span : Span} {solid : Bool} {debt : Debt} {row : List Span}
    {parts : List Sketch} (h : (Sketch.mk span solid debt row parts).Placed text lo front) :
    ∃ start stop, span = .ofOffsets start stop ∧ start ≤ stop ∧ row.Pairwise Span.Precedes ∧
      ∀ part ∈ parts, part.Placed text start (front.upTo stop) := by
  cases h with
  | mk _ _ h3 _ _ _ _ h8 h9 => exact ⟨_, _, rfl, h3, h8, h9⟩

/-- What is placed is so in less of the text, as long as it stands there. -/
theorem Placed.narrow {sketch : Sketch} (h : sketch.Placed text lo front) {hi : Nat}
    (hl : lo' + 1 ≤ sketch.span.start) (hh : sketch.span.stop ≤ hi + 1) :
    sketch.Placed text lo' (front.upTo hi) := by
  cases h with
  | @mk _ _ _ _ _ debt _ _ _ _ h3 h4 h5 h6 h7 h8 h9 =>
    refine .mk (Nat.le_of_succ_le_succ hl) (Nat.le_of_succ_le_succ hh) h3 h4 h5 h6 ?_ h8 h9
    cases debt <;> exact h7

/-- What is each placed is so in more of the text. -/
theorem EachPlaced.mono (h : EachPlaced text lo front xs) (hl : lo' ≤ lo)
    (hf : front.Upto front') : EachPlaced text lo' front' xs :=
  fun sketch hs => (h sketch hs).mono hl hf

@[simp] theorem eachPlaced_nil : EachPlaced text lo front [] :=
  fun _ hs => absurd hs List.not_mem_nil

@[simp] theorem eachPlaced_append :
    EachPlaced text lo front (xs ++ ys) ↔
      EachPlaced text lo front xs ∧ EachPlaced text lo front ys := by
  simp only [EachPlaced, List.mem_append, or_imp, forall_and]

@[simp] theorem eachPlaced_flatMap {α : Type} {f : α → List Sketch} {as : List α} :
    EachPlaced text lo front (as.flatMap f) ↔ ∀ x ∈ as, EachPlaced text lo front (f x) := by
  constructor
  · intro h x hx sketch hs
    exact h sketch (List.mem_flatMap.mpr ⟨x, hx, hs⟩)
  · intro h sketch hs
    obtain ⟨x, hx, hs⟩ := List.mem_flatMap.mp hs
    exact h x hx sketch hs

/-- A placed node has its parts within its own span, the span between the offsets, and owes
nothing. -/
theorem EachPlaced.of_mk {span : Span} {debt : Debt} {row : List Span} {parts : List Sketch}
    (h : EachPlaced text lo front [mk span true debt row parts]) :
    ∃ start stop, span = .ofOffsets start stop ∧ lo ≤ start ∧ start < stop ∧ stop ≤ front.stop ∧
      IsBoundary text start ∧ IsBoundary text stop ∧ debt.Paid stop front ∧
      row.Pairwise Span.Precedes ∧ EachPlaced text start (front.upTo stop) parts := by
  cases h _ (List.mem_singleton.mpr rfl) with
  | @mk _ start stop _ _ _ _ _ h1 h2 h3 h4 h5 h6 h7 h8 h9 =>
    exact ⟨start, stop, rfl, h1, h4 rfl, h2, h5, h6, h7, h8, h9⟩

/-- What all is placed is so in more of the text. -/
theorem AllPlaced.mono (h : AllPlaced text lo front xs) (hl : lo' ≤ lo)
    (hf : front.Upto front') : AllPlaced text lo' front' xs :=
  ⟨h.each.mono hl hf, h.inRow⟩

@[simp] theorem allPlaced_nil : AllPlaced text lo front [] := ⟨eachPlaced_nil, .nil⟩

/-- One sketch alone is in a row. -/
theorem EachPlaced.single {sketch : Sketch} (h : EachPlaced text lo front [sketch]) :
    AllPlaced text lo front [sketch] := ⟨h, List.pairwise_singleton _ _⟩

/-- One sketch is placed in a row if it is placed. -/
theorem allPlaced_singleton {sketch : Sketch} :
    AllPlaced text lo front [sketch] ↔ sketch.Placed text lo front :=
  ⟨fun h => h.each sketch (List.mem_singleton.mpr rfl),
    fun h => EachPlaced.single (List.forall_mem_singleton.mpr h)⟩

/-- Sketches in front of an offset and others behind it. -/
theorem AllPlaced.append (hx : AllPlaced text lo front' xs) (hy : AllPlaced text mid front ys)
    (hl : lo ≤ mid) (hm : front'.stop ≤ mid) (hf : front'.Upto front) :
    AllPlaced text lo front (xs ++ ys) where
  each := eachPlaced_append.mpr ⟨hx.each.mono (Nat.le_refl lo) hf, hy.each.mono hl (.refl _)⟩
  inRow := by
    rw [List.map_append, List.pairwise_append]
    refine ⟨hx.inRow, hy.inRow, fun a ha b hb => ?_⟩
    obtain ⟨x, hmem, rfl⟩ := List.mem_map.mp ha
    obtain ⟨y, hmem', rfl⟩ := List.mem_map.mp hb
    obtain ⟨_, stop, hs, -, -, hstop⟩ := (hx.each x hmem).exists_span
    obtain ⟨start, _, hs', hstart, -, -⟩ := (hy.each y hmem').exists_span
    rw [hs, hs']
    exact Nat.add_le_add_right (Nat.le_trans hstop (Nat.le_trans hm hstart)) 1

/-- Sketches in a row can be parted at an offset. -/
theorem AllPlaced.split (h : AllPlaced text lo front (xs ++ ys)) (hlo : lo ≤ front.stop) :
    ∃ mid, lo ≤ mid ∧ mid ≤ front.stop ∧ AllPlaced text lo (front.upTo mid) xs ∧
      AllPlaced text mid front ys := by
  induction xs generalizing lo with
  | nil => exact ⟨lo, Nat.le_refl lo, hlo, allPlaced_nil, h⟩
  | cons x xs ih =>
    obtain ⟨hx, hmore⟩ := List.forall_mem_cons.mp h.each
    obtain ⟨hbehind, hrow⟩ := List.pairwise_cons.mp h.inRow
    obtain ⟨start, stop, hspan, hstart, hle, hstop⟩ := hx.exists_span
    have hrest : AllPlaced text stop front (xs ++ ys) := by
      refine ⟨fun y hy => ?_, hrow⟩
      have hy' : x.span.stop ≤ y.span.start := hbehind _ (List.mem_map_of_mem hy)
      obtain ⟨_, _, hs, -, -, hhi⟩ := (hmore y hy).exists_span
      have hend : y.span.stop ≤ front.stop + 1 := by
        rw [hs]
        exact Nat.succ_le_succ hhi
      rw [hspan] at hy'
      exact (hmore y hy).narrow hy' hend
    obtain ⟨mid, hmid, hhi, hxs, hys⟩ := ih hrest hstop
    have hfirst : AllPlaced text lo (front.upTo stop) [x] :=
      allPlaced_singleton.mpr (hx.narrow (by rw [hspan]; exact Nat.succ_le_succ hstart)
        (by rw [hspan]; exact Nat.le_refl _))
    refine ⟨mid, Nat.le_trans hstart (Nat.le_trans hle hmid), hhi, ?_, hys⟩
    exact hfirst.append hxs (Nat.le_trans hstart hle) (Nat.le_refl stop)
      ((front.upTo mid).upto_of_le hmid)

/-- A node is placed when its parts are placed within its own span and it owes nothing more. -/
theorem allPlaced_mk {start stop : Nat} {debt : Debt} {row : List Span} {parts : List Sketch}
    (hl : lo ≤ start) (hlt : start < stop) (hh : stop ≤ front.stop) (hs : IsBoundary text start)
    (he : IsBoundary text stop) (hd : debt.Paid stop front) (hr : row.Pairwise Span.Precedes)
    (hp : EachPlaced text start (front.upTo stop) parts) :
    AllPlaced text lo front [mk (.ofOffsets start stop) true debt row parts] :=
  allPlaced_singleton.mpr (.mk hl hh (Nat.le_of_lt hlt) (fun _ => hlt) hs he hd hr hp)

/-- A node with parts one behind the other. -/
theorem allPlaced_owing {start stop : Nat} {debt : Debt} {parts : List Sketch} (hl : lo ≤ start)
    (hlt : start < stop) (hh : stop ≤ front.stop) (hs : IsBoundary text start)
    (he : IsBoundary text stop) (hd : debt.Paid stop front)
    (hp : AllPlaced text start (front.upTo stop) parts) :
    AllPlaced text lo front (owing (.ofOffsets start stop) debt parts) :=
  allPlaced_mk hl hlt hh hs he hd hp.inRow hp.each

/-- A node that owes nothing is placed when its parts are. -/
theorem allPlaced_node {start stop : Nat} {parts : List Sketch} (hl : lo ≤ start)
    (hlt : start < stop) (hh : stop ≤ front.stop) (hs : IsBoundary text start)
    (he : IsBoundary text stop) (hp : AllPlaced text start (front.upTo stop) parts) :
    AllPlaced text lo front (node (.ofOffsets start stop) parts) :=
  allPlaced_owing hl hlt hh hs he trivial hp

/-- A placed node has its parts within its own span, one behind the other, and owes nothing. -/
theorem AllPlaced.of_owing {span : Span} {debt : Debt} {parts : List Sketch}
    (h : AllPlaced text lo front (owing span debt parts)) :
    ∃ start stop, span = .ofOffsets start stop ∧ lo ≤ start ∧ start < stop ∧ stop ≤ front.stop ∧
      IsBoundary text start ∧ IsBoundary text stop ∧ debt.Paid stop front ∧
      AllPlaced text start (front.upTo stop) parts := by
  obtain ⟨start, stop, h1, h2, h3, h4, h5, h6, h7, h8, h9⟩ := EachPlaced.of_mk h.each
  exact ⟨start, stop, h1, h2, h3, h4, h5, h6, h7, h9, h8⟩

/-- What is true of the tree is never owed. -/
theorem AllPlaced.fact {span : Span} {debt : Debt} {parts : List Sketch} {holds : Prop}
    (h : AllPlaced text lo front (owing span debt parts)) (hf : holds) :
    AllPlaced text lo front (owing span (.fact holds) parts) := by
  obtain ⟨start, stop, rfl, h1, h2, h3, h4, h5, -, h7⟩ := h.of_owing
  exact allPlaced_owing h1 h2 h3 h4 h5 hf h7

/-- What is placed and owes something is placed. -/
theorem AllPlaced.unowed {span : Span} {debt : Debt} {parts : List Sketch}
    (h : AllPlaced text lo front (owing span debt parts)) :
    AllPlaced text lo front (node span parts) := by
  obtain ⟨start, stop, rfl, hl, hlt, hh, hs, he, -, hp⟩ := h.of_owing
  exact allPlaced_node hl hlt hh hs he hp

/-- A placed node has its parts within its own span, one behind the other. -/
theorem AllPlaced.of_node {span : Span} {parts : List Sketch}
    (h : AllPlaced text lo front (node span parts)) :
    ∃ start stop, span = .ofOffsets start stop ∧ lo ≤ start ∧ start < stop ∧ stop ≤ front.stop ∧
      IsBoundary text start ∧ IsBoundary text stop ∧
      AllPlaced text start (front.upTo stop) parts := by
  obtain ⟨start, stop, h1, h2, h3, h4, h5, h6, -, h8⟩ := h.of_owing
  exact ⟨start, stop, h1, h2, h3, h4, h5, h6, h8⟩

end

end Sketch

open Sketch

/-- The name is a token. -/
structure Identifier.IsToken (id : Identifier) (t : Token) : Prop where
  kind : t.kind.isIdentifierName = true
  span : id.span = t.span
  name : id.name = t.value

/-- The private name is a token. -/
structure PrivateName.IsToken (name : PrivateName) (t : Token) : Prop where
  kind : t.kind = .privateName
  span : name.span = t.span
  name : name.name = t.value

/-- The name behind a dot is a token. -/
def MemberName.IsToken : MemberName → Token → Prop
  | identifier id => id.IsToken
  | hidden name => name.IsToken

/-- The number is a token. -/
structure NumberLiteral.IsToken (literal : NumberLiteral) (t : Token) : Prop where
  kind : t.kind = .number
  span : literal.span = t.span
  value : literal.value = Numeral.value t.text
  raw : literal.raw = t.text

/-- The big integer is a token. -/
structure BigIntLiteral.IsToken (literal : BigIntLiteral) (t : Token) : Prop where
  kind : t.kind = .bigInt
  span : literal.span = t.span
  raw : literal.raw = t.text

/-- The string is a token. -/
structure StringLiteral.IsToken (literal : StringLiteral) (t : Token) : Prop where
  kind : t.kind = .string
  span : literal.span = t.span
  value : literal.value = t.value
  raw : literal.raw = t.text

/-- The regular expression is a token. -/
structure RegexLiteral.IsToken (literal : RegexLiteral) (t : Token) : Prop where
  kind : t.kind = .regex
  span : literal.span = t.span
  pattern : literal.pattern = t.value
  flags : literal.flags = t.raw

/-- The word at a span is a token. -/
structure Span.IsWord (span : Span) (w : Keyword) (t : Token) : Prop where
  kind : t.kind = .word w
  span : span = t.span

/-- The name is the word `new`. -/
structure Identifier.IsNew (id : Identifier) (t : Token) : Prop where
  kind : t.kind = .word .newKw
  span : id.span = t.span
  name : id.name = "new"

/-- The piece of a template is what a token has between its marks. -/
structure TemplateElement.IsToken (element : TemplateElement) (t : Token) : Prop where
  kind : t.kind.isTemplate = true
  span : element.span = .ofOffsets (t.start.offset + 1)
    (max (t.stop.offset - t.closing) (t.start.offset + 1))
  raw : element.raw = t.raw

/-- The sketch of a piece of a template, the only node that may be empty. -/
def TemplateElement.sketch (element : TemplateElement) : List Sketch :=
  [.mk element.span false (.token element.IsToken) [] []]

/-- The sketches of the pieces of a template with those of the expressions between them. -/
def TemplateElement.inTurn : List TemplateElement → List (List Sketch) → List Sketch
  | [], xs => xs.flatten
  | e :: more, [] => e.sketch ++ inTurn more []
  | e :: more, x :: xs => e.sketch ++ (x ++ inTurn more xs)

/-- The sketches in turn are those of the pieces and those of the expressions. -/
theorem TemplateElement.inTurn_perm (quasis : List TemplateElement) (xs : List (List Sketch)) :
    (inTurn quasis xs).Perm (quasis.flatMap sketch ++ xs.flatten) := by
  induction quasis generalizing xs with
  | nil => exact .refl _
  | cons e more ih =>
    rw [List.flatMap_cons, List.append_assoc]
    cases xs with
    | nil => exact (ih []).append_left e.sketch
    | cons x xs =>
      refine List.Perm.append_left e.sketch (((ih xs).append_left x).trans ?_)
      exact List.perm_append_comm_assoc x (more.flatMap sketch) xs.flatten

/-- One more piece behind as many expressions as pieces. -/
theorem TemplateElement.inTurn_piece {quasis : List TemplateElement} {xs : List (List Sketch)}
    (h : quasis.length = xs.length) (e : TemplateElement) :
    inTurn (quasis ++ [e]) xs = inTurn quasis xs ++ e.sketch := by
  induction quasis generalizing xs with
  | nil =>
    rw [List.eq_nil_of_length_eq_zero h.symm]
    exact List.append_nil _
  | cons first more ih =>
    cases xs with
    | nil => exact absurd h (Nat.succ_ne_zero _)
    | cons x xs =>
      rw [List.cons_append, inTurn, inTurn, ih (Nat.succ.inj h), List.append_assoc,
        List.append_assoc]

/-- One more expression behind the last piece. -/
theorem TemplateElement.inTurn_expression {quasis : List TemplateElement}
    {xs : List (List Sketch)} (h : quasis.length = xs.length + 1) (x : List Sketch) :
    inTurn quasis (xs ++ [x]) = inTurn quasis xs ++ x := by
  induction quasis generalizing xs with
  | nil => exact absurd h.symm (Nat.succ_ne_zero _)
  | cons e more ih =>
    cases xs with
    | nil =>
      rw [List.eq_nil_of_length_eq_zero (Nat.succ.inj h)]
      simp [inTurn]
    | cons first xs =>
      rw [List.cons_append, inTurn, inTurn, ih (Nat.succ.inj h), List.append_assoc,
        List.append_assoc]

/-- The sketch of a name. -/
def Identifier.sketch (id : Identifier) : List Sketch := leaf id.span id.IsToken

/-- The sketch of a name behind a dot. -/
def MemberName.sketch (name : MemberName) : List Sketch := leaf name.span name.IsToken

namespace Node

mutual

/-- The sketch of a node; what is absent has none. -/
def sketch {form : Form} : Node form → List Sketch
  | .reference id | .binding id | .identifierKey id => id.sketch
  | .privateReference name | .privateKey name => leaf name.span name.IsToken
  | .boolean span value => leaf span (span.IsWord (if value then .trueKw else .falseKw))
  | .null span => leaf span (span.IsWord .nullKw)
  | .thisValue span | .superBase span | .emptyStatement span => node span []
  | .debugger span => owing span .ending []
  | .number literal | .numberKey literal => leaf literal.span literal.IsToken
  | .bigInt literal | .bigIntKey literal => leaf literal.span literal.IsToken
  | .string literal | .stringKey literal => leaf literal.span literal.IsToken
  | .regex literal => leaf literal.span literal.IsToken
  | .template literal => literal.sketch
  | .taggedTemplate span tag quasi => node span (tag.sketch ++ quasi.sketch)
  | .array span elements => node span (sketchOptionals elements)
  | .object span members => node span (sketchMembers members)
  | .functionExpression definition | .functionDeclaration definition => definition.sketch
  | .arrow span params body _ _ => node span (params.sketch ++ body.sketch)
  | .conciseArrow span params body _ _ => node span (params.sketch ++ body.sketch)
  | .classExpression definition | .classDeclaration definition => definition.sketch
  | .unary span _ argument => node span argument.sketch
  | .update span _ _ argument => node span argument.sketch
  | .binary span _ left right => node span (left.sketch ++ right.sketch)
  | .assignment span _ target value => node span (target.sketch ++ value.sketch)
  | .conditional span test consequent alternate =>
    node span (test.sketch ++ (consequent.sketch ++ alternate.sketch))
  | .call span callee arguments _ => node span (callee.sketch ++ sketchExpressions arguments)
  | .construct span callee arguments => node span (callee.sketch ++ sketchExpressions arguments)
  | .member span base name _ => node span (base.sketch ++ name.sketch)
  | .index span base key _ => node span (base.sketch ++ key.sketch)
  | .optionalChain span expression => node span expression.sketch
  | .sequence span expressions => node span (sketchExpressions expressions)
  | .spread span argument | .spreadMember span argument => node span argument.sketch
  | .yieldValue span argument _ => node span (sketchExpression? argument)
  | .awaitValue span argument => node span argument.sketch
  | .metaProperty span holder name =>
    node span (leaf holder.span holder.IsNew ++ name.sketch)
  | .templateLiteral span quasis expressions =>
    [.mk span true .none ((TemplateElement.inTurn quasis (sketchEach expressions)).map Sketch.span)
      (quasis.flatMap TemplateElement.sketch ++ sketchExpressions expressions)]
  | .property span key value _ _ => node span (key.sketch ++ value.sketch)
  | .shorthand span name initializer =>
    owing span (.fact (initializer = none → span = name.span))
      (name.sketch ++ sketchExpression? initializer)
  | .computedKey expression | .memberTarget expression | .expressionInit expression =>
    expression.sketch
  | .arrayPattern span elements remainder =>
    node span (sketchOptionalElements elements ++ sketchRest? remainder)
  | .objectPattern span properties remainder =>
    node span (sketchProperties properties ++ sketchRest? remainder)
  | .patternProperty span key value isShorthand =>
    [.mk span true .none (if isShorthand then [] else (key.sketch ++ value.sketch).map Sketch.span)
      (key.sketch ++ value.sketch)]
  | .element span target initializer =>
    owing span (.fact (initializer = none → span = target.span))
      (target.sketch ++ sketchExpression? initializer)
  | .rest span argument => node span argument.sketch
  | .parameters span params remainder =>
    node span (sketchElements params ++ sketchRest? remainder)
  | .function span name params body _ _ _ =>
    node span (name.toList.flatMap Identifier.sketch ++ (params.sketch ++ body.sketch))
  | .block span body _ => node span (sketchStatements body)
  | .classDefinition span name superClass bodySpan elements _ =>
    node span (name.toList.flatMap Identifier.sketch ++
      (sketchExpression? superClass ++ node bodySpan (sketchClassElements elements)))
  | .method span key _ _ value => node span (key.sketch ++ value.sketch)
  | .field span key _ value => owing span .ending (key.sketch ++ sketchExpression? value)
  | .staticBlock span body _ => node span (sketchStatements body)
  | .declarator span target init => node span (target.sketch ++ sketchExpression? init)
  | .declaration span _ ds => node span (sketchDeclarators ds)
  | .noInit => []
  | .declarationInit d | .declarationHead d => d.sketch
  | .variableStatement (.declaration span _ ds) => owing span .ending (sketchDeclarators ds)
  | .patternHead p => p.sketch
  | .switchCase span test consequent =>
    node span (sketchExpression? test ++ sketchStatements consequent)
  | .catchClause span param body _ => node span (sketchPattern? param ++ body.sketch)
  | .blockStatement b => b.sketch
  | .expressionStatement span expression => owing span .ending expression.sketch
  | .ifThen span test consequent => node span (test.sketch ++ consequent.sketch)
  | .ifElse span test consequent alternate =>
    node span (test.sketch ++ (consequent.sketch ++ alternate.sketch))
  | .forLoop span init test step body _ =>
    node span (init.sketch ++
      (sketchExpression? test ++ (sketchExpression? step ++ body.sketch)))
  | .forIn span left right body _ => node span (left.sketch ++ (right.sketch ++ body.sketch))
  | .forOf span _ left right body _ => node span (left.sketch ++ (right.sketch ++ body.sketch))
  | .whileLoop span test body => node span (test.sketch ++ body.sketch)
  | .doWhile span body test => owing span .ending (body.sketch ++ test.sketch)
  | .switch span discriminant cases _ => node span (discriminant.sketch ++ sketchCases cases)
  | .tryCatch span body handler finalizer =>
    node span (body.sketch ++ (handler.sketch ++ sketchBlock? finalizer))
  | .tryFinally span body finalizer => node span (body.sketch ++ finalizer.sketch)
  | .throwValue span argument => owing span .ending argument.sketch
  | .returnValue span argument => owing span .ending (sketchExpression? argument)
  | .breakFrom span label | .continueWith span label =>
    owing span .ending (label.toList.flatMap Identifier.sketch)
  | .labeled span label body => node span (label.sketch ++ body.sketch)
  | .withObject span base body => node span (base.sketch ++ body.sketch)

/-- An expression that may be missing. -/
def sketchExpression? : Option (Node .expression) → List Sketch
  | none => []
  | some e => e.sketch

/-- A pattern that may be missing. -/
def sketchPattern? : Option (Node .pattern) → List Sketch
  | none => []
  | some p => p.sketch

/-- A block that may be missing. -/
def sketchBlock? : Option (Node .block) → List Sketch
  | none => []
  | some b => b.sketch

/-- The rest of a pattern, if it has one. -/
def sketchRest? : Option (Node .rest) → List Sketch
  | none => []
  | some r => r.sketch

/-- Expressions. -/
def sketchExpressions : List (Node .expression) → List Sketch
  | [] => []
  | e :: more => e.sketch ++ sketchExpressions more

/-- Expressions, each by itself. -/
def sketchEach : List (Node .expression) → List (List Sketch)
  | [] => []
  | e :: more => e.sketch :: sketchEach more

/-- The elements of an array. -/
def sketchOptionals : List (Option (Node .expression)) → List Sketch
  | [] => []
  | e :: more => sketchExpression? e ++ sketchOptionals more

/-- The members of an object. -/
def sketchMembers : List (Node .objectMember) → List Sketch
  | [] => []
  | m :: more => m.sketch ++ sketchMembers more

/-- The elements of an array pattern. -/
def sketchOptionalElements : List (Option (Node .element)) → List Sketch
  | [] => []
  | none :: more => sketchOptionalElements more
  | some e :: more => e.sketch ++ sketchOptionalElements more

/-- The properties of an object pattern. -/
def sketchProperties : List (Node .patternProperty) → List Sketch
  | [] => []
  | p :: more => p.sketch ++ sketchProperties more

/-- Parameters. -/
def sketchElements : List (Node .element) → List Sketch
  | [] => []
  | e :: more => e.sketch ++ sketchElements more

/-- Statements. -/
def sketchStatements : List (Node .statement) → List Sketch
  | [] => []
  | s :: more => s.sketch ++ sketchStatements more

/-- The elements of a class. -/
def sketchClassElements : List (Node .classElement) → List Sketch
  | [] => []
  | e :: more => e.sketch ++ sketchClassElements more

/-- Declared patterns with their values. -/
def sketchDeclarators : List (Node .declarator) → List Sketch
  | [] => []
  | d :: more => d.sketch ++ sketchDeclarators more

/-- The cases of a switch. -/
def sketchCases : List (Node .switchCase) → List Sketch
  | [] => []
  | c :: more => c.sketch ++ sketchCases more

end

@[simp] theorem sketchExpression?_none : sketchExpression? none = [] := rfl
@[simp] theorem sketchExpression?_some (e : Expression) :
    sketchExpression? (some e) = e.sketch := rfl
@[simp] theorem sketchPattern?_none : sketchPattern? none = [] := rfl
@[simp] theorem sketchPattern?_some (p : Pattern) : sketchPattern? (some p) = p.sketch := rfl
@[simp] theorem sketchBlock?_none : sketchBlock? none = [] := rfl
@[simp] theorem sketchBlock?_some (b : Node .block) : sketchBlock? (some b) = b.sketch := rfl
@[simp] theorem sketchRest?_none : sketchRest? none = [] := rfl
@[simp] theorem sketchRest?_some (r : Node .rest) : sketchRest? (some r) = r.sketch := rfl

@[simp] theorem sketchExpressions_eq (xs : List (Node .expression)) :
    sketchExpressions xs = xs.flatMap sketch := by
  induction xs with
  | nil => rfl
  | cons x xs ih => rw [sketchExpressions, ih, List.flatMap_cons]

@[simp] theorem sketchEach_eq (xs : List (Node .expression)) : sketchEach xs = xs.map sketch := by
  induction xs with
  | nil => rfl
  | cons x xs ih => rw [sketchEach, ih, List.map_cons]

@[simp] theorem sketchMembers_eq (xs : List (Node .objectMember)) :
    sketchMembers xs = xs.flatMap sketch := by
  induction xs with
  | nil => rfl
  | cons x xs ih => rw [sketchMembers, ih, List.flatMap_cons]

@[simp] theorem sketchProperties_eq (xs : List (Node .patternProperty)) :
    sketchProperties xs = xs.flatMap sketch := by
  induction xs with
  | nil => rfl
  | cons x xs ih => rw [sketchProperties, ih, List.flatMap_cons]

@[simp] theorem sketchElements_eq (xs : List (Node .element)) :
    sketchElements xs = xs.flatMap sketch := by
  induction xs with
  | nil => rfl
  | cons x xs ih => rw [sketchElements, ih, List.flatMap_cons]

@[simp] theorem sketchStatements_eq (xs : List (Node .statement)) :
    sketchStatements xs = xs.flatMap sketch := by
  induction xs with
  | nil => rfl
  | cons x xs ih => rw [sketchStatements, ih, List.flatMap_cons]

@[simp] theorem sketchClassElements_eq (xs : List (Node .classElement)) :
    sketchClassElements xs = xs.flatMap sketch := by
  induction xs with
  | nil => rfl
  | cons x xs ih => rw [sketchClassElements, ih, List.flatMap_cons]

@[simp] theorem sketchDeclarators_eq (xs : List (Node .declarator)) :
    sketchDeclarators xs = xs.flatMap sketch := by
  induction xs with
  | nil => rfl
  | cons x xs ih => rw [sketchDeclarators, ih, List.flatMap_cons]

@[simp] theorem sketchCases_eq (xs : List (Node .switchCase)) :
    sketchCases xs = xs.flatMap sketch := by
  induction xs with
  | nil => rfl
  | cons x xs ih => rw [sketchCases, ih, List.flatMap_cons]

@[simp] theorem sketchOptionals_eq (xs : List (Option (Node .expression))) :
    sketchOptionals xs = xs.flatMap sketchExpression? := by
  induction xs with
  | nil => rfl
  | cons x xs ih => rw [sketchOptionals, ih, List.flatMap_cons]

@[simp] theorem sketchOptionalElements_eq (xs : List (Option (Node .element))) :
    sketchOptionalElements xs = xs.flatMap fun x => x.elim [] sketch := by
  induction xs with
  | nil => rfl
  | cons x xs ih =>
    cases x with
    | none => rw [sketchOptionalElements, ih, List.flatMap_cons]; rfl
    | some e => rw [sketchOptionalElements, ih, List.flatMap_cons]; rfl

/-- A node has one sketch, at its own span, unless there is nothing in the head of a loop. -/
theorem exists_sketch {form : Form} (x : Node form) (hf : form ≠ .forInit) :
    ∃ debt row parts, x.sketch = [.mk x.span true debt row parts] := by
  cases x with
  | template x | functionExpression x | functionDeclaration x | classExpression x
  | classDeclaration x | computedKey x | memberTarget x | declarationHead x | patternHead x
  | blockStatement x => exact x.exists_sketch (by decide)
  | variableStatement d =>
    cases d
    exact ⟨_, _, _, rfl⟩
  | noInit | declarationInit | expressionInit => exact absurd rfl hf
  | _ => exact ⟨_, _, _, rfl⟩

/-- An expression has one sketch. -/
theorem sketch_expression (e : Expression) :
    ∃ debt row parts, e.sketch = [.mk e.span true debt row parts] := e.exists_sketch (by decide)

/-- A pattern has one sketch. -/
theorem sketch_pattern (p : Pattern) :
    ∃ debt row parts, p.sketch = [.mk p.span true debt row parts] := p.exists_sketch (by decide)

/-- A statement has one sketch. -/
theorem sketch_statement (s : Statement) :
    ∃ debt row parts, s.sketch = [.mk s.span true debt row parts] := s.exists_sketch (by decide)

/-- The pieces of a template and the expressions between them are placed as all of both are. -/
theorem eachPlaced_inTurn {text : String} {lo : Nat} {front : Front}
    {quasis : List TemplateElement} {expressions : List Expression} :
    EachPlaced text lo front (TemplateElement.inTurn quasis (sketchEach expressions)) ↔
      EachPlaced text lo front
        (quasis.flatMap TemplateElement.sketch ++ sketchExpressions expressions) := by
  have hp := TemplateElement.inTurn_perm quasis (expressions.map sketch)
  rw [← List.flatMap_def] at hp
  rw [sketchEach_eq, sketchExpressions_eq]
  exact ⟨fun h x hx => h x (hp.mem_iff.mpr hx), fun h x hx => h x (hp.mem_iff.mp hx)⟩

end Node

namespace Sketch

mutual

/-- The spans alone. -/
def outline : Sketch → Outline
  | mk span solid _ _ parts => .mk span solid (outlines parts)

/-- The spans of some sketches. -/
def outlines : List Sketch → List Outline
  | [] => []
  | sketch :: more => sketch.outline :: outlines more

end

/-- The outlines of what stands one behind the other. -/
theorem outlines_append {xs ys : List Sketch} {as bs : List Outline} (hx : outlines xs = as)
    (hy : outlines ys = bs) : outlines (xs ++ ys) = as ++ bs := by
  subst hx hy
  induction xs with
  | nil => rfl
  | cons x xs ih => rw [List.cons_append, outlines, outlines, ih, List.cons_append]

/-- The outline of a node is that of its sketch. -/
theorem outlines_node {span : Span} {debt : Debt} {row : List Span} {parts : List Sketch}
    {inner : List Outline} (h : outlines parts = inner) :
    outlines [.mk span true debt row parts] = Outline.node span inner :=
  congrArg (Outline.node span) h

/-- The outline of a name that may be missing is that of its sketch. -/
theorem outlines_names (name : Option Identifier) :
    outlines (name.toList.flatMap Identifier.sketch) = name.toList.flatMap Identifier.outline := by
  cases name <;> rfl

/-- The outlines of the pieces of a template are those of their sketches. -/
theorem outlines_pieces (quasis : List TemplateElement) :
    outlines (quasis.flatMap TemplateElement.sketch) =
      quasis.flatMap TemplateElement.outline := by
  induction quasis with
  | nil => rfl
  | cons q quasis ih =>
    rw [List.flatMap_cons, List.flatMap_cons]
    exact outlines_append rfl ih

end Sketch

namespace Node

mutual

/-- The outline of a node is that of its sketch. -/
theorem outlines_sketch {form : Form} : (x : Node form) → outlines x.sketch = x.outline
  | .reference _ | .privateReference _ | .boolean .. | .null _ | .number _ | .bigInt _ | .string _
  | .regex _ | .thisValue _ | .superBase _ | .metaProperty .. | .identifierKey _ | .stringKey _
  | .numberKey _ | .bigIntKey _ | .privateKey _ | .binding _ | .noInit | .emptyStatement _
  | .debugger _ => rfl
  | .template literal => outlines_sketch literal
  | .functionExpression f | .functionDeclaration f => outlines_sketch f
  | .classExpression c | .classDeclaration c => outlines_sketch c
  | .computedKey e | .memberTarget e | .expressionInit e => outlines_sketch e
  | .declarationInit d | .declarationHead d => outlines_sketch d
  | .patternHead p => outlines_sketch p
  | .blockStatement b => outlines_sketch b
  | .unary _ _ e | .update _ _ _ e | .optionalChain _ e | .spread _ e | .spreadMember _ e
  | .awaitValue _ e | .expressionStatement _ e | .throwValue _ e =>
    outlines_node (outlines_sketch e)
  | .rest _ p => outlines_node (outlines_sketch p)
  | .taggedTemplate _ x y => outlines_node (outlines_append (outlines_sketch x) (outlines_sketch y))
  | .arrow _ x y _ _ => outlines_node (outlines_append (outlines_sketch x) (outlines_sketch y))
  | .conciseArrow _ x y _ _ =>
    outlines_node (outlines_append (outlines_sketch x) (outlines_sketch y))
  | .binary _ _ x y => outlines_node (outlines_append (outlines_sketch x) (outlines_sketch y))
  | .assignment _ _ x y => outlines_node (outlines_append (outlines_sketch x) (outlines_sketch y))
  | .index _ x y _ => outlines_node (outlines_append (outlines_sketch x) (outlines_sketch y))
  | .property _ x y _ _ => outlines_node (outlines_append (outlines_sketch x) (outlines_sketch y))
  | .patternProperty _ x y _ =>
    outlines_node (outlines_append (outlines_sketch x) (outlines_sketch y))
  | .method _ x _ _ y => outlines_node (outlines_append (outlines_sketch x) (outlines_sketch y))
  | .ifThen _ x y => outlines_node (outlines_append (outlines_sketch x) (outlines_sketch y))
  | .whileLoop _ x y => outlines_node (outlines_append (outlines_sketch x) (outlines_sketch y))
  | .doWhile _ x y => outlines_node (outlines_append (outlines_sketch x) (outlines_sketch y))
  | .tryFinally _ x y => outlines_node (outlines_append (outlines_sketch x) (outlines_sketch y))
  | .withObject _ x y => outlines_node (outlines_append (outlines_sketch x) (outlines_sketch y))
  | .labeled _ _ x => outlines_node (outlines_append rfl (outlines_sketch x))
  | .member _ x _ _ => outlines_node (outlines_append (outlines_sketch x) rfl)
  | .conditional _ x y z | .ifElse _ x y z =>
    outlines_node (outlines_append (outlines_sketch x)
      (outlines_append (outlines_sketch y) (outlines_sketch z)))
  | .forIn _ x y z _ =>
    outlines_node (outlines_append (outlines_sketch x)
      (outlines_append (outlines_sketch y) (outlines_sketch z)))
  | .forOf _ _ x y z _ =>
    outlines_node (outlines_append (outlines_sketch x)
      (outlines_append (outlines_sketch y) (outlines_sketch z)))
  | .forLoop _ init test step body _ =>
    outlines_node (outlines_append (outlines_sketch init) (outlines_append
      (outlines_expression? test) (outlines_append (outlines_expression? step)
        (outlines_sketch body))))
  | .array _ xs => outlines_node (outlines_optionals xs)
  | .object _ xs => outlines_node (outlines_members xs)
  | .call _ x xs _ | .construct _ x xs =>
    outlines_node (outlines_append (outlines_sketch x) (outlines_expressions xs))
  | .sequence _ xs => outlines_node (outlines_expressions xs)
  | .yieldValue _ x _ | .returnValue _ x => outlines_node (outlines_expression? x)
  | .templateLiteral _ quasis xs =>
    outlines_node (outlines_append (outlines_pieces quasis) (outlines_expressions xs))
  | .shorthand _ _ x => outlines_node (outlines_append rfl (outlines_expression? x))
  | .arrayPattern _ xs x =>
    outlines_node (outlines_append (outlines_optionalElements xs) (outlines_rest? x))
  | .objectPattern _ xs x =>
    outlines_node (outlines_append (outlines_properties xs) (outlines_rest? x))
  | .parameters _ xs x => outlines_node (outlines_append (outlines_elements xs) (outlines_rest? x))
  | .element _ x y | .declarator _ x y =>
    outlines_node (outlines_append (outlines_sketch x) (outlines_expression? y))
  | .field _ x _ y => outlines_node (outlines_append (outlines_sketch x) (outlines_expression? y))
  | .function _ name x y _ _ _ =>
    outlines_node (outlines_append (outlines_names name)
      (outlines_append (outlines_sketch x) (outlines_sketch y)))
  | .block _ xs _ | .staticBlock _ xs _ => outlines_node (outlines_statements xs)
  | .classDefinition _ name x _ xs _ =>
    outlines_node (outlines_append (outlines_names name)
      (outlines_append (outlines_expression? x) (outlines_node (outlines_classElements xs))))
  | .declaration _ _ xs | .variableStatement (.declaration _ _ xs) =>
    outlines_node (outlines_declarators xs)
  | .switchCase _ x xs =>
    outlines_node (outlines_append (outlines_expression? x) (outlines_statements xs))
  | .catchClause _ x y _ =>
    outlines_node (outlines_append (outlines_pattern? x) (outlines_sketch y))
  | .switch _ x xs _ => outlines_node (outlines_append (outlines_sketch x) (outlines_cases xs))
  | .tryCatch _ x y z =>
    outlines_node (outlines_append (outlines_sketch x)
      (outlines_append (outlines_sketch y) (outlines_block? z)))
  | .breakFrom _ label | .continueWith _ label => outlines_node (outlines_names label)

/-- The outline of an expression that may be missing is that of its sketch. -/
theorem outlines_expression? : (x : Option (Node .expression)) → outlines (sketchExpression? x) =
    outlineExpression? x
  | none => rfl
  | some x => outlines_sketch x

/-- The outline of a pattern that may be missing is that of its sketch. -/
theorem outlines_pattern? : (x : Option (Node .pattern)) → outlines (sketchPattern? x) =
    outlinePattern? x
  | none => rfl
  | some x => outlines_sketch x

/-- The outline of a block that may be missing is that of its sketch. -/
theorem outlines_block? : (x : Option (Node .block)) → outlines (sketchBlock? x) = outlineBlock? x
  | none => rfl
  | some x => outlines_sketch x

/-- The outline of a rest that may be missing is that of its sketch. -/
theorem outlines_rest? : (x : Option (Node .rest)) → outlines (sketchRest? x) = outlineRest? x
  | none => rfl
  | some x => outlines_sketch x

/-- The outlines of expressions are those of their sketches. -/
theorem outlines_expressions : (xs : List (Node .expression)) → outlines (sketchExpressions xs) =
    outlineExpressions xs
  | [] => rfl
  | x :: more => outlines_append (outlines_sketch x) (outlines_expressions more)

/-- The outlines of members are those of their sketches. -/
theorem outlines_members : (xs : List (Node .objectMember)) → outlines (sketchMembers xs) =
    outlineMembers xs
  | [] => rfl
  | x :: more => outlines_append (outlines_sketch x) (outlines_members more)

/-- The outlines of properties are those of their sketches. -/
theorem outlines_properties : (xs : List (Node .patternProperty)) → outlines (sketchProperties xs) =
    outlineProperties xs
  | [] => rfl
  | x :: more => outlines_append (outlines_sketch x) (outlines_properties more)

/-- The outlines of elements are those of their sketches. -/
theorem outlines_elements : (xs : List (Node .element)) → outlines (sketchElements xs) =
    outlineElements xs
  | [] => rfl
  | x :: more => outlines_append (outlines_sketch x) (outlines_elements more)

/-- The outlines of statements are those of their sketches. -/
theorem outlines_statements : (xs : List (Node .statement)) → outlines (sketchStatements xs) =
    outlineStatements xs
  | [] => rfl
  | x :: more => outlines_append (outlines_sketch x) (outlines_statements more)

/-- The outlines of the elements of a class are those of their sketches. -/
theorem outlines_classElements : (xs : List (Node .classElement)) → outlines
    (sketchClassElements xs) = outlineClassElements xs
  | [] => rfl
  | x :: more => outlines_append (outlines_sketch x) (outlines_classElements more)

/-- The outlines of declarators are those of their sketches. -/
theorem outlines_declarators : (xs : List (Node .declarator)) → outlines (sketchDeclarators xs) =
    outlineDeclarators xs
  | [] => rfl
  | x :: more => outlines_append (outlines_sketch x) (outlines_declarators more)

/-- The outlines of cases are those of their sketches. -/
theorem outlines_cases : (xs : List (Node .switchCase)) → outlines (sketchCases xs) =
    outlineCases xs
  | [] => rfl
  | x :: more => outlines_append (outlines_sketch x) (outlines_cases more)

/-- The outlines of the elements of an array are those of their sketches. -/
theorem outlines_optionals :
    (xs : List (Option (Node .expression))) → outlines (sketchOptionals xs) = outlineOptionals xs
  | [] => rfl
  | x :: more => outlines_append (outlines_expression? x) (outlines_optionals more)

/-- The outlines of the elements of a pattern are those of their sketches. -/
theorem outlines_optionalElements :
    (xs : List (Option (Node .element))) →
      outlines (sketchOptionalElements xs) = outlineOptionalElements xs
  | [] => rfl
  | none :: more => outlines_optionalElements more
  | some x :: more => outlines_append (outlines_sketch x) (outlines_optionalElements more)

end

end Node

end EcmaScript
