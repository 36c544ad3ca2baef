import EcmaScript.Proofs.Lexer.Spelling
import EcmaScript.Proofs.Syntax.Parsed
import EcmaScript.Proofs.Syntax.Sketch

/-!
# Trees that are faithful to a text

What a tree says about the spelling of its names and literals against the text in which they
stand. A node is faithful if its own names and literals are; that its parts are is another
matter. In a sketch that is placed each of them is a token, and a token that was read without
faults is spelled as it should be.
-/

namespace EcmaScript

open Lexer Sketch

/-- A name is what stands there, unless it is spelled with an escape. -/
def Identifier.Faithful (text : String) (id : Identifier) : Prop :=
  ∃ spelling, id.span.slice? text = some spelling ∧ ('\\' ∉ spelling.toList → id.name = spelling)

/-- A private name is what stands behind its `#`, unless it is spelled with an escape. -/
def PrivateName.Faithful (text : String) (name : PrivateName) : Prop :=
  ∃ spelling, name.span.slice? text = some spelling ∧
    ('\\' ∉ spelling.toList → spelling = "#" ++ name.name)

/-- The name of a property is what stands there. -/
def MemberName.Faithful (text : String) : MemberName → Prop
  | identifier id => id.Faithful text
  | hidden name => name.Faithful text

/-- The raw text of a piece of a template is what stands there, with uniform line ends. -/
def TemplateElement.Faithful (text : String) (element : TemplateElement) : Prop :=
  ∃ spelling, element.span.slice? text = some spelling ∧
    element.raw = String.ofList (uniformLineEnds spelling.toList)

/-- A regular expression as it is spelled. -/
def RegexLiteral.spelling (literal : RegexLiteral) : String :=
  s!"/{literal.pattern}/{literal.flags}"

/-- The names and literals of a node itself are what stands in the text. -/
def Node.Faithful (text : String) {form : Form} : Node form → Prop
  | .reference id | .binding id | .identifierKey id => id.Faithful text
  | .privateReference name | .privateKey name => name.Faithful text
  | .boolean span value => span.slice? text = some (if value then "true" else "false")
  | .null span => span.slice? text = some "null"
  | .number literal | .numberKey literal => literal.span.slice? text = some literal.raw
  | .bigInt literal | .bigIntKey literal => literal.span.slice? text = some literal.raw
  | .string literal | .stringKey literal => literal.span.slice? text = some literal.raw
  | .regex literal => literal.span.slice? text = some literal.spelling
  | .templateLiteral _ quasis _ => ∀ element ∈ quasis, element.Faithful text
  | .member _ _ name _ => name.Faithful text
  | .metaProperty _ holder name => holder.Faithful text ∧ name.Faithful text
  | .shorthand _ name _ | .labeled _ name _ => name.Faithful text
  | .function _ name .. | .classDefinition _ name .. | .breakFrom _ name
  | .continueWith _ name => ∀ id ∈ name, id.Faithful text
  | _ => True

/-- A node and all the nodes below it are faithful. -/
inductive FaithfulTree (text : String) : {form : Form} → Node form → Prop where
  | node {form : Form} {x : Node form} (own : x.Faithful text)
      (parts : ∀ p ∈ x.parts, FaithfulTree text p.node) : FaithfulTree text x

/-- The token was read from the text, and nothing was wrong with it or before it. -/
def Token.IsRead (text : String) (t : Token) : Prop :=
  ∃ readings r lexer, Trace text (readings ++ [r]) lexer ∧ lexer.faults = #[] ∧ lexer.token = t

namespace Token.IsRead

variable {text : String} {t : Token}

/-- What is read is what the text has at its span. -/
theorem slice (h : t.IsRead text) : t.span.slice? text = some t.text := by
  obtain ⟨readings, r, lexer, htrace, -, rfl⟩ := h
  exact htrace.slice_span

/-- What is read is spelled as its kind asks. -/
theorem spells (h : t.IsRead text) : Spells t.kind t.value t.raw t.text := by
  obtain ⟨readings, r, lexer, htrace, hf, rfl⟩ := h
  exact htrace.token_spelled hf

end Token.IsRead

/-- What a lexer has read without a fault was read from the text. -/
theorem Lexer.HasRead.isRead {text : String} {lexer : Lexer} {t : Token}
    (h : lexer.HasRead text t) (hf : lexer.faults = #[]) : t.IsRead text := by
  obtain ⟨readings, r, before, htrace, htoken, hclean⟩ := h
  exact ⟨readings, r, before, htrace, hclean hf, htoken⟩

section

variable {text : String} {t : Token}

/-- A name that is a token is what the text has. -/
theorem Identifier.IsToken.faithful {id : Identifier} (h : id.IsToken t) (ht : t.IsRead text) :
    id.Faithful text := by
  refine ⟨t.text, by rw [h.span]; exact ht.slice, fun hno => ?_⟩
  have hs := ht.spells
  have hk := h.kind
  rw [h.name]
  cases hkind : t.kind with
  | word w =>
    rw [hkind] at hs
    exact hs.2
  | identifier =>
    rw [hkind] at hs
    exact hs hno
  | escapedReservedWord =>
    rw [hkind] at hs
    exact absurd hs hno
  | _ =>
    rw [hkind] at hk
    exact absurd hk (by simp [TokenKind.isIdentifierName])

/-- The word `new` as a name is what the text has. -/
theorem Identifier.IsNew.faithful {id : Identifier} (h : id.IsNew t) (ht : t.IsRead text) :
    id.Faithful text := by
  have hs := ht.spells
  rw [h.kind] at hs
  refine ⟨t.text, by rw [h.span]; exact ht.slice, fun _ => ?_⟩
  rw [h.name, hs.1]
  rfl

/-- A private name that is a token is what the text has. -/
theorem PrivateName.IsToken.faithful {name : PrivateName} (h : name.IsToken t)
    (ht : t.IsRead text) : name.Faithful text := by
  have hs := ht.spells
  rw [h.kind] at hs
  refine ⟨t.text, by rw [h.span]; exact ht.slice, fun hno => ?_⟩
  rw [h.name]
  exact hs hno

/-- The name of a property that is a token is what the text has. -/
theorem MemberName.IsToken.faithful {name : MemberName} (h : name.IsToken t)
    (ht : t.IsRead text) : name.Faithful text := by
  cases name with
  | identifier id => exact Identifier.IsToken.faithful h ht
  | hidden name => exact PrivateName.IsToken.faithful h ht

/-- A regular expression that is a token is what the text has. -/
theorem RegexLiteral.IsToken.faithful {literal : RegexLiteral} (h : literal.IsToken t)
    (ht : t.IsRead text) : literal.span.slice? text = some literal.spelling := by
  have hs := ht.spells
  rw [h.kind] at hs
  have htext : t.text = "/" ++ t.value ++ "/" ++ t.raw := hs
  rw [h.span, ht.slice, htext, RegexLiteral.spelling, h.pattern, h.flags]
  rfl

/-- A word that is a token is what the text has. -/
theorem Span.IsWord.slice {span : Span} {w : Keyword} (h : span.IsWord w t) (ht : t.IsRead text) :
    span.slice? text = some w.text := by
  have hs := ht.spells
  rw [h.kind] at hs
  rw [h.span, ht.slice, hs.1]

/-- A piece of a template that is a token is what the text has. -/
theorem TemplateElement.IsToken.faithful {element : TemplateElement} (h : element.IsToken t)
    (ht : t.IsRead text) : element.Faithful text := by
  obtain ⟨readings, r, lexer, htrace, hf, rfl⟩ := ht
  obtain ⟨hnext, content, e, hrest, hoffset, hstop, hraw⟩ := htrace.template_content h.kind
  have hin := htrace.place.1.trans (Cursor.reaches_next _)
  obtain ⟨before, hr, ho⟩ := hin
  have hbefore : byteLength before = lexer.token.start.offset + 1 := by
    rw [← hnext, ho]
    exact (Nat.zero_add _).symm
  have hspan : element.span =
      .ofOffsets (byteLength before) (byteLength before + byteLength content) := by
    rw [h.span, hbefore, ← hnext, ← hoffset]
    congr 1
    omega
  refine ⟨String.ofList content, ?_, ?_⟩
  · rw [hspan]
    have htext : text.toList = before ++ (content ++ e.rest) := by
      rw [← hrest]
      exact hr
    exact Span.slice?_ofOffsets htext
  · rw [h.raw, hraw, String.toList_ofList]

end

namespace Sketch

variable {text : String} {lo : Nat} {front : Front} {span : Span} {debt : Debt}
  {row : List Span} {parts : List Sketch}

/-- The parts of a placed node are placed where the node is. -/
theorem EachPlaced.inner (h : EachPlaced text lo front [.mk span true debt row parts]) :
    EachPlaced text lo front parts := by
  obtain ⟨start, stop, -, hl, -, hh, -, -, -, -, hp⟩ := h.of_mk
  exact hp.mono hl (front.upto_of_le hh)

/-- A token that a placed node owes was taken. -/
theorem Placed.paid {solid : Bool} {is : Token → Prop}
    (h : (Sketch.mk span solid (.token is) row parts).Placed text lo front) :
    ∃ t ∈ front.taken, is t := by
  cases h with
  | mk _ _ _ _ _ _ hpaid _ _ => exact hpaid

/-- What owes a token has one that was taken. -/
theorem EachPlaced.paid {is : Token → Prop} (h : EachPlaced text lo front (leaf span is)) :
    ∃ t ∈ front.taken, is t :=
  Placed.paid (h _ (List.mem_singleton.mpr rfl))

end Sketch

namespace Node

variable {text : String} {lo : Nat} {front : Front}

/-- An expression that may be missing is placed if it is there. -/
theorem eachPlaced_expression? {x : Option Expression} :
    EachPlaced text lo front (sketchExpression? x) ↔
      ∀ e, x = some e → EachPlaced text lo front e.sketch := by
  cases x <;> simp

/-- A pattern that may be missing is placed if it is there. -/
theorem eachPlaced_pattern? {x : Option Pattern} :
    EachPlaced text lo front (sketchPattern? x) ↔
      ∀ p, x = some p → EachPlaced text lo front p.sketch := by
  cases x <;> simp

/-- A block that may be missing is placed if it is there. -/
theorem eachPlaced_block? {x : Option (Node .block)} :
    EachPlaced text lo front (sketchBlock? x) ↔
      ∀ b, x = some b → EachPlaced text lo front b.sketch := by
  cases x <;> simp

/-- A rest that may be missing is placed if it is there. -/
theorem eachPlaced_rest? {x : Option (Node .rest)} :
    EachPlaced text lo front (sketchRest? x) ↔
      ∀ r, x = some r → EachPlaced text lo front r.sketch := by
  cases x <;> simp

/-- The parts of a placed node are placed. -/
theorem placed_parts {form : Form} (x : Node form) (h : EachPlaced text lo front x.sketch) :
    ∀ p ∈ x.parts, EachPlaced text lo front p.node.sketch := by
  cases x with
  | variableStatement d =>
    cases d
    intro p hp
    rw [List.mem_singleton.mp hp]
    exact (EachPlaced.single h).unowed.each
  | array span elements =>
    have hin := h.inner
    simp only [sketchOptionals_eq, eachPlaced_flatMap] at hin
    simp only [parts, List.forall_mem_map, List.reduceOption_mem_iff]
    exact fun e he => hin _ he
  | arrayPattern span elements remainder =>
    have hin := h.inner
    simp only [sketchOptionalElements_eq, eachPlaced_flatMap, eachPlaced_append,
      eachPlaced_rest?] at hin
    simp only [parts, List.forall_mem_append, List.forall_mem_map, List.reduceOption_mem_iff,
      Option.mem_toList]
    exact ⟨fun e he => hin.1 _ he, hin.2⟩
  | classDefinition span name superClass bodySpan elements scope =>
    have hin := h.inner
    simp only [eachPlaced_append, eachPlaced_expression?] at hin
    have hbody := hin.2.2.inner
    rw [sketchClassElements_eq, eachPlaced_flatMap] at hbody
    simp only [parts, List.forall_mem_append, List.forall_mem_map, Option.mem_toList]
    exact ⟨hin.2.1, hbody⟩
  | function span name params body =>
    have hin := h.inner
    simp only [eachPlaced_append] at hin
    simp only [parts, List.forall_mem_cons]
    exact ⟨hin.2.1, hin.2.2, fun p hp => absurd hp List.not_mem_nil⟩
  | templateLiteral span quasis expressions =>
    have hin := h.inner
    simp only [eachPlaced_append, sketchExpressions_eq, eachPlaced_flatMap] at hin
    simp only [parts, List.forall_mem_map]
    exact hin.2
  | shorthand span name initializer =>
    have hin := h.inner
    simp only [eachPlaced_append, eachPlaced_expression?] at hin
    simp only [parts, List.forall_mem_map, Option.mem_toList]
    exact hin.2
  | member span base name =>
    exact List.forall_mem_singleton.mpr (eachPlaced_append.mp h.inner).1
  | labeled span label body =>
    exact List.forall_mem_singleton.mpr (eachPlaced_append.mp h.inner).2
  | reference | privateReference | boolean | null | number | bigInt | string | regex | thisValue
  | superBase | metaProperty | identifierKey | stringKey | numberKey | bigIntKey | privateKey
  | binding | noInit | emptyStatement | breakFrom | continueWith | debugger =>
    exact fun p hp => absurd hp List.not_mem_nil
  | template | functionExpression | functionDeclaration | classExpression | classDeclaration
  | computedKey | memberTarget | expressionInit | declarationInit | declarationHead | patternHead
  | blockStatement =>
    exact List.forall_mem_singleton.mpr h
  | unary | update | awaitValue | optionalChain | spread | spreadMember | rest
  | expressionStatement | throwValue =>
    exact List.forall_mem_singleton.mpr h.inner
  | _ =>
    have hin := h.inner
    simpa only [parts, List.forall_mem_cons, List.forall_mem_append, List.forall_mem_map,
      List.not_mem_nil, false_implies, implies_true, Option.mem_toList, Option.mem_def, and_true,
      and_assoc,
      eachPlaced_append, eachPlaced_flatMap, eachPlaced_expression?, eachPlaced_pattern?,
      eachPlaced_block?, eachPlaced_rest?, sketchExpressions_eq, sketchMembers_eq,
      sketchProperties_eq, sketchElements_eq, sketchStatements_eq, sketchDeclarators_eq,
      sketchCases_eq] using hin

/-- A placed node is faithful if the tokens were read. -/
theorem faithful_of_placed {form : Form} (x : Node form) (h : EachPlaced text lo front x.sketch)
    (hread : ∀ t ∈ front.taken, t.IsRead text) : x.Faithful text := by
  have hleaf : ∀ {span : Span} {is : Token → Prop}, EachPlaced text lo front (leaf span is) →
      ∃ t, t.IsRead text ∧ is t := by
    intro span is hl
    obtain ⟨t, ht, his⟩ := hl.paid
    exact ⟨t, hread t ht, his⟩
  have hnames : ∀ {name : Option Identifier} {more : List Sketch},
      EachPlaced text lo front (name.toList.flatMap Identifier.sketch ++ more) →
        ∀ id ∈ name, id.Faithful text := by
    intro name more hn id hid
    obtain ⟨t, ht, his⟩ := hleaf
      (eachPlaced_flatMap.mp (eachPlaced_append.mp hn).1 id (Option.mem_toList.mpr hid))
    exact Identifier.IsToken.faithful his ht
  cases x with
  | reference id | binding id | identifierKey id =>
    obtain ⟨t, ht, his⟩ := hleaf h
    exact Identifier.IsToken.faithful his ht
  | privateReference name | privateKey name =>
    obtain ⟨t, ht, his⟩ := hleaf h
    exact PrivateName.IsToken.faithful his ht
  | boolean span value =>
    obtain ⟨t, ht, his⟩ := hleaf h
    have hslice := Span.IsWord.slice his ht
    cases value <;> exact hslice
  | null span =>
    obtain ⟨t, ht, his⟩ := hleaf h
    exact Span.IsWord.slice his ht
  | number literal | numberKey literal | bigInt literal | bigIntKey literal | string literal
  | stringKey literal =>
    obtain ⟨t, ht, his⟩ := hleaf h
    show literal.span.slice? text = some literal.raw
    rw [his.span, his.raw]
    exact ht.slice
  | regex literal =>
    obtain ⟨t, ht, his⟩ := hleaf h
    exact RegexLiteral.IsToken.faithful his ht
  | templateLiteral span quasis expressions =>
    intro element he
    have hpieces := (eachPlaced_append.mp h.inner).1
    obtain ⟨t, ht, his⟩ :=
      (eachPlaced_flatMap.mp hpieces element he _ (List.mem_singleton.mpr rfl)).paid
    exact TemplateElement.IsToken.faithful his (hread t ht)
  | member span base name optional =>
    obtain ⟨t, ht, his⟩ := hleaf (eachPlaced_append.mp h.inner).2
    exact MemberName.IsToken.faithful his ht
  | metaProperty span holder name =>
    obtain ⟨hholder, hname⟩ := eachPlaced_append.mp h.inner
    obtain ⟨t, ht, his⟩ := hleaf hholder
    obtain ⟨t', ht', his'⟩ := hleaf hname
    exact ⟨Identifier.IsNew.faithful his ht, Identifier.IsToken.faithful his' ht'⟩
  | shorthand span name initializer | labeled span name body =>
    obtain ⟨t, ht, his⟩ := hleaf (eachPlaced_append.mp h.inner).1
    exact Identifier.IsToken.faithful his ht
  | function span name params body isGenerator isAsync scope => exact hnames h.inner
  | classDefinition span name superClass bodySpan elements scope => exact hnames h.inner
  | breakFrom span label | continueWith span label =>
    have hlabel := h.inner
    rw [← List.append_nil (label.toList.flatMap Identifier.sketch)] at hlabel
    exact hnames hlabel
  | _ => trivial

/-- What a node is faithful to does not depend on the numbers of scopes. -/
theorem faithful_of_erase {form : Form} (x : Node form) (h : x.erase.Faithful text) :
    x.Faithful text := by
  have hname : ∀ {name : Option Identifier}, (∀ id ∈ name.map Identifier.erase, id.Faithful text) →
      ∀ id ∈ name, id.Faithful text := by
    intro name hn id hid
    cases hid
    exact hn id.erase rfl
  cases x with
  | member span base name optional => cases name <;> exact h
  | templateLiteral span quasis expressions =>
    have hquasis : ∀ element ∈ quasis.map (TemplateElement.relocate fun span => span),
      element.Faithful text := h
    rwa [TemplateElement.map_relocate_id] at hquasis
  | function | classDefinition | breakFrom | continueWith => exact hname h
  | _ => exact h

end Node

namespace FaithfulTree

variable {text : String}

/-- The node itself is faithful. -/
theorem own {form : Form} {x : Node form} (h : FaithfulTree text x) : x.Faithful text := by
  cases h with
  | node hown _ => exact hown

/-- The parts of a faithful tree are faithful. -/
theorem of_mem_parts {form : Form} {x : Node form} (h : FaithfulTree text x) :
    ∀ p ∈ x.parts, FaithfulTree text p.node := by
  cases h with
  | node _ hparts => exact hparts

/-- All that is in a faithful tree is faithful. -/
theorem of_reaches {p q : Part} (h : FaithfulTree text p.node) (hq : p.Reaches q) :
    FaithfulTree text q.node := by
  induction hq with
  | refl => exact h
  | tail _ hstep ih => exact ih.of_mem_parts _ hstep

/-- A placed tree is faithful if the tokens were read. -/
theorem of_placed {lo : Nat} {front : Front} (hread : ∀ t ∈ front.taken, t.IsRead text)
    {form : Form} (x : Node form) (h : EachPlaced text lo front x.sketch) :
    FaithfulTree text x := by
  induction x using Node.induction_parts with
  | node x ih =>
    exact .node (Node.faithful_of_placed x h hread) fun p hp =>
      ih p hp (Node.placed_parts x h p hp)

/-- What a tree is faithful to does not depend on the numbers of its scopes. -/
theorem of_erase {form : Form} (x : Node form) (h : FaithfulTree text x.erase) :
    FaithfulTree text x := by
  induction x using Node.induction_parts with
  | node x ih =>
    refine .node (Node.faithful_of_erase x h.own) fun p hp => ih p hp ?_
    refine h.of_mem_parts p.erase ?_
    rw [Node.parts_erase]
    exact List.mem_map_of_mem hp

end FaithfulTree

end EcmaScript
