import EcmaScript.Estree.Parse
import EcmaScript.Proofs.Estree.Read
import EcmaScript.Proofs.Parser.Spans
import EcmaScript.Proofs.Scope.Accepted
import EcmaScript.Proofs.Syntax.Faithful

/-!
# JSON that is faithful to a text

The tree of an accepted script and the JSON of the tree spell names and literals as they stand
in the text: the spelling that a record gives is what stands between the offsets that it gives.
-/

namespace EcmaScript

open Relation

namespace Json

/-- The second value is an item or a member of the first. -/
inductive Holds : Json → Json → Prop where
  | item {items : List Json} {x : Json} : x ∈ items → Holds (array items) x
  | member {members : List (String × Json)} {field : String × Json} :
      field ∈ members → Holds (object members) field.2

/-- The second value is the first or stands somewhere in it. -/
abbrev Reaches : Json → Json → Prop := ReflTransGen Holds

end Json

/-- The stretch of the text between the offsets that a record gives. -/
def Estree.slice? (text : String) (json : Json) : Option String :=
  match json.field? "start", json.field? "end" with
  | some (.integer start), some (.integer stop) =>
    (Span.ofOffsets start.toNat stop.toNat).slice? text
  | _, _ => none

/-- What a record itself says about the spelling of a name or a literal is so. -/
structure Estree.Faithful (text : String) (json : Json) : Prop where
  literal : json.field? "type" = some (.string "Literal") →
    ∃ spelling, slice? text json = some spelling ∧ json.field? "raw" = some (.string spelling)
  identifier : json.field? "type" = some (.string "Identifier") →
    ∃ spelling, slice? text json = some spelling ∧
      ('\\' ∉ spelling.toList → json.field? "name" = some (.string spelling))
  privateIdentifier : json.field? "type" = some (.string "PrivateIdentifier") →
    ∃ spelling, slice? text json = some spelling ∧
      ('\\' ∉ spelling.toList →
        ∃ name, json.field? "name" = some (.string name) ∧ spelling = "#" ++ name)
  templateElement : json.field? "type" = some (.string "TemplateElement") →
    ∃ spelling, slice? text json = some spelling ∧
      ∃ value, json.field? "value" = some value ∧
        value.field? "raw" = some (.string (String.ofList (Lexer.uniformLineEnds spelling.toList)))

/-- All records in a value are faithful. -/
def Json.Faithful (text : String) (json : Json) : Prop :=
  ∀ inner, json.Reaches inner → Estree.Faithful text inner

namespace Json

variable {text : String}

/-- A value is faithful if it is by itself and what it holds is. -/
theorem Faithful.of_holds {json : Json} (h : Estree.Faithful text json)
    (hinner : ∀ x, json.Holds x → x.Faithful text) : json.Faithful text := by
  intro inner hreach
  rcases ReflTransGen.cases_head hreach with rfl | ⟨x, hx, hreach⟩
  · exact h
  · exact hinner x hx inner hreach

/-- A value without a type is faithful if what it holds is. -/
theorem Faithful.of_untyped {json : Json} (h : json.field? "type" = none)
    (hinner : ∀ x, json.Holds x → x.Faithful text) : json.Faithful text := by
  refine .of_holds ?_ hinner
  constructor <;> (intro htype; rw [h] at htype; cases htype)

@[simp] theorem faithful_null : null.Faithful text := .of_untyped rfl fun _ hx => nomatch hx
@[simp] theorem faithful_bool (b : Bool) : (bool b).Faithful text :=
  .of_untyped rfl fun _ hx => nomatch hx
@[simp] theorem faithful_integer (n : Int) : (integer n).Faithful text :=
  .of_untyped rfl fun _ hx => nomatch hx
@[simp] theorem faithful_double (x : Double) : (double x).Faithful text :=
  .of_untyped rfl fun _ hx => nomatch hx
/-- The record of a string has its spelling. -/
@[simp] theorem faithful_string (s : String) : (string s).Faithful text :=
  .of_untyped rfl fun _ hx => nomatch hx

/-- A list is faithful when its items are. -/
theorem faithful_array {items : List Json} :
    (array items).Faithful text ↔ ∀ x ∈ items, x.Faithful text := by
  constructor
  · exact fun h x hx inner hreach => h inner (.head (.item hx) hreach)
  · intro h
    refine .of_untyped rfl fun x hx => ?_
    cases hx with
    | item hx => exact h x hx

end Json

/-- What the offsets of a span cut out is what the span cuts out. -/
theorem Span.slice?_offsets {span : Span} {text spelling : String}
    (h : span.slice? text = some spelling) :
    (Span.ofOffsets span.offsets.1 span.offsets.2).slice? text = some spelling := by
  have hset : span.isUnset = false := by
    cases hunset : span.isUnset with
    | false => rfl
    | true => simp [slice?, range?, hunset] at h
  have hset' : (ofOffsets span.offsets.1 span.offsets.2).isUnset = false := by
    simp [isUnset, ofOffsets, Position.ofOffset]
  have hoffsets : (ofOffsets span.offsets.1 span.offsets.2).offsets = span.offsets := by
    simp [offsets, ofOffsets]
  rw [← h]
  simp only [slice?, range?, hset, hset', hoffsets]

namespace Estree

variable {text spelling : String} {span : Span} {type : String} {fields : List (String × Json)}

/-- A record holds what its fields are. -/
theorem holds_record {key : String} {value : Json} (h : (key, value) ∈ fields) :
    (record type span fields).Holds value :=
  Json.Holds.member (List.mem_append_left _ (List.mem_cons_of_mem _ h))

@[simp] theorem type_record : (record type span fields).field? "type" = some (.string type) := by
  simp [record, Json.field?]

/-- The keys of a record that come before its place. -/
theorem field?_record {key : String} (hkey : key ≠ "type") :
    (record type span fields).field? key = (fields ++ place span).lookup key := by
  have hbeq : (key == "type") = false := by simp [hkey]
  simp [record, Json.field?, List.lookup_cons, hbeq]

/-- The text of a record is that of its span, as no field stands for its offsets. -/
theorem slice?_record (hkeys : ∀ field ∈ fields, field.1 ≠ "start" ∧ field.1 ≠ "end")
    (h : span.slice? text = some spelling) :
    slice? text (record type span fields) = some spelling := by
  have hstart : fields.lookup "start" = none :=
    List.lookup_eq_none_iff.mpr fun field hf => by simpa using (hkeys field hf).1.symm
  have hend : fields.lookup "end" = none :=
    List.lookup_eq_none_iff.mpr fun field hf => by simpa using (hkeys field hf).2.symm
  have hs : (record type span fields).field? "start" = some (.ofNat span.offsets.1) := by
    simp [field?_record, List.lookup_append, hstart, place]
  have he : (record type span fields).field? "end" = some (.ofNat span.offsets.2) := by
    simp [field?_record, List.lookup_append, hend, place, List.lookup_cons]
  simp only [slice?, hs, he, Json.ofNat, Int.toNat_natCast]
  exact Span.slice?_offsets h

/-- The types of records that say something about spelling. -/
def spelledTypes : List String := ["Literal", "Identifier", "PrivateIdentifier", "TemplateElement"]

/-- Only literals, names and pieces of templates are to spell what they stand for. -/
theorem Faithful.of_type {json : Json} (h : json.field? "type" = some (.string type))
    (htype : type ∉ spelledTypes) : Faithful text json := by
  simp only [spelledTypes, List.mem_cons, List.not_mem_nil, or_false, not_or] at htype
  obtain ⟨h1, h2, h3, h4⟩ := htype
  constructor <;> (intro heq; simp_all)

/-- A record is faithful if it is by itself and its fields are. -/
theorem faithful_record (h : Faithful text (record type span fields))
    (hfields : ∀ field ∈ fields, field.2.Faithful text) :
    (record type span fields).Faithful text := by
  refine .of_holds h fun x hx => ?_
  cases hx with
  | @member _ field hf =>
    simp only [place, List.cons_append, List.mem_cons, List.mem_append, List.not_mem_nil,
      or_false] at hf
    rcases hf with rfl | hf | rfl | rfl
    · exact Json.faithful_string _
    · exact hfields field hf
    · exact Json.faithful_integer _
    · exact Json.faithful_integer _

/-- The record of a name spells it. -/
theorem faithful_identifier {id : Identifier} (h : id.Faithful text) :
    (identifier id).Faithful text := by
  obtain ⟨spelling, hslice, hname⟩ := h
  have hkeys : ∀ field ∈ [("name", Json.string id.name)] ++ scopeField id.scope,
      (field.1 ≠ "start" ∧ field.1 ≠ "end") ∧ field.2.Faithful text := by
    by_cases hs : id.scope = 0 <;> simp [scopeField, hs, Json.ofNat]
  refine faithful_record ?_ fun field hf => (hkeys field hf).2
  exact
    { literal := by simp
      identifier := fun _ =>
        ⟨spelling, slice?_record (fun field hf => (hkeys field hf).1) hslice, fun hno => by
          rw [hname hno, field?_record (by decide)]
          rfl⟩
      privateIdentifier := by simp
      templateElement := by simp }

/-- The record of a private name spells it, with the hash in front. -/
theorem faithful_privateName {name : PrivateName} (h : name.Faithful text) :
    (privateName name).Faithful text := by
  obtain ⟨spelling, hslice, hname⟩ := h
  refine faithful_record ?_ (by simp)
  exact
    { literal := by simp
      identifier := by simp
      privateIdentifier := fun _ =>
        ⟨spelling, slice?_record (by simp) hslice, fun hno => ⟨name.name, by
          rw [field?_record (by decide)]
          rfl, hname hno⟩⟩
      templateElement := by simp }

/-- A literal is faithful if its spelling is what stands there. -/
theorem faithful_literal {value : Json} {raw : String} (hslice : span.slice? text = some raw)
    (hvalue : value.Faithful text)
    (hfields : ∀ field ∈ fields, (field.1 ≠ "start" ∧ field.1 ≠ "end") ∧ field.2.Faithful text) :
    (literal span value raw fields).Faithful text := by
  refine faithful_record ?_ ?_
  · exact
      { literal := fun _ =>
          ⟨raw, slice?_record (by simpa using fun a b hab => (hfields (a, b) hab).1) hslice, by
            rw [field?_record (by decide)]
            rfl⟩
        identifier := by simp
        privateIdentifier := by simp
        templateElement := by simp }
  · simpa [hvalue] using fun a b hab => (hfields (a, b) hab).2

/-- The record of a number has its spelling. -/
theorem faithful_number {n : NumberLiteral} (h : n.span.slice? text = some n.raw) :
    (number n).Faithful text := by
  refine faithful_literal h ?_ (by simp)
  unfold numberValue
  split <;> (try split) <;> simp

/-- The record of a big integer has its spelling. -/
theorem faithful_bigInt {n : BigIntLiteral} (h : n.span.slice? text = some n.raw) :
    (bigInt n).Faithful text :=
  faithful_literal h (by simp) (by simp)

theorem faithful_string {s : StringLiteral} (h : s.span.slice? text = some s.raw) :
    (string s).Faithful text :=
  faithful_literal h (by simp) (by simp)

/-- An object without a type is faithful if its members are. -/
theorem faithful_untyped (htype : fields.lookup "type" = none)
    (h : ∀ field ∈ fields, field.2.Faithful text) : (Json.object fields).Faithful text := by
  refine .of_untyped htype fun x hx => ?_
  cases hx with
  | member hf => exact h _ hf

/-- The record of a regular expression has its spelling. -/
theorem faithful_regex {r : RegexLiteral} (h : r.span.slice? text = some r.spelling) :
    (regex r).Faithful text :=
  faithful_literal h (by simp)
    (by simpa using faithful_untyped (by simp [List.lookup_cons]) (by simp))

/-- The record of a template's piece has its raw text, line breaks normalized. -/
theorem faithful_templateElement {e : TemplateElement} (h : e.Faithful text) :
    (templateElement e).Faithful text := by
  obtain ⟨spelling, hslice, hraw⟩ := h
  have hcooked : (Json.ofOption .string e.cooked).Faithful text := by
    cases e.cooked <;> simp [Json.ofOption]
  have hvalue : (Json.object [("raw", .string e.raw),
      ("cooked", Json.ofOption .string e.cooked)]).Faithful text :=
    faithful_untyped (by simp [List.lookup_cons]) (by simp [hcooked])
  refine faithful_record ?_ (by simp [hvalue])
  exact
    { literal := by simp
      identifier := by simp
      privateIdentifier := by simp
      templateElement := fun _ => ⟨spelling, slice?_record (by simp) hslice, _, by
        rw [field?_record (by decide)]
        rfl, by rw [hraw]; rfl⟩ }

/-- The record of the name behind a dot spells it. -/
theorem faithful_memberName {name : MemberName} (h : name.Faithful text) :
    (memberName name).Faithful text := by
  cases name with
  | identifier id => exact faithful_identifier h
  | hidden name => exact faithful_privateName h

/-- A name that may be missing. -/
theorem faithful_identifier? {name : Option Identifier} (h : ∀ id ∈ name, id.Faithful text) :
    (identifier? name).Faithful text := by
  cases name with
  | none => exact Json.faithful_null
  | some id => exact faithful_identifier (h id rfl)

/-- The values of fields are faithful. -/
def AllFaithful (text : String) (fields : List (String × Json)) : Prop :=
  ∀ field ∈ fields, field.2.Faithful text

@[simp] theorem allFaithful_nil : AllFaithful text [] := fun _ hf => nomatch hf

@[simp] theorem allFaithful_cons {key : String} {value : Json} :
    AllFaithful text ((key, value) :: fields) ↔ value.Faithful text ∧ AllFaithful text fields :=
  List.forall_mem_cons

/-- A record that is not to spell anything is faithful when its fields are. -/
theorem faithful_fields (htype : type ∉ spelledTypes) (h : AllFaithful text fields) :
    (record type span fields).Faithful text :=
  faithful_record (.of_type type_record htype) h

/-- The same for a record that holds a scope. -/
theorem faithful_scoped {scope : ScopeId} (htype : type ∉ spelledTypes)
    (h : AllFaithful text fields) : (scopedRecord type span scope fields).Faithful text := by
  refine faithful_fields htype (List.forall_mem_append.mpr ⟨h, ?_⟩)
  unfold scopeField
  split <;> simp [Json.ofNat]

/-- A property is faithful when its key and its value are. -/
theorem faithful_property {key value : Json} {kind : PropertyKind}
    {computed method shorthand : Bool} (hkey : key.Faithful text) (hvalue : value.Faithful text) :
    (property span key value kind computed method shorthand).Faithful text :=
  faithful_fields (by decide) (by simp [hkey, hvalue])

end Estree

namespace Node

open Estree

variable {text : String}

/-- What may be missing is faithful when it is faithful where it is present. -/
theorem faithful_option {form : Form} {x : Option (Node form)} :
    (Json.ofOption toJson x).Faithful text ↔ ∀ y, x = some y → y.toJson.Faithful text := by
  cases x <;> simp [Json.ofOption]

/-- Nodes that are written one behind the other. -/
theorem faithful_list {form : Form} {xs : List (Node form)} :
    (Json.array (xs.map toJson)).Faithful text ↔ ∀ x ∈ xs, x.toJson.Faithful text := by
  rw [Json.faithful_array, List.forall_mem_map]

/-- Nodes that are written one behind the other, holes among them. -/
theorem faithful_holes {form : Form} {xs : List (Option (Node form))} :
    (Json.array (xs.map (Json.ofOption toJson))).Faithful text ↔
      ∀ x, some x ∈ xs → x.toJson.Faithful text := by
  rw [Json.faithful_array, List.forall_mem_map]
  constructor
  · exact fun h x hx => h _ hx
  · exact fun h x hx => faithful_option.mpr fun y hy => h y (hy ▸ hx)

/-- A list with a last item that may be missing. -/
theorem faithful_snoc? {form : Form} {items : List Json} {last : Option (Node form)} :
    (Json.array (snoc? items (last.map toJson))).Faithful text ↔
      (Json.array items).Faithful text ∧ ∀ x, last = some x → x.toJson.Faithful text := by
  rw [Json.faithful_array, Json.faithful_array]
  cases last <;> simp [snoc?, or_imp, forall_and]

/-- A function is faithful when its name, its parameters and its body are. -/
theorem faithful_function {type : String} {span : Span} {name : Option Identifier}
    {params : Node .parameters} {body : Node .block} {isGenerator isAsync : Bool}
    {scope : ScopeId} (hname : ∀ id ∈ name, id.Faithful text)
    (hparams : params.toJson.Faithful text) (hbody : body.toJson.Faithful text)
    (htype : type ∉ spelledTypes := by decide) :
    (Estree.function type span name params.toJson body.toJson isGenerator isAsync
      scope).Faithful text :=
  faithful_scoped htype (by simp [faithful_identifier? hname, hparams, hbody])

/-- A class is faithful when its name, its heritage and its elements are. -/
theorem faithful_class {type : String} {span bodySpan : Span} {name : Option Identifier}
    {superClass : Option Expression} {elements : List (Node .classElement)} {scope : ScopeId}
    (hname : ∀ id ∈ name, id.Faithful text)
    (h : (∀ e, superClass = some e → e.toJson.Faithful text) ∧
      ∀ e ∈ elements, e.toJson.Faithful text)
    (htype : type ∉ spelledTypes := by decide) :
    (classRecord type span name (expression? superClass) bodySpan (classElements elements)
      scope).Faithful text := by
  have hbody : (record "ClassBody" bodySpan
      [("body", .array (classElements elements))]).Faithful text :=
    faithful_fields (by decide) (by simpa [faithful_list] using h.2)
  refine faithful_scoped htype ?_
  have hsuper : (expression? superClass).Faithful text := by
    rw [expression?_eq, faithful_option]
    exact h.1
  simp only [allFaithful_cons]
  exact ⟨faithful_identifier? hname, hsuper, hbody, allFaithful_nil⟩

/-- The JSON of a node is faithful if the node is, its parts are, and the JSON of its parts
and of their parts is. -/
theorem faithful_of_parts {form : Form} (x : Node form) (hown : x.Faithful text)
    (hparts : ∀ p ∈ x.parts, p.node.Faithful text ∧ p.node.toJson.Faithful text ∧
      ∀ q ∈ p.node.parts, q.node.toJson.Faithful text) : x.toJson.Faithful text := by
  have hjson : ∀ p ∈ x.parts, p.node.toJson.Faithful text := fun p hp => (hparts p hp).2.1
  cases x with
  | reference id | binding id | identifierKey id => exact faithful_identifier hown
  | privateReference name | privateKey name => exact faithful_privateName hown
  | boolean span value => exact faithful_literal hown (by simp) (by simp)
  | null span => exact faithful_literal hown (by simp) (by simp)
  | number n | numberKey n => exact faithful_number hown
  | bigInt n | bigIntKey n => exact faithful_bigInt hown
  | string s | stringKey s => exact faithful_string hown
  | regex r => exact faithful_regex hown
  | noInit => exact Json.faithful_null
  | template x | functionExpression x | classExpression x | computedKey x | memberTarget x
  | expressionInit x | declarationInit x | declarationHead x | patternHead x | blockStatement x
  | variableStatement x => exact hjson _ List.mem_cons_self
  | functionDeclaration f =>
    cases f with
    | function span name params body isGenerator isAsync scope =>
      obtain ⟨hname, -, hinner⟩ := hparts _ List.mem_cons_self
      exact faithful_function hname (hinner ⟨.complete, params⟩ (by simp [parts]))
        (hinner ⟨.complete, body⟩ (by simp [parts]))
  | classDeclaration c =>
    cases c with
    | classDefinition span name superClass bodySpan elements scope =>
      obtain ⟨hname, -, hinner⟩ := hparts _ List.mem_cons_self
      simp only [parts, List.forall_mem_append, List.forall_mem_map, Option.mem_toList] at hinner
      exact faithful_class hname hinner
  | function span name params body isGenerator isAsync scope =>
    exact faithful_function hown (hjson ⟨.complete, params⟩ (by simp [parts]))
      (hjson ⟨.complete, body⟩ (by simp [parts]))
  | classDefinition span name superClass bodySpan elements scope =>
    simp only [parts, List.forall_mem_append, List.forall_mem_map, Option.mem_toList] at hjson
    exact faithful_class hown hjson
  | shorthand span name initializer =>
    have hname := faithful_identifier hown
    cases initializer with
    | none => exact faithful_property hname hname
    | some value =>
      have hvalue := hjson ⟨.complete, value⟩ List.mem_cons_self
      have hpattern : (withDefault span (identifier name) (some value.toJson)).Faithful text :=
        faithful_fields (by decide) (by simp [hname, hvalue])
      exact faithful_property hname hpattern
  | element span target initializer =>
    have htarget := hjson ⟨.complete, target⟩ List.mem_cons_self
    cases initializer with
    | none => exact htarget
    | some value =>
      have hvalue := hjson ⟨.complete, value⟩ (by simp [parts])
      exact faithful_fields (by decide) (by simp [htarget, hvalue])
  | templateLiteral span quasis expressions =>
    have hquasis : (Json.array (quasis.map templateElement)).Faithful text :=
      Json.faithful_array.mpr (List.forall_mem_map.mpr fun e he =>
        faithful_templateElement (hown e he))
    simp only [parts, List.forall_mem_map] at hjson
    have hitems := faithful_list.mpr hjson
    rw [← expressions_eq] at hitems
    exact faithful_fields (by decide)
      (allFaithful_cons.mpr ⟨hquasis, allFaithful_cons.mpr ⟨hitems, allFaithful_nil⟩⟩)
  | metaProperty span holder name =>
    have hholder := faithful_identifier hown.1
    have hname := faithful_identifier hown.2
    exact faithful_fields (by decide) (by simp [hholder, hname])
  | breakFrom span label | continueWith span label =>
    have hlabel := faithful_identifier? hown
    exact faithful_fields (by decide) (by simp [hlabel])
  | labeled span label body =>
    have hlabel := faithful_identifier hown
    have hbody := hjson ⟨.complete, body⟩ List.mem_cons_self
    exact faithful_fields (by decide) (by simp [hlabel, hbody])
  | member span base name optional =>
    have hname := faithful_memberName hown
    have hbase := hjson ⟨.base, base⟩ List.mem_cons_self
    exact faithful_fields (by decide) (by simp [hname, hbase])
  | binary span operator left right =>
    have hleft := hjson ⟨.cover, left⟩ List.mem_cons_self
    have hright := hjson ⟨.cover, right⟩ (by simp [parts])
    exact faithful_fields (by split <;> decide) (by simp [hleft, hright])
  | arrow | conciseArrow | block | staticBlock | catchClause | forLoop | forIn | forOf | switch =>
    simp only [parts, List.forall_mem_cons, List.forall_mem_append, List.forall_mem_map,
      Option.mem_toList, List.not_mem_nil, false_imp_iff, implies_true, and_true,
      and_assoc] at hjson
    refine faithful_scoped (by decide) ?_
    simpa only [allFaithful_cons, statements_eq, expression?_eq, pattern?_eq, switchCases_eq,
      faithful_list, faithful_option, Json.faithful_null, Json.faithful_bool, allFaithful_nil,
      true_and, and_true] using hjson
  | parameters span params remainder =>
    simp only [parts, List.forall_mem_append, List.forall_mem_map, Option.mem_toList] at hjson
    show (Json.array (snoc? (elements params) (rest? remainder))).Faithful text
    simpa only [elements_eq, rest?_eq, faithful_snoc?, faithful_list] using hjson
  | thisValue span | superBase span | emptyStatement span | debugger span =>
    exact faithful_fields (by decide) allFaithful_nil
  | _ =>
    simp only [parts, List.forall_mem_cons, List.forall_mem_append, List.forall_mem_map,
      Option.mem_toList, List.reduceOption_mem_iff, List.not_mem_nil, false_imp_iff,
      implies_true, and_true] at hjson
    refine faithful_fields (by decide) ?_
    simpa only [allFaithful_cons, statements_eq, expressions_eq, optionalExpressions_eq,
      objectMembers_eq, optionalElements_eq, patternProperties_eq, declarators_eq,
      expression?_eq, block?_eq, rest?_eq, faithful_snoc?, faithful_list, faithful_holes,
      faithful_option, Json.faithful_null, Json.faithful_bool, Json.faithful_string,
      allFaithful_nil, true_and, and_true] using hjson

/-- The JSON of a faithful tree is faithful. -/
theorem faithful_toJson {form : Form} (x : Node form) (h : FaithfulTree text x) :
    x.toJson.Faithful text := by
  induction x using induction_two with
  | node x ih =>
    refine faithful_of_parts x h.own fun p hp => ?_
    obtain ⟨hpart, hinner⟩ := ih p hp
    have htree := h.of_mem_parts p hp
    exact ⟨htree.own, hpart htree, fun q hq => hinner q hq (htree.of_mem_parts q hq)⟩

end Node

/-- The JSON of a script is faithful if its statements are. -/
theorem Program.faithful_toJson {text : String} {program : Program}
    (h : ∀ s ∈ program.body, FaithfulTree text s) : program.toJson.Faithful text := by
  have hbody : (Json.array (Node.statements program.body)).Faithful text := by
    rw [Node.statements_eq, Node.faithful_list]
    exact fun s hs => Node.faithful_toJson s (h s hs)
  have htype : program.toJson.field? "type" = some (.string "Program") := by
    simp [toJson, Json.field?]
  refine .of_holds (.of_type htype (by decide)) fun x hx => ?_
  · cases hx with
    | @member _ field hf =>
      have hplace : ∀ field ∈ if program.body.isEmpty then [] else Estree.place program.span,
          field.2.Faithful text := by
        split <;> simp [Estree.place, Json.ofNat]
      simp only [List.mem_append, List.mem_cons, List.not_mem_nil, or_false] at hf
      rcases hf with (rfl | rfl | rfl) | hf
      · exact Json.faithful_string _
      · exact hbody
      · exact Json.faithful_string _
      · exact hplace field hf

/-- The statements of an accepted script are faithful to it. -/
theorem parse_faithfulTree {text : String} {program : Program} (h : parse text = .ok program) :
    ∀ s ∈ program.body, FaithfulTree text s := by
  obtain ⟨body, last, hrun, hfaults, rfl⟩ := parse_ok_inv h
  obtain ⟨⟨hkept, hin⟩, -⟩ := (Parser.script_meets text).ok hrun
  have hread : ∀ t ∈ last.front.taken, t.IsRead text :=
    fun t ht => (hkept.sound.place.taken t ht).isRead hfaults
  rw [Program.body_ofStatements]
  exact fun s hs => .of_placed hread s (hin.placed_of_mem hs).each

/-- The tree of an accepted script and its JSON are faithful to the text, with or without
resolved names: each name and each literal in them is spelled as the text is where it stands. -/
theorem parse_faithful {text : String} {program : Program} (h : parse text = .ok program) :
    (∀ p ∈ program.parts, ∀ q, p.Reaches q → q.node.Faithful text) ∧
    (∀ p ∈ program.resolved.parts, ∀ q, p.Reaches q → q.node.Faithful text) ∧
    ∀ options, ∃ json, parseToJson text options = .ok json ∧ json.Faithful text := by
  have hbody := parse_faithfulTree h
  have hresolved : ∀ s ∈ program.resolved.body, FaithfulTree text s := by
    intro s hs
    refine .of_erase s (hbody s.erase ?_)
    rw [← Program.erase_body_resolved (parse_parsed h)]
    exact List.mem_map_of_mem hs
  refine ⟨?_, ?_, fun options => ?_⟩
  · intro p hp q hq
    obtain ⟨s, hs, rfl⟩ := List.mem_map.mp hp
    exact (FaithfulTree.of_reaches (hbody s hs) hq).own
  · intro p hp q hq
    obtain ⟨s, hs, rfl⟩ := List.mem_map.mp hp
    exact (FaithfulTree.of_reaches (hresolved s hs) hq).own
  · refine ⟨_, by rw [parseToJson, h]; rfl, ?_⟩
    split
    · exact Program.faithful_toJson hresolved
    · exact Program.faithful_toJson hbody

/-- A script with an escape in a name, a line end in a template and a regular expression. -/
def spelledInManyWays : Accepted "\\u0061=`\r\n$\x7b/b/g\x7d`;" fun program =>
    match program.body with
    | [.expressionStatement _ (.assignment _ _ _ (.template (.templateLiteral _ _ [.regex _])))] =>
      true
    | _ => false :=
  .ofRun (by decide +kernel)

/-- The theorem at a script with an escape in a name, a line end in a template and a regular
expression: the regular expression stands in the tree and in the JSON, and both spell it as the
text does. -/
theorem parse_faithful_spelledInManyWays : ∃ program p json regex,
    parse "\\u0061=`\r\n$\x7b/b/g\x7d`;" = .ok program ∧
      parseToJson "\\u0061=`\r\n$\x7b/b/g\x7d`;" {} = .ok json ∧
        p ∈ program.parts ∧ p.Reaches ⟨.complete, .regex regex⟩ ∧
          (Node.regex regex).Faithful "\\u0061=`\r\n$\x7b/b/g\x7d`;" ∧
            json.Reaches (Estree.regex regex) ∧
              ∃ spelling, Estree.slice? "\\u0061=`\r\n$\x7b/b/g\x7d`;" (Estree.regex regex) =
                some spelling ∧ (Estree.regex regex).field? "raw" = some (.string spelling) := by
  obtain ⟨program, h, hok⟩ := spelledInManyWays
  simp only at hok
  split at hok
  · rename_i span whole operator target template quasis regex hbody
    obtain ⟨htree, -, hjson⟩ := parse_faithful h
    obtain ⟨json, hrun, hfaithful⟩ := hjson {}
    let value : Node .template := .templateLiteral template quasis [.regex regex]
    let assignment : Expression := .assignment whole operator target (.template value)
    have hp := Program.mem_parts hbody
    have hq : Part.Reaches ⟨.complete, .expressionStatement span assignment⟩
        ⟨.complete, .regex regex⟩ :=
      .head (b := ⟨.complete, assignment⟩) List.mem_cons_self
        (.head (b := ⟨.complete, .template value⟩) (List.mem_cons_of_mem _ List.mem_cons_self)
          (.head (b := ⟨.complete, value⟩) List.mem_cons_self (.single List.mem_cons_self)))
    have hstatements : program.toJson.Holds
        (.array [(Node.expressionStatement span assignment).toJson]) := by
      rw [Program.toJson, hbody]
      exact .member (List.mem_append_left _ (List.mem_cons_of_mem _ List.mem_cons_self))
    have hreach : json.Reaches (Estree.regex regex) := by
      rw [parseToJson, h] at hrun
      obtain rfl := Except.ok.inj hrun
      have hsecond {α : Type} (x y : α) (more : List α) : y ∈ x :: y :: more :=
        List.mem_cons_of_mem _ List.mem_cons_self
      exact .head hstatements (.head (.item List.mem_cons_self)
        (.head (Estree.holds_record List.mem_cons_self)
          (.head (Estree.holds_record (List.mem_cons_of_mem _ (hsecond _ _ _)))
            (.head (Estree.holds_record (hsecond _ _ _)) (.single (.item List.mem_cons_self))))))
    exact ⟨program, _, json, regex, h, hrun, hp, hq, htree _ hp _ hq, hreach,
      (hfaithful _ hreach).literal rfl⟩
  · cases hok

end EcmaScript
