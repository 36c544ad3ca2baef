import EcmaScript.Estree.Parse
import EcmaScript.Proofs.Estree.Injective
import EcmaScript.Proofs.Scope.Accepted
import Mathlib.Data.List.Forall2

/-!
# Trees with the same JSON

Two JSON values are the same when they differ at most in the order in which their objects list
their members. What is read from them is then the same too, so scripts whose JSON is the same
are the same, up to the spans of parameters, which are not written.
-/

namespace EcmaScript

open Sketch Estree

namespace Json

/-- The two values are the same but for the order of members. -/
inductive Same : Json → Json → Prop where
  | null : Same null null
  | bool (b : Bool) : Same (bool b) (bool b)
  | integer (n : Int) : Same (integer n) (integer n)
  | double (x : Double) : Same (double x) (double x)
  | string (s : String) : Same (string s) (string s)
  | array {xs ys : List Json} : List.Forall₂ Same xs ys → Same (array xs) (array ys)
  | object {xs ys : List (String × Json)} :
      (∀ key, Option.Rel Same (xs.lookup key) (ys.lookup key)) → Same (object xs) (object ys)

/-- What is read does not depend on the order of members. -/
def Unordered {α : Type} (decode : Json → α) : Prop :=
  ∀ a b : Json, a.Same b → decode a = decode b

namespace Same

variable {α : Type} {a b : Json} {xs ys : List Json}

private theorem sizeOf_lt_of_lookup {members : List (String × Json)} {key : String} {x : Json}
    (h : members.lookup key = some x) : sizeOf x < sizeOf members := by
  induction members with
  | nil => exact nomatch h
  | cons field more ih =>
    obtain ⟨k, y⟩ := field
    rw [List.lookup_cons] at h
    cases hk : key == k with
    | true =>
      rw [hk] at h
      cases h
      simp
      omega
    | false =>
      rw [hk] at h
      have := ih h
      simp
      omega

/-- Every value is the same as itself. -/
theorem refl : (a : Json) → a.Same a
  | .null => .null
  | .bool b => .bool b
  | .integer n => .integer n
  | .double x => .double x
  | .string s => .string s
  | .array items => .array (List.forall₂_same.mpr fun x hx => by
      have := List.sizeOf_lt_of_mem hx
      exact refl x)
  | .object members => .object fun key => by
      cases h : members.lookup key with
      | none => exact .none
      | some x =>
        have := sizeOf_lt_of_lookup h
        exact .some (refl x)
termination_by a => sizeOf a

/-- The same key is present in both, with values that are the same, or in neither. -/
theorem field? (h : a.Same b) (key : String) : Option.Rel Same (a.field? key) (b.field? key) := by
  cases h with
  | object h => exact h key
  | _ => exact .none

/-- The values under one key are the same. -/
theorem get (h : a.Same b) (key : String) : (a.get key).Same (b.get key) := by
  have hf := h.field? key
  unfold Json.get
  cases ha : a.field? key <;> cases hb : b.field? key <;> rw [ha, hb] at hf <;> cases hf
  · exact .null
  · assumption

/-- The two hold the same text. -/
theorem text (h : a.Same b) : a.text = b.text := by cases h <;> rfl

/-- The two hold the same number. -/
theorem nat (h : a.Same b) : a.nat = b.nat := by cases h <;> rfl

/-- The two hold the same truth value. -/
theorem flag (h : a.Same b) : a.flag = b.flag := by cases h <;> rfl

/-- Both are null or neither is. -/
theorem isNull (h : a.Same b) : a.isNull = b.isNull := by cases h <;> rfl

/-- The two list values that are the same, one by one. -/
theorem items (h : a.Same b) : List.Forall₂ Same a.items b.items := by
  cases h with
  | array h => exact h
  | _ => exact .nil

/-- Lists of values that are the same are read alike. -/
theorem map {decode : Json → α} (hd : Unordered decode) (h : List.Forall₂ Same xs ys) :
    xs.map decode = ys.map decode := by
  induction h with
  | nil => rfl
  | cons hx _ ih => rw [List.map_cons, List.map_cons, hd _ _ hx, ih]

/-- Values that may be missing are read alike. -/
theorem map? {decode : Json → α} (hd : Unordered decode) {x y : Option Json}
    (h : Option.Rel Same x y) : x.map decode = y.map decode := by
  cases h with
  | none => rfl
  | some h => exact congrArg some (hd _ _ h)

/-- What reads a value alike reads one that may be null alike. -/
theorem option {decode : Json → α} (hd : Unordered decode) : Unordered (Json.option decode) := by
  intro a b h
  rw [Json.option, Json.option, h.isNull, hd a b h]

end Same

end Json

namespace Estree

open Json

variable {a b : Json}

theorem typeOf_unordered : Unordered typeOf := fun _ _ h => (h.get "type").text

theorem spanOf_unordered : Unordered spanOf := fun a b h => by
  rw [spanOf, spanOf, (h.get "start").nat, (h.get "end").nat]

theorem scopeOf_unordered : Unordered scopeOf := fun _ _ h => (h.get "scopeContext").nat

theorem rawOf_unordered : Unordered rawOf := fun _ _ h => (h.get "raw").text

theorem identifierOf_unordered : Unordered identifierOf := fun a b h => by
  rw [identifierOf, identifierOf, spanOf_unordered a b h, (h.get "name").text,
    scopeOf_unordered a b h]

theorem privateNameOf_unordered : Unordered privateNameOf := fun a b h => by
  rw [privateNameOf, privateNameOf, spanOf_unordered a b h, (h.get "name").text]

theorem memberNameOf_unordered : Unordered memberNameOf := fun a b h => by
  rw [memberNameOf, memberNameOf, typeOf_unordered a b h, identifierOf_unordered a b h,
    privateNameOf_unordered a b h]

theorem numberOf_unordered : Unordered numberOf := fun a b h => by
  rw [numberOf, numberOf, spanOf_unordered a b h, rawOf_unordered a b h]

theorem bigIntOf_unordered : Unordered bigIntOf := fun a b h => by
  rw [bigIntOf, bigIntOf, spanOf_unordered a b h, rawOf_unordered a b h]

theorem stringOf_unordered : Unordered stringOf := fun a b h => by
  rw [stringOf, stringOf, spanOf_unordered a b h, rawOf_unordered a b h, (h.get "value").text]

theorem regexOf_unordered : Unordered regexOf := fun a b h => by
  rw [regexOf, regexOf, spanOf_unordered a b h, ((h.get "regex").get "pattern").text,
    ((h.get "regex").get "flags").text]

theorem templateElementOf_unordered : Unordered templateElementOf := fun a b h => by
  rw [templateElementOf, templateElementOf, spanOf_unordered a b h,
    ((h.get "value").get "raw").text, (h.get "tail").flag,
    Same.option (fun _ _ h => h.text) _ _ ((h.get "value").get "cooked")]

/-- A literal is told by its members, wherever they stand. -/
theorem literalOf_unordered : Unordered literalOf := fun a b h => by
  rw [literalOf, literalOf, (h.get "regex").isNull, (h.get "bigint").isNull,
    regexOf_unordered a b h, bigIntOf_unordered a b h, spanOf_unordered a b h,
    stringOf_unordered a b h, rawOf_unordered a b h, numberOf_unordered a b h]
  have hvalue := h.get "value"
  generalize a.get "value" = x at hvalue
  generalize b.get "value" = y at hvalue
  cases hvalue <;> rfl

theorem literalKeyOf_unordered : Unordered literalKeyOf := fun a b h => by
  rw [literalKeyOf, literalKeyOf, (h.get "bigint").isNull, bigIntOf_unordered a b h,
    stringOf_unordered a b h, numberOf_unordered a b h]
  have hvalue := h.get "value"
  generalize a.get "value" = x at hvalue
  generalize b.get "value" = y at hvalue
  cases hvalue <;> rfl

/-- Items are divided from the rest at the same place. -/
theorem splitRest_same {xs ys : List Json} (h : List.Forall₂ Same xs ys) :
    List.Forall₂ Same (splitRest xs).1 (splitRest ys).1 ∧
      Option.Rel Same (splitRest xs).2 (splitRest ys).2 := by
  obtain ⟨xs, rfl⟩ : ∃ as, xs = as.reverse := ⟨xs.reverse, xs.reverse_reverse.symm⟩
  obtain ⟨ys, rfl⟩ : ∃ bs, ys = bs.reverse := ⟨ys.reverse, ys.reverse_reverse.symm⟩
  cases List.forall₂_reverse_iff.mp h with
  | nil => exact ⟨.nil, .none⟩
  | @cons x y xs ys hx hxs =>
    have hinit := List.forall₂_reverse_iff.mpr hxs
    simp only [splitRest, List.reverse_cons, List.getLast?_concat, List.dropLast_concat] at h ⊢
    rw [typeOf_unordered x y hx]
    split
    · exact ⟨hinit, .some hx⟩
    · exact ⟨h, .none⟩

section

variable {read : Reader} (hread : ∀ form, Unordered (read form))
include hread

/-- The nodes listed under a key are read alike. -/
theorem nodesOf_unordered (form : Form) (key : String) :
    Unordered (nodesOf read · form key) := fun _ _ h => Same.map (hread form) (h.get key).items

/-- The nodes listed under a key, holes among them, are read alike. -/
theorem optionalNodesOf_unordered (form : Form) (key : String) :
    Unordered (optionalNodesOf read · form key) := fun _ _ h =>
  Same.map (Same.option (hread form)) (h.get key).items

/-- The node under a key that may be missing is read alike. -/
theorem nodeOf?_unordered (form : Form) (key : String) : Unordered (nodeOf? read · form key) :=
  fun _ _ h => Same.option (hread form) _ _ (h.get key)

theorem keyOf_unordered (computed : Bool) : Unordered (keyOf read · computed) := fun a b h => by
  simp only [keyOf, hread .expression a b h, typeOf_unordered a b h, identifierOf_unordered a b h,
    privateNameOf_unordered a b h, literalKeyOf_unordered a b h]

theorem keyIn_unordered : Unordered (keyIn read) := fun a b h => by
  rw [keyIn, keyIn, (h.get "computed").flag]
  exact keyOf_unordered hread _ _ _ (h.get "key")

theorem defaultOf?_unordered : Unordered (defaultOf? read) := fun a b h => by
  rw [defaultOf?, defaultOf?, typeOf_unordered a b h, hread .expression _ _ (h.get "right")]

/-- Whatever a node is read from, the order of members plays no part. -/
theorem nodeOf_unordered (form : Form) : Unordered (nodeOf read form) := by
  intro a b h
  have hself : ∀ form, read form a = read form b := fun form => hread form a b h
  have hnode : ∀ form key, read form (a.get key) = read form (b.get key) :=
    fun form key => hread form _ _ (h.get key)
  have hnodes : ∀ form key, nodesOf read a form key = nodesOf read b form key :=
    fun form key => nodesOf_unordered hread form key a b h
  have hholes : ∀ form key, optionalNodesOf read a form key = optionalNodesOf read b form key :=
    fun form key => optionalNodesOf_unordered hread form key a b h
  have hnode? : ∀ form key, nodeOf? read a form key = nodeOf? read b form key :=
    fun form key => nodeOf?_unordered hread form key a b h
  have hname : ∀ key, identifierOf (a.get key) = identifierOf (b.get key) :=
    fun key => identifierOf_unordered _ _ (h.get key)
  have hname? : ∀ key, (a.get key).option identifierOf = (b.get key).option identifierOf :=
    fun key => Same.option identifierOf_unordered _ _ (h.get key)
  have hflag : ∀ key, (a.get key).flag = (b.get key).flag := fun key => (h.get key).flag
  have htext : ∀ key, (a.get key).text = (b.get key).text := fun key => (h.get key).text
  have hnull : ∀ key, (a.get key).isNull = (b.get key).isNull := fun key => (h.get key).isNull
  have htype := typeOf_unordered a b h
  have hspan := spanOf_unordered a b h
  have hscope := scopeOf_unordered a b h
  have hkey := keyIn_unordered hread a b h
  have hid := identifierOf_unordered a b h
  cases form with
  | expression =>
    simp only [nodeOf, expressionOf, htype, hspan, hscope, hself, hnode, hnodes, hholes, hnode?,
      hname, hflag, htext, hid, privateNameOf_unordered a b h, literalOf_unordered a b h,
      memberNameOf_unordered _ _ (h.get "property")]
  | template =>
    simp only [nodeOf, templateOf, hspan, hnodes,
      Same.map templateElementOf_unordered (h.get "quasis").items]
  | objectMember =>
    simp only [nodeOf, objectMemberOf, htype, hspan, hnode, hflag, htext, hname, hkey,
      defaultOf?_unordered hread _ _ (h.get "value")]
  | propertyKey => exact keyOf_unordered hread false a b h
  | pattern =>
    obtain ⟨helements, helements'⟩ := splitRest_same (h.get "elements").items
    obtain ⟨hproperties, hproperties'⟩ := splitRest_same (h.get "properties").items
    simp only [nodeOf, patternOf, htype, hspan, hself, hid,
      Same.map (hread .patternProperty) hproperties, Same.map? (hread .rest) hproperties',
      Same.map (Same.option (hread .element)) helements, Same.map? (hread .rest) helements']
  | patternProperty => simp only [nodeOf, patternPropertyOf, hspan, hkey, hnode, hflag]
  | element => simp only [nodeOf, elementOf, htype, hspan, hnode, hself]
  | rest => simp only [nodeOf, restOf, hspan, hnode]
  | parameters =>
    obtain ⟨hparams, hrest⟩ := splitRest_same h.items
    simp only [nodeOf, parametersOf, Same.map (hread .element) hparams,
      Same.map? (hread .rest) hrest]
  | function =>
    simp only [nodeOf, functionOf, hspan, hname?, hnode, hflag, hscope]
  | block => simp only [nodeOf, blockOf, hspan, hnodes, hscope]
  | classDefinition =>
    simp only [nodeOf, classDefinitionOf, hspan, hname?, hnode?, hscope,
      spanOf_unordered _ _ (h.get "body"),
      nodesOf_unordered hread .classElement "body" _ _ (h.get "body")]
  | classElement =>
    simp only [nodeOf, classElementOf, htype, hspan, hkey, htext, hflag, hnode, hnode?, hnodes,
      hscope]
  | declarator => simp only [nodeOf, declaratorOf, hspan, hnode, hnode?]
  | declaration => simp only [nodeOf, declarationOf, hspan, htext, hnodes]
  | forInit => simp only [nodeOf, forInitOf, h.isNull, hnull, hself]
  | forHead => simp only [nodeOf, forHeadOf, hnull, hself]
  | switchCase => simp only [nodeOf, switchCaseOf, hspan, hnode?, hnodes]
  | catchClause => simp only [nodeOf, catchClauseOf, hspan, hnode?, hnode, hscope]
  | statement =>
    simp only [nodeOf, statementOf, functionOf, classDefinitionOf, htype, hspan, hscope, hself,
      hnode, hnodes, hnode?, hname, hname?, hflag, hnull, spanOf_unordered _ _ (h.get "body"),
      nodesOf_unordered hread .classElement "body" _ _ (h.get "body")]

end

/-- Nodes are read the same way from values that are the same. -/
theorem readNode_unordered (depth : Nat) (form : Form) : Unordered (readNode depth form) := by
  induction depth generalizing form with
  | zero => exact fun _ _ _ => rfl
  | succ depth ih => exact nodeOf_unordered ih form

/-- A script, from what lies at most so deep; an empty one has no place. -/
def programOf (depth : Nat) (json : Json) : Program where
  span := if (json.get "body").items.isEmpty then .unset else spanOf json
  body := nodesOf (readNode depth) json .statement "body"

/-- A script is read alike from values that are the same. -/
theorem programOf_unordered (depth : Nat) : Unordered (programOf depth) := by
  intro a b h
  have hempty : (a.get "body").items.isEmpty = (b.get "body").items.isEmpty := by
    rw [Bool.eq_iff_iff, List.isEmpty_iff_length_eq_zero, List.isEmpty_iff_length_eq_zero,
      (h.get "body").items.length_eq]
  have hbody : nodesOf (readNode depth) a .statement "body" =
      nodesOf (readNode depth) b .statement "body" :=
    nodesOf_unordered (readNode_unordered depth) .statement "body" a b h
  rw [programOf, programOf, hempty, spanOf_unordered a b h, hbody]

end Estree

namespace Program

/-- The script is what some text is, with or without resolved names. -/
def IsParsed (program : Program) : Prop :=
  ∃ text parsed, parse text = .ok parsed ∧ (program = parsed ∨ program = parsed.resolved)

/-- The statements come from a text, and there is a place from the first to the last of them. -/
structure Genuine (program : Program) : Prop where
  statements : ∀ s ∈ program.body, s.erase.Genuine
  span_eq : program.span = if program.body.isEmpty then .unset
    else .ofOffsets program.span.offsets.1 program.span.offsets.2

variable {text : String} {program : Program}

/-- A span that is placed in a text is known from its offsets. -/
private theorem placed_span_eq {lo : Nat} {front : Front} {span : Span} {solid : Bool}
    {debt : Debt} {row : List Span} {parts : List Sketch}
    (h : (Sketch.mk span solid debt row parts).Placed text lo front) :
    span = .ofOffsets span.offsets.1 span.offsets.2 := by
  cases h with
  | mk => rfl

/-- What the parser gives is genuine: its spans hold two offsets and its numbers the values of their
spellings. -/
theorem genuine_of_parse (h : parse text = .ok program) : program.Genuine := by
  obtain ⟨body, last, hrun, hfaults, rfl⟩ := parse_ok_inv h
  obtain ⟨⟨hkept, hin⟩, -⟩ := (Parser.script_meets text).ok hrun
  have hread : ∀ t ∈ last.front.taken, t.IsRead text := by
    intro t ht
    obtain ⟨readings, r, before, htrace, htoken, hclean⟩ := hkept.sound.place.taken t ht
    exact ⟨readings, r, before, htrace, hclean hfaults, htoken⟩
  refine ⟨fun s hs => ?_, ?_⟩
  · have hparsed : Parsed s := parse_parsed h s hs
    have hfits : Fits [] s := parse_fits h ⟨.complete, s⟩ (List.mem_map_of_mem hs)
    rw [body_ofStatements] at hs
    rw [hparsed.erase_eq]
    exact ⟨⟨text, _, last.front, (hin.placed_of_mem hs).each, hread⟩, _, hfits⟩
  · rw [body_ofStatements]
    cases body with
    | nil => rfl
    | cons first more =>
      have hplaced := placed_ofStatements hin (List.cons_ne_nil first more)
      exact placed_span_eq hplaced

/-- A script out of the parser is genuine, resolved or not. -/
theorem IsParsed.genuine (h : program.IsParsed) : program.Genuine := by
  obtain ⟨text, parsed, h, rfl | rfl⟩ := h
  · exact genuine_of_parse h
  · have hbody := erase_body_resolved (parse_parsed h)
    have hparsed := genuine_of_parse h
    refine ⟨fun s hs => ?_, ?_⟩
    · have herased : s.erase ∈ parsed.body := hbody ▸ List.mem_map_of_mem hs
      rw [← Node.erase_erase]
      exact hparsed.statements _ herased
    · have hempty : parsed.resolved.body.isEmpty = parsed.body.isEmpty := by
        rw [← hbody, List.isEmpty_map]
      rw [hempty]
      exact hparsed.span_eq

/-- What is read from the JSON of a script, if one looks deep enough, is the script. -/
theorem Genuine.programOf_toJson (h : program.Genuine) {depth : Nat}
    (hdepth : sizeOf program.body ≤ depth) :
    Estree.programOf depth program.toJson = program.relocate .dropParameters := by
  have hbody : Estree.nodesOf (Estree.readNode depth) program.toJson .statement "body" =
      program.body.map (Node.relocate .dropParameters) :=
    read_list (Node.statements_eq _) rfl fun s hs =>
      readNode_toJson depth s (h.statements s hs) nofun
        (Nat.lt_of_lt_of_le (List.sizeOf_lt_of_mem hs) hdepth)
  have hempty : (program.toJson.get "body").items.isEmpty = program.body.isEmpty := by
    show (Node.statements program.body).isEmpty = _
    rw [Node.statements_eq, List.isEmpty_map]
  have hspan : (if program.body.isEmpty then .unset else Estree.spanOf program.toJson) =
      program.span := by
    rw [h.span_eq]
    unfold toJson
    split
    · rfl
    · rfl
  rw [Estree.programOf, hempty, hspan, hbody]
  rfl

end Program

/-- The JSON of a script loses nothing: two scripts, each of which some text is, with or without
resolved names, have the same JSON only if they are the same up to the spans of parameters. -/
theorem toJson_determines {p q : Program} (hp : p.IsParsed) (hq : q.IsParsed)
    (h : p.toJson.Same q.toJson) : p.relocate .dropParameters = q.relocate .dropParameters := by
  rw [← hp.genuine.programOf_toJson (Nat.le_add_right _ (sizeOf q.body)),
    ← hq.genuine.programOf_toJson (Nat.le_add_left _ (sizeOf p.body))]
  exact Estree.programOf_unordered _ _ _ h

/-- A script that declares a function with one parameter, with that span of all parameters. -/
def oneParameter (params : Span) : Program where
  span := .ofOffsets 0 16
  body := [.functionDeclaration (.function (.ofOffsets 0 16) (some ⟨.ofOffsets 9 10, "f", 0⟩)
    (.parameters params
      [.element (.ofOffsets 12 13) (.binding ⟨.ofOffsets 12 13, "a", 0⟩) none] none)
    (.block (.ofOffsets 14 16) [] 0) false false 0)]

/-- Whether the script is that one. -/
def isOneParameter (params : Span) : Program → Bool
  | ⟨span, [.functionDeclaration (.function whole (some name)
      (.parameters params' [.element inner (.binding id) none] none) (.block body [] scope)
      isGenerator isAsync scope')]⟩ =>
    decide (span = .ofOffsets 0 16 ∧ whole = .ofOffsets 0 16 ∧ name = ⟨.ofOffsets 9 10, "f", 0⟩ ∧
      params' = params ∧ inner = .ofOffsets 12 13 ∧ id = ⟨.ofOffsets 12 13, "a", 0⟩ ∧
      body = .ofOffsets 14 16 ∧ scope = 0 ∧ isGenerator = false ∧ isAsync = false ∧ scope' = 0)
  | _ => false

/-- The run tells the whole script that has one parameter list. -/
theorem eq_oneParameter {params : Span} {program : Program}
    (h : isOneParameter params program = true) : program = oneParameter params := by
  unfold isOneParameter at h
  split at h
  · obtain ⟨rfl, rfl, rfl, rfl, rfl, rfl, rfl, rfl, rfl, rfl, rfl⟩ := of_decide_eq_true h
    rfl
  · cases h

/-- The blank stands behind the parenthesis. -/
def blankBehind : Accepted "function f( a)\x7b\x7d" (isOneParameter (.ofOffsets 10 14)) :=
  .ofRun (by decide +kernel)

/-- The blank stands in front of the parenthesis. -/
def blankInFront : Accepted "function f (a)\x7b\x7d" (isOneParameter (.ofOffsets 11 14)) :=
  .ofRun (by decide +kernel)

/-- The theorem at two scripts that are not the same, as a blank stands at another place. -/
theorem toJson_determines_blank : ∃ p q, parse "function f( a)\x7b\x7d" = .ok p ∧
    parse "function f (a)\x7b\x7d" = .ok q ∧ p ≠ q ∧ p.toJson.Same q.toJson ∧
      p.relocate .dropParameters = q.relocate .dropParameters := by
  obtain ⟨p, hp, hok⟩ := blankBehind
  obtain ⟨q, hq, hok'⟩ := blankInFront
  obtain rfl := eq_oneParameter hok
  obtain rfl := eq_oneParameter hok'
  have hsame : (oneParameter (.ofOffsets 10 14)).toJson.Same
      (oneParameter (.ofOffsets 11 14)).toJson := Json.Same.refl _
  refine ⟨_, _, hp, hq, fun heq => ?_, hsame, ?_⟩
  · simp [oneParameter, Span.ofOffsets, Position.ofOffset] at heq
  · exact toJson_determines ⟨_, _, hp, .inl rfl⟩ ⟨_, _, hq, .inl rfl⟩ hsame

end EcmaScript
