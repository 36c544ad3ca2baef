import EcmaScript.Proofs.Parser.Script

/-!
# Spans of accepted scripts

Every node of an accepted script stands on a stretch of the text between two characters,
which holds the stretches of all its parts. Only a piece of a template may stand on an empty
stretch. A script without statements stands nowhere.
-/

namespace EcmaScript

/-- No boundary lies behind the end of the text. -/
theorem IsBoundary.le {text : String} {offset : Nat} (h : IsBoundary text offset) :
    offset ≤ text.utf8ByteSize := by
  obtain ⟨before, behind, ht, ho⟩ := h
  have hall := byteLength_eq_utf8ByteSize text.toList
  rw [String.ofList_toList, ht, byteLength_append] at hall
  omega

/-- Between two boundaries of a text there are whole characters. -/
theorem IsBoundary.between {text : String} {start stop : Nat} (hs : IsBoundary text start)
    (he : IsBoundary text stop) (hle : start ≤ stop) :
    ∃ before middle behind, text.toList = before ++ (middle ++ behind) ∧
      byteLength before = start ∧ byteLength before + byteLength middle = stop := by
  obtain ⟨before, behind, ht, ho⟩ := hs
  obtain ⟨before', behind', ht', ho'⟩ := he
  rcases List.append_eq_append_iff.mp (ht.symm.trans ht') with ⟨middle, hm, hb⟩ | ⟨middle, hm, hb⟩
  · refine ⟨before, middle, behind', by rw [ht, hb], ho, ?_⟩
    rw [← ho', hm, byteLength_append]
  · -- The stop is not before the start, so nothing lies between the two.
    rw [hm, byteLength_append] at ho
    cases middle with
    | nil =>
      refine ⟨before', [], behind', ht', ?_, ?_⟩
      · rw [← ho, byteLength_nil, Nat.add_zero]
      · rw [← ho', byteLength_nil, Nat.add_zero]
    | cons c middle =>
      have hp := c.utf8Size_pos
      rw [byteLength_cons] at ho
      omega

/-- What lies between two boundaries can be cut out. -/
theorem Span.isSome_slice? {text : String} {start stop : Nat} (hs : IsBoundary text start)
    (he : IsBoundary text stop) (hle : start ≤ stop) :
    ((Span.ofOffsets start stop).slice? text).isSome = true := by
  obtain ⟨before, middle, behind, ht, rfl, rfl⟩ := hs.between he hle
  rw [slice?_ofOffsets ht]
  rfl

namespace Outline

/-- Whether the span of the node may not be empty. -/
def solid : Outline → Bool
  | mk _ solid _ => solid

/-- The parts that the node has. -/
def parts : Outline → List Outline
  | mk _ _ parts => parts

mutual

/-- A node and all the nodes below it. -/
def nodes : Outline → List Outline
  | mk span solid parts => mk span solid parts :: nodesOfAll parts

/-- Some nodes and all the nodes below them. -/
def nodesOfAll : List Outline → List Outline
  | [] => []
  | outline :: more => outline.nodes ++ nodesOfAll more

end

/-- What holds of the span of a node: it is in the range of the text, can be cut out of it,
holds the spans of the parts, and is not empty unless it may be. -/
structure WellPlaced (text : String) (outline : Outline) : Prop where
  one_le_start : 1 ≤ outline.span.start
  start_le_stop : outline.span.start ≤ outline.span.stop
  stop_le : outline.span.stop ≤ text.utf8ByteSize + 1
  slice : (outline.span.slice? text).isSome = true
  encloses : ∀ part ∈ outline.parts, outline.span.encloses part.span = true
  nonempty : outline.solid = true → outline.span.start < outline.span.stop

end Outline

namespace Sketch

variable {text : String} {lo : Nat} {front : Front}

/-- The outlines of sketches are those of each of them. -/
theorem mem_outlines {outline : Outline} {sketches : List Sketch}
    (h : outline ∈ outlines sketches) : ∃ sketch ∈ sketches, outline = sketch.outline := by
  induction sketches with
  | nil => exact nomatch h
  | cons sketch more ih =>
    rcases List.mem_cons.mp h with rfl | h
    · exact ⟨sketch, List.mem_cons_self, rfl⟩
    · obtain ⟨sketch, hs, rfl⟩ := ih h
      exact ⟨sketch, List.mem_cons_of_mem _ hs, rfl⟩

/-- A placed sketch has a span between the two places. -/
theorem Placed.encloses {sketch : Sketch} (h : sketch.Placed text lo front) :
    (Span.ofOffsets lo front.stop).encloses sketch.outline.span = true := by
  cases h with
  | mk hl hh _ _ _ _ _ _ _ =>
    rw [Span.encloses, Bool.and_eq_true, decide_eq_true_iff, decide_eq_true_iff]
    exact ⟨Nat.add_le_add_right hl 1, Nat.add_le_add_right hh 1⟩

/-- A placed sketch has an outline that is well placed in the text. -/
theorem Placed.wellPlaced {sketch : Sketch} (h : sketch.Placed text lo front) :
    sketch.outline.WellPlaced text := by
  cases h with
  | @mk _ start stop _ _ _ _ _ _ _ hle hlt hs he _ _ hp =>
    refine
      { one_le_start := Nat.le_add_left 1 start
        start_le_stop := Nat.add_le_add_right hle 1
        stop_le := Nat.add_le_add_right he.le 1
        slice := Span.isSome_slice? hs he hle
        encloses := fun part hpart => ?_
        nonempty := fun hsolid => Nat.add_lt_add_right (hlt hsolid) 1 }
    obtain ⟨sketch, hm, rfl⟩ := mem_outlines hpart
    exact (hp sketch hm).encloses

mutual

/-- Whatever is below a node that is placed is placed well. -/
theorem Placed.nodes {lo : Nat} {front : Front} : (sketch : Sketch) →
    sketch.Placed text lo front → ∀ below ∈ sketch.outline.nodes, below.WellPlaced text
  | .mk _ _ _ _ parts, h => by
    intro below hb
    rcases List.mem_cons.mp hb with rfl | hb'
    · exact h.wellPlaced
    · cases h with
      | mk _ _ _ _ _ _ _ _ hp => exact EachPlaced.nodes parts hp below hb'

/-- All nodes below placed sketches are well placed in the text. -/
theorem EachPlaced.nodes {lo : Nat} {front : Front} : (sketches : List Sketch) →
    EachPlaced text lo front sketches →
      ∀ below ∈ Outline.nodesOfAll (outlines sketches), below.WellPlaced text
  | [], _ => by simp [outlines, Outline.nodesOfAll]
  | sketch :: more, h => by
    intro below hb
    rcases List.mem_append.mp hb with hb | hb
    · exact Placed.nodes sketch (h sketch List.mem_cons_self) below hb
    · exact EachPlaced.nodes more (fun o ho => h o (List.mem_cons_of_mem _ ho)) below hb

end

end Sketch

@[simp] theorem Program.body_ofStatements (body : List Statement) :
    (ofStatements body).body = body := by
  unfold ofStatements
  split <;> rfl

/-- The sketch of a script. -/
def Program.sketch (program : Program) : Sketch :=
  .mk program.span (!program.body.isEmpty) .none
    ((Node.sketchStatements program.body).map Sketch.span) (Node.sketchStatements program.body)

/-- The sketch of a program has the outline of the program. -/
theorem Program.outline_sketch (program : Program) : program.sketch.outline = program.outline :=
  congrArg (Outline.mk program.span (!program.body.isEmpty)) (Node.outlines_statements program.body)

/-- A script with statements in the order of a text is placed in it. -/
theorem Program.placed_ofStatements {text : String} {lo : Nat} {hi : Front}
    {body : List Statement} (h : Parser.InOrder text Node.sketch lo hi body) (hne : body ≠ []) :
    (Program.ofStatements body).sketch.Placed text lo hi := by
  cases body with
  | nil => exact absurd rfl hne
  | cons first more =>
    obtain ⟨start, stop, hs, he, h1, h2, h3, h4, h5, h6⟩ := h.covered Node.sketch_statement
    have hspan : (ofStatements (first :: more)).span = .ofOffsets start stop := by
      have hlast := List.getLast?_eq_some_getLast (List.cons_ne_nil first more)
      have hmax : max (stop + 1) (start + 1) = stop + 1 := by omega
      simp only [ofStatements, List.head?_cons, hlast, Span.through, hs, he]
      rw [hmax]
      rfl
    rw [sketch, hspan, body_ofStatements, Node.sketchStatements_eq]
    exact .mk h1 h3 (Nat.le_of_lt h2) (fun _ => h2) h4 h5 trivial h6.inRow h6.each

/-- Every node of an accepted script has a span in the range of the text that can be cut out
of it, that holds the spans of all parts of the node, and that is empty at most for a piece
of a template. Only a script without statements has no place. -/
theorem parse_spans {text : String} {program : Program} (h : parse text = .ok program) :
    (program.body = [] → program.span = ⟨0, 0⟩) ∧
    (program.body ≠ [] → ∀ node ∈ program.outline.nodes, node.WellPlaced text) := by
  obtain ⟨body, last, hrun, -, rfl⟩ := parse_ok_inv h
  obtain ⟨⟨-, hin⟩, -⟩ := (Parser.script_meets text).ok hrun
  rw [Program.body_ofStatements]
  refine ⟨fun hnil => by rw [hnil]; rfl, fun hne => ?_⟩
  rw [← Program.outline_sketch]
  exact Sketch.Placed.nodes _ (Program.placed_ofStatements hin hne)

/-- A script with a template whose only piece is empty. -/
def emptyTemplate : Accepted "``.é;" fun program => !program.body.isEmpty :=
  .ofRun (by decide +kernel)

/-- The theorem at a script with a template whose only piece is empty. -/
theorem parse_spans_template : ∃ program, parse "``.é;" = .ok program ∧
    program.body ≠ [] ∧ ∀ node ∈ program.outline.nodes, node.WellPlaced "``.é;" := by
  obtain ⟨program, h, hok⟩ := emptyTemplate
  have hne : program.body ≠ [] := by
    intro hnil
    simp [hnil] at hok
  exact ⟨program, h, hne, (parse_spans h).2 hne⟩

end EcmaScript
