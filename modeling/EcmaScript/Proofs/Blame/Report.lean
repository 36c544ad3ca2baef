import EcmaScript.Proofs.Blame.Statement
import EcmaScript.Proofs.Parser.Spans
import EcmaScript.Diagnostic.Report
import EcmaScript.Token.Sequence

/-!
# Diagnostics at their places

Whatever a text is, each diagnostic about it is for a place between two characters, and its label
marks the character there; only at the end of the text there is none to mark. Diagnostics come in
the order in which the problems were met. Those of the tokens lie one token behind the other, each
in the stretch of its token. A problem of syntax is told behind them, yet it may blame something
that was read long before.
-/

namespace EcmaScript

open Lexer

/-- What the parser tells about a text, which is nothing if it accepts the text. -/
def reported (text : String) : Diagnostics :=
  match parse text with
  | .ok _ => []
  | .error list => list

/-- What is told about the spelling of the tokens of a text. -/
def misspelled (text : String) : Diagnostics := (tokenize text).2.map (Fault.diagnose text)

/-- The label marks one whole character of the text, or nothing at the end of the text. -/
inductive Mark.Fits (text : String) : Mark → Prop where
  | character {before behind : List Char} {ch : Char} :
      text.toList = before ++ ch :: behind → Fits text ⟨"here", byteLength before, ch.utf8Size⟩
  | stop : Fits text ⟨"here", text.utf8ByteSize, 0⟩

/-- The diagnostic tells of a place between two characters of the text, with its line and its
column, and is shown at that place. -/
structure Diagnostic.Placed (text : String) (d : Diagnostic) : Prop where
  isBoundary : IsBoundary text d.offset
  offset_le : d.offset ≤ text.utf8ByteSize
  place : ⟨d.line, d.column⟩ = LineColumn.ofOffset text d.offset
  labels : ∃ mark, (d.report text).labels = [mark] ∧ mark.offset = d.offset ∧ mark.Fits text

section

variable {text : String}

/-- A place is found from its offset. -/
theorem Mark.offset_atOffset {offset : Nat} (h : IsBoundary text offset) :
    (Mark.atOffset text offset).offset = offset := Nat.min_eq_left h.le

/-- A label at a boundary is as wide as the character behind it. -/
theorem Mark.fits_atOffset {offset : Nat} (h : IsBoundary text offset) :
    (Mark.atOffset text offset).Fits text := by
  have hmin : min offset text.utf8ByteSize = offset := Nat.min_eq_left h.le
  obtain ⟨before, behind, ht, rfl⟩ := h
  unfold Mark.atOffset
  simp only [hmin, ht, splitBytes?_append]
  cases behind with
  | cons ch behind => exact .character ht
  | nil =>
    have hall := byteLength_eq_utf8ByteSize text.toList
    rw [String.ofList_toList, ht, List.append_nil] at hall
    rw [hall]
    exact .stop

/-- A fault is told with the line and the column of its place. -/
theorem Fault.placed_diagnose {fault : Fault} (h : IsBoundary text fault.offset) :
    (fault.diagnose text).Placed text where
  isBoundary := h
  offset_le := h.le
  place := rfl
  labels := ⟨_, rfl, Mark.offset_atOffset h, Mark.fits_atOffset h⟩

/-- The faults of all tokens on a trace are told for places of the text. -/
theorem Lexer.Trace.placed_told {readings : List Reading} {lexer : Lexer}
    (h : Trace text readings lexer) : ∀ d ∈ told text readings, d.Placed text := by
  intro d hd
  obtain ⟨fault, hf, rfl⟩ := List.mem_map.mp hd
  obtain ⟨r, hr, hf⟩ := List.mem_flatMap.mp hf
  exact Fault.placed_diagnose ((h.inOrder.inPlace r hr).isBoundary fault hf)

/-- A script that has been read to its end is reported with the faults of its tokens. -/
theorem reported_of_run {body : List Statement} {last : Parser.State}
    (h : Parser.script (Parser.State.ofString text) = .ok (body, last)) :
    reported text = last.lexer.faults.toList.map (Fault.diagnose text) := by
  unfold reported parse parseFaults
  rw [h]
  by_cases hempty : last.lexer.faults.isEmpty = true
  · simp only [Array.isEmpty_iff.mp hempty]
    rfl
  · simp only [hempty]
    rfl

/-- A script that ends early is reported with the faults of that end. -/
theorem reported_of_abort {abort : Parser.Abort}
    (h : Parser.script (Parser.State.ofString text) = .error abort) :
    reported text = abort.faults.toList.map (Fault.diagnose text) := by
  unfold reported parse parseFaults
  rw [h]
  rfl

/-- The parser tells the faults of the tokens that it has read, of which only the last can be
illegal, and then at most one problem of syntax, for a place that it has come to. -/
theorem reported_cases (text : String) :
    ∃ readings r lexer syntactic, Trace text (readings ++ [r]) lexer ∧
      (∀ q ∈ readings, q.token.kind ≠ .illegal) ∧
      reported text = told text (readings ++ [r]) ++ syntactic ∧ syntactic.length ≤ 1 ∧
      ∀ d ∈ syntactic, d.category = .syntactic ∧ d.Placed text ∧
        d.offset ≤ r.token.start.offset := by
  have hleads := Parser.script_leads text (Parser.State.mindful_ofString text)
  cases hrun : Parser.script (Parser.State.ofString text) with
  | ok out =>
    obtain ⟨body, last⟩ := out
    rw [hrun] at hleads
    obtain ⟨readings, r, ht, hl⟩ := hleads.mindful.legal
    refine ⟨readings, r, last.lexer, [], ht, hl, ?_, Nat.zero_le 1, List.forall_mem_nil _⟩
    rw [reported_of_run hrun, ht.told_eq, List.append_nil]
  | error abort =>
    rw [hrun] at hleads
    obtain ⟨readings, r, lexer, ht, hl, hfaults⟩ := hleads
    have htoken : r.token = lexer.token := ht.inOrder.last r (by simp)
    rcases hfaults with hf | ⟨fault, hsyn, hf, hb, hle⟩
    · refine ⟨readings, r, lexer, [], ht, hl, ?_, Nat.zero_le 1, List.forall_mem_nil _⟩
      rw [reported_of_abort hrun, hf, ht.told_eq, List.append_nil]
    · refine ⟨readings, r, lexer, [fault.diagnose text], ht, hl, ?_, Nat.le_refl 1, ?_⟩
      · rw [reported_of_abort hrun, hf, Array.toList_push, List.map_append, ht.told_eq]
        rfl
      · refine List.forall_mem_singleton.mpr ⟨hsyn, Fault.placed_diagnose hb, ?_⟩
        rw [htoken]
        exact hle

/-- The spelling of the tokens of a text is told as on a trace of all of them. -/
theorem misspelled_eq (text : String) :
    ∃ readings lexer, Trace text readings lexer ∧ misspelled text = told text readings := by
  obtain ⟨readings, ht⟩ := exists_trace_remaining (Lexer.ofString text).skipHashbang [] [] .start
  exact ⟨readings, _, ht, ht.told_eq⟩

end

/-- Every diagnostic about a text, whether of the parser or of the lexer alone, is for a place
between two characters, with the line and the column of that place. Its label covers exactly the
character that starts there, and it is empty only at the end of the text. -/
theorem diagnostics_placed (text : String) :
    (∀ d ∈ reported text, d.Placed text) ∧ ∀ d ∈ misspelled text, d.Placed text := by
  constructor
  · obtain ⟨readings, r, lexer, syntactic, ht, -, hlist, -, hsyn⟩ := reported_cases text
    rw [hlist]
    exact List.forall_mem_append.mpr ⟨ht.placed_told, fun d hd => (hsyn d hd).2.1⟩
  · obtain ⟨readings, lexer, ht, hlist⟩ := misspelled_eq text
    rw [hlist]
    exact ht.placed_told

/-- Diagnostics come in the order in which the problems were met. First those of the tokens: what
is told for a token is told for a smaller offset than anything told for a later token. For one
token, the comment without an end before it is told first, then its parts in their order, and a
fault of the whole token last, for its start; only a misplaced separator can be told twice for one
place. Then comes at most one problem of syntax, for a place not behind the start of the last token,
so it may lie before those of tokens. Only the last token can be illegal, and if it is rejected for
that nothing more is told. -/
theorem reported_inOrder (text : String) :
    (∃ readings r lexer syntactic, Trace text (readings ++ [r]) lexer ∧
      reported text = told text (readings ++ [r]) ++ syntactic ∧
      (∀ d ∈ told text (readings ++ [r]), d.category = .lexical) ∧
      (readings ++ [r]).Pairwise
        (fun p q => ∀ f ∈ p.faults, ∀ g ∈ q.faults, f.offset < g.offset) ∧
      (∀ q ∈ readings ++ [r], q.faults.Pairwise Fault.Apart ∧ q.gap.length ≤ 1 ∧
        (∀ f ∈ q.gap, f.offset < q.token.start.offset) ∧
        Recounts q.token.start q.token.stop q.own) ∧
      (∀ q ∈ readings, q.token.kind ≠ .illegal) ∧
      syntactic.length ≤ 1 ∧
      ∀ d ∈ syntactic, d.category = .syntactic ∧ d.offset ≤ r.token.start.offset) ∧
    ∀ s : Parser.State, s.lexer.token.kind = .illegal →
      (Parser.unexpected : Parser Unit) s = .error ⟨s.lexer.faults⟩ := by
  constructor
  · obtain ⟨readings, r, lexer, syntactic, ht, hlegal, hlist, hlength, hsyn⟩ := reported_cases text
    have horder := ht.inOrder
    refine ⟨readings, r, lexer, syntactic, ht, hlist, ht.category_told, ?_, fun q hq => ?_, hlegal,
      hlength, fun d hd => ⟨(hsyn d hd).1, (hsyn d hd).2.2⟩⟩
    · refine horder.behind.imp_of_mem fun {p q} hp _ hbehind => ?_
      exact hbehind.offset_lt (horder.inPlace p hp)
    · have hin := horder.inPlace q hq
      exact ⟨hin.apart, hin.gap_length, fun f hf => (hin.gap f hf).2, hin.own⟩
  · intro s hk
    have hnone : Parser.unexpectedProblem? s.lexer.token = none := by
      rw [Parser.unexpectedProblem?, hk]
    exact Parser.unexpected_of_none hnone

/-- A `try` without handler is refused at the token behind it without asking whether that token is
illegal, so one place is told twice. A string with a wrong escape is no target, and is blamed for
its start after the escape behind it was told, so the places go backwards. -/
theorem reported_disordered :
    ¬ ((reported "try \x7b\x7d @").map Diagnostic.offset).Nodup ∧
      ¬ ((reported "\"\\xg\" = 1").map Diagnostic.offset).Pairwise (· ≤ ·) := by
  decide +kernel

end EcmaScript
