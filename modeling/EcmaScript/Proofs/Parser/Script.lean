import EcmaScript.Proofs.Parser.Loop

/-!
# Scripts and their faults

A script either has no fault in any of its tokens, or is refused with a list that is not
empty. The list tells the faults of exactly those tokens that were read, in their order, and
then at most one problem of syntax. Without such a problem, either the text has come to its
end or the last token is illegal, and then the last fault of the list is its own. Looking
ahead neither adds a fault to the list nor takes one away.
-/

namespace EcmaScript

open Lexer

namespace Parser

/-- Before the first token all is sound. -/
theorem State.sound_ofString (text : String) : (State.ofString text).Sound text where
  place :=
    { trace := ⟨[], _, Trace.start.scan⟩
      consumed_le := Nat.zero_le _
      isBoundary := ⟨[], text.toList, rfl, rfl⟩
      taken := List.forall_mem_nil _ }
  isSyntactic fault hf := absurd hf (by simp [State.ofString])

/-- The statements of a script reach up to the end of the text. -/
theorem script_meets (text : String) :
    Meets text script (State.ofString text) fun body s =>
      (Kept text (State.ofString text) s ∧
        InOrder text Node.sketch (State.ofString text).offset s.front body) ∧
      s.lexer.token.kind = .endOfFile :=
  (Nested.ofDepth_sound maxDepth).statementsUntil_meets {} .endOfFile (State.sound_ofString text)

end Parser

/-- What is told about the tokens that were read. -/
def Lexer.told (text : String) (readings : List Reading) : Diagnostics :=
  (readings.flatMap Reading.faults).map (Fault.diagnose text)

/-- The faults of a lexer are those that its readings tell. -/
theorem Lexer.Trace.told_eq {text : String} {readings : List Reading} {lexer : Lexer}
    (h : Trace text readings lexer) :
    lexer.faults.toList.map (Fault.diagnose text) = told text readings := by
  rw [h.faults_eq, told]

/-- What a lexer tells is lexical. -/
theorem Lexer.Trace.category_told {text : String} {readings : List Reading} {lexer : Lexer}
    (h : Trace text readings lexer) : ∀ d ∈ told text readings, d.category = .lexical := by
  intro d hd
  obtain ⟨fault, hf, rfl⟩ := List.mem_map.mp hd
  obtain ⟨r, hr, hf⟩ := List.mem_flatMap.mp hf
  exact h.isLexical r hr fault hf

/-- A script that a text is, with what can be told about it by running. -/
def Accepted (text : String) (P : Program → Bool) : Type :=
  {program : Program // parse text = .ok program ∧ P program = true}

/-- The script that comes out of a run. -/
def Accepted.ofRun {text : String} {P : Program → Bool}
    (h : (parse text).toOption.any P = true) : Accepted text P :=
  match hparse : parse text with
  | .error _ => absurd h (by simp [hparse, Except.toOption])
  | .ok program => ⟨program, hparse, by simpa [hparse, Except.toOption] using h⟩

/-- An accepted text is a script whose tokens have no faults. -/
theorem parse_ok_inv {text : String} {program : Program} (h : parse text = .ok program) :
    ∃ body last, Parser.script (Parser.State.ofString text) = .ok (body, last) ∧
      last.lexer.faults = #[] ∧ program = .ofStatements body := by
  unfold parse parseFaults at h
  cases hrun : Parser.script (Parser.State.ofString text) with
  | error abort =>
    rw [hrun] at h
    exact nomatch h
  | ok out =>
    obtain ⟨body, last⟩ := out
    rw [hrun] at h
    simp only at h
    split at h
    · rename_i hempty
      exact ⟨body, last, rfl, Array.isEmpty_iff.mp hempty, (Except.ok.inj h).symm⟩
    · exact nomatch h

end EcmaScript
