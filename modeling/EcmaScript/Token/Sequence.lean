import EcmaScript.Character.NameRanges
import EcmaScript.Lexer.Basic

/-!
# Token sequences

A whole text as a sequence of tokens, without its grammar. Which closing brace resumes a
template is found by counting braces: each substitution that is open has a count of the
braces opened in it, and the brace that comes when the count is zero closes it.
-/

namespace EcmaScript

namespace Lexer

/-- Resumes a template when the current token is the brace that closes a substitution, and
keeps the brace counts of the open substitutions, the innermost first. -/
def track (lexer : Lexer) (depths : List Nat) : Lexer × List Nat :=
  match lexer.token.kind, depths with
  | .templateHead, _ => (lexer, 0 :: depths)
  | .mark .openBrace, depth :: outer => (lexer, (depth + 1) :: outer)
  | .mark .closeBrace, 0 :: outer =>
    let lexer := lexer.rescanTemplate
    (lexer, if lexer.token.kind = .templateMiddle then depths else outer)
  | .mark .closeBrace, (depth + 1) :: outer => (lexer, depth :: outer)
  | _, _ => (lexer, depths)

private theorem length_track_lt {lexer : Lexer} (h : lexer.scan.token.kind ≠ .endOfFile)
    (depths : List Nat) :
    (lexer.scan.track depths).1.token.stop.rest.length < lexer.token.stop.rest.length := by
  have hs := length_scan_lt h
  have hl := length_start_scan_le lexer
  obtain ⟨ch, cs, hc⟩ := List.exists_cons_of_ne_nil (start_scan_ne_nil h)
  have ht := length_templateContinuation_lt hc
  unfold track rescanTemplate
  grind

/-- The tokens up to the end of the text, and the lexer that has read them all. -/
def remaining (lexer : Lexer) (depths : List Nat) : List Token × Lexer :=
  let next := lexer.scan
  if _h : next.token.kind = .endOfFile then ([], next)
  else
    let current := next.track depths
    let (tokens, last) := current.1.remaining current.2
    (current.1.token :: tokens, last)
termination_by lexer.token.stop.rest.length
decreasing_by
  exact length_track_lt _h depths

end Lexer

/-- The tokens of a text, without the one at its end, and the faults of their spelling. -/
def tokenize (text : String) : List Token × List Fault :=
  let (tokens, last) := (Lexer.ofString text).skipHashbang.remaining []
  (tokens, last.faults.toList)

end EcmaScript
