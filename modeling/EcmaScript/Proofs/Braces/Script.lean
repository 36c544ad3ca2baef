import EcmaScript.Proofs.Blame.Statement
import EcmaScript.Proofs.Parser.Script
import EcmaScript.Token.Sequence

/-!
# Tokens with and without a grammar

If there is no slash in a text, braces alone leave it open what its tokens are. A script leaves the
counts as it finds them, so a template is resumed where the counts say so, and the tokens that the
parser takes are those that the text is cut into without its grammar.
-/

namespace EcmaScript

open Relation

namespace Lexer

/-- A token that is read for the first time is no later piece of a template. -/
theorem kind_scan_ne (lexer : Lexer) : lexer.scan.token.kind ≠ .templateMiddle := by
  cases hl : lexeme? lexer.regexAllowed (trivia false lexer.token.stop).stop with
  | none =>
    rw [scan_of_none hl]
    rintro ⟨⟩
  | some l =>
    rw [scan_of_some hl]
    show l.kind ≠ .templateMiddle
    rcases lexeme_cases hl with hw | ⟨_, rfl⟩ | ⟨q, hq, -⟩
    · have hw := hw.isWhole
      intro h
      rw [h] at hw
      exact absurd hw (by simp [isWhole])
    · show (if _ then TokenKind.templateHead else .template) ≠ .templateMiddle
      split <;> rintro ⟨⟩
    · rw [hq]
      rintro ⟨⟩

/-- The token that comes next is the one that a place has, by the counts behind it. -/
theorem remaining_cons {before : Lexer} {depths : List Nat} {tokens : List Token} {last : Lexer}
    (hk : before.scan.token.kind ≠ .endOfFile)
    (hrest : (before.scan.track depths).1.remaining (before.scan.track depths).2 = (tokens, last)) :
    before.remaining depths = ((before.scan.track depths).1.token :: tokens, last) := by
  rw [remaining, dif_neg hk]
  simp only [hrest]

/-- At the end of the text no tokens remain. -/
theorem remaining_nil {before : Lexer} (depths : List Nat)
    (hk : before.scan.token.kind = .endOfFile) : before.remaining depths = ([], before.scan) := by
  rw [remaining, dif_pos hk]

end Lexer

namespace Parser

/-- The lexer of a place has just read the token behind `before`, perhaps again as the end of a
substitution. The counts are those in front of that token, where the end of a substitution has
already been counted. -/
inductive Reads (before : Lexer) (depths : List Nat) : Lexer → List Nat → Prop where
  | first : Reads before depths before.scan depths
  | again {outer : List Nat} : before.scan.token.kind = .mark .closeBrace → depths = 0 :: outer →
      Reads before depths before.scan.rescanTemplate outer

/-- What is read again behind a substitution is a middle or a tail. -/
theorem kind_rescanTemplate (lexer : Lexer) : lexer.rescanTemplate.token.kind = .templateMiddle ∨
    lexer.rescanTemplate.token.kind = .templateTail := by
  rw [Lexer.rescanTemplate_eq]
  show (if _ then TokenKind.templateMiddle else .templateTail) = .templateMiddle ∨
    (if _ then TokenKind.templateMiddle else .templateTail) = .templateTail
  split
  · exact Or.inl rfl
  · exact Or.inr rfl

/-- Counting goes on as the parser does when the token is taken. -/
theorem Reads.track_eq {before lexer : Lexer} {depths counts : List Nat}
    (h : Reads before depths lexer counts)
    (hclose : lexer.token.kind = .mark .closeBrace → ∀ outer, counts ≠ 0 :: outer) :
    before.scan.track depths = (lexer, countToken lexer.token.kind counts) := by
  cases h with
  | first =>
    have hmiddle := before.kind_scan_ne
    unfold Lexer.track
    generalize before.scan.token.kind = kind at hclose hmiddle
    cases kind with
    | templateMiddle => exact absurd rfl hmiddle
    | mark p =>
      cases depths with
      | nil => cases p <;> rfl
      | cons depth outer =>
        cases depth with
        | zero => cases p <;> first | rfl | exact absurd rfl (hclose (by rfl) outer)
        | succ depth => cases p <;> rfl
    | _ => rfl
  | again hk hdepths =>
    subst hdepths
    simp only [Lexer.track, hk]
    rcases kind_rescanTemplate before.scan with hkind | hkind <;> simp [hkind, countToken]

/-- Before the end of the text, the token behind `before` is not the end. -/
theorem Reads.ne_endOfFile {before lexer : Lexer} {depths counts : List Nat}
    (h : Reads before depths lexer counts) (hk : lexer.token.kind ≠ .endOfFile) :
    before.scan.token.kind ≠ .endOfFile := by
  cases h with
  | first => exact hk
  | again hbrace _ => exact fun hend => nomatch hend.symm.trans hbrace

/-- At the end of the text, nothing is left behind `before`. -/
theorem Reads.remaining_eq {before lexer : Lexer} {depths counts : List Nat}
    (h : Reads before depths lexer counts) (hk : lexer.token.kind = .endOfFile) :
    before.remaining depths = ([], lexer) := by
  cases h with
  | first => exact Lexer.remaining_nil depths hk
  | again _ _ =>
    rcases kind_rescanTemplate before.scan with hkind | hkind <;>
      exact nomatch hkind.symm.trans hk

/-- A brace that ends a substitution is read again. -/
theorem Reads.resume {before lexer : Lexer} {depths outer : List Nat}
    (h : Reads before depths lexer (0 :: outer)) (hk : lexer.token.kind = .mark .closeBrace) :
    Reads before depths lexer.rescanTemplate outer := by
  generalize hcounts : 0 :: outer = counts at h
  cases h with
  | first => exact .again hk hcounts.symm
  | again _ _ =>
    rcases kind_rescanTemplate before.scan with hkind | hkind <;>
      exact nomatch hkind.symm.trans hk

/-- A move with the counts is a move without them. -/
theorem Counted.step {a b : Place × List Nat} (h : Counted a b) : a.1.Step b.1 := by
  cases h with
  | take hk => exact .take hk
  | resume hk => exact .template hk
  | slash hk => exact .slash hk

/-- Without a slash in the text no token is one. -/
theorem ne_slash {text : String} {p : Place} (hp : p.Sound text) (htext : '/' ∉ text.toList) :
    ¬(p.lexer.token.kind = .mark .slash ∨ p.lexer.token.kind = .mark .slashAssign) := by
  obtain ⟨readings, r, ht⟩ := hp.trace
  obtain ⟨front, hfront, -⟩ := ht.place.1
  have hmem : ∀ mark : Punctuator, p.lexer.token.kind = .mark mark → '/' ∉ mark.text.toList := by
    intro mark hk hslash
    refine htext ?_
    change '/' ∈ (Cursor.ofString text).rest
    rw [hfront]
    exact List.mem_append_right _ ((ht.mark_spelled hk).subset hslash)
  rintro (hk | hk)
  · exact hmem _ hk (by decide)
  · exact hmem _ hk (by decide)

/-- What the parser takes up to the end of the text is what the text is cut into. -/
theorem remaining_of_counted {text : String} (htext : '/' ∉ text.toList) {p q : Place × List Nat}
    (h : ReflTransGen Counted p q) (hp : p.1.Sound text)
    (hend : q.1.lexer.token.kind = .endOfFile) {before : Lexer} {depths : List Nat}
    (hreads : Reads before depths p.1.lexer p.2) :
    ∃ tokens, before.remaining depths = (tokens, q.1.lexer) ∧
      q.1.taken = tokens.reverse ++ p.1.taken := by
  induction h using ReflTransGen.head_induction_on generalizing before depths with
  | refl => exact ⟨[], hreads.remaining_eq hend, rfl⟩
  | head hstep _ ih =>
    have hsound := hstep.step.sound hp
    cases hstep with
    | @take place counts hk hclose =>
      obtain ⟨tokens, hremaining, htaken⟩ :=
        ih hsound (.first : Reads place.lexer (countToken place.lexer.token.kind counts) _ _)
      have htrack := hreads.track_eq hclose
      refine ⟨place.lexer.token :: tokens, ?_, htaken.trans (by simp)⟩
      have hcons := Lexer.remaining_cons (hreads.ne_endOfFile hk)
        ((congrArg (fun o : Lexer × List Nat => o.1.remaining o.2) htrack).trans hremaining)
      exact hcons.trans (congrArg (fun o : Lexer × List Nat => (o.1.token :: tokens,
        q.1.lexer)) htrack)
    | resume hk => exact ih hsound (hreads.resume hk)
    | slash hk => exact absurd hk (ne_slash hp htext)

end Parser

/-- Without a slash in a text that is accepted, cutting the text into tokens without its grammar
finds no fault and gives the tokens that the parser takes. -/
theorem parse_tokenize {text : String} (htext : '/' ∉ text.toList) {program : Program}
    (h : parse text = .ok program) :
    ∃ body last, Parser.script (Parser.State.ofString text) = .ok (body, last) ∧
      program = .ofStatements body ∧ tokenize text = (last.taken.reverse, []) := by
  obtain ⟨body, last, hrun, hclean, hbody⟩ := parse_ok_inv h
  obtain ⟨-, hend⟩ := (Parser.script_meets text).ok hrun
  refine ⟨body, last, hrun, hbody, ?_⟩
  have hleads := (Parser.script_leads text).ok (Parser.State.mindful_ofString text) hrun
  obtain ⟨tokens, hremaining, htaken⟩ := Parser.remaining_of_counted htext hleads.counted
    (Parser.State.sound_ofString text).place hend
    (.first : Parser.Reads (Lexer.ofString text).skipHashbang _ _ _)
  have htaken : last.taken = tokens.reverse := htaken.trans (List.append_nil _)
  have hremaining : (Lexer.ofString text).skipHashbang.remaining [] = (tokens, last.lexer) :=
    hremaining
  rw [tokenize, hremaining, htaken, List.reverse_reverse]
  exact congrArg (fun faults : Array Fault => (tokens, faults.toList)) hclean

/-- A script with a template in an object in a substitution of another template. -/
def nestedTemplate :
    Accepted "`a$\x7b \x7bb: `c$\x7bd\x7d`\x7d \x7de`" fun _ => true :=
  .ofRun (by decide +kernel)

/-- The theorem at a script with templates in each other. -/
theorem parse_tokenize_nested : '/' ∉ "`a$\x7b \x7bb: `c$\x7bd\x7d`\x7d \x7de`".toList ∧
    ∃ program, parse "`a$\x7b \x7bb: `c$\x7bd\x7d`\x7d \x7de`" = .ok program ∧
      ∃ body last, Parser.script
          (Parser.State.ofString "`a$\x7b \x7bb: `c$\x7bd\x7d`\x7d \x7de`") = .ok (body, last) ∧
        program = .ofStatements body ∧
        tokenize "`a$\x7b \x7bb: `c$\x7bd\x7d`\x7d \x7de`" = (last.taken.reverse, []) := by
  have htext : '/' ∉ "`a$\x7b \x7bb: `c$\x7bd\x7d`\x7d \x7de`".toList := by decide
  obtain ⟨program, h, -⟩ := nestedTemplate
  exact ⟨htext, program, h, parse_tokenize htext h⟩

end EcmaScript
