import EcmaScript.Proofs.Parser.Place
import EcmaScript.Proofs.Parser.Success

/-!
# Counting braces

Without its grammar, a text is cut into tokens by counting braces: each open substitution of a
template has a count of the braces opened in it, and the brace that comes when the count is zero
ends the substitution. A parser counts nothing. It asks for the template to be resumed where its
grammar says that a substitution ends. Both do the same as long as every construct leaves the counts
as it has found them: it closes the braces that it opens, and a template ends each substitution that
it starts.
-/

namespace EcmaScript.Parser

open Relation

/-- The counts behind a token, given those before it. -/
def countToken : TokenKind → List Nat → List Nat
  | .templateHead, depths | .templateMiddle, depths => 0 :: depths
  | .mark .openBrace, depth :: outer => (depth + 1) :: outer
  | .mark .closeBrace, (depth + 1) :: outer => depth :: outer
  | _, depths => depths

/-- A move of a parser with the counts, which tell a brace that ends a substitution from any
other. -/
inductive Counted : Place × List Nat → Place × List Nat → Prop where
  | take {p : Place} {depths : List Nat} : p.lexer.token.kind ≠ .endOfFile →
      (p.lexer.token.kind = .mark .closeBrace → ∀ outer, depths ≠ 0 :: outer) →
      Counted (p, depths) (⟨p.lexer.scan, p.lexer.token.stop.offset, p.lexer.token :: p.taken⟩,
        countToken p.lexer.token.kind depths)
  | resume {p : Place} {outer : List Nat} : p.lexer.token.kind = .mark .closeBrace →
      Counted (p, 0 :: outer) (⟨p.lexer.rescanTemplate, p.consumed, p.taken⟩, outer)
  | slash {p : Place} {depths : List Nat} :
      p.lexer.token.kind = .mark .slash ∨ p.lexer.token.kind = .mark .slashAssign →
      Counted (p, depths) (⟨p.lexer.rescanSlash, p.consumed, p.taken⟩, depths)

/-- The counts inside a brace. -/
def opened (depths : List Nat) : List Nat := countToken (.mark .openBrace) depths

/-- Tokens that may be taken anywhere: they are not illegal, nor the end, and count nothing. -/
def isUncounted : TokenKind → Bool
  | .illegal | .endOfFile | .templateHead | .templateMiddle | .mark .openBrace
  | .mark .closeBrace => false
  | _ => true

/-- Words count nothing. -/
theorem isUncounted_of_isIdentifierName {k : TokenKind} (h : k.isIdentifierName = true) :
    isUncounted k = true := by
  cases k with
  | identifier => rfl
  | word w => rfl
  | escapedReservedWord => rfl
  | _ => exact absurd h (by simp [TokenKind.isIdentifierName])

/-- Such a token leaves the counts as they are. -/
theorem countToken_of_isUncounted {k : TokenKind} (h : isUncounted k = true)
    (depths : List Nat) : countToken k depths = depths := by
  unfold countToken
  split <;> first | rfl | exact absurd h (by decide)

/-- A token that stands for something counts nothing, if the others stand for nothing. -/
theorem isUncounted_of_eq_some {α : Type} {f : TokenKind → Option α} {k : TokenKind} {a : α}
    (hf : [.illegal, .endOfFile, .templateHead, .templateMiddle, .mark .openBrace,
      .mark .closeBrace].all (fun k => (f k).isNone) = true) (h : f k = some a) :
    isUncounted k = true := by
  have hne : ∀ k', (f k').isNone = true → k ≠ k' := by
    rintro k' hnone rfl
    rw [h] at hnone
    exact nomatch hnone
  simp only [List.all_cons, List.all_nil, Bool.and_true, Bool.and_eq_true] at hf
  obtain ⟨hillegal, hend, hhead, hmiddle, hopen, hclose⟩ := hf
  unfold isUncounted
  split
  · exact absurd rfl (hne _ hillegal)
  · exact absurd rfl (hne _ hend)
  · exact absurd rfl (hne _ hhead)
  · exact absurd rfl (hne _ hmiddle)
  · exact absurd rfl (hne _ hopen)
  · exact absurd rfl (hne _ hclose)
  · rfl

/-- What closes a brace is no end of a substitution, and the counts are those from before it. -/
theorem countToken_closeBrace_opened (depths : List Nat) :
    countToken (.mark .closeBrace) (opened depths) = depths ∧
      ∀ outer, opened depths ≠ 0 :: outer := by
  cases depths with
  | nil => exact ⟨rfl, fun _ h => nomatch h⟩
  | cons depth outer => exact ⟨rfl, fun _ h => nomatch h⟩

/-- A result that is no fault leaves the parser where it is. -/
theorem orFail_state {α : Type} {r : Except Fault α} {a : α} {s s' : State}
    (h : orFail r s = .ok (a, s')) : s' = s := by
  cases r with
  | ok b => exact (pure_ok h).2.symm
  | error fault => exact (fail_ok h).elim

end EcmaScript.Parser
