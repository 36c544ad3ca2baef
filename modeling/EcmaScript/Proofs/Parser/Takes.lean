import EcmaScript.Proofs.Parser.Place

/-!
# Taking tokens

How many tokens a parser takes at least on its way from one place to another. A token that is not
read again is the next one to be taken, and faults that were met on the way stay.
-/

namespace EcmaScript

namespace Lexer

/-- No faults altogether are no faults in either part. -/
theorem append_eq_empty {faults : Array Fault} {more : List Fault}
    (h : faults ++ more = #[]) : faults = #[] ∧ more = [] := by
  have h := congrArg Array.toList h
  rw [Array.toList_appendList] at h
  obtain ⟨hf, hm⟩ := List.append_eq_nil_iff.mp h
  exact ⟨Array.toList_eq_nil_iff.mp hf, hm⟩

/-- Whether a token is a mark that starts with a slash alone. -/
def isSlash (k : TokenKind) : Bool := k == .mark .slash || k == .mark .slashAssign

/-- The marks that a slash starts. -/
theorem isSlash_iff {k : TokenKind} :
    isSlash k = true ↔ k = .mark .slash ∨ k = .mark .slashAssign := by
  rw [isSlash, Bool.or_eq_true, beq_iff_eq, beq_iff_eq]

/-- Only a slash is read again. -/
theorem rescanSlash_of_isSlash {lexer : Lexer} (h : isSlash lexer.token.kind = false) :
    lexer.rescanSlash = lexer := by
  rw [isSlash] at h
  rw [rescanSlash, h]
  rfl

end Lexer

namespace Parser

open Relation Lexer

namespace Place

/-- Where the current token has been taken. -/
def next (p : Place) : Place := ⟨p.lexer.scan, p.lexer.token.stop.offset, p.lexer.token :: p.taken⟩

/-- So many tokens at least are taken on the way. -/
inductive Takes : Nat → Place → Place → Prop where
  | path {p p' : Place} : Path p p' → Takes 0 p p'
  | take {n : Nat} {p q p' : Place} : Path p q → q.lexer.token.kind ≠ .endOfFile →
      Takes n q.next p' → Takes (n + 1) p p'

section

variable {text : String} {m n : Nat} {p q r : Place}

/-- A way that takes tokens is a way. -/
theorem Takes.toPath (h : Takes n p q) : Path p q := by
  induction h with
  | path h => exact h
  | take h hk _ ih => exact (h.tail (.take hk)).trans ih

/-- A way may go on before the tokens are taken. -/
theorem Takes.from (h : Path p q) (k : Takes n q r) : Takes n p r := by
  cases k with
  | path k => exact .path (h.trans k)
  | take k hk hn => exact .take (h.trans k) hk hn

/-- The tokens taken on two ways add up. -/
theorem Takes.trans (h : Takes m p q) (k : Takes n q r) : Takes (m + n) p r := by
  induction h with
  | path h =>
    rw [Nat.zero_add]
    exact k.from h
  | take h hk _ ih =>
    rw [Nat.succ_add]
    exact .take h hk (ih k)

/-- Who takes more tokens takes at least as many as less. -/
theorem Takes.mono (h : Takes n p q) (hm : m ≤ n) : Takes m p q := by
  induction h generalizing m with
  | path h =>
    obtain rfl := Nat.le_zero.mp hm
    exact .path h
  | take h hk hn ih =>
    cases m with
    | zero => exact .path ((h.tail (.take hk)).trans hn.toPath)
    | succ m => exact .take h hk (ih (Nat.le_of_succ_le_succ hm))

/-- The first token that is taken ends behind its start. -/
theorem Takes.lt (h : Takes (n + 1) p q) (hp : p.Sound text) : p.offset < q.consumed := by
  cases h with
  | @take _ _ r _ h hk hn =>
    obtain ⟨hr, -, ho⟩ := h.sound hp
    have hstep := Step.take (p := r) hk
    have hnext := (hn.toPath.sound (hstep.sound hr)).2.1
    exact Nat.lt_of_le_of_lt ho (Nat.lt_of_lt_of_le (hr.offset_lt_stop hk) hnext)

/-- Where nothing has been taken, the current token is still to be taken. -/
theorem takes_of_consumed_lt (h : Path p q) (hlt : p.consumed < q.consumed) : Takes 1 p q := by
  induction h using ReflTransGen.head_induction_on with
  | refl => exact absurd hlt (Nat.lt_irrefl _)
  | head hstep hpath ih =>
    cases hstep with
    | take hk => exact .take .refl hk (.path hpath)
    | slash hk => exact (ih hlt).from (.single (.slash hk))
    | template hk => exact (ih hlt).from (.single (.template hk))

end

/-- Faults that were met stay. -/
theorem Path.clean {p q : Place} (h : Path p q) (hq : q.lexer.faults = #[]) :
    p.lexer.faults = #[] := by
  induction h with
  | refl => exact hq
  | @tail b c _ hstep ih =>
    refine ih ?_
    cases hstep with
    | take hk =>
      cases hl : lexeme? b.lexer.regexAllowed (trivia false b.lexer.token.stop).stop with
      | none =>
        rw [scan_of_none hl] at hq
        exact (append_eq_empty hq).1
      | some l =>
        rw [scan_of_some hl] at hq
        exact (append_eq_empty (append_eq_empty hq).1).1
    | slash hk =>
      rw [rescanSlash_eq hk] at hq
      exact (append_eq_empty hq).1
    | template hk => exact (append_eq_empty hq).1

/-- Whether a token may be read again. -/
def isReread : TokenKind → Bool
  | .mark .slash | .mark .slashAssign | .mark .closeBrace => true
  | _ => false

/-- A token that is not read again is taken next. -/
theorem Path.next_of_isReread {p q : Place} (h : Path p q)
    (hk : isReread p.lexer.token.kind = false) : p = q ∨ Path p.next q := by
  rcases h.cases_head with rfl | ⟨r, hstep, hpath⟩
  · exact Or.inl rfl
  · cases hstep with
    | take _ => exact Or.inr hpath
    | slash h =>
      rcases h with h | h
      · rw [h] at hk
        exact nomatch hk
      · rw [h] at hk
        exact nomatch hk
    | template h =>
      rw [h] at hk
      exact nomatch hk

end Place

namespace State

variable {text : String} {s : State}

/-- Where the current token has been taken. -/
def next (s : State) : State :=
  { s with
    consumed := s.lexer.token.stop.offset
    lexer := s.lexer.scan
    taken := s.lexer.token :: s.taken }

/-- The end of the current token is in the text. -/
theorem Sound.stop_isIn (hs : s.Sound text) : s.lexer.token.stop.IsIn text := by
  obtain ⟨readings, r, ht⟩ := hs.trace
  exact ht.place.1.trans ht.place.2.1

/-- Taking a token keeps the place in the text. -/
theorem Sound.next (hs : s.Sound text) (hk : s.lexer.token.kind ≠ .endOfFile) :
    s.next.Sound text :=
  ⟨(Place.Step.take (p := s.place) hk).sound hs.place, hs.isSyntactic⟩

end State

end Parser

end EcmaScript
