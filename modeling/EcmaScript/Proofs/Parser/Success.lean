import EcmaScript.Parser.Grammar

/-!
# Successful runs

A run of a parser that succeeds is a run of its first step that succeeds, and one of what follows
from the state that this leaves. So what a parser leaves is read off its run step by step, and a
step that would have refused to go on tells what there was nothing to refuse.
-/

namespace EcmaScript.Parser

section

variable {α β : Type} {s s' : State}

/-- A run of two steps is a run of each of them. -/
theorem bind_ok {p : Parser α} {f : α → Parser β} {b : β} (h : (p >>= f) s = .ok (b, s')) :
    ∃ a s₁, p s = .ok (a, s₁) ∧ f a s₁ = .ok (b, s') := by
  cases hp : p s with
  | error e =>
    simp only [Bind.bind, StateT.bind, hp, Except.bind] at h
    exact nomatch h
  | ok out =>
    simp only [Bind.bind, StateT.bind, hp, Except.bind] at h
    exact ⟨out.1, out.2, rfl, h⟩

/-- What follows a step that only looks at the state. -/
theorem read_ok {p : Parser α} {f : α → Parser β} {a : α} {b : β} (hp : p s = .ok (a, s))
    (h : (p >>= f) s = .ok (b, s')) : f a s = .ok (b, s') := by
  simpa only [Bind.bind, StateT.bind, hp, Except.bind] using h

/-- A step that only gives a result leaves the state as it is. -/
theorem pure_ok {a b : α} (h : (pure a : Parser α) s = .ok (b, s')) : a = b ∧ s = s' := by
  cases h
  exact ⟨rfl, rfl⟩

/-- A choice of steps is one of them. -/
theorem ite_ok {c : Prop} [Decidable c] {p q : Parser α} {a : α}
    (h : (if c then p else q) s = .ok (a, s')) :
    c ∧ p s = .ok (a, s') ∨ ¬c ∧ q s = .ok (a, s') := by
  by_cases hc : c
  · rw [if_pos hc] at h
    exact .inl ⟨hc, h⟩
  · rw [if_neg hc] at h
    exact .inr ⟨hc, h⟩

/-- What ends parsing has no result. -/
theorem fail_ok {place : Nat} {problem : Problem} {a : α}
    (h : fail place problem s = .ok (a, s')) : False := nomatch h

/-- What ends parsing at the next token has no result. -/
theorem failHere_ok {problem : Problem} {a : α} (h : failHere problem s = .ok (a, s')) : False := by
  obtain ⟨place, s₁, -, h⟩ := bind_ok h
  exact fail_ok h

/-- A token that is not expected ends parsing. -/
theorem unexpected_ok {a : α} (h : unexpected s = .ok (a, s')) : False := by
  obtain ⟨t, s₁, -, h⟩ := bind_ok h
  cases hproblem : unexpectedProblem? t with
  | some problem =>
    rw [hproblem] at h
    exact failHere_ok h
  | none =>
    rw [hproblem] at h
    exact nomatch h

/-- What follows a check that there was nothing to refuse. -/
theorem refuse_ok {c : Prop} [Decidable c] {p : Parser Unit} {f : Unit → Parser β} {b : β}
    (hp : ∀ u s₁, p s ≠ .ok (u, s₁)) (h : (if c then p >>= f else f ()) s = .ok (b, s')) :
    ¬c ∧ f () s = .ok (b, s') := by
  rcases ite_ok h with ⟨-, h⟩ | ⟨hc, h⟩
  · obtain ⟨u, s₁, hrefuse, -⟩ := bind_ok h
    exact absurd hrefuse (hp u s₁)
  · exact ⟨hc, h⟩

/-- What follows a check that there was something to require. -/
theorem refuseNot_ok {c : Prop} [Decidable c] {p : Parser Unit} {f : Unit → Parser β} {b : β}
    (hp : ∀ u s₁, p s ≠ .ok (u, s₁)) (h : (if c then f () else p >>= f) s = .ok (b, s')) :
    c ∧ f () s = .ok (b, s') := by
  rcases ite_ok h with ⟨hc, h⟩ | ⟨-, h⟩
  · exact ⟨hc, h⟩
  · obtain ⟨u, s₁, hrefuse, -⟩ := bind_ok h
    exact absurd hrefuse (hp u s₁)

/-- A default value that is still open is refused. -/
theorem checkCoverInit_ok {u : Unit} (h : checkCoverInit s = .ok (u, s')) : s = s' := by
  have h := read_ok (p := get) rfl h
  cases hinit : s.coverInit with
  | none =>
    rw [hinit] at h
    exact (pure_ok h).2
  | some place =>
    rw [hinit] at h
    exact (fail_ok h).elim

end

end EcmaScript.Parser
