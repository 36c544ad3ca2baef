import EcmaScript.Proofs.Parser.Takes

/-!
# Where semicolons are implied

A parser that implies a semicolon notes where the last token before it ends. On the way from one
state to another, how many tokens lie before the first such note and behind the last one is known
from the parsers: an expression ends with a token of its own, a statement with its semicolon, which
may be implied.
-/

namespace EcmaScript.Parser

open Relation Place

/-- Where a parser stands, and where it has implied semicolons. -/
structure Post extends Place where
  /-- The offsets at which a semicolon was implied. -/
  implied : List Nat

/-- Where the parser stands, and where it has implied semicolons. -/
def State.post (s : State) : Post := ⟨s.place, s.implied⟩

namespace Post

/-- Where the current token has been taken. -/
def next (p : Post) : Post := ⟨p.toPlace.next, p.implied⟩

/-- Where a slash has been read again. -/
def rescanSlash (p : Post) : Post := ⟨⟨p.lexer.rescanSlash, p.consumed, p.taken⟩, p.implied⟩

/-- Where a closing brace has been read again. -/
def rescanTemplate (p : Post) : Post :=
  ⟨⟨p.lexer.rescanTemplate, p.consumed, p.taken⟩, p.implied⟩

/-- Where a semicolon has been implied. -/
def noted (p : Post) : Post := ⟨p.toPlace, p.consumed :: p.implied⟩

end Post

/-- A way on which so many tokens at least are taken. Where a semicolon is implied on it, at least
`lead` tokens have been taken before and at least `trail` are taken behind. -/
structure Way (lead trail n : Nat) (p q : Post) : Prop where
  takes : Takes n p.toPlace q.toPlace
  noted : ∀ offset ∈ q.implied, offset ∈ p.implied ∨
    ∃ r, Takes lead p.toPlace r ∧ Takes trail r q.toPlace ∧ r.consumed = offset

namespace Way

variable {lead lead' lead'' trail trail' trail'' k m n : Nat} {p q r : Post}

/-- A way on which no semicolon is implied. -/
theorem of_implied (ht : Takes n p.toPlace q.toPlace) (h : q.implied = p.implied) :
    Way lead trail n p q :=
  ⟨ht, fun _ ho => Or.inl (h ▸ ho)⟩

/-- Less may be said of a way. -/
theorem mono (h : Way lead trail n p q) (hl : lead' ≤ lead) (ht : trail' ≤ trail) (hm : m ≤ n) :
    Way lead' trail' m p q :=
  ⟨h.takes.mono hm, fun offset ho => (h.noted offset ho).imp_right fun ⟨r, hp, hq, hr⟩ =>
    ⟨r, hp.mono hl, hq.mono ht, hr⟩⟩

/-- Two ways one behind the other. -/
theorem trans (h : Way lead trail m p q) (k' : Way lead' trail' n q r) (hk : k ≤ m + n)
    (hl : lead'' ≤ lead) (hl' : lead'' ≤ m + lead') (ht : trail'' ≤ trail + n)
    (ht' : trail'' ≤ trail') : Way lead'' trail'' k p r := by
  refine ⟨(h.takes.trans k'.takes).mono hk, fun offset ho => ?_⟩
  rcases k'.noted offset ho with ho | ⟨x, hq, hr, hx⟩
  · rcases h.noted offset ho with ho | ⟨x, hp, hq, hx⟩
    · exact Or.inl ho
    · exact Or.inr ⟨x, hp.mono hl, (hq.trans k'.takes).mono ht, hx⟩
  · exact Or.inr ⟨x, (h.takes.trans hq).mono hl', hr.mono ht', hx⟩

end Way

/-- How a parser may end: inside a construct, with a token of its own; behind a statement, where
the semicolon may have been implied; or with nothing but that semicolon. -/
inductive Mode where
  | inside | behind | closing

/-- How many tokens are taken at least before a semicolon is implied, if so many are taken in
all. -/
def Mode.lead : Mode → Nat → Nat
  | .closing, n => n
  | .inside, n => max n 1
  | .behind, n => max n 1

/-- How many tokens are taken at least behind a semicolon that is implied. -/
def Mode.trail : Mode → Nat
  | .inside => 1
  | .behind => 0
  | .closing => 0

/-- All tokens that are known to be taken come before a semicolon that is implied. -/
theorem Mode.le_lead (e : Mode) (n : Nat) : n ≤ e.lead n := by
  cases e with
  | closing => exact Nat.le_refl n
  | _ => exact Nat.le_max_left n 1

/-- A semicolon is implied behind all tokens that are known to be taken, or behind one. -/
theorem Mode.lead_le (e : Mode) (n : Nat) : e.lead n ≤ max n 1 := by
  cases e with
  | closing => exact Nat.le_max_left n 1
  | _ => exact Nat.le_refl _

/-- With more tokens known to be taken, more come before a semicolon is implied. -/
theorem Mode.lead_mono (e : Mode) {m n : Nat} (h : m ≤ n) : e.lead m ≤ e.lead n := by
  cases e with
  | closing => exact h
  | inside => show max m 1 ≤ max n 1; omega
  | behind => show max m 1 ≤ max n 1; omega

/-- A token more comes before a semicolon that is implied behind it. -/
theorem Mode.lead_succ_le (e : Mode) (n : Nat) : e.lead (1 + n) ≤ 1 + e.lead n := by
  cases e with
  | closing => exact Nat.le_refl _
  | inside => show max (1 + n) 1 ≤ 1 + max n 1; omega
  | behind => show max (1 + n) 1 ≤ 1 + max n 1; omega

/-- Behind the tokens that are known to be taken a semicolon may be implied as at the start. -/
theorem Mode.lead_le_add (e : Mode) (n : Nat) : e.lead n ≤ n + e.lead 0 := by
  cases e with
  | closing => exact Nat.le_refl _
  | inside => show max n 1 ≤ n + max 0 1; omega
  | behind => show max n 1 ≤ n + max 0 1; omega

/-- At most one token is known to be taken behind a semicolon that is implied. -/
theorem Mode.trail_le (e : Mode) : e.trail ≤ 1 := by
  cases e <;> decide

end EcmaScript.Parser
