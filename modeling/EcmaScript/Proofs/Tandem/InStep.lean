import EcmaScript.Proofs.Parser.Spans
import EcmaScript.Proofs.Tandem.Cover
import EcmaScript.Proofs.Tandem.Way

/-!
# Parsers in step

Two texts that have a stretch in common can be parsed in step: a parser of the one text is in step
with a parser of the other when both have taken the same tokens of that stretch. What the texts
are, and why the lexers of the two read the same there, is left open. Where the stretch ends may
be known only behind it, so what is asked of the places of the first parser is what still lies
ahead of them.

Until the end of the stretch both parsers are at the same token; there, the one of the other text
may be at the end of its text instead, or at a semicolon that only this text has. What is
remembered for later may be less in the other text.

A statement may be ended by that semicolon, behind which a slash starts a regular expression. In
the first text it may have been read as an operator, and is read again where a statement starts. So
behind a statement the parsers may be in step only with this slash read again.
-/

namespace EcmaScript

open Relation

/-- A token and the one of the other text that it is, but for a line break before it. Nothing is
said of where the end of a text ends, since it is never taken. -/
structure Token.Twin (w : Shift) (a b : Token) : Prop where
  kind : b.kind = a.kind
  value : b.value = a.value
  raw : b.raw = a.raw
  text : b.text = a.text
  start : b.start.offset = w.start a.start.offset
  stop : a.kind ≠ .endOfFile → b.stop.offset = w.stop a.stop.offset
  length : b.stop.offset + a.start.offset = b.start.offset + a.stop.offset
  inside : ∀ k, 0 < k → a.start.offset + k < a.stop.offset →
    w.start (a.start.offset + k) = b.start.offset + k ∧
      w.stop (a.start.offset + k) = b.start.offset + k
  invalidEscape : b.flags.invalidEscape = a.flags.invalidEscape
  unterminated : b.flags.unterminated = a.flags.unterminated

/-- A token of the other text stands where that of the first one is shifted to. -/
theorem Token.Twin.span {w : Shift} {a b : Token} (h : Token.Twin w a b)
    (hk : a.kind ≠ .endOfFile) : b.span = w.span a.span := by
  rw [Token.span, Token.span, Shift.span_ofOffsets, h.start, h.stop hk]

/-- An offset in the token, or its end, if that is taken from the end on. -/
theorem Token.Twin.stop_max {w : Shift} {a b : Token} (h : Token.Twin w a b)
    (hk : a.kind ≠ .endOfFile) (hlt : a.start.offset + 1 < a.stop.offset) (closing : Nat) :
    w.stop (max (a.stop.offset - closing) (a.start.offset + 1)) =
      max (b.stop.offset - closing) (b.start.offset + 1) := by
  have hlength := h.length
  rcases Nat.eq_zero_or_pos closing with rfl | hpos
  · rw [Nat.sub_zero, Nat.sub_zero, Nat.max_eq_left (Nat.le_of_lt hlt), ← h.stop hk]
    omega
  · obtain ⟨k, hk, hm⟩ : ∃ k, 0 < k ∧
        max (a.stop.offset - closing) (a.start.offset + 1) = a.start.offset + k :=
      ⟨max (a.stop.offset - closing) (a.start.offset + 1) - a.start.offset, by omega, by omega⟩
    rw [hm, (h.inside k hk (by omega)).2]
    omega

namespace Parser

open Place

/-- Both lexers are at the same token. A line break before it counts only if something behind the
base has been taken before. -/
structure SameToken (w : Shift) (consumed : Nat) (a b : Lexer) : Prop where
  twin : Token.Twin w a.token b.token
  lineBreak : w.base < consumed → b.token.afterLineBreak = a.token.afterLineBreak

/-- The lexer is at the end of its text, on the same line, or at a semicolon there. -/
structure AtEnd (lexer : Lexer) : Prop where
  kind : lexer.token.kind = .endOfFile ∨ lexer.token.kind = .mark .semicolon
  lineBreak : lexer.token.afterLineBreak = false

/-- What holds of both kinds of token that may end the other text. -/
theorem AtEnd.of_kind {lexer : Lexer} (h : AtEnd lexer) {motive : TokenKind → Prop}
    (hend : motive .endOfFile) (hsemi : motive (.mark .semicolon)) :
    motive lexer.token.kind := by
  rcases h.kind with hk | hk
  · rw [hk]
    exact hend
  · rw [hk]
    exact hsemi

/-- Where the end of what was taken last goes: that of a statement, if a semicolon was implied
there. -/
def Post.reach (w : Shift) (p : Post) : Nat :=
  if p.consumed ∈ p.implied then w.close p.consumed else w.stop p.consumed

/-- What is near, at once or with a slash read again as the start of a regular expression. That may
be so only before the end of what the texts have in common. -/
inductive Nigh (isOpen : Post → Prop) (near : Post → Place → Prop) (p : Post) (q : Place) :
    Prop where
  | near : near p q → Nigh isOpen near p q
  | reread : isOpen p → Lexer.isSlash p.lexer.token.kind = true → q.lexer.token.kind = .regex →
      (p.lexer.rescanSlash.faults = #[] → near p.rescanSlash q) → Nigh isOpen near p q

/-- Two texts that are parsed in step. -/
structure Tandem extends Shift where
  /-- The first text. -/
  text : String
  /-- The length of the other text in bytes. -/
  size : Nat
  /-- What the texts have in common may end behind a statement. -/
  Rests : Prop
  /-- So many tokens at least lie between a place of the first text and the end of what the texts
  have in common, and no fault has been met up to there. -/
  Ahead : Nat → Post → Prop
  /-- The place lies before the end of what the texts have in common. -/
  Open : Post → Prop
  /-- The lexers of the two places read the same as long as the first one lies before that end. -/
  Near : Post → Place → Prop
  ahead_mono : ∀ {m n p}, Ahead n p → m ≤ n → Ahead m p
  ahead_of_way : ∀ {lead trail k m n p q}, Way lead trail m p q → Ahead n q → k ≤ lead →
    k ≤ m + n → Ahead k p
  ahead_of_open : ∀ {n p}, Ahead n p → Open p → Ahead 1 p
  ahead_next : ∀ {n p}, Ahead (n + 1) p → p.lexer.token.kind ≠ .endOfFile →
    isReread p.lexer.token.kind = false → Ahead n p.next
  ahead_clean : ∀ {n p}, Ahead n p → p.lexer.faults = #[]
  open_of_ahead : ∀ {n p}, p.toPlace.Sound text → Ahead (n + 1) p → Open p
  open_of_way : ∀ {lead trail n p q}, p.toPlace.Sound text → Way lead trail n p q → 0 < lead →
    Open q → Open p
  reach_lt : ∀ {n} {p q : Post}, q.toPlace.Sound text → Ahead n q → toShift.base < q.consumed →
    p.consumed < q.consumed → p.reach toShift < q.reach toShift ∧ q.reach toShift ≤ size
  close_eq : ∀ {p}, p.toPlace.Sound text → Open p ∨ Rests → p.consumed ∉ p.implied →
    toShift.close p.consumed = toShift.stop p.consumed
  alike : ∀ {p q}, p.toPlace.Sound text → Near p q → Open p →
    SameToken toShift p.consumed p.lexer q.lexer
  open_or : ∀ {p q}, p.toPlace.Sound text → Near p q → Open p ∨ AtEnd q.lexer
  near_next : ∀ {p q}, p.toPlace.Sound text → Near p q → p.lexer.token.kind ≠ .endOfFile →
    Ahead 0 p.next → Near p.next q.next
  near_slash : ∀ {p q}, p.toPlace.Sound text → Near p q →
    p.lexer.token.kind = .mark .slash ∨ p.lexer.token.kind = .mark .slashAssign →
    Ahead 1 p.rescanSlash → Near p.rescanSlash ⟨q.lexer.rescanSlash, q.consumed, q.taken⟩
  near_template : ∀ {p q}, p.toPlace.Sound text → Near p q →
    p.lexer.token.kind = .mark .closeBrace → Ahead 1 p.rescanTemplate →
    Near p.rescanTemplate ⟨q.lexer.rescanTemplate, q.consumed, q.taken⟩
  near_noted : ∀ {p q}, p.toPlace.Sound text → Near p q → Open p → Near p.noted q
  near_end : ∀ {p q}, p.toPlace.Sound text → Near p q → ¬Open p → Ahead 0 p.noted →
    (p.lexer.token.kind ≠ .endOfFile →
      p.lexer.regexAllowed = p.lexer.token.kind.allowsRegexAfter) →
    q.lexer.token.kind = .endOfFile ∧ Near p.noted q ∧
        toShift.close p.consumed = toShift.stop p.consumed ∨
      q.lexer.token.kind = .mark .semicolon ∧
        q.lexer.token.stop.offset = toShift.close p.consumed ∧ Nigh Open Near p.noted q.next

/-- A parser of the other text has taken as much as one of the first text, and remembers no
more. -/
structure Level (w : Tandem) (s t : State) : Prop where
  size : s.size = w.text.utf8ByteSize
  sizeOther : t.size = w.size
  consumed : t.consumed = s.post.reach w.toShift
  coverInit : s.coverInit = none → t.coverInit = none
  suspension : s.suspension = none → t.suspension = none
  notes : s.notes.Narrow w.toShift t.notes

/-- A parser of the other text has taken the same tokens as one of the first text, and remembers
no more. -/
structure InStep (w : Tandem) (s t : State) : Prop extends Level w s t where
  near : w.Near s.post t.place

/-- Two parsers are in step, at once or with a slash read again. -/
structure Nearly (w : Tandem) (s t : State) : Prop extends Level w s t where
  nigh : Nigh w.Open w.Near s.post t.place

/-- How two parsers that have ended in a given way are in step. -/
def Mode.InStep (w : Tandem) : Mode → State → State → Prop
  | .inside => Parser.InStep w
  | .behind => Nearly w
  | .closing => Nearly w

/-- Both parsers are at the same token. -/
abbrev Alike (w : Tandem) (s t : State) : Prop :=
  SameToken w.toShift s.consumed s.lexer t.lexer

/-- No semicolon has been implied behind what was taken. -/
structure Stands (w : Tandem) (s : State) : Prop where
  base_le : w.base ≤ s.offset
  implied_le : ∀ offset ∈ s.implied, offset ≤ s.consumed

/-- The last that was taken is a token, and it was taken behind the base. -/
structure Begun (w : Tandem) (s : State) : Prop where
  base_lt : w.base < s.consumed
  implied_lt : ∀ offset ∈ s.implied, offset < s.consumed

section

variable {w : Tandem} {s s' t : State} {lead m n : Nat}

/-- On a way nothing is implied behind what is taken. -/
theorem Stands.along (h : Stands w s) (hs : s.Sound w.text) {trail : Nat}
    (hway : Way lead trail n s.post s'.post) : Stands w s' := by
  obtain ⟨-, hconsumed, hoffset⟩ := hway.takes.toPath.sound hs.place
  refine ⟨Nat.le_trans h.base_le hoffset, fun offset ho => ?_⟩
  rcases hway.noted offset ho with ho | ⟨r, hp, hq, rfl⟩
  · exact Nat.le_trans (h.implied_le offset ho) hconsumed
  · exact (hq.toPath.sound (hp.toPath.sound hs.place).1).2.1

/-- Where a token is taken last. -/
theorem Stands.begun (h : Stands w s) (hs : s.Sound w.text)
    (hway : Way lead 1 (n + 1) s.post s'.post) : Begun w s' := by
  have hlt : s.offset < s'.consumed := hway.takes.lt hs.place
  refine ⟨Nat.lt_of_le_of_lt h.base_le hlt, fun offset ho => ?_⟩
  rcases hway.noted offset ho with ho | ⟨r, hp, hq, rfl⟩
  · exact Nat.lt_of_le_of_lt (Nat.le_trans (h.implied_le offset ho) hs.place.consumed_le) hlt
  · have hr := (hp.toPath.sound hs.place).1
    exact Nat.lt_of_le_of_lt hr.consumed_le (hq.lt hr)

/-- Where nothing but tokens have been taken since. -/
theorem Begun.along (h : Begun w s) (hs : s.Sound w.text)
    (hway : Way lead 1 n s.post s'.post) : Begun w s' := by
  have hle : s.consumed ≤ s'.consumed := (hway.takes.toPath.sound hs.place).2.1
  refine ⟨Nat.lt_of_lt_of_le h.base_lt hle, fun offset ho => ?_⟩
  rcases hway.noted offset ho with ho | ⟨r, hp, hq, rfl⟩
  · exact Nat.lt_of_lt_of_le (h.implied_lt offset ho) hle
  · have hr := (hp.toPath.sound hs.place).1
    exact Nat.lt_of_le_of_lt hr.consumed_le (hq.lt hr)

/-- Behind a token of its own no semicolon has been implied. -/
theorem Begun.reach (h : Begun w s) : s.post.reach w.toShift = w.stop s.consumed :=
  if_neg fun ho => Nat.lt_irrefl _ (h.implied_lt _ ho)

/-- Where the end of a statement goes, with or without a semicolon. -/
theorem reach_of_open (hs : s.Sound w.text) (h : w.Open s.post ∨ w.Rests) :
    s.post.reach w.toShift = w.close s.consumed := by
  unfold Post.reach
  split
  · rfl
  · rename_i hnot
    exact (w.close_eq hs.place h hnot).symm

/-- In whichever way the parsers are in step, as much has been taken. -/
theorem Mode.level {e : Mode} (h : e.InStep w s t) : Level w s t := by
  cases e with
  | inside => exact InStep.toLevel h
  | behind => exact Nearly.toLevel h
  | closing => exact Nearly.toLevel h

/-- Parsers in step are nearly so. -/
theorem InStep.nearly (h : InStep w s t) : Nearly w s t := { h with nigh := .near h.near }

/-- Where no slash comes, parsers that are nearly in step are so. -/
theorem Nearly.inStep (h : Nearly w s t) (hs : Lexer.isSlash s.lexer.token.kind = false) :
    InStep w s t :=
  { h with
    near := by
      cases h.nigh with
      | near hnear => exact hnear
      | reread _ hslash _ _ => exact absurd hslash (Bool.eq_false_iff.mp hs) }

/-- Parsers in step are so in every way. -/
theorem InStep.toMode (e : Mode) (h : InStep w s t) : e.InStep w s t := by
  cases e with
  | inside => exact h
  | behind => exact h.nearly
  | closing => exact h.nearly

/-- With a token ahead, both parsers are at the same one. -/
theorem InStep.alike (h : InStep w s t) (hs : s.Sound w.text) (ha : w.Ahead (n + 1) s.post) :
    Alike w s t :=
  w.alike hs.place h.near (w.open_of_ahead hs.place ha)

/-- Both parsers are at the same token, or the second one is at the end of its text. -/
theorem InStep.cases (h : InStep w s t) (hs : s.Sound w.text) :
    Alike w s t ∨ AtEnd t.lexer :=
  (w.open_or hs.place h.near).imp_left (w.alike hs.place h.near)

/-- Parsers stay in step when they take a token. -/
theorem InStep.next (h : InStep w s t) (hs : s.Sound w.text) (hstands : Stands w s)
    (hk : s.lexer.token.kind ≠ .endOfFile) (ha : w.Ahead 0 s.next.post) :
    InStep w s.next t.next := by
  have hway : Way 1 1 1 s.post s.next.post :=
    .of_implied (.take (p := s.place) .refl hk (.path .refl)) rfl
  have hone : w.Ahead 1 s.post := w.ahead_of_way hway ha (Nat.le_refl 1) (Nat.le_refl 1)
  exact
    { h with
      consumed := ((h.alike hs hone).twin.stop hk).trans (hstands.begun hs hway).reach.symm
      near := w.near_next hs.place h.near hk ha }

/-- A token that is not read again is taken, so the one behind it can be looked at. -/
theorem InStep.peek (h : InStep w s t) (hs : s.Sound w.text) (hstands : Stands w s)
    (hne : s.lexer.token.kind ≠ .endOfFile) (hk : isReread s.lexer.token.kind = false)
    (ha : w.Ahead (n + 1) s.post) :
    InStep w s.next t.next ∧ s.next.Sound w.text ∧ w.Ahead n s.next.post := by
  have hnext : w.Ahead n s.next.post := w.ahead_next ha hne hk
  exact ⟨h.next hs hstands hne (w.ahead_mono hnext (Nat.zero_le n)), hs.next hne, hnext⟩

/-- With two tokens ahead, the token behind the current one is the same. -/
theorem InStep.alike_next (h : InStep w s t) (hs : s.Sound w.text) (hstands : Stands w s)
    (hne : s.lexer.token.kind ≠ .endOfFile) (hk : isReread s.lexer.token.kind = false)
    (ha : w.Ahead (n + 2) s.post) : Alike w s.next t.next := by
  obtain ⟨hnext, hsnext, hahead⟩ := h.peek hs hstands hne hk ha
  exact hnext.alike hsnext hahead

/-- With one token ahead, the token behind it is the same, or the other text ends before it. -/
theorem InStep.cases_next (h : InStep w s t) (hs : s.Sound w.text) (hstands : Stands w s)
    (hne : s.lexer.token.kind ≠ .endOfFile) (hk : isReread s.lexer.token.kind = false)
    (ha : w.Ahead (n + 1) s.post) :
    Alike w s.next t.next ∨ AtEnd t.next.lexer := by
  obtain ⟨hnext, hsnext, -⟩ := h.peek hs hstands hne hk ha
  exact hnext.cases hsnext

/-- Parsers stay in step when they read a slash again that is taken then. -/
theorem InStep.rescanSlash (h : InStep w s t) (hs : s.Sound w.text)
    (hk : s.lexer.token.kind = .mark .slash ∨ s.lexer.token.kind = .mark .slashAssign)
    (ha : w.Ahead 1 s.post.rescanSlash) :
    InStep w { s with lexer := s.lexer.rescanSlash } { t with lexer := t.lexer.rescanSlash } :=
  { h with near := w.near_slash hs.place h.near hk ha }

/-- Parsers stay in step when they read a brace again as the end of a substitution. -/
theorem InStep.rescanTemplate (h : InStep w s t) (hs : s.Sound w.text)
    (hk : s.lexer.token.kind = .mark .closeBrace) (ha : w.Ahead 1 s.post.rescanTemplate) :
    InStep w { s with lexer := s.lexer.rescanTemplate }
      { t with lexer := t.lexer.rescanTemplate } :=
  { h with near := w.near_template hs.place h.near hk ha }

/-- A round of a loop that takes a token of the first text takes one of the other. -/
theorem Level.remaining_lt {s₁ t₁ : State} (h : Level w s t) (h₁ : Level w s₁ t₁)
    (hs₁ : s₁.Sound w.text) (ha₁ : w.Ahead n s₁.post) (hb : w.base < s₁.consumed)
    (hlt : s₁.remaining < s.remaining) : t₁.remaining < t.remaining := by
  unfold State.remaining at hlt ⊢
  rw [h.size, h₁.size] at hlt
  have hmore : s.consumed < s₁.consumed := by omega
  obtain ⟨hstop, hsize⟩ := w.reach_lt (p := s.post) hs₁.place ha₁ hb hmore
  rw [h.sizeOther, h₁.sizeOther, h.consumed, h₁.consumed]
  omega

end

end Parser

end EcmaScript
