import EcmaScript.Parser.Basic
import EcmaScript.Proofs.Syntax.Cover
import Mathlib.Logic.Relation

/-!
# Where a parser stands

The place of a parser is its lexer with the tokens that were taken and the end of the last of
them. A parser moves in single steps: it takes the current token, or has the lexer read that
token again. Steps keep a place sound, which means that its lexer has a trace, that no token is
current that begins before the end of the one taken last, and that all that was taken was read
from the text. They never go back.

Between two states of a parser lies a path of such steps. Most parsers take at least one
token on theirs, and the last one they take is never a dot, so that the token behind it was
not read as the name of a property.
-/

namespace EcmaScript.Parser

open Relation

/-- The lexer of a parser, and what was taken. -/
structure Place where
  /-- The lexer. -/
  lexer : Lexer
  /-- The offset behind the token that was taken last. -/
  consumed : Nat
  /-- The tokens that were taken, the last one first. -/
  taken : List Token

namespace Place

/-- Where the current token starts. -/
def offset (p : Place) : Nat := p.lexer.token.start.offset

/-- What holds of every place in which a parser of the text can be. -/
structure Sound (text : String) (p : Place) : Prop where
  trace : ∃ readings r, Lexer.Trace text (readings ++ [r]) p.lexer
  consumed_le : p.consumed ≤ p.offset
  isBoundary : IsBoundary text p.consumed
  taken : ∀ t ∈ p.taken, p.lexer.HasRead text t

/-- A single move of a parser. -/
inductive Step : Place → Place → Prop where
  | take {p : Place} : p.lexer.token.kind ≠ .endOfFile →
      Step p ⟨p.lexer.scan, p.lexer.token.stop.offset, p.lexer.token :: p.taken⟩
  | slash {p : Place} :
      p.lexer.token.kind = .mark .slash ∨ p.lexer.token.kind = .mark .slashAssign →
      Step p ⟨p.lexer.rescanSlash, p.consumed, p.taken⟩
  | template {p : Place} : p.lexer.token.kind = .mark .closeBrace →
      Step p ⟨p.lexer.rescanTemplate, p.consumed, p.taken⟩

/-- Any number of moves. -/
abbrev Path : Place → Place → Prop := ReflTransGen Step

section

variable {text : String} {p p' : Place}

/-- The current token starts at a boundary of the text. -/
theorem Sound.isBoundary_offset (h : p.Sound text) : IsBoundary text p.offset := by
  obtain ⟨readings, r, ht⟩ := h.trace
  exact ht.place.1.isBoundary

/-- The current token ends at a boundary of the text. -/
theorem Sound.isBoundary_stop (h : p.Sound text) :
    IsBoundary text p.lexer.token.stop.offset := by
  obtain ⟨readings, r, ht⟩ := h.trace
  obtain ⟨hin, hr, _⟩ := ht.place
  have hs : Cursor.IsIn p.lexer.token.stop text := hin.trans hr
  exact hs.isBoundary

/-- No token ends before it starts. -/
theorem Sound.offset_le_stop (h : p.Sound text) : p.offset ≤ p.lexer.token.stop.offset := by
  obtain ⟨readings, r, ht⟩ := h.trace
  exact ht.place.2.1.offset_le

/-- Only the end of the text is an empty token. -/
theorem Sound.offset_lt_stop (h : p.Sound text) (hk : p.lexer.token.kind ≠ .endOfFile) :
    p.offset < p.lexer.token.stop.offset := by
  obtain ⟨readings, r, ht⟩ := h.trace
  obtain ⟨_, hr, hl⟩ := ht.place
  exact hr.offset_lt (hl (by simp) hk)

/-- The next token starts behind the current one. -/
theorem stop_le_offset_scan (lexer : Lexer) :
    lexer.token.stop.offset ≤ lexer.scan.token.start.offset := by
  rw [Lexer.start_scan]
  exact (Lexer.reaches_trivia false _).offset_le

/-- Taking the current token leaves a sound place, also at the end of the text. -/
theorem Sound.take (hp : p.Sound text) :
    Sound text ⟨p.lexer.scan, p.lexer.token.stop.offset, p.lexer.token :: p.taken⟩ := by
  obtain ⟨readings, r, ht⟩ := hp.trace
  refine ⟨⟨_, _, ht.scan⟩, stop_le_offset_scan p.lexer, hp.isBoundary_stop, ?_⟩
  exact List.forall_mem_cons.mpr ⟨ht.hasRead.scan, fun t h => (hp.taken t h).scan⟩

/-- A step keeps the place in the text. -/
theorem Step.sound (h : Step p p') (hp : p.Sound text) : p'.Sound text := by
  obtain ⟨readings, r, ht⟩ := hp.trace
  cases h with
  | take hk => exact hp.take
  | slash hk =>
    refine ⟨⟨_, _, ht.slash hk⟩, ?_, hp.isBoundary, fun t h => (hp.taken t h).rescanSlash hk⟩
    rw [Place.offset, Lexer.rescanSlash_eq hk]
    exact hp.consumed_le
  | template hk =>
    exact ⟨⟨_, _, ht.template hk⟩, hp.consumed_le, hp.isBoundary,
      fun t h => (hp.taken t h).rescanTemplate⟩

/-- A step does not give back what has been taken. -/
theorem Step.consumed_le (h : Step p p') (hp : p.Sound text) : p.consumed ≤ p'.consumed := by
  cases h with
  | take hk => exact Nat.le_trans hp.consumed_le hp.offset_le_stop
  | slash hk => exact Nat.le_refl _
  | template hk => exact Nat.le_refl _

/-- A step does not go back. -/
theorem Step.offset_le (h : Step p p') (hp : p.Sound text) : p.offset ≤ p'.offset := by
  cases h with
  | take hk => exact Nat.le_trans hp.offset_le_stop (stop_le_offset_scan p.lexer)
  | slash hk =>
    rw [Place.offset, Place.offset, Lexer.rescanSlash_eq hk]
    exact Nat.le_refl _
  | template hk => exact Nat.le_refl _

/-- A step keeps the tokens that have been taken. -/
theorem Step.taken (h : Step p p') : p.taken <:+ p'.taken := by
  cases h with
  | take => exact List.suffix_cons _ _
  | slash => exact List.suffix_rfl
  | template => exact List.suffix_rfl

/-- What was taken stays taken. -/
theorem Path.taken (h : Path p p') : p.taken <:+ p'.taken := by
  induction h with
  | refl => exact List.suffix_rfl
  | tail _ hs ih => exact ih.trans hs.taken

/-- Along a path places stay sound, and nothing goes back. -/
theorem Path.sound (h : Path p p') (hp : p.Sound text) :
    p'.Sound text ∧ p.consumed ≤ p'.consumed ∧ p.offset ≤ p'.offset := by
  induction h with
  | refl => exact ⟨hp, Nat.le_refl _, Nat.le_refl _⟩
  | tail _ hs ih =>
    obtain ⟨h, hc, ho⟩ := ih
    exact ⟨hs.sound h, Nat.le_trans hc (hs.consumed_le h), Nat.le_trans ho (hs.offset_le h)⟩

end

end Place

namespace State

/-- Where the parser stands. -/
def place (s : State) : Place := ⟨s.lexer, s.consumed, s.taken⟩

/-- Where the current token starts. -/
def offset (s : State) : Nat := s.lexer.token.start.offset

/-- What the parser has come to. -/
def front (s : State) : Front := ⟨s.consumed, s.taken, s.implied⟩

/-- What holds of every state in which a parser of the text can be. -/
structure Sound (text : String) (s : State) : Prop where
  place : s.place.Sound text
  isSyntactic : ∀ fault, s.suspension = some fault → fault.IsSyntactic

end State

/-- Whether a token can be taken and is no dot. -/
def isOrdinary : TokenKind → Bool
  | .endOfFile | .mark .dot | .mark .questionDot => false
  | _ => true

/-- Words are ordinary. -/
theorem isOrdinary_of_isIdentifierName {k : TokenKind} (h : k.isIdentifierName = true) :
    isOrdinary k = true := by
  cases k with
  | mark p => exact absurd h (by simp [TokenKind.isIdentifierName])
  | endOfFile => exact absurd h (by simp [TokenKind.isIdentifierName])
  | _ => rfl

/-- What can be a name is a word. -/
theorem isIdentifierName_of_isIdentifierLike {k : TokenKind} (h : k.isIdentifierLike = true) :
    k.isIdentifierName = true := by
  cases k with
  | identifier => rfl
  | word w => rfl
  | _ => exact absurd h (by simp [TokenKind.isIdentifierLike])

/-- What can be a name is ordinary. -/
theorem isOrdinary_of_isIdentifierLike {k : TokenKind} (h : k.isIdentifierLike = true) :
    isOrdinary k = true :=
  isOrdinary_of_isIdentifierName (isIdentifierName_of_isIdentifierLike h)

/-- The end of the text is not ordinary. -/
theorem ne_endOfFile_of_isOrdinary {k : TokenKind} (h : isOrdinary k = true) :
    k ≠ .endOfFile := by
  rintro rfl
  exact absurd h (by decide)

/-- The current token was read behind one that is no dot. So it was not read as the name of a
property, and what a slash behind it means hangs on its kind only. -/
def State.Plain (s : State) : Prop :=
  ∃ before : Lexer, isOrdinary before.token.kind = true ∧ s.lexer = before.scan

/-- Behind a token that is no dot, none is read as the name of a property. -/
theorem isPropertyName_of_isOrdinary {before : TokenKind} (h : isOrdinary before = true)
    (k : TokenKind) : Lexer.isPropertyName before k = false := by
  have hd : (before == .mark .dot || before == .mark .questionDot) = false := by
    unfold isOrdinary at h
    split at h
    · exact absurd h (by simp)
    · exact absurd h (by simp)
    · exact absurd h (by simp)
    · rename_i h1 h2
      simpa using ⟨h1, h2⟩
  rw [Lexer.isPropertyName, hd]
  rfl

/-- Nothing is taken: only what is remembered for later may differ. -/
structure Same (text : String) (s s' : State) : Prop where
  before : s.Sound text
  sound : s'.Sound text
  lexer_eq : s'.lexer = s.lexer
  consumed_eq : s'.consumed = s.consumed
  taken_eq : s'.taken = s.taken
  implied : s.implied <:+ s'.implied

/-- A path leads from the place of the first state to that of the second. -/
structure Along (text : String) (s s' : State) : Prop where
  before : s.Sound text
  sound : s'.Sound text
  path : Place.Path s.place s'.place

/-- The second state can be come to from the first one. -/
structure Onto (text : String) (s s' : State) : Prop extends Along text s s' where
  implied : s.implied <:+ s'.implied

/-- Tokens may have been taken; the last one of them is no dot. -/
structure Kept (text : String) (s s' : State) : Prop extends Onto text s s' where
  plain : s.Plain → s'.Plain

/-- At least one token has been taken; the last one is no dot. -/
structure Took (text : String) (s s' : State) : Prop extends Onto text s s' where
  plain : s'.Plain
  lt : s.offset < s'.consumed

section

variable {text : String} {s s₁ s₂ : State}

/-- With the same tokens taken the current one is the same. -/
theorem Same.offset_eq (h : Same text s s₁) : s₁.offset = s.offset := by
  rw [State.offset, State.offset, h.lexer_eq]

/-- No token has been taken yet. -/
theorem Same.refl (h : s.Sound text) : Same text s s := ⟨h, h, rfl, rfl, rfl, List.suffix_rfl⟩

/-- If no token was taken, the last one is what it was. -/
theorem Same.kept (h : Same text s s₁) : Kept text s s₁ := by
  refine ⟨⟨⟨h.before, h.sound, ?_⟩, h.implied⟩, fun hp => ?_⟩
  · rw [State.place, State.place, h.lexer_eq, h.consumed_eq, h.taken_eq]
  · rw [State.Plain, h.lexer_eq]
    exact hp

/-- What is remembered for later does not matter for soundness, as long as it is a problem of
syntax. -/
theorem State.Sound.same (h : s.Sound text) (hl : s₁.lexer = s.lexer)
    (hc : s₁.consumed = s.consumed) (ht : s₁.taken = s.taken) (hi : s.implied <:+ s₁.implied)
    (hf : ∀ fault, s₁.suspension = some fault → fault.IsSyntactic) : Same text s s₁ where
  before := h
  sound := ⟨by rw [State.place, hl, hc, ht]; exact h.place, hf⟩
  lexer_eq := hl
  consumed_eq := hc
  taken_eq := ht
  implied := hi

/-- A sound state has come out of a trace of readings. -/
theorem State.Sound.trace (h : s.Sound text) :
    ∃ readings r, Lexer.Trace text (readings ++ [r]) s.lexer := h.place.trace

/-- What has been taken ends before the current token. -/
theorem State.Sound.consumed_le (h : s.Sound text) : s.consumed ≤ s.offset := h.place.consumed_le

/-- On the way nothing is given back. -/
theorem Along.consumed_le (h : Along text s s₁) : s.consumed ≤ s₁.consumed :=
  (h.path.sound h.before.place).2.1

/-- On the way the parser does not go back. -/
theorem Along.offset_le (h : Along text s s₁) : s.offset ≤ s₁.offset :=
  (h.path.sound h.before.place).2.2

/-- More has been taken at the end of the way. -/
theorem Onto.upto (h : Onto text s s₁) : s.front.Upto s₁.front :=
  ⟨h.consumed_le, fun _ ht => h.path.taken.subset ht, fun _ ho => h.implied.subset ho⟩

/-- Ways one behind the other are one way. -/
theorem Onto.trans (h : Onto text s s₁) (k : Onto text s₁ s₂) : Onto text s s₂ :=
  ⟨⟨h.before, k.sound, h.path.trans k.path⟩, h.implied.trans k.implied⟩

/-- A way on which a token is taken later. -/
theorem Onto.took (h : Onto text s s₁) (k : Took text s₁ s₂) : Took text s s₂ :=
  ⟨h.trans k.toOnto, k.plain, Nat.lt_of_le_of_lt h.offset_le k.lt⟩

/-- The way that takes no token. -/
theorem Kept.refl (h : s.Sound text) : Kept text s s := (Same.refl h).kept

/-- Ways one behind the other, with no dot at the end of either. -/
theorem Kept.trans (h : Kept text s s₁) (k : Kept text s₁ s₂) : Kept text s s₂ :=
  ⟨h.toOnto.trans k.toOnto, fun hp => k.plain (h.plain hp)⟩

/-- A way on which a token is taken first. -/
theorem Took.trans (h : Took text s s₁) (k : Kept text s₁ s₂) : Took text s s₂ :=
  ⟨h.toOnto.trans k.toOnto, k.plain h.plain, Nat.lt_of_lt_of_le h.lt k.toOnto.consumed_le⟩

/-- What took a token that is no dot ends with no dot. -/
theorem Took.kept (h : Took text s s₁) : Kept text s s₁ := ⟨h.toOnto, fun _ => h.plain⟩

end

end EcmaScript.Parser
