import EcmaScript.Proofs.Build.Gives
import EcmaScript.Proofs.Tandem.InStep

/-!
# Following a parser

A parser of the other text follows one of the first text when it ends with the same result
as long as the first text is parsed up to the end of the stretch and no further, without a
fault. Where the run ends is known only behind it, so what is asked of it comes last: a run
that does not end early always goes forward and takes a number of tokens, and if the rest of
parsing then comes to the end of the stretch, the parser of the other text has kept in step.

Some parsers look at a token that they leave to the next one. Such a parser cannot be followed
where the stretch ends before that token; the condition on its result and its last state says
where the stretch may end.

Inside a construct both parsers are in step. Behind a statement they may be so only with a slash
read again, so what comes there is told apart: it does not look at a slash, or reads it again.
-/

namespace EcmaScript

namespace Parser

/-- The label of a statement that starts elsewhere. -/
def Label.move (f : Nat → Nat) (label : Label) : Label :=
  { label with bodyStart := f label.bodyStart }

/-- The context with the labeled statements elsewhere. -/
def Context.move (f : Nat → Nat) (ctx : Context) : Context :=
  { ctx with labels := ctx.labels.map (.move f) }

/-- The context as one of the first text, whose offsets are counted from the base on. -/
def Context.widen (n : Nat) (ctx : Context) : Context := ctx.move (· + n)

end Parser

/-- The context as one of the other text. -/
def Shift.context (w : Shift) (ctx : Parser.Context) : Parser.Context :=
  ctx.move fun offset => w.start (offset + w.base)

namespace Parser

open Place

/-- The stretch may end behind the parser, whatever the result. -/
abbrev anywhere {α : Type} : α → State → Prop := fun _ _ => True

/-- The stretch may not end right behind the parser. -/
abbrev nowhere {α : Type} : α → State → Prop := fun _ _ => False

/-- The stretch may end behind the parser if it may end behind a statement. -/
abbrev resting (w : Tandem) {α : Type} : α → State → Prop := fun _ _ => w.Rests

/-- Whether a token of this kind is at the same place in both texts. The end of a text and a
semicolon need not be, nor a slash, which may be read again. -/
def isFirm : TokenKind → Bool
  | .endOfFile | .regex | .mark .semicolon | .mark .slash | .mark .slashAssign => false
  | _ => true

/-- What is firm is nothing that is not. -/
theorem ne_of_isFirm {k k' : TokenKind} (hk : isFirm k = true) (hk' : isFirm k' = false) :
    k' ≠ k := by
  rintro rfl
  exact Bool.false_ne_true (hk'.symm.trans hk)

/-- A slash is not firm. -/
theorem isSlash_of_isFirm {k : TokenKind} (hk : isFirm k = true) : Lexer.isSlash k = false :=
  Bool.eq_false_iff.mpr fun h => by
    rcases Lexer.isSlash_iff.mp h with rfl | rfl
    · exact Bool.false_ne_true hk
    · exact Bool.false_ne_true hk

/-- A firm token that the first text does not have next is not next in the other. -/
theorem Nearly.kind_ne {w : Tandem} {s t : State} {k : TokenKind} (h : Nearly w s t)
    (hs : s.Sound w.text) (hk : isFirm k = true) (hne : s.lexer.token.kind ≠ k) :
    t.lexer.token.kind ≠ k := by
  cases h.nigh with
  | reread _ _ hregex _ => exact fun ht => ne_of_isFirm hk rfl (hregex.symm.trans ht)
  | near hnear =>
    rcases w.open_or hs.place hnear with hopen | hend
    · exact fun ht => hne ((w.alike hs.place hnear hopen).twin.kind.symm.trans ht)
    · exact hend.of_kind (motive := (· ≠ k)) (ne_of_isFirm hk rfl) (ne_of_isFirm hk rfl)

/-- A number of tokens that is at most another, where both are known from the parsers. -/
class Fewer (n m : Nat) : Prop where
  le : n ≤ m

instance (n : Nat) : Fewer n n := ⟨Nat.le_refl n⟩

instance (n : Nat) : Fewer 0 n := ⟨Nat.zero_le n⟩

instance (n m : Nat) [h : Fewer n m] : Fewer (n - 1) m :=
  ⟨Nat.le_trans (Nat.sub_le n 1) h.le⟩

/-- A number of tokens that come before a semicolon is implied, if another one is taken. -/
class AtMost (n m : Nat) : Prop where
  le : n ≤ max m 1

instance (n : Nat) : AtMost n n := ⟨Nat.le_max_left n 1⟩

instance (n : Nat) : AtMost 0 n := ⟨Nat.zero_le _⟩

instance (n : Nat) : AtMost 1 n := ⟨Nat.le_max_right n 1⟩

instance (n : Nat) : AtMost (0 + 1) n := ⟨Nat.le_max_right n 1⟩

instance (n m : Nat) [h : AtMost n m] : AtMost (n - 1) m :=
  ⟨Nat.le_trans (Nat.sub_le n 1) h.le⟩

/-- The first of two ways to end is one of the second. -/
class Mode.Becomes (b e : Mode) : Prop where
  becomes : ∀ {w : Tandem} {s t : State}, b.InStep w s t → e.InStep w s t

instance (e : Mode) : Mode.Becomes e e := ⟨id⟩

instance (e : Mode) : Mode.Becomes .inside e := ⟨InStep.toMode e⟩

/-- A token comes before a semicolon is implied. -/
class Mode.Steady (e : Mode) : Prop where
  le_lead : ∀ n, max n 1 ≤ e.lead n

instance : Mode.Steady .inside := ⟨fun _ => Nat.le_refl _⟩

instance : Mode.Steady .behind := ⟨fun _ => Nat.le_refl _⟩

/-- So some token does. -/
theorem Mode.Steady.pos {e : Mode} (h : e.Steady) (n : Nat) : 0 < e.lead n :=
  Nat.lt_of_lt_of_le Nat.one_pos (Nat.le_trans (Nat.le_max_right n 1) (h.le_lead n))

/-- A run of `p` on the first text that does not end early takes `n` tokens at least. If the
rest of parsing comes to the end of the stretch from there, and the stretch ends where it may
end, then `q` gives the same result on the other text and stays in step. What is known from
before may be used. -/
def Tracks (w : Tandem) (b e : Mode) (known : Prop) (n : Nat) {α β : Type}
    (stops : α → State → Prop) (φ : α → β) (p : Parser α) (q : Parser β) (s t : State) : Prop :=
  s.Sound w.text → Stands w s → ∀ a s', p s = .ok (a, s') →
    s'.Sound w.text ∧ Way (e.lead n) e.trail n s.post s'.post ∧
      (w.Ahead 0 s'.post → w.Open s'.post ∨ stops a s' → known → b.InStep w s t →
        ∃ t', q t = .ok (φ a, t') ∧ e.InStep w s' t')

/-- A parser inside a construct is followed. -/
abbrev Follows (w : Tandem) (known : Prop) (n : Nat) {α β : Type} (stops : α → State → Prop)
    (φ : α → β) (p : Parser α) (q : Parser β) (s t : State) : Prop :=
  Tracks w .inside .inside known n stops φ p q s t

/-- A parser of a statement is followed. -/
abbrev Concludes (w : Tandem) (known : Prop) (n : Nat) {α β : Type} (stops : α → State → Prop)
    (φ : α → β) (p : Parser α) (q : Parser β) (s t : State) : Prop :=
  Tracks w .inside .behind known n stops φ p q s t

/-- The parser takes a token, or it asks for `before` where the stretch may end behind it. So the
stretch may end before it only if `before` holds. -/
def GoesOn (w : Tandem) (e : Mode) (known before : Prop) {α β : Type} (stops : α → State → Prop)
    (φ : α → β) (p : Parser α) (q : Parser β) (s t : State) : Prop :=
  Tracks w e e known 1 stops φ p q s t ∨
    Tracks w e e known 0 stops φ p q s t ∧ ∀ a s', p s = .ok (a, s') → stops a s' → before

/-- A run of a parser on the first text that has come to an end, in or behind the stretch. -/
structure Passed (w : Tandem) (e : Mode) {α : Type} (p : Parser α) (s : State) (a : α)
    (s₁ : State) : Prop extends Along w.text s s₁ where
  run : p s = .ok (a, s₁)
  stands : Stands w s
  way : Way 0 e.trail 0 s.post s₁.post

namespace Passed

variable {w : Tandem} {e : Mode} {α : Type} {p : Parser α} {s s₁ : State} {a : α}

/-- A parser that has passed is not in front of the base. -/
theorem base_le (h : Passed w e p s a s₁) : w.base ≤ s.offset := h.stands.base_le

/-- Behind the parser nothing is implied behind what was taken. -/
theorem after (h : Passed w e p s a s₁) : Stands w s₁ := h.stands.along h.before h.way

/-- What was begun goes on with a token of its own. -/
theorem begun (h : Passed w .inside p s a s₁) (hb : Begun w s) : Begun w s₁ :=
  hb.along h.before h.way

end Passed

/-- Where two parsers one behind the other succeed, each of them does. -/
theorem bind_eq_ok {α β : Type} {p : Parser α} {f : α → Parser β} {s s' : State} {b : β}
    (h : (p >>= f) s = .ok (b, s')) : ∃ a s₁, p s = .ok (a, s₁) ∧ f a s₁ = .ok (b, s') := by
  cases hp : p s with
  | error e =>
    simp only [Bind.bind, StateT.bind, hp, Except.bind] at h
    exact nomatch h
  | ok out =>
    simp only [Bind.bind, StateT.bind, hp, Except.bind] at h
    exact ⟨out.1, out.2, rfl, h⟩

/-- Behind a parser that succeeds the next one goes on with its result. -/
theorem bind_run {α β : Type} {p : Parser α} {f : α → Parser β} {s s₁ : State} {a : α}
    (h : p s = .ok (a, s₁)) : (p >>= f) s = f a s₁ := by
  simp only [Bind.bind, StateT.bind, h, Except.bind]

/-- The run ends early. -/
def Fails {α : Type} (p : Parser α) (s : State) : Prop := ∀ out, p s ≠ .ok out

/-- What fails at first fails. -/
theorem Fails.bind {α β : Type} {p : Parser α} {f : α → Parser β} {s : State} (h : Fails p s) :
    Fails (p >>= f) s := by
  rintro ⟨b, s'⟩ hrun
  obtain ⟨a, s₁, hp, -⟩ := bind_eq_ok hrun
  exact h _ hp

/-- What fails behind a step fails. -/
theorem Fails.step {α β : Type} {p : Parser α} {f : α → Parser β} {s s₁ : State} {a : α}
    (hp : p s = .ok (a, s₁)) (h : Fails (f a) s₁) : Fails (p >>= f) s := by
  intro out hrun
  exact h out ((bind_run hp).symm.trans hrun)

/-- Blaming a place fails. -/
theorem fail_fails {α : Type} {place : Nat} {problem : Problem} {s : State} :
    Fails (fail place problem : Parser α) s := fun _ h => nomatch h

/-- Blaming the next token fails. -/
theorem failHere_fails {α : Type} {problem : Problem} {s : State} :
    Fails (failHere problem : Parser α) s := fun _ h => nomatch h

/-- Refusing a token fails. -/
theorem unexpected_fails {α : Type} {s : State} : Fails (unexpected : Parser α) s := by
  rintro ⟨b, s'⟩ hrun
  obtain ⟨token, s₁, -, hrun⟩ := bind_eq_ok hrun
  cases hp : unexpectedProblem? token with
  | some problem =>
    rw [hp] at hrun
    exact nomatch hrun
  | none =>
    rw [hp] at hrun
    exact nomatch hrun

/-- Where nothing is implied, the parser leaves what was implied before. -/
def Mute {α : Type} (p : Parser α) (s : State) : Prop :=
  ∀ a s', p s = .ok (a, s') → s'.implied = s.implied

/-- Parsers one behind the other that imply nothing. -/
theorem Mute.bind {α β : Type} {p : Parser α} {f : α → Parser β} {s : State} (h : Mute p s)
    (hf : ∀ a s₁, p s = .ok (a, s₁) → Mute (f a) s₁) : Mute (p >>= f) s := by
  intro b s₂ hrun
  obtain ⟨a, s₁, hp, hrun⟩ := bind_eq_ok hrun
  exact (hf a s₁ hp b s₂ hrun).trans (h a s₁ hp)

/-- Giving a result implies nothing. -/
theorem Mute.pure {α : Type} {a : α} {s : State} : Mute (Pure.pure a) s := fun _ _ hrun => by
  cases hrun
  rfl

/-- What ends early implies nothing. -/
theorem Mute.of_fails {α : Type} {p : Parser α} {s : State} (h : Fails p s) : Mute p s :=
  fun a s' hrun => absurd hrun (h (a, s'))

/-- A choice of parsers that imply nothing. -/
theorem Mute.ite {α : Type} {c : Prop} [Decidable c] {p q : Parser α} {s : State}
    (hp : Mute p s) (hq : Mute q s) : Mute (if c then p else q) s := by
  split
  · exact hp
  · exact hq

namespace Tracks

section

variable {w : Tandem} {b e e₁ : Mode} {K : Prop} {k m n : Nat} {α β γ δ : Type}
  {s s₁ t t₁ : State} {p : Parser α} {q : Parser γ} {f : α → Parser β} {f' : γ → Parser δ}
  {φ : α → γ} {ψ : β → δ} {P : α → State → Prop} {Q : β → State → Prop} {N : Prop}

/-- A run that has been followed has passed. -/
theorem passed (hs : s.Sound w.text) (hb : Stands w s) {a : α} (hrun : p s = .ok (a, s₁))
    (hs₁ : s₁.Sound w.text) (hway : Way (e.lead n) e.trail n s.post s₁.post) :
    Passed w e p s a s₁ :=
  ⟨⟨hs, hs₁, hway.takes.toPath⟩, hrun, hb,
    hway.mono (Nat.zero_le _) (Nat.le_refl _) (Nat.zero_le _)⟩

/-- Fewer tokens may be asked for. -/
theorem loose (h : Tracks w b e K n P φ p q s t) (hm : m ≤ n) : Tracks w b e K m P φ p q s t :=
  fun hs hb a s' hrun =>
    have ⟨hs', hway, hend⟩ := h hs hb a s' hrun
    ⟨hs', hway.mono (e.lead_mono hm) (Nat.le_refl _) hm, hend⟩

/-- What stops may be said with less. -/
theorem imp {P' : α → State → Prop} (h : Tracks w b e K n P φ p q s t)
    (hP : ∀ a s', P' a s' → P a s') : Tracks w b e K n P' φ p q s t :=
  fun hs hb a s' hrun =>
    have ⟨hs', hway, hend⟩ := h hs hb a s' hrun
    ⟨hs', hway, fun ha hc => hend ha (hc.imp_right (hP a s'))⟩

/-- Where the stretch may end may hang on the run. -/
theorem imp_passed {P' : α → State → Prop} (h : Tracks w b e K n P φ p q s t)
    (hP : ∀ a s', Passed w e p s a s' → P' a s' → P a s') : Tracks w b e K n P' φ p q s t :=
  fun hs hb a s' hrun =>
    have ⟨hs', hway, hend⟩ := h hs hb a s' hrun
    ⟨hs', hway, fun ha hc => hend ha (hc.imp_right (hP a s' (passed hs hb hrun hs' hway)))⟩

/-- What follows wherever it stops follows in particular where that is restricted. -/
theorem freely (h : Tracks w b e K n anywhere φ p q s t) : Tracks w b e K n P φ p q s t :=
  h.imp fun _ _ _ => trivial

/-- Less may be known. -/
theorem of_known {L : Prop} (h : Tracks w b e K n P φ p q s t) (hK : L → K) :
    Tracks w b e L n P φ p q s t :=
  fun hs hb a s' hrun =>
    have ⟨hs', hway, hend⟩ := h hs hb a s' hrun
    ⟨hs', hway, fun ha hc hk => hend ha hc (hK hk)⟩

/-- Being sound and behind the base may be used at once. -/
theorem of_base (h : Stands w s → s.Sound w.text → Tracks w b e K n P φ p q s t) :
    Tracks w b e K n P φ p q s t := fun hs hb => h hb hs hs hb

/-- The end of a statement may be taken for what is behind it. -/
theorem concludes (h : Tracks w b .closing K (n + 1) P φ p q s t) :
    Tracks w b .behind K (n + 1) P φ p q s t :=
  fun hs hb a s' hrun =>
    have ⟨hs', hway, hend⟩ := h hs hb a s' hrun
    ⟨hs', hway.mono (Nat.max_le.mpr ⟨Nat.le_refl _, Nat.succ_le_of_lt (Nat.succ_pos n)⟩)
      (Nat.le_refl _) (Nat.le_refl _), hend⟩

/-- What stays inside a construct may end a statement. -/
theorem settled (h : Tracks w b .inside K n P φ p q s t) : Tracks w b e K n P φ p q s t :=
  fun hs hb a s' hrun =>
    have ⟨hs', hway, hend⟩ := h hs hb a s' hrun
    ⟨hs', hway.mono (e.lead_le n) (by cases e <;> decide) (Nat.le_refl _),
      fun ha hc hk hin =>
        have ⟨t', hq, hin'⟩ := hend ha hc hk hin
        ⟨t', hq, InStep.toMode e hin'⟩⟩

/-- What goes on where the parsers are nearly in step goes on where they are. -/
theorem starts (h : Tracks w .behind e K n P φ p q s t) : Tracks w .inside e K n P φ p q s t :=
  fun hs hb a s' hrun =>
    have ⟨hs', hway, hend⟩ := h hs hb a s' hrun
    ⟨hs', hway, fun ha hc hk hin => hend ha hc hk (InStep.nearly hin)⟩

/-- What is known of where the run ends may be used. -/
theorem of_end {L : Prop} (h : Tracks w b e L n P φ p q s t)
    (hK : ∀ a s', Passed w e p s a s' → w.Ahead 0 s'.post → w.Open s'.post ∨ P a s' →
      Way (e.lead n) e.trail n s.post s'.post → b.InStep w s t → K → L) :
    Tracks w b e K n P φ p q s t :=
  fun hs hb a s' hrun =>
    have ⟨hs', hway, hend⟩ := h hs hb a s' hrun
    ⟨hs', hway, fun ha hc hk hin =>
      hend ha hc (hK a s' (passed hs hb hrun hs' hway) ha hc hway hin hk) hin⟩

/-- What is known of the tokens that are still to be taken may be used. -/
theorem of_ahead {L : Prop} (h : Tracks w b e L n P φ p q s t)
    (hK : s.Sound w.text → Stands w s → w.Ahead n s.post → b.InStep w s t → K → L) :
    Tracks w b e K n P φ p q s t :=
  h.of_end fun _ _ hpass ha _ hway hin hk => hK hpass.before hpass.stands
    (w.ahead_of_way hway ha (e.le_lead n) (Nat.le_refl n)) hin hk

/-- Where the stretch may not end, a token is still to be taken. -/
theorem of_ahead_nowhere [he : e.Steady] {L : Prop} (h : Tracks w b e L n nowhere φ p q s t)
    (hK : s.Sound w.text → Stands w s → w.Ahead 1 s.post → b.InStep w s t → K → L) :
    Tracks w b e K n nowhere φ p q s t :=
  h.of_end fun _ _ hpass ha hc hway hin hk => hK hpass.before hpass.stands
    (w.ahead_of_way hway (w.ahead_of_open ha (hc.resolve_right id)) (he.pos n)
      (Nat.le_add_left 1 n)) hin hk

/-- Where the stretch may not end, one token more is still to be taken if nothing is implied
before. -/
theorem of_ahead_mute (hm : Mute p s) {L : Prop} (h : Tracks w b e L n nowhere φ p q s t)
    (hK : s.Sound w.text → Stands w s → w.Ahead (n + 1) s.post → b.InStep w s t → K → L) :
    Tracks w b e K n nowhere φ p q s t :=
  h.of_end fun a s' hpass ha hc hway hin hk => hK hpass.before hpass.stands
    (w.ahead_of_way (show Way (n + 1) 0 n _ _ from .of_implied hway.takes (hm a s' hpass.run))
      (w.ahead_of_open ha (hc.resolve_right id)) (Nat.le_refl _) (Nat.le_refl _)) hin hk

/-- Only the run on the other text matters. -/
theorem congr {r : Parser γ} (h : Tracks w b e K n P φ p r s t)
    (hq : K → b.InStep w s t → q t = r t) : Tracks w b e K n P φ p q s t :=
  fun hs hb a s' hrun =>
    have ⟨hs', hway, hend⟩ := h hs hb a s' hrun
    ⟨hs', hway, fun ha hc hk hin => (hq hk hin).symm ▸ hend ha hc hk hin⟩

/-- The first parser may be another one that runs alike. -/
theorem congr_run {r : Parser α} (h : Tracks w b e K n P φ r q s t) (hp : p s = r s) :
    Tracks w b e K n P φ p q s t :=
  fun hs hb a s' hrun => h hs hb a s' (hp ▸ hrun)

/-- A token that is taken is taken in the stretch or behind it. -/
theorem begun {a : α} (h : Tracks w b .inside K (n + 1) P φ p q s t)
    (hpass : Passed w e p s a s₁) : Begun w s₁ :=
  have ⟨_, hway, _⟩ := h hpass.before hpass.stands a s₁ hpass.run
  hpass.stands.begun hpass.before hway

/-- What goes on follows. -/
theorem of_goesOn {B : Prop} (h : GoesOn w e K B P φ p q s t) :
    Tracks w e e K 0 P φ p q s t :=
  h.elim (fun h => h.loose (Nat.zero_le 1)) And.left

/-- Where the stretch ends, if it ends in front of a parser that goes on or behind it. -/
theorem open_of_goesOn [he : e.Steady] {B : Prop} {a : α}
    (h : GoesOn w e K B P φ p q s t) (hpass : Passed w e₁ p s a s₁)
    (ha : w.Ahead 0 s₁.post) (hc : w.Open s₁.post ∨ P a s₁) : w.Open s.post ∨ B := by
  rcases h with h | ⟨h, hB⟩
  · obtain ⟨-, hway, -⟩ := h hpass.before hpass.stands a s₁ hpass.run
    exact Or.inl (w.open_of_ahead (n := 0) hpass.before.place
      (w.ahead_of_way hway ha (he.pos 1) (Nat.le_refl 1)))
  · obtain ⟨-, hway, -⟩ := h hpass.before hpass.stands a s₁ hpass.run
    exact hc.imp (w.open_of_way hpass.before.place hway (he.pos 0)) (hB a s₁ hpass.run)

/-- A parser followed by another. Where the stretch ends must be where the first one may stop. -/
theorem bind_of (h : Tracks w b e₁ K m P φ p q s t)
    (hf : ∀ a s₁ t₁, Passed w e₁ p s a s₁ →
      Tracks w e₁ e (K ∧ b.InStep w s t) n Q ψ (f a) (f' (φ a)) s₁ t₁)
    (hP : ∀ a s₁ c s₂, Passed w e₁ p s a s₁ → Passed w e (f a) s₁ c s₂ →
      Way (e.lead n) e.trail n s₁.post s₂.post → w.Ahead 0 s₂.post → w.Open s₂.post ∨ Q c s₂ →
      w.Open s₁.post ∨ P a s₁)
    (hk : k ≤ m + n) (hl : e.lead k ≤ e₁.lead m) (hl' : e.lead k ≤ m + e.lead n)
    (ht : e.trail ≤ e₁.trail + n) : Tracks w b e K k Q ψ (p >>= f) (q >>= f') s t := by
  intro hs hb c s₂ hrun
  obtain ⟨a, s₁, hp, hrun⟩ := bind_eq_ok hrun
  obtain ⟨hs₁, hway₁, hend₁⟩ := h hs hb a s₁ hp
  have hpass := passed hs hb hp hs₁ hway₁
  obtain ⟨hs₂, hway₂, -⟩ := hf a s₁ t hpass hs₁ hpass.after c s₂ hrun
  refine ⟨hs₂, hway₁.trans hway₂ hk hl hl' ht (Nat.le_refl _), fun ha hc hk hin => ?_⟩
  have ha₁ := w.ahead_of_way hway₂ ha (Nat.zero_le _) (Nat.zero_le _)
  obtain ⟨t₁, hq, hin₁⟩ := hend₁ ha₁
    (hP a s₁ c s₂ hpass (passed hs₁ hpass.after hrun hs₂ hway₂) hway₂ ha hc) hk hin
  obtain ⟨-, -, hend₂⟩ := hf a s₁ t₁ hpass hs₁ hpass.after c s₂ hrun
  obtain ⟨t₂, hq', hin₂⟩ := hend₂ ha hc ⟨hk, hin⟩ hin₁
  exact ⟨t₂, (bind_run hq).trans hq', hin₂⟩

/-- Parsers one behind the other; the second may use that both texts are in step where the first
ends. -/
theorem bind (h : Tracks w b .inside K m anywhere φ p q s t)
    (hf : ∀ a s₁ t₁, Passed w .inside p s a s₁ →
      Tracks w .inside e (K ∧ b.InStep w s t) n Q ψ (f a) (f' (φ a)) s₁ t₁) [hn : AtMost n m] :
    Tracks w b e K n Q ψ (p >>= f) (q >>= f') s t :=
  .bind_of h hf (fun _ _ _ _ _ _ _ _ _ => Or.inr trivial) (Nat.le_add_left n m)
    (Nat.le_trans (e.lead_le n) (Nat.max_le.mpr ⟨hn.le, Nat.le_max_right m 1⟩))
    (Nat.le_add_left _ m) (Nat.le_trans e.trail_le (Nat.le_add_right 1 n))

/-- A parser followed by another, which need not take a token. -/
theorem first (h : Tracks w b .inside K n anywhere φ p q s t)
    (hf : ∀ a s₁ t₁, Passed w .inside p s a s₁ →
      Tracks w .inside e (K ∧ b.InStep w s t) 0 Q ψ (f a) (f' (φ a)) s₁ t₁) :
    Tracks w b e K n Q ψ (p >>= f) (q >>= f') s t :=
  .bind_of h hf (fun _ _ _ _ _ _ _ _ _ => Or.inr trivial) (Nat.le_refl n) (e.lead_le n)
    (e.lead_le_add n) e.trail_le

/-- A parser that takes a token, followed by another. -/
theorem andThen (h : Tracks w b .inside K 1 anywhere φ p q s t)
    (hf : ∀ a s₁ t₁, Passed w .inside p s a s₁ → Begun w s₁ →
      Tracks w .inside e (K ∧ b.InStep w s t) (n - 1) Q ψ (f a) (f' (φ a)) s₁ t₁)
    [hn : AtMost n 1] :
    Tracks w b e K n Q ψ (p >>= f) (q >>= f') s t := by
  refine .bind_of h (fun a s₁ t₁ hpass => hf a s₁ t₁ hpass (h.begun hpass))
    (fun _ _ _ _ _ _ _ _ _ => Or.inr trivial) (by omega)
    (Nat.le_trans (e.lead_le n) (Nat.max_le.mpr ⟨hn.le, Nat.le_refl 1⟩)) ?_
    (Nat.le_trans e.trail_le (Nat.le_add_right 1 _))
  exact Nat.le_trans (e.lead_mono (by omega)) (e.lead_succ_le (n - 1))

/-- A token that is taken, followed by more. -/
theorem token (h : Tracks w b .inside K 1 anywhere φ p q s t) (hm : Mute p s)
    (hf : ∀ a s₁ t₁, Passed w .inside p s a s₁ → Begun w s₁ →
      Tracks w .inside e (K ∧ b.InStep w s t) (n - 1) Q ψ (f a) (f' (φ a)) s₁ t₁) :
    Tracks w b e K n Q ψ (p >>= f) (q >>= f') s t := by
  intro hs hb c s₂ hrun
  obtain ⟨a, s₁, hp, hrun⟩ := bind_eq_ok hrun
  obtain ⟨hs₁, hway₁, hend₁⟩ := h hs hb a s₁ hp
  have hpass := passed hs hb hp hs₁ hway₁
  have hgoes := fun t₁ => hf a s₁ t₁ hpass (h.begun hpass) hs₁ hpass.after c s₂ hrun
  obtain ⟨hs₂, hway₂, -⟩ := hgoes t
  have hway : Way (1 + e.lead (n - 1)) e.trail 1 s.post s₁.post :=
    .of_implied hway₁.takes (hm a s₁ hp)
  refine ⟨hs₂, hway.trans hway₂ (by omega) ?_ ?_ (Nat.le_add_right _ _) (Nat.le_refl _), ?_⟩
  · exact Nat.le_trans (e.lead_mono (by omega)) (e.lead_succ_le (n - 1))
  · exact Nat.le_trans (e.lead_mono (by omega)) (e.lead_succ_le (n - 1))
  · intro ha hc hk hin
    have ha₁ := w.ahead_of_way hway₂ ha (Nat.zero_le _) (Nat.zero_le _)
    obtain ⟨t₁, hq, hin₁⟩ := hend₁ ha₁ (Or.inr trivial) hk hin
    obtain ⟨t₂, hq', hin₂⟩ := (hgoes t₁).2.2 ha hc ⟨hk, hin⟩ hin₁
    exact ⟨t₂, (bind_run hq).trans hq', hin₂⟩

/-- A parser followed by one that takes a token, so that the stretch does not end between. -/
theorem before [he : e₁.Steady] (h : Tracks w b e₁ K m P φ p q s t)
    (hf : ∀ a s₁ t₁, Passed w e₁ p s a s₁ →
      Tracks w e₁ e (K ∧ b.InStep w s t) 1 Q ψ (f a) (f' (φ a)) s₁ t₁) [hn : AtMost n m] :
    Tracks w b e K n Q ψ (p >>= f) (q >>= f') s t := by
  have hlead : e.lead n ≤ max m 1 :=
    Nat.le_trans (e.lead_le n) (Nat.max_le.mpr ⟨hn.le, Nat.le_max_right m 1⟩)
  have hmax : max m 1 ≤ m + 1 := Nat.max_le.mpr ⟨Nat.le_add_right m 1, Nat.le_add_left 1 m⟩
  refine .bind_of h hf (fun _ _ _ _ hpass _ hway ha _ => Or.inl ?_)
    (Nat.le_trans hn.le hmax) (Nat.le_trans hlead (he.le_lead m))
    (Nat.le_trans hlead (Nat.le_trans hmax (Nat.add_le_add_left (e.le_lead 1) m)))
    (Nat.le_trans e.trail_le (Nat.le_add_left 1 _))
  exact w.open_of_ahead (n := 0) hpass.sound.place
    (w.ahead_of_way hway ha (e.le_lead 1) (Nat.le_refl 1))

/-- A parser followed by one that takes a token, or that asks for what the first one needs. -/
theorem bind_or (h : Follows w K m P φ p q s t)
    (hf : ∀ a s₁ t₁, Passed w .inside p s a s₁ →
      GoesOn w .inside (K ∧ InStep w s t) (P a s₁) Q ψ (f a) (f' (φ a)) s₁ t₁)
    [hn : Fewer n m] : Follows w K n Q ψ (p >>= f) (q >>= f') s t := by
  refine .bind_of (n := 0) h (fun a s₁ t₁ hpass => .of_goesOn (hf a s₁ t₁ hpass))
    (fun a s₁ c s₂ hpass hpass' _ ha hc => ?_) hn.le (Mode.lead_mono _ hn.le)
    (Nat.le_trans (Mode.lead_mono _ hn.le) (Mode.lead_le_add _ m)) (Nat.le_refl 1)
  exact open_of_goesOn (hf a s₁ t hpass) hpass' ha hc

/-- Parsers behind which the stretch may end or not. -/
theorem within [he : e.Steady] (h : Tracks w b .inside K m (fun _ _ => N) φ p q s t)
    (hf : ∀ a s₁ t₁, Passed w .inside p s a s₁ →
      Tracks w .inside e (K ∧ b.InStep w s t) n (fun _ _ => N) ψ (f a) (f' (φ a)) s₁ t₁)
    [hn : AtMost n m] : Tracks w b e K n (fun _ _ => N) ψ (p >>= f) (q >>= f') s t :=
  .bind_of h hf (fun _ _ _ _ hpass _ hway _ hc =>
    hc.imp_left (w.open_of_way hpass.sound.place hway (he.pos n))) (Nat.le_add_left n m)
    (Nat.le_trans (e.lead_le n) (Nat.max_le.mpr ⟨hn.le, Nat.le_max_right m 1⟩))
    (Nat.le_add_left _ m) (Nat.le_trans e.trail_le (Nat.le_add_right 1 n))

/-- What comes behind a statement, where the stretch may end or not. -/
theorem behind (h : Tracks w b .behind K m (fun _ _ => N) φ p q s t)
    (hf : ∀ a s₁ t₁, Passed w .behind p s a s₁ →
      Tracks w .behind .behind (K ∧ b.InStep w s t) n (fun _ _ => N) ψ (f a) (f' (φ a)) s₁ t₁)
    [hn : AtMost n m] : Tracks w b .behind K n (fun _ _ => N) ψ (p >>= f) (q >>= f') s t :=
  .bind_of h hf (fun _ _ _ _ hpass _ hway _ hc => hc.imp_left
    (w.open_of_way hpass.sound.place hway (Nat.lt_of_lt_of_le Nat.one_pos (Nat.le_max_right n 1))))
    (Nat.le_add_left n m)
    (Nat.max_le.mpr ⟨hn.le, Nat.le_max_right m 1⟩) (Nat.le_add_left _ m) (Nat.zero_le _)

/-- Giving results that are the same but for their places. -/
theorem pure [he : b.Becomes e] {a : α} {c : γ} (h : c = φ a) :
    Tracks w b e K 0 P φ (Pure.pure a) (Pure.pure c) s t := by
  intro hs _ a' s' hrun
  cases hrun
  exact ⟨hs, .of_implied (.path .refl) rfl, fun _ _ _ hin =>
    ⟨t, by rw [h]; rfl, he.becomes hin⟩⟩

/-- A result that is made of another one. -/
theorem map {make : α → β} {make' : γ → δ} (h : Tracks w b e K m P φ p q s t)
    (hmake : ∀ a, make' (φ a) = ψ (make a)) (hQ : ∀ a s', Q (make a) s' → P a s')
    [hn : Fewer n m] :
    Tracks w b e K n Q ψ (p >>= fun a => Pure.pure (make a))
    (q >>= fun c => Pure.pure (make' c)) s t :=
  .bind_of h (n := 0) (fun a _ _ _ => .pure (hmake a))
    (fun a _ _ _ _ hpass _ _ hc => by
      cases hpass.run
      exact hc.imp_right (hQ a _)) hn.le (e.lead_mono hn.le)
    (Nat.le_trans (e.lead_mono hn.le) (e.lead_le_add m)) (Nat.le_refl _)

/-- Steps whose outcomes are known, and that take nothing. -/
theorem step {a : α} {c : γ} (hp : p s = .ok (a, s₁)) (hq : q t = .ok (c, t₁))
    (hi : s₁.implied = s.implied) (hs : s.Sound w.text → Same w.text s s₁)
    (hin : K → InStep w s t → InStep w s₁ t₁)
    (h : Tracks w .inside e (K ∧ InStep w s t) n Q ψ (f a) (f' c) s₁ t₁) :
    Tracks w .inside e K n Q ψ (p >>= f) (q >>= f') s t := by
  intro hsound hb c' s₂ hrun
  rw [bind_run hp] at hrun
  have hsame := hs hsound
  have hpost : s₁.post = s.post := by
    rw [State.post, State.place, hsame.lexer_eq, hsame.consumed_eq, hsame.taken_eq, hi]
    rfl
  have hb₁ : Stands w s₁ := ⟨hsame.offset_eq ▸ hb.base_le, by
    rw [hi, hsame.consumed_eq]
    exact hb.implied_le⟩
  obtain ⟨hs₂, hway, hend⟩ := h hsame.sound hb₁ c' s₂ hrun
  rw [hpost] at hway
  refine ⟨hs₂, hway, fun ha hc hk hst => ?_⟩
  rw [bind_run hq]
  exact hend ha hc ⟨hk, hst⟩ (hin hk hst)

/-- Steps that only look at the state. -/
theorem read {a : α} {c : γ} (hp : p s = .ok (a, s)) (hq : q t = .ok (c, t))
    (h : Tracks w b e K n Q ψ (f a) (f' c) s t) :
    Tracks w b e K n Q ψ (p >>= f) (q >>= f') s t := by
  intro hsound hb c' s₂ hrun
  rw [bind_run hp] at hrun
  rw [bind_run hq]
  exact h hsound hb c' s₂ hrun

/-- Where the first text is refused, nothing is asked of the other. -/
theorem error (h : Fails p s) : Tracks w b e K n P φ p q s t :=
  fun _ _ a s' hrun => absurd hrun (h (a, s'))

/-- A choice. Each branch may use its own number of tokens to tell that the parser of the
other text takes the same branch. -/
theorem branch {c c' : Prop} [Decidable c] [Decidable c'] {p₁ p₂ : Parser α} {q₁ q₂ : Parser γ}
    (h₁ : c → Tracks w b e K m P φ p₁ q₁ s t) (h₂ : ¬c → Tracks w b e K n P φ p₂ q₂ s t)
    (hc₁ : c → s.Sound w.text → Stands w s → w.Ahead m s.post → b.InStep w s t → K → c')
    (hc₂ : ¬c → s.Sound w.text → Stands w s → w.Ahead n s.post → b.InStep w s t → K → ¬c')
    (hn : n ≤ m) : Tracks w b e K n P φ (if c then p₁ else p₂) (if c' then q₁ else q₂) s t := by
  by_cases hc : c
  · refine .loose (.congr_run (.of_ahead (.congr ((h₁ hc).of_known And.left) fun hk _ => ?_)
      fun hs hb ha hin hk => ⟨hk, hc₁ hc hs hb ha hin hk⟩) (by rw [if_pos hc])) hn
    rw [if_pos hk.2]
  · refine .congr_run (.of_ahead (.congr ((h₂ hc).of_known And.left) fun hk _ => ?_)
      fun hs hb ha hin hk => ⟨hk, hc₂ hc hs hb ha hin hk⟩) (by rw [if_neg hc])
    rw [if_neg hk.2]

/-- A choice whose second branch takes more tokens. -/
theorem branch_else {c c' : Prop} [Decidable c] [Decidable c'] {p₁ p₂ : Parser α}
    {q₁ q₂ : Parser γ} (h₁ : c → Tracks w b e K n P φ p₁ q₁ s t)
    (h₂ : ¬c → Tracks w b e K m P φ p₂ q₂ s t)
    (hc₁ : c → s.Sound w.text → Stands w s → w.Ahead n s.post → b.InStep w s t → K → c')
    (hc₂ : ¬c → s.Sound w.text → Stands w s → w.Ahead m s.post → b.InStep w s t → K → ¬c')
    (hn : n ≤ m) : Tracks w b e K n P φ (if c then p₁ else p₂) (if c' then q₁ else q₂) s t := by
  rw [← ite_not, ← ite_not c']
  exact .branch h₂ (fun hc => h₁ (not_not.mp hc)) hc₂ (fun hc hs hb ha hin hk =>
    not_not.mpr (hc₁ (not_not.mp hc) hs hb ha hin hk)) hn

/-- A choice where the stretch may not end, which the first branch takes with one token more. -/
theorem branch_nowhere [e.Steady] {c c' : Prop} [Decidable c] [Decidable c'] {p₁ p₂ : Parser α}
    {q₁ q₂ : Parser γ} (hm : c → Mute p₁ s) (h₁ : c → Tracks w b e K m nowhere φ p₁ q₁ s t)
    (h₂ : ¬c → Tracks w b e K n nowhere φ p₂ q₂ s t)
    (hc₁ : c → s.Sound w.text → Stands w s → w.Ahead (m + 1) s.post → b.InStep w s t → K → c')
    (hc₂ : ¬c → s.Sound w.text → Stands w s → w.Ahead 1 s.post → b.InStep w s t → K → ¬c')
    (hn : n ≤ m) :
    Tracks w b e K n nowhere φ (if c then p₁ else p₂) (if c' then q₁ else q₂) s t := by
  by_cases hc : c
  · refine .loose (.congr_run (.of_ahead_mute (hm hc) (.congr ((h₁ hc).of_known And.left)
      fun hk _ => ?_) fun hs hb ha hin hk => ⟨hk, hc₁ hc hs hb ha hin hk⟩)
      (by rw [if_pos hc])) hn
    rw [if_pos hk.2]
  · refine .congr_run (.of_ahead_nowhere (.congr ((h₂ hc).of_known And.left) fun hk _ => ?_)
      fun hs hb ha hin hk => ⟨hk, hc₂ hc hs hb ha hin hk⟩) (by rw [if_neg hc])
    rw [if_neg hk.2]

/-- A choice that has nothing to do with the text. -/
theorem ite {c c' : Prop} [Decidable c] [Decidable c'] {p₁ p₂ : Parser α} {q₁ q₂ : Parser γ}
    (hc : c ↔ c') (h₁ : c → Tracks w b e K n P φ p₁ q₁ s t)
    (h₂ : ¬c → Tracks w b e K n P φ p₂ q₂ s t) :
    Tracks w b e K n P φ (if c then p₁ else p₂) (if c' then q₁ else q₂) s t :=
  .branch h₁ h₂ (fun h _ _ _ _ _ => hc.mp h) (fun h _ _ _ _ _ => mt hc.mpr h) (Nat.le_refl n)

/-- A condition that ends parsing. -/
theorem refuse {c c' : Prop} [Decidable c] [Decidable c'] {r r' : Parser Unit}
    {g : Unit → Parser α} {g' : Unit → Parser γ} (hr : Fails r s)
    (hc : K → b.InStep w s t → c' → c) (h : ¬c → Tracks w b e K n P φ (g ()) (g' ()) s t) :
    Tracks w b e K n P φ (if c then r >>= g else g ()) (if c' then r' >>= g' else g' ()) s t := by
  by_cases hcc : c
  · rw [if_pos hcc]
    exact .error hr.bind
  · rw [if_neg hcc]
    exact (h hcc).congr fun hk hin => by rw [if_neg (mt (hc hk hin) hcc)]

/-- A condition without which parsing ends. -/
theorem require {c c' : Prop} [Decidable c] [Decidable c'] {r r' : Parser Unit}
    {g : Unit → Parser α} {g' : Unit → Parser γ} (hr : Fails r s)
    (hc : K → b.InStep w s t → c → c') (h : c → Tracks w b e K n P φ (g ()) (g' ()) s t) :
    Tracks w b e K n P φ (if c then g () else r >>= g) (if c' then g' () else r' >>= g') s t := by
  by_cases hcc : c
  · rw [if_pos hcc]
    exact (h hcc).congr fun hk hin => by rw [if_pos (hc hk hin hcc)]
  · rw [if_neg hcc]
    exact .error hr.bind

/-- An end of parsing in one of the branches. -/
theorem orElse {c c' : Prop} [Decidable c] [Decidable c'] {r : Parser α} {r' : Parser γ}
    (hr : Fails r s) (hc : K → b.InStep w s t → c → c') (h : c → Tracks w b e K n P φ p q s t) :
    Tracks w b e K n P φ (if c then p else r) (if c' then q else r') s t := by
  by_cases hcc : c
  · rw [if_pos hcc]
    exact (h hcc).congr fun hk hin => by rw [if_pos (hc hk hin hcc)]
  · rw [if_neg hcc]
    exact .error hr

/-- The span of what has been parsed. -/
theorem span {start : Nat} {f : Span → Parser β} {f' : Span → Parser δ} (hb : Begun w s)
    (h : Tracks w b e K n Q ψ (f (.ofOffsets start s.consumed))
      (f' (w.span (.ofOffsets start s.consumed))) s t) :
    Tracks w b e K n Q ψ (spanFrom start >>= f) (spanFrom (w.start start) >>= f') s t := by
  refine .read rfl rfl (h.congr fun _ hin => ?_)
  rw [Shift.span_ofOffsets, ← hb.reach, ← (Mode.level hin).consumed]

/-- A node that is made of what has been parsed, with the span of all of it. -/
theorem node [b.Becomes e] {start : Nat} {make : Span → β} {make' : Span → δ} (hb : Begun w s)
    (h : ∀ span, make' (w.span span) = ψ (make span)) :
    Tracks w b e K 0 Q ψ (do return make (← spanFrom start))
      (do return make' (← spanFrom (w.start start))) s t :=
  .span hb (.pure (h _))

/-- A statement that is made of what has been parsed, with the span of all of it. -/
theorem extent [he : b.Becomes e] {start : Nat} {make : Span → β} {make' : Span → δ}
    (h : ∀ span, make' (w.extent span) = ψ (make span)) :
    Tracks w b e K 0 (resting w) ψ (do return make (← spanFrom start))
      (do return make' (← spanFrom (w.start start))) s t := by
  intro hs _ a s' hrun
  cases hrun
  refine ⟨hs, .of_implied (.path .refl) rfl, fun _ hc _ hin => ⟨t, ?_, he.becomes hin⟩⟩
  have hreach := (Mode.level hin).consumed.trans (reach_of_open hs hc)
  show Except.ok (make' (.ofOffsets (w.start start) t.consumed), t) = _
  rw [hreach, ← Shift.extent_ofOffsets, h]

/-- A statement that is made of what comes last in it. -/
theorem ending {start : Nat} {f : α → Span → β} {g : γ → Span → δ}
    (h : Tracks w b e K n (resting w) φ p q s t)
    (hmake : ∀ a span, g (φ a) (w.extent span) = ψ (f a span)) :
    Tracks w b e K n (resting w) ψ (p >>= fun a => do return f a (← spanFrom start))
      (q >>= fun c => do return g c (← spanFrom (w.start start))) s t := by
  refine .bind_of h (n := 0) (fun a _ _ _ => .extent (hmake a)) ?_ (Nat.le_refl n)
    (Nat.le_refl _) (e.lead_le_add n) (Nat.le_refl _)
  intro a s₁ c s₂ _ hpass _ _ hc
  cases hpass.run
  exact hc

end

section

variable {w : Tandem} {e : Mode} {K : Prop} {n : Nat} {α β γ δ : Type} {s t : State}
  {p : Parser α} {q : Parser γ} {φ : α → γ} {ψ : β → δ} {P : α → State → Prop}
  {Q : β → State → Prop}

/-- Where a token is still to be taken, it is the same. -/
theorem alike (h : Tracks w .inside e (K ∧ Alike w s t) (n + 1) P φ p q s t) :
    Tracks w .inside e K (n + 1) P φ p q s t :=
  h.of_ahead fun hs _ ha hin hk => ⟨hk, InStep.alike hin hs ha⟩

/-- Where the stretch may not end, the current token is the same. -/
theorem alike_nowhere [e.Steady] (h : Tracks w .inside e (K ∧ Alike w s t) n nowhere φ p q s t) :
    Tracks w .inside e K n nowhere φ p q s t :=
  h.of_ahead_nowhere fun hs _ ha hin hk => ⟨hk, InStep.alike hin hs ha⟩

/-- Parsers that take a token go by its kind and its offset. -/
theorem first_token {f : TokenKind → Nat → Parser α} {r : TokenKind → Nat → Parser γ}
    (h : ∀ start, s.offset = start ∧ w.base ≤ start → Tracks w .inside e K (n + 1) P φ
      (f s.lexer.token.kind start) (r s.lexer.token.kind (w.start start)) s t)
    (hp : p s = f s.lexer.token.kind s.offset s) (hq : q t = r t.lexer.token.kind t.offset t) :
    Tracks w .inside e K (n + 1) P φ p q s t := by
  refine .of_base fun hb _ => .alike (.congr_run ?_ hp)
  have hrest := (h _ ⟨rfl, hb.base_le⟩).of_known (And.left : K ∧ Alike w s t → K)
  refine hrest.congr fun hk _ => hq.trans ?_
  have hs : t.offset = w.start s.offset := hk.2.twin.start
  rw [hs, hk.2.twin.kind]

/-- Parsers that take a token read its offset. -/
theorem offset {f : Nat → Parser β} {f' : Nat → Parser δ}
    (h : ∀ start, s.offset = start ∧ w.base ≤ start →
      Tracks w .inside e K (n + 1) Q ψ (f start) (f' (w.start start)) s t) :
    Tracks w .inside e K (n + 1) Q ψ (Parser.offset >>= f) (Parser.offset >>= f') s t :=
  .first_token (f := fun _ => f) (r := fun _ => f') h rfl rfl

/-- Where the stretch may not end, parsers read the offset of the current token. -/
theorem offset_nowhere [e.Steady] {f : Nat → Parser β} {f' : Nat → Parser δ}
    (h : ∀ start, s.offset = start ∧ w.base ≤ start →
      Tracks w .inside e K n nowhere ψ (f start) (f' (w.start start)) s t) :
    Tracks w .inside e K n nowhere ψ (Parser.offset >>= f) (Parser.offset >>= f') s t := by
  refine .of_base fun hb _ => .read rfl rfl (.alike_nowhere ?_)
  have hrest := (h _ ⟨rfl, hb.base_le⟩).of_known (And.left : K ∧ Alike w s t → K)
  refine hrest.congr fun hk _ => ?_
  have hs : t.lexer.token.start.offset = w.start s.offset := hk.2.twin.start
  rw [hs]

/-- Parsers that take a token choose by its kind. -/
theorem kind {f : TokenKind → Parser β} {g : TokenKind → Parser δ}
    (h : Tracks w .inside e K (n + 1) Q ψ (f s.lexer.token.kind) (g s.lexer.token.kind) s t) :
    Tracks w .inside e K (n + 1) Q ψ (Parser.kind >>= f) (Parser.kind >>= g) s t :=
  .read rfl rfl (.alike ((h.of_known And.left).congr fun hk _ => by rw [hk.2.twin.kind]))

/-- Where the stretch may not end, parsers choose by the kind of the current token. -/
theorem kind_nowhere [e.Steady] {f : TokenKind → Parser β} {g : TokenKind → Parser δ}
    (h : Tracks w .inside e K n nowhere ψ (f s.lexer.token.kind) (g s.lexer.token.kind) s t) :
    Tracks w .inside e K n nowhere ψ (Parser.kind >>= f) (Parser.kind >>= g) s t :=
  .read rfl rfl (.alike_nowhere ((h.of_known And.left).congr fun hk _ => by rw [hk.2.twin.kind]))

/-- The kind of the current token decides, and it is taken if it is the given one. -/
theorem isAt {k : TokenKind} {f : Bool → Parser β} {f' : Bool → Parser δ}
    (hk : isFirm k = true)
    (h₁ : s.lexer.token.kind = k → Tracks w .inside e K 1 Q ψ (f true) (f' true) s t)
    (h₂ : s.lexer.token.kind ≠ k → Tracks w .inside e K 0 Q ψ (f false) (f' false) s t) :
    Tracks w .inside e K 0 Q ψ (Parser.isAt k >>= f) (Parser.isAt k >>= f') s t := by
  refine .of_base fun _ hs => .read rfl rfl ?_
  by_cases hkind : s.lexer.token.kind = k
  · refine (Tracks.alike (n := 0) (((h₁ hkind).of_known And.left).congr fun hk _ => ?_)).loose
      (Nat.zero_le 1) |>.congr_run ?_
    · rw [hk.2.twin.kind, hkind, beq_self_eq_true]
    · rw [hkind, beq_self_eq_true]
  · have hne : ∀ {k' : TokenKind}, k' ≠ k → (k' == k) = false := beq_eq_false_iff_ne.mpr
    refine ((h₂ hkind).congr fun _ hin => ?_).congr_run (by rw [hne hkind])
    rw [hne (InStep.nearly hin |>.kind_ne hs hk hkind)]

/-- The kind of the current token decides between two ways to take it. -/
theorem isAt_taken {k : TokenKind} {f : Bool → Parser β} {f' : Bool → Parser δ}
    (h₁ : s.lexer.token.kind = k → Tracks w .inside e K (n + 1) Q ψ (f true) (f' true) s t)
    (h₂ : s.lexer.token.kind ≠ k → Tracks w .inside e K (n + 1) Q ψ (f false) (f' false) s t) :
    Tracks w .inside e K (n + 1) Q ψ (Parser.isAt k >>= f) (Parser.isAt k >>= f') s t := by
  refine .kind (f := fun k' => f (k' == k)) (g := fun k' => f' (k' == k)) ?_
  by_cases hkind : s.lexer.token.kind = k
  · rw [hkind, beq_self_eq_true]
    exact h₁ hkind
  · rw [beq_eq_false_iff_ne.mpr hkind]
    exact h₂ hkind

/-- Where the stretch may not end, the kind of the current token decides. -/
theorem isAt_nowhere [e.Steady] {k : TokenKind} {f : Bool → Parser β} {f' : Bool → Parser δ}
    (h₁ : s.lexer.token.kind = k → Tracks w .inside e K n nowhere ψ (f true) (f' true) s t)
    (h₂ : s.lexer.token.kind ≠ k → Tracks w .inside e K n nowhere ψ (f false) (f' false) s t) :
    Tracks w .inside e K n nowhere ψ (Parser.isAt k >>= f) (Parser.isAt k >>= f') s t := by
  refine .kind_nowhere (f := fun k' => f (k' == k)) (g := fun k' => f' (k' == k)) ?_
  by_cases hkind : s.lexer.token.kind = k
  · rw [hkind, beq_self_eq_true]
    exact h₁ hkind
  · rw [beq_eq_false_iff_ne.mpr hkind]
    exact h₂ hkind

/-- Behind a statement parsers are in step where no slash comes. -/
theorem unslashed (h : Tracks w .inside e K n P φ p q s t)
    (hs : Lexer.isSlash s.lexer.token.kind = false) : Tracks w .behind e K n P φ p q s t :=
  fun hsound hb a s' hrun =>
    have ⟨hs', hway, hend⟩ := h hsound hb a s' hrun
    ⟨hs', hway, fun ha hc hk hin => hend ha hc hk (Nearly.inStep hin hs)⟩

/-- Behind a statement parsers are in step if the first one refuses a slash. -/
theorem of_fails (h : Tracks w .inside e K n P φ p q s t)
    (hf : Lexer.isSlash s.lexer.token.kind = true → Fails p s) :
    Tracks w .behind e K n P φ p q s t := by
  cases hs : Lexer.isSlash s.lexer.token.kind with
  | true => exact .error (hf hs)
  | false => exact .unslashed h hs

/-- Behind a statement the kind of the current token decides, unless it can be a slash. -/
theorem isAt_behind {k : TokenKind} {f : Bool → Parser β} {f' : Bool → Parser δ}
    (hk : isFirm k = true)
    (h₁ : s.lexer.token.kind = k → Tracks w .inside e K 1 Q ψ (f true) (f' true) s t)
    (h₂ : s.lexer.token.kind ≠ k → Tracks w .behind e K 0 Q ψ (f false) (f' false) s t) :
    Tracks w .behind e K 0 Q ψ (Parser.isAt k >>= f) (Parser.isAt k >>= f') s t := by
  refine .of_base fun _ hs => .read rfl rfl ?_
  by_cases hkind : s.lexer.token.kind = k
  · have hslash : Lexer.isSlash s.lexer.token.kind = false := hkind ▸ isSlash_of_isFirm hk
    refine .unslashed (.congr_run (.loose (.alike (n := 0)
      (((h₁ hkind).of_known And.left).congr fun hk _ => ?_)) (Nat.zero_le 1)) ?_) hslash
    · rw [hk.2.twin.kind, hkind, beq_self_eq_true]
    · rw [hkind, beq_self_eq_true]
  · have hne : ∀ {k' : TokenKind}, k' ≠ k → (k' == k) = false := beq_eq_false_iff_ne.mpr
    refine ((h₂ hkind).congr fun _ hin => ?_).congr_run (by rw [hne hkind])
    rw [hne (Nearly.kind_ne hin hs hk hkind)]

end

end Tracks

end Parser

end EcmaScript
