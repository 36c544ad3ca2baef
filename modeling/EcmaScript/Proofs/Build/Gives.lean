import EcmaScript.Proofs.Build.Cover
import EcmaScript.Proofs.Parser.Grammar

/-!
# What parsers give

A parser gives what a condition says when every run of it that does not end early ends with a
result and a state that satisfy the condition. Early ends are not looked at. On the way the
state stays sound, and a default of an object literal that no pattern has claimed yet is not
forgotten: it may be put aside for a while, but in the end it is there again.
-/

namespace EcmaScript.Parser

open Budget

/-- No unclaimed default is forgotten from one state to the other. -/
def Later (s s' : State) : Prop := s'.coverInit = none → s.coverInit = none

/-- A state forgets no default of its own. -/
theorem Later.refl (s : State) : Later s s := id

/-- What is not forgotten in two steps is not forgotten. -/
theorem Later.trans {s s₁ s₂ : State} (h : Later s s₁) (k : Later s₁ s₂) : Later s s₂ :=
  fun hn => h (k hn)

/-- A run that does not end early ends in a sound state as the condition says. -/
def Runs (text : String) {α : Type} (p : Parser α) (s : State) (Q : α → State → Prop) : Prop :=
  s.Sound text → ∀ a s', p s = .ok (a, s') → s'.Sound text ∧ Q a s'

/-- A run that does not end early ends as the condition says, with no default forgotten. -/
def Gives (text : String) {α : Type} (p : Parser α) (s : State) (Q : α → State → Prop) : Prop :=
  Runs text p s fun a s' => Later s s' ∧ Q a s'

section

variable {text : String} {α β : Type} {s s₁ : State}

/-- A run that ends as one condition says ends as a weaker one says. -/
theorem Runs.imp {p : Parser α} {P Q : α → State → Prop} (h : Runs text p s P)
    (hpq : ∀ a s', P a s' → Q a s') : Runs text p s Q := fun hs a s' hp =>
  ⟨(h hs a s' hp).1, hpq a s' (h hs a s' hp).2⟩

/-- A run may be looked at from a sound state only. -/
theorem Runs.of_sound {p : Parser α} {Q : α → State → Prop}
    (h : s.Sound text → Runs text p s Q) : Runs text p s Q := fun hs => h hs hs

/-- Two steps one after the other. -/
theorem Runs.bind {p : Parser α} {f : α → Parser β} {P : α → State → Prop}
    {Q : β → State → Prop} (h : Runs text p s P)
    (hf : ∀ a s₁, P a s₁ → Runs text (f a) s₁ Q) : Runs text (p >>= f) s Q := by
  intro hs b s' hrun
  cases hp : p s with
  | error e =>
    simp only [Bind.bind, StateT.bind, hp, Except.bind] at hrun
    exact nomatch hrun
  | ok out =>
    obtain ⟨a, s₁⟩ := out
    obtain ⟨hs₁, hP⟩ := h hs a s₁ hp
    simp only [Bind.bind, StateT.bind, hp, Except.bind] at hrun
    exact hf a s₁ hP hs₁ b s' hrun

/-- A step that only gives a result. -/
theorem Runs.pure {a : α} {Q : α → State → Prop} (h : Q a s) : Runs text (Pure.pure a) s Q := by
  intro hs b s' hrun
  cases hrun
  exact ⟨hs, h⟩

/-- A step whose outcome is known. -/
theorem Runs.step {p : Parser α} {f : α → Parser β} {Q : β → State → Prop} {a : α}
    (hp : p s = .ok (a, s₁)) (hs : s.Sound text → s₁.Sound text)
    (h : Runs text (f a) s₁ Q) : Runs text (p >>= f) s Q := by
  intro hsound b s' hrun
  simp only [Bind.bind, StateT.bind, hp, Except.bind] at hrun
  exact h (hs hsound) b s' hrun

/-- A step that only looks at the state. -/
theorem Runs.read {p : Parser α} {f : α → Parser β} {Q : β → State → Prop} {a : α}
    (hp : p s = .ok (a, s)) (h : Runs text (f a) s Q) : Runs text (p >>= f) s Q :=
  .step hp id h

/-- A step that ends parsing. -/
theorem Runs.error {p : Parser α} {Q : α → State → Prop} {e : Abort} (h : p s = .error e) :
    Runs text p s Q := by
  intro _ a s' hp
  rw [h] at hp
  exact nomatch hp

/-- A choice between two steps. -/
theorem Runs.ite {c : Prop} [Decidable c] {p q : Parser α} {Q : α → State → Prop}
    (hp : c → Runs text p s Q) (hq : ¬c → Runs text q s Q) :
    Runs text (if c then p else q) s Q := by
  split
  · rename_i hc
    exact hp hc
  · rename_i hc
    exact hq hc

/-- What is known of a run besides. -/
theorem Runs.and_meets {p : Parser α} {P Q : α → State → Prop} (h : Runs text p s Q)
    (hp : s.Sound text → Meets text p s P) : Runs text p s fun a s' => Q a s' ∧ P a s' :=
  fun hs a s' hrun => ⟨(h hs a s' hrun).1, (h hs a s' hrun).2, (hp hs).ok hrun⟩

/-- Changing what is remembered for later keeps a state sound. -/
theorem State.Sound.remember {t : State} (hl : t.lexer = s.lexer) (hc : t.consumed = s.consumed)
    (ht : t.taken = s.taken) (hf : t.suspension = s.suspension) (hs : s.Sound text) :
    t.Sound text :=
  ⟨by rw [State.place, hl, hc, ht]; exact hs.place,
    fun fault h => hs.isSyntactic fault (hf ▸ h)⟩

/-- What ends as one condition says ends as a weaker one says. -/
theorem Gives.imp {p : Parser α} {P Q : α → State → Prop} (h : Gives text p s P)
    (hpq : ∀ a s', P a s' → Q a s') : Gives text p s Q :=
  Runs.imp h fun a s' hp => ⟨hp.1, hpq a s' hp.2⟩

/-- Two steps one after the other, with what is not forgotten on the way. -/
theorem Gives.bind {p : Parser α} {f : α → Parser β} {P : α → State → Prop}
    {Q : β → State → Prop} (h : Gives text p s P)
    (hf : ∀ a s₁, Later s s₁ → P a s₁ → Gives text (f a) s₁ Q) : Gives text (p >>= f) s Q :=
  Runs.bind h fun a s₁ hP => Runs.imp (hf a s₁ hP.1 hP.2) fun _ _ hQ => ⟨hP.1.trans hQ.1, hQ.2⟩

/-- A parser whose result does not matter. -/
theorem Gives.skip {p : Parser α} {f : α → Parser β} {P : α → State → Prop}
    {Q : β → State → Prop} (h : Gives text p s P)
    (hf : ∀ a s₁, Later s s₁ → Gives text (f a) s₁ Q) : Gives text (p >>= f) s Q :=
  .bind h fun a s₁ hl _ => hf a s₁ hl

/-- A step that only gives a result. -/
theorem Gives.pure {a : α} {Q : α → State → Prop} (h : Q a s) : Gives text (Pure.pure a) s Q :=
  Runs.pure ⟨.refl s, h⟩

/-- A step that only looks at the state. -/
theorem Gives.read {p : Parser α} {f : α → Parser β} {Q : β → State → Prop} {a : α}
    (hp : p s = .ok (a, s)) (h : Gives text (f a) s Q) : Gives text (p >>= f) s Q :=
  Runs.read hp h

/-- A step whose outcome is known, and that does not touch the defaults. -/
theorem Gives.step {p : Parser α} {f : α → Parser β} {Q : β → State → Prop} {a : α}
    (hp : p s = .ok (a, s₁)) (hs : s.Sound text → s₁.Sound text) (hl : Later s s₁)
    (h : Gives text (f a) s₁ Q) : Gives text (p >>= f) s Q :=
  Runs.step hp hs (Runs.imp h fun _ _ hQ => ⟨hl.trans hQ.1, hQ.2⟩)

/-- A check that leaves the state as it is. -/
theorem Gives.of_meets {p : Parser α} {P : α → Prop}
    (h : s.Sound text → Meets text p s fun a s' => s' = s ∧ P a) :
    Gives text p s fun a _ => P a := by
  intro hs a s' hp
  obtain ⟨rfl, hP⟩ := (h hs).ok hp
  exact ⟨hs, id, hP⟩

/-- A check of which nothing is kept. -/
theorem Gives.of_check {p : Parser α} (h : s.Sound text → Meets text p s fun _ s' => s' = s) :
    Gives text p s fun _ _ => True :=
  .of_meets fun hs => (h hs).imp fun _ _ h => ⟨h, trivial⟩

/-- A step that ends parsing. -/
theorem Gives.error {p : Parser α} {Q : α → State → Prop} {e : Abort} (h : p s = .error e) :
    Gives text p s Q := Runs.error h

/-- A choice between two steps. -/
theorem Gives.ite {c : Prop} [Decidable c] {p q : Parser α} {Q : α → State → Prop}
    (hp : c → Gives text p s Q) (hq : ¬c → Gives text q s Q) :
    Gives text (if c then p else q) s Q := Runs.ite hp hq

/-- What ends parsing gives anything. -/
theorem fail_gives {place : Nat} {problem : Problem} {Q : α → State → Prop} :
    Gives text (fail place problem) s Q := .error rfl

/-- What ends parsing at the next token gives anything. -/
theorem failHere_gives {problem : Problem} {Q : α → State → Prop} :
    Gives text (failHere problem) s Q := .read rfl fail_gives

/-- A token that is not expected ends parsing. -/
theorem unexpected_gives {Q : α → State → Prop} : Gives text unexpected s Q := by
  refine .read rfl ?_
  split
  · exact failHere_gives
  · exact .error rfl

/-- A token that is not expected ends parsing, whatever is asked of the end. -/
theorem unexpected_runs {Q : α → State → Prop} : Runs text unexpected s Q :=
  Runs.imp unexpected_gives fun _ _ h => h.2

/-- What comes behind an early end does not matter. -/
theorem Gives.cut {p : Parser α} {f : α → Parser β} {Q : β → State → Prop}
    (h : Gives text p s fun _ _ => False) : Gives text (p >>= f) s Q :=
  .bind h fun _ _ _ hf => hf.elim

/-- A condition that ends parsing. -/
theorem Gives.refuse {c : Prop} [Decidable c] {p : Parser Unit} {f : Unit → Parser β}
    {Q : β → State → Prop} (hp : Gives text p s fun _ _ => False)
    (hf : ¬c → Gives text (f ()) s Q) : Gives text (if c then p >>= f else f ()) s Q :=
  .ite (fun _ => .cut hp) hf

/-- A condition without which parsing ends. -/
theorem Gives.require {c : Prop} [Decidable c] {p : Parser Unit} {f : Unit → Parser β}
    {Q : β → State → Prop} (hp : Gives text p s fun _ _ => False)
    (hf : c → Gives text (f ()) s Q) : Gives text (if c then f () else p >>= f) s Q :=
  .ite hf fun _ => .cut hp

/-- A token that is passed over is in the text. -/
theorem advance_gives : Gives text advance s fun _ _ => True := by
  intro hs _ s' hrun
  cases hrun
  exact ⟨⟨hs.place.take, hs.isSyntactic⟩, id, trivial⟩

/-- A token that is taken is in the text. -/
theorem take_gives : Gives text take s fun _ _ => True :=
  .read rfl (.skip advance_gives fun _ _ _ => .pure trivial)

/-- A token as something, whatever it is. -/
theorem takeAs_gives {make : Token → α} :
    Gives text (take >>= fun t => Pure.pure (make t)) s fun _ _ => True :=
  .skip take_gives fun _ _ _ => .pure trivial

/-- A token that is taken or left is in the text. -/
theorem eat_gives {k : TokenKind} : Gives text (eat k) s fun _ _ => True :=
  .read rfl (.ite (fun _ => .skip advance_gives fun _ _ _ => .pure trivial) fun _ => .pure trivial)

/-- A token that is taken if it has a given kind. -/
theorem Gives.eat {k : TokenKind} {f : Bool → Parser β} {Q : β → State → Prop}
    (ht : ∀ s₁, Later s s₁ → Gives text (f true) s₁ Q) (hf : Gives text (f false) s Q) :
    Gives text (Parser.eat k >>= f) s Q := by
  refine .bind (P := fun b s' => b = true ∨ b = false ∧ s' = s) (.read rfl (.ite (fun _ => ?_)
    fun _ => .pure (Or.inr ⟨rfl, rfl⟩))) ?_
  · exact .skip advance_gives fun _ _ _ => .pure (Or.inl rfl)
  · rintro b s₁ hl (rfl | ⟨rfl, rfl⟩)
    · exact ht s₁ hl
    · exact hf

/-- A token that must have a given kind has it. -/
theorem expect_gives {k : TokenKind} :
    Gives text (expect k) s fun _ _ => s.lexer.token.kind = k := by
  refine .bind (P := fun b _ => b = true → s.lexer.token.kind = k) (.read rfl ?_)
    fun b s₁ _ h => .ite (fun hb => .pure (h hb)) fun _ => unexpected_gives
  exact .ite (fun hk => .skip advance_gives fun _ _ _ => .pure fun _ => eq_of_beq hk)
    fun _ => .pure fun h => absurd h Bool.false_ne_true

/-- A semicolon that is implied is noted. -/
theorem noteImplied_gives : Gives text noteImplied s fun _ _ => True := by
  intro hs _ s' hrun
  cases hrun
  exact ⟨⟨hs.place, hs.isSyntactic⟩, id, trivial⟩

/-- A semicolon is there or implied. -/
theorem semicolon_gives : Gives text semicolon s fun _ _ => True :=
  .eat (fun _ _ => .pure trivial)
    (.read rfl (.ite (fun _ => noteImplied_gives) fun _ => unexpected_gives))

/-- A semicolon is there or not. -/
theorem optionalSemicolon_gives : Gives text optionalSemicolon s fun _ _ => True :=
  .eat (fun _ _ => .pure trivial) noteImplied_gives

/-- What is made of an expression, or the fault that it has. -/
theorem orFail_gives {r : Except Fault α} {P : α → Prop} (h : Cover.Gets r P) :
    Gives text (orFail r) s fun a s' => P a ∧ s' = s := by
  cases r with
  | ok a => exact .pure ⟨h a rfl, rfl⟩
  | error fault => exact fail_gives

/-- A name is checked. -/
theorem checkName_gives (ctx : Context) (k : TokenKind) (place : Nat) :
    Gives text (checkName ctx k place) s fun _ _ => True :=
  .of_check (checkName_meets ctx k place)

/-- A name has no scope yet. -/
theorem takeIdentifier_gives : Gives text takeIdentifier s fun id _ => id.scope = 0 := by
  intro hs id s' hrun
  cases hrun
  exact ⟨⟨hs.place.take, hs.isSyntactic⟩, fun h => h, rfl⟩

/-- A name that is checked has no scope yet. -/
theorem identifier_gives (ctx : Context) :
    Gives text (identifier ctx) s fun id _ => id.scope = 0 := by
  refine .read rfl (.refuse failHere_gives fun _ => .require unexpected_gives fun _ => ?_)
  exact .skip (checkName_gives ctx _ _) fun _ _ _ => takeIdentifier_gives

/-- A loop whose rounds keep an invariant. -/
theorem iterate_runs {σ : Type} {step : σ → Parser (Round σ β)} {I : σ → State → Prop}
    {Q : β → State → Prop} (hstep : ∀ a s, I a s → Runs text (step a) s (AfterRound I Q))
    {a : σ} (h : I a s) : Runs text (iterate step a) s Q := by
  induction hn : s.remaining using Nat.strongRecOn generalizing a s with
  | _ n ih =>
    intro hs b s' hrun
    rw [iterate] at hrun
    cases hout : step a s with
    | error e =>
      rw [hout] at hrun
      cases hrun
    | ok out =>
      obtain ⟨round, s₁⟩ := out
      obtain ⟨hs₁, hq⟩ := hstep a s h hs _ _ hout
      rw [hout] at hrun
      cases round with
      | done b' =>
        cases hrun
        exact ⟨hs₁, hq⟩
      | next a' =>
        simp only at hrun
        split at hrun
        · rename_i hlt
          exact ih _ (hn ▸ hlt) hq rfl hs₁ b s' hrun
        · exact (unexpected_runs (Q := fun _ _ => False) hs₁ b s' hrun).2.elim

/-- A loop through recursion. -/
theorem recursive_runs {ι : Type} {body : (ι → Parser α) → ι → Parser α}
    {Q : ι → State → α → State → Prop}
    (hbody : ∀ again : ι → Parser α, (∀ i s, Runs text (again i) s (Q i s)) →
      ∀ i s, Runs text (body again i) s (Q i s)) (i : ι) :
    Runs text (recursive body i) s (Q i s) := by
  induction hn : s.remaining using Nat.strongRecOn generalizing i s with
  | _ n ih =>
    rw [Runs, recursive]
    refine hbody _ (fun i' s' => ?_) i s
    by_cases hlt : s'.remaining < s.remaining
    · have h := ih _ (hn ▸ hlt) (s := s') i' rfl
      rw [Runs, if_pos hlt]
      exact h
    · have h : Runs text unexpected s' (Q i' s') := unexpected_runs
      rw [Runs, if_neg hlt]
      exact h

/-- A loop whose rounds keep an invariant forgets no default. -/
theorem iterate_gives {σ : Type} {step : σ → Parser (Round σ β)} {I : σ → State → Prop}
    {Q : β → State → Prop} (hstep : ∀ a s, I a s → Gives text (step a) s (AfterRound I Q))
    {a : σ} (h : I a s) : Gives text (iterate step a) s Q := by
  refine iterate_runs (I := fun a s₁ => Later s s₁ ∧ I a s₁) ?_ ⟨.refl s, h⟩
  rintro a s₁ ⟨hl, hI⟩
  refine Runs.imp (hstep a s₁ hI) fun round s₂ hq => ?_
  cases round with
  | done b => exact ⟨hl.trans hq.1, hq.2⟩
  | next a' => exact ⟨hl.trans hq.1, hq.2⟩

/-- A loop through recursion forgets no default. -/
theorem recursive_gives {ι : Type} {body : (ι → Parser α) → ι → Parser α}
    {Q : ι → α → State → Prop}
    (hbody : ∀ again : ι → Parser α, (∀ i s, Gives text (again i) s (Q i)) →
      ∀ i s, Gives text (body again i) s (Q i)) (i : ι) : Gives text (recursive body i) s (Q i) :=
  recursive_runs (Q := fun i s a s' => Later s s' ∧ Q i a s') hbody i

/-- A list of items, if what holds of an item goes on to hold. -/
theorem many_gives {p : Parser (Option α)} {P : α → State → Prop}
    (hP : ∀ a s s', Later s s' → P a s → P a s')
    (hp : ∀ s, Gives text p s fun item s' => ∀ a, item = some a → P a s') :
    Gives text (many p) s fun as s' => ∀ a ∈ as, P a s' := by
  refine iterate_gives (I := fun found s => ∀ a ∈ found, P a s) (fun found s hfound => ?_) (by simp)
  refine .bind (hp s) fun item s₁ hl hitem => ?_
  cases item with
  | none => exact .pure fun a ha => hP a s s₁ hl (hfound a (List.mem_reverse.mp ha))
  | some a =>
    refine .pure fun a' ha' => ?_
    rcases List.mem_cons.mp ha' with rfl | ha'
    · exact hitem _ rfl
    · exact hP a' s s₁ hl (hfound a' ha')

/-- A list of items with commas, if what holds of an item goes on to hold. -/
theorem commaList_gives {close : TokenKind} {item : Parser α} {P : α → State → Prop}
    (hP : ∀ a s s', Later s s' → P a s → P a s') (hp : ∀ s, Gives text item s P) :
    Gives text (commaList close item) s fun as s' => ∀ a ∈ as, P a s' := by
  refine many_gives hP fun s => .read rfl (.ite (fun _ => .pure (by simp)) fun _ => ?_)
  refine .bind (hp s) fun a s₁ _ ha => .read rfl (.ite (fun _ => .pure ?_) fun _ => ?_)
  · rintro _ ⟨⟩
    exact ha
  · refine .skip expect_gives fun _ s₂ hl => .pure ?_
    rintro _ ⟨⟩
    exact hP a s₁ s₂ hl ha

/-- A default that is unclaimed is refused. -/
theorem checkCoverInit_gives :
    Gives text checkCoverInit s fun _ s' => s' = s ∧ s.coverInit = none := by
  refine .read (a := s) rfl ?_
  cases hc : s.coverInit with
  | some place => exact fail_gives
  | none => exact .pure ⟨rfl, rfl⟩

/-- Behind an expression that no pattern can claim, no default is left. -/
theorem closed_gives {p : Parser α} {P : α → Bool → Prop}
    (hp : ∀ s, Gives text p s fun a s' => P a s'.coverInit.isNone) :
    Gives text (closed p) s fun a _ => P a true := by
  refine Runs.step rfl (State.Sound.remember rfl rfl rfl rfl) ?_
  refine Runs.bind (hp _) fun a s₁ h₁ => Runs.bind checkCoverInit_gives fun _ s₂ h₂ => ?_
  obtain ⟨-, rfl, hnone⟩ := h₂
  refine Runs.step rfl (State.Sound.remember rfl rfl rfl rfl) (Runs.pure ⟨id, ?_⟩)
  simpa [hnone] using h₁.2

/-- Suspensions of a function of its own do not matter. -/
theorem ownSuspensions_gives {p : Parser α} {P : α → Prop}
    (hp : ∀ s, Gives text p s fun a _ => P a) :
    Gives text (ownSuspensions p) s fun a _ => P a := by
  refine Runs.of_sound fun hs => Runs.read (a := s) rfl (Runs.step rfl ?_ ?_)
  · exact fun hs => ⟨hs.place, fun _ hf => nomatch hf⟩
  · refine Runs.bind (hp _) fun a s₁ h₁ => Runs.step rfl ?_ (Runs.pure ⟨h₁.1, h₁.2⟩)
    exact fun hs₁ => ⟨hs₁.place, hs.isSyntactic⟩

end

end EcmaScript.Parser
