import EcmaScript.Proofs.Parser.Place

/-!
# What parsers meet

A parser meets a condition at a state when it ends with a result and a state that satisfy
it, or ends early in an honest way: with the faults of all tokens read so far and at most
one problem of syntax behind them, which is missing only where an illegal token has told
what is wrong already.

A parser makes nodes when it takes tokens and the sketch of its result lies between the
start of the first of these tokens and the end of the last.
-/

namespace EcmaScript.Parser

open Outline

/-- An early end that tells the faults of all tokens read so far and then at most one problem
of syntax; that one may be missing only at an illegal token. -/
def Abort.Honest (text : String) (e : Abort) : Prop :=
  ∃ readings r lexer, Lexer.Trace text (readings ++ [r]) lexer ∧
    ((lexer.token.kind = .illegal ∧ e.faults = lexer.faults) ∨
      ∃ fault : Fault, fault.IsSyntactic ∧ e.faults = lexer.faults.push fault)

/-- The parser ends as the condition says, or early in an honest way. -/
def Meets (text : String) {α : Type} (p : Parser α) (s : State) (Q : α → State → Prop) : Prop :=
  match p s with
  | .ok (a, s') => Q a s'
  | .error e => e.Honest text

section

variable {text : String} {α β : Type} {s s' : State}

/-- A run whose end is known. -/
theorem Meets.of_ok {p : Parser α} {Q : α → State → Prop} {a : α} (h : p s = .ok (a, s'))
    (hq : Q a s') : Meets text p s Q := by
  unfold Meets
  rw [h]
  exact hq

/-- A run that does not end early ends as the condition says. -/
theorem Meets.ok {p : Parser α} {Q : α → State → Prop} {a : α} (h : Meets text p s Q)
    (hp : p s = .ok (a, s')) : Q a s' := by
  unfold Meets at h
  rw [hp] at h
  exact h

/-- A run that ends early is honest about it. -/
theorem Meets.error {p : Parser α} {Q : α → State → Prop} {e : Abort} (h : Meets text p s Q)
    (hp : p s = .error e) : e.Honest text := by
  unfold Meets at h
  rw [hp] at h
  exact h

/-- What is met is met by less as well. -/
theorem Meets.imp {p : Parser α} {P Q : α → State → Prop} (h : Meets text p s P)
    (hpq : ∀ a s', P a s' → Q a s') : Meets text p s Q := by
  unfold Meets at h ⊢
  cases hp : p s with
  | error e =>
    rw [hp] at h
    exact h
  | ok r =>
    rw [hp] at h
    exact hpq _ _ h

/-- Only the run at the state matters. -/
theorem Meets.congr {p q : Parser α} {Q : α → State → Prop} (h : p s = q s)
    (hq : Meets text q s Q) : Meets text p s Q := by
  unfold Meets at hq ⊢
  rw [h]
  exact hq

/-- A parser followed by another. -/
theorem Meets.bind {p : Parser α} {f : α → Parser β} {P : α → State → Prop}
    {Q : β → State → Prop} (h : Meets text p s P)
    (hf : ∀ a s', P a s' → Meets text (f a) s' Q) : Meets text (p >>= f) s Q := by
  cases hp : p s with
  | error e =>
    have he := h.error hp
    unfold Meets
    simp only [Bind.bind, StateT.bind, hp, Except.bind]
    exact he
  | ok r =>
    have hr := hf _ _ (h.ok hp)
    unfold Meets at hr ⊢
    simp only [Bind.bind, StateT.bind, hp, Except.bind]
    exact hr

/-- A result that is given meets what holds of it. -/
theorem Meets.pure {a : α} {Q : α → State → Prop} (h : Q a s) : Meets text (Pure.pure a) s Q := h

/-- A step whose result is known. -/
theorem Meets.step {p : Parser α} {f : α → Parser β} {Q : β → State → Prop} {a : α}
    (hp : p s = .ok (a, s')) (h : Meets text (f a) s' Q) : Meets text (p >>= f) s Q :=
  .bind (.of_ok hp (And.intro rfl rfl)) fun b t hb => by
    obtain ⟨rfl, rfl⟩ : b = a ∧ t = s' := hb
    exact h

end

section

variable {text : String} {α β : Type} {s : State}

/-- An ordinary token is taken, and the parser stands behind it. -/
theorem advance_meets (hs : s.Sound text) (hk : isOrdinary s.lexer.token.kind = true) :
    Meets text advance s fun _ s' => Took text s s' ∧
      s'.consumed = s.lexer.token.stop.offset ∧ s.lexer.token ∈ s'.taken := by
  have hne := ne_endOfFile_of_isOrdinary hk
  have hstep := Place.Step.take (p := s.place) hne
  refine .of_ok rfl ⟨⟨⟨⟨hs, ⟨hstep.sound hs.place, hs.isSyntactic⟩, .single hstep⟩,
    List.suffix_rfl⟩, ?_, ?_⟩, rfl, List.mem_cons_self⟩
  · exact ⟨s.lexer, hk, rfl⟩
  · exact hs.place.offset_lt_stop hne

/-- Taking a dot. -/
theorem advance_onto (hs : s.Sound text) (hk : s.lexer.token.kind ≠ .endOfFile) :
    Meets text advance s fun _ s' => Onto text s s' ∧ s.offset < s'.consumed := by
  have hstep := Place.Step.take (p := s.place) hk
  exact .of_ok rfl ⟨⟨⟨hs, ⟨hstep.sound hs.place, hs.isSyntactic⟩, .single hstep⟩,
    List.suffix_rfl⟩, hs.place.offset_lt_stop hk⟩

/-- The token that is taken is the current one. -/
theorem take_meets (hs : s.Sound text) (hk : isOrdinary s.lexer.token.kind = true) :
    Meets text take s fun t s' =>
      t = s.lexer.token ∧ Took text s s' ∧ s'.consumed = s.lexer.token.stop.offset ∧
        s.lexer.token ∈ s'.taken :=
  .step rfl (.bind (advance_meets hs hk) fun _ _ h => .pure ⟨rfl, h⟩)

/-- Parsing may end with a problem of syntax. -/
theorem fail_meets (hs : s.Sound text) (place : Nat) {problem : Problem} {Q : α → State → Prop}
    (hp : problem.category = .syntactic) : Meets text (fail place problem) s Q := by
  obtain ⟨readings, r, ht⟩ := hs.trace
  exact ⟨readings, r, s.lexer, ht, Or.inr ⟨⟨problem, place⟩, hp, rfl⟩⟩

/-- Parsing may end with a problem at the current token. -/
theorem failHere_meets (hs : s.Sound text) {problem : Problem} {Q : α → State → Prop}
    (hp : problem.category = .syntactic) : Meets text (failHere problem) s Q :=
  .step rfl (fail_meets hs _ hp)

/-- An unexpected token is a problem of syntax. -/
theorem category_unexpectedProblem {t : Token} {problem : Problem}
    (h : unexpectedProblem? t = some problem) : problem.category = .syntactic := by
  unfold unexpectedProblem? at h
  split at h <;> try (cases h; rfl)
  · cases h
  · cases h
    split
    · rfl
    · rfl

/-- Parsing may end at a token that cannot stand where it stands. -/
theorem unexpected_meets (hs : s.Sound text) {Q : α → State → Prop} :
    Meets text unexpected s Q := by
  refine .step rfl ?_
  split
  · rename_i problem hp
    exact failHere_meets hs (category_unexpectedProblem hp)
  · rename_i hp
    obtain ⟨readings, r, ht⟩ := hs.trace
    refine ⟨readings, r, s.lexer, ht, Or.inl ⟨?_, rfl⟩⟩
    unfold unexpectedProblem? at hp
    split at hp <;> first | assumption | exact absurd hp (by simp)

/-- What comes behind an early end does not matter. -/
theorem Meets.cut {p : Parser α} {f : α → Parser β} {Q : β → State → Prop}
    (h : Meets text p s fun _ _ => False) : Meets text (p >>= f) s Q :=
  .bind h fun _ _ hf => hf.elim

/-- What follows a choice follows both of its branches. -/
theorem ite_bind {c : Prop} [Decidable c] {p q : Parser α} {f : α → Parser β} :
    ((if c then p else q) >>= f) = if c then p >>= f else q >>= f := by
  split <;> rfl

/-- Either way of a choice meets the condition. -/
theorem Meets.ite {c : Prop} [Decidable c] {p q : Parser α} {Q : α → State → Prop}
    (hp : c → Meets text p s Q) (hq : ¬c → Meets text q s Q) :
    Meets text (if c then p else q) s Q := by
  split
  · rename_i hc
    exact hp hc
  · rename_i hc
    exact hq hc

/-- A condition that ends parsing. -/
theorem Meets.refuse {c : Prop} [Decidable c] {p : Parser Unit} {f : Unit → Parser β}
    {Q : β → State → Prop} (hp : Meets text p s fun _ _ => False)
    (hf : ¬c → Meets text (f ()) s Q) : Meets text (if c then p >>= f else f ()) s Q := by
  split
  · exact .cut hp
  · rename_i hc
    exact hf hc

/-- A condition without which parsing ends. -/
theorem Meets.require {c : Prop} [Decidable c] {p : Parser Unit} {f : Unit → Parser β}
    {Q : β → State → Prop} (hp : Meets text p s fun _ _ => False)
    (hf : c → Meets text (f ()) s Q) : Meets text (if c then f () else p >>= f) s Q := by
  split
  · rename_i hc
    exact hf hc
  · exact .cut hp

/-- A token that is taken if it has a given kind, and is then the last one taken. -/
theorem Meets.eatLast {k : TokenKind} {f : Bool → Parser β} {Q : β → State → Prop}
    (hs : s.Sound text) (hk : isOrdinary k = true)
    (ht : ∀ s', Took text s s' → (∃ t ∈ s'.taken, t.kind = k ∧ t.stop.offset = s'.consumed) →
      s.lexer.token.kind = k → Meets text (f true) s' Q)
    (hf : Meets text (f false) s Q) : Meets text (Parser.eat k >>= f) s Q := by
  refine .bind (P := fun b s' => (Took text s s' ∧
    (∃ t ∈ s'.taken, t.kind = k ∧ t.stop.offset = s'.consumed) ∧ s.lexer.token.kind = k) ∧
      b = true ∨ s' = s ∧ b = false) (.step rfl ?_) ?_
  · split
    · rename_i hb
      have hkind := eq_of_beq hb
      rw [← hkind] at hk
      exact .bind (advance_meets hs hk) fun _ _ h =>
        .pure (Or.inl ⟨⟨h.1, ⟨_, h.2.2, hkind, h.2.1.symm⟩, hkind⟩, rfl⟩)
    · exact .pure (Or.inr ⟨rfl, rfl⟩)
  · rintro b s' (⟨h, rfl⟩ | ⟨rfl, rfl⟩)
    · exact ht s' h.1 h.2.1 h.2.2
    · exact hf

/-- A token that is taken if it has a given kind. -/
theorem Meets.eat {k : TokenKind} {f : Bool → Parser β} {Q : β → State → Prop}
    (hs : s.Sound text) (hk : isOrdinary k = true)
    (ht : ∀ s', Took text s s' → s.lexer.token.kind = k → Meets text (f true) s' Q)
    (hf : Meets text (f false) s Q) : Meets text (Parser.eat k >>= f) s Q :=
  .eatLast hs hk (fun s' h _ => ht s' h) hf

/-- An ordinary token may be taken if it is there. -/
theorem eat_meets {k : TokenKind} (hs : s.Sound text) (hk : isOrdinary k = true) :
    Meets text (Parser.eat k) s fun _ s' => Kept text s s' := by
  have h : Meets text (Parser.eat k >>= Pure.pure) s fun _ s' => Kept text s s' :=
    .eat hs hk (fun _ ht _ => .pure ht.kept) (.pure (.refl hs))
  rwa [bind_pure] at h

/-- A token that must have a given kind. -/
theorem Meets.expect {k : TokenKind} {f : Unit → Parser β} {Q : β → State → Prop}
    (hs : s.Sound text) (hk : isOrdinary k = true)
    (h : ∀ s', Took text s s' → Meets text (f ()) s' Q) :
    Meets text (Parser.expect k >>= f) s Q :=
  .bind (P := fun _ s' => Took text s s')
    (.eat hs hk (fun _ ht _ => .pure ht) (unexpected_meets hs)) fun _ s' ht => h s' ht

/-- A result that may be a fault. -/
theorem orFail_meets {r : Except Fault α} {P : α → Prop} (hs : s.Sound text)
    (h : Cover.Yields r P) : Meets text (orFail r) s fun a s' => P a ∧ s' = s := by
  cases r with
  | ok a => exact .pure ⟨h, rfl⟩
  | error fault => exact fail_meets hs _ h

/-- A statement ends where the parser stands. -/
def Ended (text : String) (s s' : State) : Prop := Kept text s s' ∧ s'.front.Ends s'.consumed

/-- An implied semicolon ends a statement. -/
theorem noteImplied_meets (hs : s.Sound text) :
    Meets text noteImplied s fun _ s' => Ended text s s' := by
  refine .of_ok rfl ⟨Same.kept ?_, Or.inr List.mem_cons_self⟩
  exact hs.same rfl rfl rfl (List.suffix_cons _ _) hs.isSyntactic

/-- The end of a statement. -/
theorem semicolon_meets (hs : s.Sound text) :
    Meets text semicolon s fun _ s' => Ended text s s' := by
  refine .eatLast hs rfl (fun _ ht hl _ => .pure ⟨ht.kept, Or.inl hl⟩) (.step rfl ?_)
  split
  · exact noteImplied_meets hs
  · exact unexpected_meets hs

/-- A statement that may end with a semicolon is ended. -/
theorem optionalSemicolon_meets (hs : s.Sound text) :
    Meets text optionalSemicolon s fun _ s' => Ended text s s' :=
  .eatLast hs rfl (fun _ ht hl _ => .pure ⟨ht.kept, Or.inl hl⟩) (noteImplied_meets hs)

/-- Putting the unclaimed default aside takes no token. -/
theorem takeCoverInit_meets (hs : s.Sound text) :
    Meets text takeCoverInit s fun _ s' => Same text s s' :=
  .of_ok rfl (hs.same rfl rfl rfl List.suffix_rfl hs.isSyntactic)

/-- Putting an unclaimed default back takes no token. -/
theorem setCoverInit_meets (outer : Option Nat) (hs : s.Sound text) :
    Meets text (setCoverInit outer) s fun _ s' => Same text s s' :=
  .of_ok rfl (hs.same rfl rfl rfl List.suffix_rfl hs.isSyntactic)

/-- Remembering the outer of two defaults takes no token. -/
theorem mergeCoverInit_meets (outer : Option Nat) (hs : s.Sound text) :
    Meets text (mergeCoverInit outer) s fun _ s' => Same text s s' :=
  .of_ok rfl (hs.same rfl rfl rfl List.suffix_rfl hs.isSyntactic)

/-- Looking for an unclaimed default takes no token. -/
theorem checkCoverInit_meets (hs : s.Sound text) :
    Meets text checkCoverInit s fun _ s' => Same text s s' := by
  refine .step rfl ?_
  split
  · exact fail_meets hs _ rfl
  · exact .pure (.refl hs)

/-- Remembering a suspension takes no token. -/
theorem noteSuspension_meets {problem : Problem} (hp : problem.category = .syntactic)
    (hs : s.Sound text) : Meets text (noteSuspension problem) s fun _ s' => Same text s s' := by
  refine .of_ok rfl (hs.same rfl rfl rfl List.suffix_rfl fun fault hf => ?_)
  change s.suspension.or (some ⟨problem, _⟩) = some fault at hf
  cases hsus : s.suspension with
  | none =>
    rw [hsus] at hf
    cases hf
    exact hp
  | some inner =>
    rw [hsus] at hf
    exact hs.isSyntactic fault (hsus.trans hf)

end

end EcmaScript.Parser
