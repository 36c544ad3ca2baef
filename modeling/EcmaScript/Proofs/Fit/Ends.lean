import EcmaScript.Proofs.Build.Gives
import EcmaScript.Proofs.Build.Cover
import EcmaScript.Proofs.Parser.Grammar

/-!
# How calm runs end

An operator that suspends the function around is noted by the parser, so that it can be refused
when the parentheses around it become parameters. A run that ends with no such operator noted is
calm. A parser may be asked for calm runs only: then its runs end as a condition says if they do
not end early and are calm.

Whether a run is calm is known when it is over. Since no noted operator is forgotten, a calm run
has been calm all along; so what the parts of a construct satisfy if they are read calmly is all
there when the construct is made, as a premise of what is to be shown of it.
-/

namespace EcmaScript.Parser

/-- Nothing goes back: the next token is no earlier one, and no operator that suspends the
function is forgotten. -/
structure Onward (s s' : State) : Prop where
  offset_le : s.offset ≤ s'.offset
  calm : s'.suspension = none → s.suspension = none

/-- No token has been taken yet. -/
theorem Onward.refl (s : State) : Onward s s := ⟨Nat.le_refl _, id⟩

/-- Ways one behind the other are one way. -/
theorem Onward.trans {s s₁ s₂ : State} (h : Onward s s₁) (k : Onward s₁ s₂) : Onward s s₂ :=
  ⟨Nat.le_trans h.offset_le k.offset_le, fun hn => h.calm (k.calm hn)⟩

/-- The lexer stays as it is. -/
theorem Onward.remember {s s' : State} (hl : s'.lexer = s.lexer)
    (hf : s'.suspension = none → s.suspension = none) : Onward s s' :=
  ⟨by rw [State.offset, State.offset, hl], hf⟩

/-- The state is calm if it is asked to be. -/
def State.Calm (calm : Bool) (s : State) : Prop := calm = true → s.suspension = none

/-- If nothing suspends in the end, nothing did before. -/
theorem Onward.isCalm {calm : Bool} {s s' : State} (h : Onward s s') (hc : s'.Calm calm) :
    s.Calm calm := fun hcalm => h.calm (hc hcalm)

/-- A run that does not end early ends as the condition says, if it is as calm as it is asked to
be. -/
def Ends (text : String) (calm : Bool) {α : Type} (p : Parser α) (s : State)
    (Q : α → State → Prop) : Prop :=
  Runs text p s fun a s' => Onward s s' ∧ (s'.Calm calm → Q a s')

/-- Such a run has a result as the condition says. -/
abbrev Leaves (text : String) (calm : Bool) {α : Type} (p : Parser α) (s : State)
    (Q : α → Prop) : Prop := Ends text calm p s fun a _ => Q a

section

variable {text : String} {calm : Bool} {α β : Type} {s s₁ : State} {P : α → State → Prop}
  {Q : β → State → Prop}

/-- What is left can be said with less. -/
theorem Ends.imp {P' : α → State → Prop} {p : Parser α} (h : Ends text calm p s P)
    (hp : ∀ a s', P a s' → P' a s') : Ends text calm p s P' :=
  Runs.imp h fun a s' h => ⟨h.1, fun hc => hp a s' (h.2 hc)⟩

/-- That the state is sound may be used. -/
theorem Ends.of_sound {p : Parser α} (h : s.Sound text → Ends text calm p s P) :
    Ends text calm p s P := Runs.of_sound h

/-- What a run satisfies if it is calm, and what it satisfies if it need not be. -/
theorem Ends.runs {P : Bool → α → State → Prop} {p : Parser α}
    (h : ∀ calm, Ends text calm p s (P calm)) :
    Runs text p s fun a s' => Onward s s' ∧ ∀ calm, s'.Calm calm → P calm a s' := by
  intro hs a s' hrun
  obtain ⟨hs', hl, -⟩ := h false hs a s' hrun
  exact ⟨hs', hl, fun calm => (h calm hs a s' hrun).2.2⟩

/-- What is known of a run besides. -/
theorem Ends.and_meets {P' : α → State → Prop} {p : Parser α} (h : Ends text calm p s P)
    (hp : s.Sound text → Meets text p s P') :
    Ends text calm p s fun a s' => P a s' ∧ P' a s' :=
  Runs.imp (Runs.and_meets h hp) fun _ _ h => ⟨h.1.1, fun hc => ⟨h.1.2 hc, h.2⟩⟩

/-- A parser followed by another. What the first one satisfies in a calm run is a premise of
what the second one has to satisfy. -/
theorem Ends.bind {p : Parser α} {f : α → Parser β} (h : Ends text calm p s P)
    (hf : ∀ a s₁, Onward s s₁ → Ends text calm (f a) s₁ fun b s' => P a s₁ → Q b s') :
    Ends text calm (p >>= f) s Q :=
  Runs.bind h fun a s₁ h₁ => Runs.imp (hf a s₁ h₁.1) fun _ _ h₂ =>
    ⟨h₁.1.trans h₂.1, fun hc => h₂.2 hc (h₁.2 (h₂.1.isCalm hc))⟩

/-- A run that need not be calm satisfies the condition at once. -/
theorem Ends.firm {p : Parser α} {f : α → Parser β} (h : Ends text false p s P)
    (hf : ∀ a s₁, Onward s s₁ → P a s₁ → Ends text calm (f a) s₁ Q) :
    Ends text calm (p >>= f) s Q :=
  Runs.bind h fun a s₁ h₁ =>
    have hresult : P a s₁ := h₁.2 fun hcalm => absurd hcalm Bool.false_ne_true
    Runs.imp (hf a s₁ h₁.1 hresult) fun _ _ h₂ => ⟨h₁.1.trans h₂.1, h₂.2⟩

/-- A parser whose result does not matter. -/
theorem Ends.skip {p : Parser α} {f : α → Parser β} (h : Leaves text calm p s fun _ => True)
    (hf : ∀ a s₁, Onward s s₁ → Ends text calm (f a) s₁ Q) : Ends text calm (p >>= f) s Q :=
  .bind h fun a s₁ hl => (hf a s₁ hl).imp fun _ _ hq _ => hq

/-- A result that is given leaves the state. -/
theorem Ends.pure {a : α} (h : P a s) : Ends text calm (Pure.pure a) s P :=
  Runs.pure ⟨.refl s, fun _ => h⟩

/-- A step whose outcome is known. -/
theorem Ends.step {p : Parser α} {f : α → Parser β} {a : α} (hp : p s = .ok (a, s₁))
    (hs : s.Sound text → s₁.Sound text) (hl : Onward s s₁)
    (h : Ends text calm (f a) s₁ Q) : Ends text calm (p >>= f) s Q :=
  Runs.step hp hs (Runs.imp h fun _ _ h => ⟨hl.trans h.1, h.2⟩)

/-- A step that only looks at the state. -/
theorem Ends.read {p : Parser α} {f : α → Parser β} {a : α} (hp : p s = .ok (a, s))
    (h : Ends text calm (f a) s Q) : Ends text calm (p >>= f) s Q := Runs.read hp h

/-- A step that changes nothing but the defaults and the notes that are remembered. -/
theorem Ends.remember {p : Parser α} {f : α → Parser β} {a : α} (hp : p s = .ok (a, s₁))
    (hl : s₁.lexer = s.lexer) (hc : s₁.consumed = s.consumed) (ht : s₁.taken = s.taken)
    (hf : s₁.suspension = s.suspension) (h : Ends text calm (f a) s₁ Q) :
    Ends text calm (p >>= f) s Q :=
  .step hp (State.Sound.remember hl hc ht hf) (.remember hl fun hn => hf ▸ hn) h

/-- An early end leaves nothing. -/
theorem Ends.error {p : Parser α} {e : Abort} (h : p s = .error e) : Ends text calm p s P :=
  Runs.error h

/-- Either way of a choice. -/
theorem Ends.ite {c : Prop} [Decidable c] {p q : Parser α} (hp : c → Ends text calm p s P)
    (hq : ¬c → Ends text calm q s P) : Ends text calm (if c then p else q) s P :=
  Runs.ite hp hq

/-- A problem leaves nothing. -/
theorem fail_ends {place : Nat} {problem : Problem} : Ends text calm (fail place problem) s P :=
  .error rfl

/-- A problem at the current token leaves nothing. -/
theorem failHere_ends {problem : Problem} : Ends text calm (failHere problem) s P :=
  .read rfl fail_ends

/-- An unexpected token leaves nothing. -/
theorem unexpected_ends : Ends text calm unexpected s P := by
  refine .read rfl ?_
  split
  · exact failHere_ends
  · exact .error rfl

/-- What comes behind an early end does not matter. -/
theorem Ends.cut {p : Parser α} {f : α → Parser β} (h : Leaves text false p s fun _ => False) :
    Ends text calm (p >>= f) s Q := .firm h fun _ _ _ hf => hf.elim

/-- A condition that ends parsing. -/
theorem Ends.refuse {c : Prop} [Decidable c] {p : Parser Unit} {f : Unit → Parser β}
    (hp : Leaves text false p s fun _ => False) (hf : ¬c → Ends text calm (f ()) s Q) :
    Ends text calm (if c then p >>= f else f ()) s Q := .ite (fun _ => .cut hp) hf

/-- A condition without which parsing ends. -/
theorem Ends.require {c : Prop} [Decidable c] {p : Parser Unit} {f : Unit → Parser β}
    (hp : Leaves text false p s fun _ => False) (hf : c → Ends text calm (f ()) s Q) :
    Ends text calm (if c then f () else p >>= f) s Q := .ite hf fun _ => .cut hp

/-- A condition without which something is done on the way. -/
theorem Ends.unless {c : Prop} [Decidable c] {p : Parser Unit} {f : Unit → Parser β}
    (hp : Leaves text calm p s fun _ => True)
    (hf : ∀ u s₁, Onward s s₁ → Ends text calm (f u) s₁ Q) :
    Ends text calm (if c then f () else p >>= f) s Q :=
  .ite (fun _ => hf () s (.refl s)) fun _ => .skip hp hf

/-- A check that leaves the state as it is. -/
theorem Ends.of_meets {p : Parser α} {R : α → Prop}
    (h : s.Sound text → Meets text p s fun a s' => s' = s ∧ R a) : Leaves text calm p s R := by
  intro hs a s' hp
  obtain ⟨rfl, hR⟩ := (h hs).ok hp
  exact ⟨hs, .refl _, fun _ => hR⟩

/-- A check leaves the state as it is. -/
theorem Ends.of_check {p : Parser α} (h : s.Sound text → Meets text p s fun _ s' => s' = s) :
    Leaves text calm p s fun _ => True :=
  .of_meets fun hs => (h hs).imp fun _ _ h => ⟨h, trivial⟩

/-- A result in an option that is all there is. -/
theorem Ends.some {a : α} {R : α → Prop} (h : R a) :
    Leaves text calm (Pure.pure (Option.some a)) s fun item => ∀ x ∈ item, R x := by
  refine .pure ?_
  rintro _ ⟨⟩
  exact h

/-- Where nothing is read there is nothing that has to fit. -/
theorem Ends.none {R : α → Prop} :
    Leaves text calm (Pure.pure (Option.none (α := α))) s fun item => ∀ x ∈ item, R x :=
  .pure (by simp)

/-- Taking a token only moves on. -/
theorem advance_ends : Leaves text calm advance s fun _ => True := by
  intro hs _ s' hrun
  cases hrun
  refine ⟨(advance_gives hs () _ rfl).1, ⟨?_, id⟩, fun _ => trivial⟩
  exact Nat.le_trans hs.place.offset_le_stop (Place.stop_le_offset_scan s.lexer)

/-- A token is taken, so that the next one is a later one. -/
theorem advance_past (hk : s.lexer.token.kind ≠ .endOfFile) :
    Ends text calm advance s fun _ s' => s.offset < s'.offset := by
  intro hs _ s' hrun
  have hleaves : Leaves text calm advance s fun _ => True := advance_ends
  have h := hleaves hs () s' hrun
  refine ⟨h.1, h.2.1, fun _ => ?_⟩
  cases hrun
  exact Nat.lt_of_lt_of_le (hs.place.offset_lt_stop hk) (Place.stop_le_offset_scan s.lexer)

/-- The token that is taken need not fit anywhere. -/
theorem take_ends : Leaves text calm take s fun _ => True :=
  .read rfl (.skip advance_ends fun _ _ _ => .pure trivial)

/-- A token as something, whatever it is. -/
theorem takeAs_ends {make : Token → α} {R : α → Prop} (h : ∀ t, R (make t)) :
    Leaves text calm (take >>= fun t => Pure.pure (make t)) s R :=
  .skip take_ends fun t _ _ => .pure (h t)

/-- Taking a token if it is there only moves on. -/
theorem eat_ends {k : TokenKind} : Leaves text calm (eat k) s fun _ => True :=
  .read rfl (.ite (fun _ => .skip advance_ends fun _ _ _ => .pure trivial) fun _ => .pure trivial)

/-- A token that is taken if it has a given kind. -/
theorem Ends.eat {k : TokenKind} {f : Bool → Parser β}
    (ht : ∀ s₁, Onward s s₁ → Ends text calm (f true) s₁ Q)
    (hf : s.lexer.token.kind ≠ k → Ends text calm (f false) s Q) :
    Ends text calm (Parser.eat k >>= f) s Q := by
  refine .firm (P := fun b s' => b = true ∨ b = false ∧ s.lexer.token.kind ≠ k ∧ s' = s) ?_ ?_
  · refine .read rfl (.ite (fun _ => .skip advance_ends fun _ _ _ => ?_) fun hk => ?_)
    · exact .pure (Or.inl rfl)
    · exact .pure (Or.inr ⟨rfl, by simpa using hk, rfl⟩)
  · rintro b s₁ hl (rfl | ⟨rfl, hk, rfl⟩)
    · exact ht s₁ hl
    · exact hf hk

/-- Taking a token that must be there only moves on. -/
theorem expect_ends {k : TokenKind} : Leaves text calm (expect k) s fun _ => True :=
  .eat (fun _ _ => .pure trivial) fun _ => unexpected_ends

/-- A token that must have a given kind is taken, so that the next one is a later one. -/
theorem expect_past {k : TokenKind} (hk : k ≠ .endOfFile) :
    Ends text calm (expect k) s fun _ s' => s.offset < s'.offset := by
  refine .bind (P := fun b s' => b = true → s.offset < s'.offset) ?_ fun b s₁ _ => ?_
  · refine .read rfl (.ite (fun hb => ?_) fun _ => .pure (by simp))
    rw [← eq_of_beq hb] at hk
    exact .bind (advance_past hk) fun _ _ _ => .pure fun hlt _ => hlt
  · cases b with
    | true => exact .pure fun hlt => hlt rfl
    | false => exact unexpected_ends

/-- Noting an implied semicolon does not move. -/
theorem noteImplied_ends : Leaves text calm noteImplied s fun _ => True := by
  intro hs _ s' hrun
  cases hrun
  exact ⟨(noteImplied_gives hs () _ rfl).1, .remember rfl id, fun _ => trivial⟩

/-- The end of a statement only moves on. -/
theorem semicolon_ends : Leaves text calm semicolon s fun _ => True :=
  .eat (fun _ _ => .pure trivial) fun _ =>
    .read rfl (.ite (fun _ => noteImplied_ends) fun _ => unexpected_ends)

/-- The end of a statement that needs no semicolon only moves on. -/
theorem optionalSemicolon_ends : Leaves text calm optionalSemicolon s fun _ => True :=
  .eat (fun _ _ => .pure trivial) fun _ => noteImplied_ends

/-- A conversion that may be refused. -/
theorem orFail_ends {r : Except Fault α} {R : α → Prop} (h : Cover.Gets r R) :
    Leaves text calm (orFail r) s R := by
  cases r with
  | ok a => exact .pure (h a rfl)
  | error fault => exact fail_ends

/-- A name leaves nothing that has to fit. -/
theorem identifier_ends (ctx : Context) : Leaves text calm (identifier ctx) s fun _ => True := by
  refine .read rfl (.refuse failHere_ends fun _ => .require unexpected_ends fun _ => ?_)
  exact .skip (.of_check (checkName_meets ctx _ _)) fun _ _ _ => takeAs_ends fun _ => trivial

/-- A loop whose calm rounds keep an invariant. -/
theorem iterate_ends {σ : Type} {step : σ → Parser (Round σ β)} {I : σ → State → Prop}
    (hstep : ∀ a s₁, Onward s s₁ →
      Ends text calm (step a) s₁ fun r s' => I a s₁ → AfterRound I Q r s') (a : σ) :
    Ends text calm (iterate step a) s fun b s' => I a s → Q b s' := by
  suffices hall : ∀ a s₁, Onward s s₁ →
      Ends text calm (iterate step a) s₁ fun b s' => I a s₁ → Q b s' from hall a s (.refl s)
  intro a s₁
  induction hn : s₁.remaining using Nat.strongRecOn generalizing a s₁ with
  | _ n ih =>
    intro hl hs b s' hrun
    rw [iterate] at hrun
    cases hout : step a s₁ with
    | error e =>
      rw [hout] at hrun
      cases hrun
    | ok out =>
      obtain ⟨round, s₂⟩ := out
      obtain ⟨hs₂, hl₂, hi⟩ := hstep a s₁ hl hs _ _ hout
      rw [hout] at hrun
      cases round with
      | done b' =>
        cases hrun
        exact ⟨hs₂, hl₂, hi⟩
      | next a' =>
        simp only at hrun
        split at hrun
        · rename_i hlt
          obtain ⟨hs', hl', hq⟩ := ih _ (hn ▸ hlt) a' s₂ rfl (hl.trans hl₂) hs₂ b s' hrun
          exact ⟨hs', hl₂.trans hl', fun hc ha => hq hc (hi (hl'.isCalm hc) ha)⟩
        · have hnever : Leaves text false (unexpected : Parser β) s₂ fun _ => False :=
            unexpected_ends
          exact ((hnever hs₂ b s' hrun).2.2 fun hcalm => absurd hcalm Bool.false_ne_true).elim

/-- A loop through recursion. -/
theorem recursive_ends {ι : Type} {body : (ι → Parser α) → ι → Parser α} {R : ι → α → Prop}
    (hbody : ∀ again : ι → Parser α, (∀ i s, Leaves text calm (again i) s (R i)) →
      ∀ i s, Leaves text calm (body again i) s (R i)) (i : ι) :
    Leaves text calm (recursive body i) s (R i) := by
  induction hn : s.remaining using Nat.strongRecOn generalizing i s with
  | _ n ih =>
    rw [Leaves, Ends, Runs, recursive]
    refine hbody _ (fun i' s' => ?_) i s
    by_cases hlt : s'.remaining < s.remaining
    · have h := ih _ (hn ▸ hlt) (s := s') i' rfl
      rw [Leaves, Ends, Runs, if_pos hlt]
      exact h
    · have h : Leaves text calm unexpected s' (R i') := unexpected_ends
      rw [Leaves, Ends, Runs, if_neg hlt]
      exact h

/-- A list of items. -/
theorem many_ends {p : Parser (Option α)} {R : α → Prop}
    (hp : ∀ s₁, Onward s s₁ → Leaves text calm p s₁ fun item => ∀ a ∈ item, R a) :
    Leaves text calm (many p) s fun as => ∀ a ∈ as, R a := by
  refine (iterate_ends (I := fun found _ => ∀ a ∈ found, R a) (fun found s₁ hl => ?_) []).imp
    fun as _ h => h (by simp)
  refine .bind (hp s₁ hl) fun item s₂ _ => ?_
  cases item with
  | none => exact .pure fun _ hfound a ha => hfound a (List.mem_reverse.mp ha)
  | some a => exact .pure fun hitem hfound => List.forall_mem_cons.mpr ⟨hitem a rfl, hfound⟩

/-- Items each of which a comma announces. At a comma there is such an item. -/
theorem commaItems_ends {item : Parser α} {R : α → Prop} (hp : ∀ s, Leaves text calm item s R) :
    Leaves text calm
      (many do if ← eat (.mark .comma) then return some (← item) else return none) s
      fun as => (s.lexer.token.kind = .mark .comma → as ≠ []) ∧ ∀ a ∈ as, R a := by
  refine (iterate_ends (I := fun found s₁ => (s.lexer.token.kind = .mark .comma →
      found = [] → s₁.lexer.token.kind = .mark .comma) ∧ ∀ a ∈ found, R a)
    (fun found s₁ _ => ?_) []).imp fun as _ h => h ⟨fun hk _ => hk, by simp⟩
  refine .bind (P := fun item s₂ => (item = none → s₁.lexer.token.kind ≠ .mark .comma) ∧
    ∀ a ∈ item, R a) ?_ fun item s₂ _ => ?_
  · refine .eat (fun _ _ => .bind (hp _) fun a _ _ => .pure fun ha => ⟨nofun, ?_⟩) fun hne =>
      .pure ⟨fun _ => hne, by simp⟩
    rintro _ ⟨⟩
    exact ha
  · cases item with
    | none =>
      refine .pure fun hitem hfound => ⟨fun hk hnil => ?_, fun a ha => ?_⟩
      · exact hitem.1 rfl (hfound.1 hk (List.reverse_eq_nil_iff.mp hnil))
      · exact hfound.2 a (List.mem_reverse.mp ha)
    | some a =>
      exact .pure fun hitem hfound =>
        ⟨fun _ => nofun, List.forall_mem_cons.mpr ⟨hitem.2 a rfl, hfound.2⟩⟩

/-- What each item leaves holds of all items between commas. -/
theorem commaList_ends {close : TokenKind} {item : Parser α} {R : α → Prop}
    (hp : ∀ s, Leaves text calm item s R) :
    Leaves text calm (commaList close item) s fun as => ∀ a ∈ as, R a := by
  refine many_ends fun s₁ _ => .read rfl (.ite (fun _ => .none) fun _ => ?_)
  refine .bind (hp _) fun a _ _ => .read rfl (.unless expect_ends fun _ _ _ => .pure ?_)
  rintro ha _ ⟨⟩
  exact ha

/-- Looking for an unclaimed default leaves the state as it is. -/
theorem checkCoverInit_ends : Ends text calm checkCoverInit s fun _ s' => s' = s := by
  refine .read (a := s) rfl ?_
  cases s.coverInit with
  | some place => exact fail_ends
  | none => exact .pure rfl

/-- Defaults that cannot be claimed do not change what is left. -/
theorem closed_ends {p : Parser α} {R : α → Prop} (hp : ∀ s, Leaves text calm p s R) :
    Leaves text calm (closed p) s R := by
  refine .remember rfl rfl rfl rfl rfl (.bind (hp _) fun a s₁ _ => .firm checkCoverInit_ends ?_)
  exact fun _ s₂ _ _ => .remember rfl rfl rfl rfl rfl (.pure id)

/-- What suspends a function of its own is not looked at. -/
theorem ownSuspensions_ends {p : Parser α} {R : α → Prop} (hp : ∀ s, Leaves text false p s R) :
    Leaves text calm (ownSuspensions p) s R := by
  refine Runs.of_sound fun hs => Runs.read (a := s) rfl (Runs.step rfl ?_ ?_)
  · exact fun hs => ⟨hs.place, fun _ hf => absurd hf (Option.some_ne_none _).symm⟩
  · refine Runs.bind (hp _) fun a s₁ h₁ => Runs.step rfl ?_ (Runs.pure ⟨?_, fun _ => ?_⟩)
    · exact fun hs₁ => ⟨hs₁.place, hs.isSyntactic⟩
    · exact ⟨h₁.1.offset_le, id⟩
    · exact h₁.2 fun hcalm => absurd hcalm Bool.false_ne_true

end

end EcmaScript.Parser
