import EcmaScript.Proofs.Blame.Reading
import EcmaScript.Proofs.Braces.Counts
import EcmaScript.Proofs.Parser.Makes

/-!
# Careful parsers

A problem of syntax is told at the current token, or at a place that the parser has come to before
and still knows, such as the start of a construct. Some of these places are not at hand but
remembered in the state: a default that no pattern has claimed yet, an operator that suspends the
function, a comma behind a spread. A careful parser keeps only such places in mind, and blames such
a place whenever it ends early. It takes no illegal token, so that one is the last token that is
read. And it leaves the counts of braces as it has found them: it closes the braces that it opens,
and a template ends each substitution that it starts. Here are the rules for that; they follow the
ways in which parsers are put together.
-/

namespace EcmaScript.Parser

open Relation

/-- A boundary of the text that is not behind the offset that has been come to. -/
structure Reached (text : String) (offset place : Nat) : Prop where
  isBoundary : IsBoundary text place
  le : place ≤ offset

/-- A place that the parser has come to, at the latest with the start of the current token. -/
abbrev State.Met (text : String) (s : State) (place : Nat) : Prop := Reached text s.offset place

/-- A place that may be remembered has been come to. -/
def State.Recalls (text : String) (s : State) (memory : Option Nat) : Prop :=
  ∀ place, memory = some place → s.Met text place

/-- The tokens that the lexer has read before the current one are not illegal. -/
def State.Legal (text : String) (s : State) : Prop :=
  ∃ readings r, Lexer.Trace text (readings ++ [r]) s.lexer ∧
    ∀ q ∈ readings, q.token.kind ≠ .illegal

/-- No illegal token has been taken, and all places that are remembered have been come to. -/
structure State.Mindful (text : String) (s : State) : Prop where
  sound : s.Sound text
  legal : s.Legal text
  coverInit : s.Recalls text s.coverInit
  suspension : s.Recalls text (s.suspension.map Fault.offset)
  spreadComma : ∀ note ∈ s.notes.spreadCommas, s.Met text note.2

/-- An early end that tells the faults of all tokens read so far, of which only the last can be
illegal, and then at most one problem of syntax, which blames a place not behind the start of the
last token. -/
def Abort.Placed (text : String) (e : Abort) : Prop :=
  ∃ readings r lexer, Lexer.Trace text (readings ++ [r]) lexer ∧
    (∀ q ∈ readings, q.token.kind ≠ .illegal) ∧
    (e.faults = lexer.faults ∨
      ∃ fault : Fault, fault.IsSyntactic ∧ e.faults = lexer.faults.push fault ∧
        IsBoundary text fault.offset ∧ fault.offset ≤ lexer.token.start.offset)

/-- What a run of a careful parser leaves, which leads from these counts to those. -/
structure State.Onward (text : String) (s : State) (depths depths' : List Nat) (s' : State) :
    Prop where
  mindful : s'.Mindful text
  le : s.offset ≤ s'.offset
  counted : ReflTransGen Counted (s.place, depths) (s'.place, depths')

/-- The parser leads from these counts of braces to those. It does not go back, takes no illegal
token, keeps only places in mind that it has come to, and blames such a place if it ends early. -/
def Leads (text : String) (depths depths' : List Nat) {α : Type} (p : Parser α) (s : State) :
    Prop :=
  s.Mindful text →
    match p s with
    | .ok (_, s') => s.Onward text depths depths' s'
    | .error e => e.Placed text

/-- The parser leaves the counts of braces as it finds them. -/
abbrev Careful (text : String) {α : Type} (p : Parser α) (s : State) : Prop :=
  ∀ {D : List Nat}, Leads text D D p s

/-- The parser ends early and blames a place that it has come to. -/
def Blames (text : String) {α : Type} (p : Parser α) (s : State) : Prop :=
  s.Mindful text → ∃ e, p s = .error e ∧ e.Placed text

section

variable {text : String} {α β : Type} {s s₁ : State} {place : Nat} {C D E : List Nat}

/-- A place that has been come to is not left behind. -/
theorem Reached.later (h : s.Met text place) (hle : s.offset ≤ s₁.offset) :
    s₁.Met text place :=
  ⟨h.isBoundary, Nat.le_trans h.le hle⟩

/-- What may be remembered may still be remembered later on. -/
theorem State.Recalls.later {memory : Option Nat} (h : s.Recalls text memory)
    (hle : s.offset ≤ s₁.offset) : s₁.Recalls text memory :=
  fun place hp => (h place hp).later hle

/-- Of two places that may be remembered either one may be. -/
theorem State.Recalls.or {memory more : Option Nat} (h : s.Recalls text memory)
    (k : s.Recalls text more) : s.Recalls text (memory.or more) := by
  intro place hp
  rcases Option.or_eq_some_iff.mp hp with hp | ⟨_, hp⟩
  · exact h place hp
  · exact k place hp

/-- The start of the current token has been come to. -/
theorem State.Sound.met_offset (h : s.Sound text) : s.Met text s.offset :=
  ⟨h.place.isBoundary_offset, Nat.le_refl _⟩

/-- A place that lies before the end of what was taken has been come to. -/
theorem State.Sound.met_of_le (h : s.Sound text) (hb : IsBoundary text place)
    (hle : place ≤ s.consumed) : s.Met text place :=
  ⟨hb, Nat.le_trans hle h.consumed_le⟩

/-- Moving on forgets no place. -/
theorem State.Mindful.later (h : s.Mindful text) (hs : s₁.Sound text) (hl : s₁.Legal text)
    (hle : s.offset ≤ s₁.offset) (hc : s₁.coverInit = s.coverInit)
    (hf : s₁.suspension = s.suspension) (hn : s₁.notes = s.notes) : s₁.Mindful text where
  sound := hs
  legal := hl
  coverInit := by
    rw [hc]
    exact h.coverInit.later hle
  suspension := by
    rw [hf]
    exact h.suspension.later hle
  spreadComma := by
    rw [hn]
    exact fun note hmem => (h.spreadComma note hmem).later hle

/-- Nothing has been done yet. -/
theorem State.Onward.refl (h : s.Mindful text) : s.Onward text D D s := ⟨h, Nat.le_refl _, .refl⟩

/-- Runs one behind the other are one run. -/
theorem State.Onward.trans {s₂ : State} (h : s.Onward text D C s₁) (k : s₁.Onward text C E s₂) :
    s.Onward text D E s₂ :=
  ⟨k.mindful, Nat.le_trans h.le k.le, h.counted.trans k.counted⟩

/-- What is remembered for later counts nothing. -/
theorem State.Onward.remembered {t : State} (h : t.Mindful text) (hp : t.place = s.place) :
    s.Onward text D D t := by
  refine ⟨h, Nat.le_of_eq ?_, hp ▸ .refl⟩
  exact congrArg (fun place => place.lexer.token.start.offset) hp.symm

/-- That the state is mindful may be used. -/
theorem Leads.of_mindful {p : Parser α} (h : s.Mindful text → Leads text D E p s) :
    Leads text D E p s := fun hs => h hs hs

/-- A run that ends early blames a place. -/
theorem Leads.error {p : Parser α} {e : Abort} (h : Leads text D E p s) (hs : s.Mindful text)
    (hp : p s = .error e) : e.Placed text := by
  have hrun := h hs
  rw [hp] at hrun
  exact hrun

/-- A run that does not end early leads on. -/
theorem Leads.ok {p : Parser α} {a : α} (h : Leads text D E p s) (hs : s.Mindful text)
    (hp : p s = .ok (a, s₁)) : s.Onward text D E s₁ := by
  have hrun := h hs
  rw [hp] at hrun
  exact hrun

/-- What a parser gives may matter to the one behind it. -/
theorem Leads.bind_of {p : Parser α} {f : α → Parser β} (h : Leads text D C p s)
    (hf : ∀ a s₁, p s = .ok (a, s₁) → s.offset ≤ s₁.offset → Leads text C E (f a) s₁) :
    Leads text D E (p >>= f) s := by
  intro hs
  cases hp : p s with
  | error e =>
    have he := h.error hs hp
    simp only [Bind.bind, StateT.bind, hp, Except.bind]
    exact he
  | ok out =>
    obtain ⟨a, s₁⟩ := out
    have hs₁ := h.ok hs hp
    have hrun := hf a s₁ hp hs₁.le hs₁.mindful
    simp only [Bind.bind, StateT.bind, hp, Except.bind]
    cases hfa : f a s₁ with
    | error e =>
      rw [hfa] at hrun
      exact hrun
    | ok out =>
      rw [hfa] at hrun
      exact hs₁.trans hrun

/-- One parser behind another. -/
theorem Leads.bind {p : Parser α} {f : α → Parser β} (h : Leads text D C p s)
    (hf : ∀ a s₁, s.offset ≤ s₁.offset → Leads text C E (f a) s₁) : Leads text D E (p >>= f) s :=
  h.bind_of fun a s₁ _ => hf a s₁

/-- What is met by the result is known besides. -/
theorem Leads.bind_meets {p : Parser α} {f : α → Parser β} {Q : α → State → Prop}
    (h : Leads text D C p s) (hm : s.Sound text → Meets text p s Q)
    (hf : ∀ a s₁, Q a s₁ → s.offset ≤ s₁.offset → Leads text C E (f a) s₁) :
    Leads text D E (p >>= f) s :=
  .of_mindful fun hs => h.bind_of fun a s₁ hrun => hf a s₁ ((hm hs.sound).ok hrun)

/-- A result that is given takes nothing. -/
theorem Leads.pure {a : α} : Leads text D D (Pure.pure a) s := fun hs => .refl hs

/-- A result may be made into another one. -/
theorem Leads.map {p : Parser α} {make : α → β} (h : Leads text D E p s) :
    Leads text D E (p >>= fun a => Pure.pure (make a)) s := h.bind fun _ _ _ => .pure

/-- A step whose outcome is known. -/
theorem Leads.step {p : Parser α} {f : α → Parser β} {a : α} (hp : p s = .ok (a, s₁))
    (hs : s.Mindful text → s.Onward text D C s₁) (h : Leads text C E (f a) s₁) :
    Leads text D E (p >>= f) s := by
  refine .bind_of (C := C) (fun hm => ?_) fun b t hrun _ => ?_
  · rw [hp]
    exact hs hm
  · rw [hp] at hrun
    cases hrun
    exact h

/-- A step that only looks at the state. -/
theorem Leads.read {p : Parser α} {f : α → Parser β} {a : α} (hp : p s = .ok (a, s))
    (h : Leads text D E (f a) s) : Leads text D E (p >>= f) s := .step hp .refl h

/-- A step that only remembers something for later. -/
theorem Leads.remember {p : Parser α} {f : α → Parser β} {a : α} (hp : p s = .ok (a, s₁))
    (hplace : s₁.place = s.place) (hs : s.Mindful text → s₁.Mindful text)
    (h : Leads text D E (f a) s₁) : Leads text D E (p >>= f) s :=
  .step hp (fun hm => .remembered (hs hm) hplace) h

/-- Parsers choose by the kind of the current token. -/
theorem Leads.kind {f : TokenKind → Parser β} (h : Leads text D E (f s.lexer.token.kind) s) :
    Leads text D E (Parser.kind >>= f) s := .read rfl h

/-- The start of a construct is a place that can be blamed later on. -/
theorem Leads.offset {f : Nat → Parser β}
    (h : s.Met text s.offset → Leads text D E (f s.offset) s) :
    Leads text D E (Parser.offset >>= f) s :=
  .of_mindful fun hs => .read rfl (h hs.sound.met_offset)

/-- The kind of the current token need not matter. -/
theorem Leads.isAt {k : TokenKind} {f : Bool → Parser β} (h : ∀ b, Leads text D E (f b) s) :
    Leads text D E (Parser.isAt k >>= f) s := .read rfl (h _)

/-- Making a node takes nothing. -/
theorem Leads.node {start : Nat} {make : Span → β} :
    Leads text D D (do return make (← spanFrom start)) s := .read rfl .pure

/-- A place that has been come to may be blamed. -/
theorem fail_blames {problem : Problem} (h : s.Met text place)
    (hp : problem.category = .syntactic) :
    Blames text (fail place problem : Parser α) s := by
  intro hs
  obtain ⟨readings, r, ht, hl⟩ := hs.legal
  refine ⟨_, rfl, readings, r, s.lexer, ht, hl, Or.inr ?_⟩
  exact ⟨⟨problem, place⟩, hp, rfl, h.isBoundary, h.le⟩

/-- The current token may always be blamed. -/
theorem failHere_blames {problem : Problem} (hp : problem.category = .syntactic) :
    Blames text (failHere problem : Parser α) s := fun hs =>
  fail_blames hs.sound.met_offset hp hs

/-- A token is told as unexpected unless the lexer has told of it. -/
theorem unexpected_of_some {problem : Problem}
    (h : unexpectedProblem? s.lexer.token = some problem) :
    (unexpected : Parser α) s = failHere problem s := by
  have hread : (token : Parser Token) s = .ok (s.lexer.token, s) := rfl
  simp only [unexpected, Bind.bind, StateT.bind, hread, Except.bind, h]

/-- Nothing is told about a token that the lexer has told of. -/
theorem unexpected_of_none (h : unexpectedProblem? s.lexer.token = none) :
    (unexpected : Parser α) s = .error ⟨s.lexer.faults⟩ := by
  have hread : (token : Parser Token) s = .ok (s.lexer.token, s) := rfl
  simp only [unexpected, Bind.bind, StateT.bind, hread, Except.bind, h]

/-- An unexpected token ends parsing. -/
theorem unexpected_blames : Blames text (unexpected : Parser α) s := by
  intro hs
  cases hproblem : unexpectedProblem? s.lexer.token with
  | some problem =>
    obtain ⟨e, he, hplaced⟩ := failHere_blames (α := α) (category_unexpectedProblem hproblem) hs
    exact ⟨e, (unexpected_of_some hproblem).trans he, hplaced⟩
  | none =>
    obtain ⟨readings, r, ht, hl⟩ := hs.legal
    exact ⟨⟨s.lexer.faults⟩, unexpected_of_none hproblem, readings, r, s.lexer, ht, hl, Or.inl rfl⟩

/-- A run that ends early leads wherever it is asked to. -/
theorem Blames.leads {p : Parser α} (h : Blames text p s) : Leads text D E p s := by
  intro hs
  obtain ⟨e, hp, he⟩ := h hs
  rw [hp]
  exact he

/-- What comes behind an early end does not matter. -/
theorem Blames.cut {p : Parser α} {f : α → Parser β} (h : Blames text p s) :
    Leads text D E (p >>= f) s := by
  refine .of_mindful fun hs => h.leads.bind_of (C := E) fun a s₁ hrun _ => ?_
  obtain ⟨e, hp, _⟩ := h hs
  exact nomatch hp.symm.trans hrun

/-- What blames a known place leads anywhere. -/
theorem fail_leads {problem : Problem} (h : s.Met text place)
    (hp : problem.category = .syntactic) : Leads text D E (fail place problem : Parser α) s :=
  (fail_blames h hp).leads

/-- What blames the current token leads anywhere. -/
theorem failHere_leads {problem : Problem} (hp : problem.category = .syntactic) :
    Leads text D E (failHere problem : Parser α) s := (failHere_blames hp).leads

/-- What finds a token unexpected leads anywhere. -/
theorem unexpected_leads : Leads text D E (unexpected : Parser α) s := unexpected_blames.leads

/-- Either way of a choice leads on. -/
theorem Leads.ite {c : Prop} [Decidable c] {p q : Parser α} (hp : c → Leads text D E p s)
    (hq : ¬c → Leads text D E q s) : Leads text D E (if c then p else q) s := by
  by_cases hc : c
  · rw [if_pos hc]
    exact hp hc
  · rw [if_neg hc]
    exact hq hc

/-- A condition that ends parsing. -/
theorem Leads.refuse {c : Prop} [Decidable c] {p : Parser Unit} {f : Unit → Parser β}
    (hp : c → Blames text p s) (hf : ¬c → Leads text D E (f ()) s) :
    Leads text D E (if c then p >>= f else f ()) s := .ite (fun hc => (hp hc).cut) hf

/-- A condition without which parsing ends. -/
theorem Leads.require {c : Prop} [Decidable c] {p : Parser Unit} {f : Unit → Parser β}
    (hp : ¬c → Blames text p s) (hf : c → Leads text D E (f ()) s) :
    Leads text D E (if c then f () else p >>= f) s := .ite hf fun hc => (hp hc).cut

/-- A check that ends parsing or does nothing. -/
theorem Leads.check {c : Prop} [Decidable c] {p : Parser Unit} (h : c → Blames text p s) :
    Leads text D D (if c then p else Pure.pure ()) s :=
  .ite (fun hc => (h hc).leads) fun _ => .pure

/-- What a rule says is given, or blamed where the rule says. -/
theorem orFail_careful {r : Except Fault α}
    (h : ∀ fault, r = .error fault → fault.IsSyntactic ∧ s.Met text fault.offset) :
    Leads text D D (orFail r) s := by
  cases r with
  | ok a => exact .pure
  | error fault => exact fail_leads (h fault rfl).2 (h fault rfl).1

/-- A given kind decides. -/
theorem Leads.isAt_of {k : TokenKind} {f : Bool → Parser β}
    (ht : s.lexer.token.kind = k → Leads text D E (f true) s) (hf : Leads text D E (f false) s) :
    Leads text D E (Parser.isAt k >>= f) s := by
  refine .read (a := s.lexer.token.kind == k) rfl ?_
  cases h : s.lexer.token.kind == k with
  | true => exact ht (eq_of_beq h)
  | false => exact hf

/-- The token that is taken is read before the next one. -/
theorem State.Legal.advance (h : s.Legal text) (hk : s.lexer.token.kind ≠ .illegal)
    (hs : s₁.lexer = s.lexer.scan) : s₁.Legal text := by
  obtain ⟨readings, r, ht, hl⟩ := h
  refine ⟨readings ++ [r], s.lexer.reading, hs ▸ ht.scan, ?_⟩
  refine List.forall_mem_append.mpr ⟨hl, List.forall_mem_singleton.mpr ?_⟩
  rwa [ht.inOrder.last r (by simp)]

/-- The current token is taken and counted. -/
theorem advance_leads (hlegal : s.lexer.token.kind ≠ .illegal)
    (hend : s.lexer.token.kind ≠ .endOfFile)
    (hclose : s.lexer.token.kind = .mark .closeBrace → ∀ outer, D ≠ 0 :: outer) :
    Leads text D (countToken s.lexer.token.kind D) advance s := by
  intro hs
  have hle : s.offset ≤ s.lexer.scan.token.start.offset :=
    Nat.le_trans hs.sound.place.offset_le_stop (Place.stop_le_offset_scan s.lexer)
  refine ⟨hs.later ⟨hs.sound.place.take, hs.sound.isSyntactic⟩ ?_ hle rfl rfl rfl, hle, ?_⟩
  · exact hs.legal.advance hlegal rfl
  · exact .single (.take hend hclose)

/-- Taking a token that counts nothing leaves the counts. -/
theorem advance_careful (hk : isUncounted s.lexer.token.kind = true) :
    Leads text D D advance s := by
  have hne : ∀ {k : TokenKind}, isUncounted k = false → s.lexer.token.kind ≠ k := by
    rintro k hkind rfl
    exact nomatch hk.symm.trans hkind
  have h : Leads text D (countToken s.lexer.token.kind D) advance s :=
    advance_leads (hne rfl) (hne rfl) fun h => absurd h (hne rfl)
  rwa [countToken_of_isUncounted hk] at h

/-- The token that is taken may be given as well. -/
theorem take_careful (hk : isUncounted s.lexer.token.kind = true) : Leads text D D take s :=
  .read rfl (advance_careful hk).map

/-- A token as something, whatever it is. -/
theorem takeAs_careful {make : Token → α} (hk : isUncounted s.lexer.token.kind = true) :
    Leads text D D (take >>= fun t => Pure.pure (make t)) s := (take_careful hk).map

/-- A token that counts nothing may be taken if it is there. -/
theorem eat_careful {k : TokenKind} (hk : isUncounted k = true) : Leads text D D (eat k) s :=
  .isAt_of (fun h => (advance_careful (h ▸ hk)).map) .pure

/-- A token that counts nothing must be there to be taken. -/
theorem expect_careful {k : TokenKind} (hk : isUncounted k = true) : Leads text D D (expect k) s :=
  (eat_careful hk).bind fun _ _ _ => .ite (fun _ => .pure) fun _ => unexpected_leads

/-- A token that must be there is taken and counted. -/
theorem expect_leads {k : TokenKind} (hlegal : k ≠ .illegal) (hend : k ≠ .endOfFile)
    (hclose : k = .mark .closeBrace → ∀ outer, D ≠ 0 :: outer) :
    Leads text D (countToken k D) (expect k) s := by
  by_cases h : s.lexer.token.kind = k
  · have hadvance : Leads text D (countToken k D) advance s := by
      subst h
      exact advance_leads hlegal hend hclose
    have heat : Leads text D (countToken k D) (eat k) s := by
      refine .read (a := true) ?_ hadvance.map
      rw [← h]
      show Except.ok (s.lexer.token.kind == s.lexer.token.kind, s) = _
      rw [beq_self_eq_true]
    exact heat.bind fun _ _ _ => .ite (fun _ => .pure) fun _ => unexpected_leads
  · have heat : eat k s = .ok (false, s) := by
      have hread : (isAt k : Parser Bool) s = .ok (s.lexer.token.kind == k, s) := rfl
      rw [beq_eq_false_iff_ne.mpr h] at hread
      simp only [eat, Bind.bind, StateT.bind, hread, Except.bind]
      rfl
    exact .read heat unexpected_leads

/-- An opening brace is counted. -/
theorem openBrace_leads : Leads text D (opened D) (expect (.mark .openBrace)) s :=
  expect_leads (by decide) (by decide) fun h => nomatch h

/-- The brace that closes an opened one takes the counts back. -/
theorem closeBrace_leads : Leads text (opened D) D (expect (.mark .closeBrace)) s := by
  have h : Leads text (opened D) (countToken (.mark .closeBrace) (opened D))
      (expect (.mark .closeBrace)) s :=
    expect_leads (by decide) (by decide) fun _ => (countToken_closeBrace_opened D).2
  rwa [(countToken_closeBrace_opened D).1] at h

/-- That a semicolon is implied is only noted. -/
theorem noteImplied_careful : Leads text D D noteImplied s := fun hs =>
  .remembered ⟨⟨hs.sound.place, hs.sound.isSyntactic⟩, hs.legal, hs.coverInit, hs.suspension,
    hs.spreadComma⟩ rfl

/-- A statement ends with a semicolon or with an implied one. -/
theorem semicolon_careful : Leads text D D semicolon s :=
  (eat_careful rfl).bind fun _ _ _ => .ite (fun _ => .pure) fun _ =>
    .read rfl (.ite (fun _ => noteImplied_careful) fun _ => unexpected_leads)

/-- Behind a loop with its condition at the end no semicolon is needed. -/
theorem optionalSemicolon_careful : Leads text D D optionalSemicolon s :=
  (eat_careful rfl).bind fun _ _ _ => .ite (fun _ => .pure) fun _ => noteImplied_careful

/-- Another default takes the place of the unclaimed one. -/
theorem State.Mindful.withCoverInit (hs : s.Mindful text) {memory : Option Nat}
    (h : s.Recalls text memory) : ({ s with coverInit := memory } : State).Mindful text :=
  ⟨⟨hs.sound.place, hs.sound.isSyntactic⟩, hs.legal, h, hs.suspension, hs.spreadComma⟩

/-- The unclaimed default is put aside. -/
theorem Leads.takeCoverInit {f : Option Nat → Parser β}
    (h : s.Recalls text s.coverInit →
      Leads text D E (f s.coverInit) { s with coverInit := none }) :
    Leads text D E (Parser.takeCoverInit >>= f) s :=
  .of_mindful fun hs => .remember rfl rfl (fun _ => hs.withCoverInit nofun) (h hs.coverInit)

/-- A place that has been come to may be put back as that of the unclaimed default. -/
theorem Leads.setCoverInit {outer : Option Nat} {f : Unit → Parser β}
    (ho : s.Recalls text outer) (h : Leads text D E (f ()) { s with coverInit := outer }) :
    Leads text D E (Parser.setCoverInit outer >>= f) s :=
  .remember rfl rfl (fun hs => hs.withCoverInit ho) h

/-- Of two unclaimed defaults the outer one is remembered. -/
theorem Leads.mergeCoverInit {outer : Option Nat} {f : Unit → Parser β}
    (ho : s.Recalls text outer)
    (h : Leads text D E (f ()) { s with coverInit := outer.or s.coverInit }) :
    Leads text D E (Parser.mergeCoverInit outer >>= f) s :=
  .remember rfl rfl (fun hs => hs.withCoverInit (ho.or hs.coverInit)) h

/-- The unclaimed default is blamed, since it has been come to. -/
theorem checkCoverInit_careful : Leads text D D checkCoverInit s := by
  refine .of_mindful fun hs => .read (p := get) (a := s) rfl ?_
  cases hc : s.coverInit with
  | none => exact .pure
  | some place => exact fail_leads (hs.coverInit place hc) rfl

/-- An expression that no pattern can claim blames its own defaults. -/
theorem closed_careful {p : Parser α} (h : ∀ s, Careful text p s) : Careful text (closed p) s := by
  refine .takeCoverInit fun ho => (h _).bind fun a s₁ h₁ => ?_
  refine checkCoverInit_careful.bind fun _ s₂ h₂ => ?_
  exact .setCoverInit ((ho.later h₁).later h₂) .pure

/-- Another suspension takes the place of the one that is remembered. -/
theorem State.Mindful.withSuspension (hs : s.Mindful text) {memory : Option Fault}
    (h : s.Recalls text (memory.map Fault.offset))
    (hf : ∀ fault, memory = some fault → fault.IsSyntactic) :
    ({ s with suspension := memory } : State).Mindful text :=
  ⟨⟨hs.sound.place, hf⟩, hs.legal, hs.coverInit, h, hs.spreadComma⟩

/-- A function has its own suspensions, and the outer ones are put back behind it. -/
theorem ownSuspensions_leads {p : Parser α} (h : ∀ s, Leads text D E p s) :
    Leads text D E (ownSuspensions p) s := by
  refine .of_mindful fun hs => .read (p := get) (a := s) rfl ?_
  refine .remember rfl rfl (fun _ => hs.withSuspension nofun nofun) ?_
  refine (h _).bind fun a s₁ h₁ => .remember rfl rfl (fun hs₁ => ?_) .pure
  exact hs₁.withSuspension (hs.suspension.later h₁) hs.sound.isSyntactic

/-- The first operator that suspends is remembered at the current token. -/
theorem noteSuspension_careful {problem : Problem} (hp : problem.category = .syntactic) :
    Leads text D D (noteSuspension problem) s := by
  intro hs
  refine .remembered (hs.withSuspension ?_ ?_) rfl
  · intro place hplace
    cases hsus : s.suspension with
    | none =>
      rw [hsus] at hplace
      cases hplace
      exact hs.sound.met_offset
    | some fault =>
      rw [hsus] at hplace
      exact hs.suspension place (by rw [hsus]; exact hplace)
  · intro fault hfault
    cases hsus : s.suspension with
    | none =>
      rw [hsus] at hfault
      cases hfault
      exact hp
    | some inner =>
      rw [hsus] at hfault
      exact hs.sound.isSyntactic fault (hsus.trans hfault)

/-- Rounds of a loop, given what is known before each of them. -/
theorem iterate_leads {σ : Type} {round : σ → Parser (Round σ β)} {I : σ → State → Prop}
    (hround : ∀ a s, I a s → Leads text D D (round a) s)
    (hnext : ∀ a s a' s', s.Mindful text → I a s → round a s = .ok (.next a', s') → I a' s')
    {a : σ} (h : I a s) : Leads text D D (iterate round a) s := by
  intro hs
  induction hn : s.remaining using Nat.strongRecOn generalizing a s with
  | _ n ih =>
    rw [iterate]
    have hleads := hround a s h hs
    cases hrun : round a s with
    | error e =>
      rw [hrun] at hleads
      exact hleads
    | ok out =>
      obtain ⟨r, s₁⟩ := out
      rw [hrun] at hleads
      cases r with
      | done b => exact hleads
      | next a' =>
        by_cases hlt : s₁.remaining < s.remaining
        · simp only [if_pos hlt]
          have hrest := ih _ (hn ▸ hlt) (hnext a s a' s₁ hs h hrun) hleads.mindful rfl
          cases hrest' : iterate round a' s₁ with
          | error e =>
            rw [hrest'] at hrest
            exact hrest
          | ok out =>
            rw [hrest'] at hrest
            exact hleads.trans hrest
        · simp only [if_neg hlt]
          obtain ⟨e, he, hplaced⟩ := unexpected_blames (α := β) hleads.mindful
          rw [he]
          exact hplaced

/-- A loop is careful if each of its rounds is. -/
theorem iterate_careful {σ : Type} {round : σ → Parser (Round σ β)}
    (h : ∀ a s, Careful text (round a) s) {a : σ} : Careful text (iterate round a) s :=
  iterate_leads (I := fun _ _ => True) (fun a s _ => h a s)
    (fun _ _ _ _ _ _ _ => trivial) trivial

/-- A list is careful if each of its items is. -/
theorem many_careful {p : Parser (Option α)} (h : ∀ s, Careful text p s) :
    Careful text (many p) s := by
  refine iterate_careful fun found s => (h s).bind fun item s₁ _ => ?_
  cases item with
  | none => exact .pure
  | some a => exact .pure

/-- A recursion is careful if its body is, given that what it calls is. -/
theorem recursive_careful {ι : Type} {body : (ι → Parser α) → ι → Parser α}
    (h : ∀ again : ι → Parser α, (∀ i s, Careful text (again i) s) →
      ∀ i s, Careful text (body again i) s) {i : ι} : Careful text (recursive body i) s := by
  induction hn : s.remaining using Nat.strongRecOn generalizing i s with
  | _ n ih =>
    intro D hs
    rw [recursive]
    refine h (fun j t => if t.remaining < s.remaining then recursive body j t
      else unexpected t) (fun j t C ht => ?_) i s hs
    by_cases hlt : t.remaining < s.remaining
    · simp only [if_pos hlt]
      exact ih _ (hn ▸ hlt) (i := j) (s := t) rfl ht
    · simp only [if_neg hlt]
      exact unexpected_leads ht

/-- Behind an item comes a comma, or what closes the list. -/
theorem Leads.itemEnd {close : TokenKind} {f : Unit → Parser β}
    (h : ∀ s₁, Leads text D E (f ()) s₁) :
    Leads text D E (Parser.isAt close >>= fun closes =>
      if closes = true then f () else Parser.expect (.mark .comma) >>= f) s :=
  .isAt fun _ => .ite (fun _ => h s) fun _ => (expect_careful rfl).bind fun _ s₁ _ => h s₁

/-- Items between commas are careful if each item is. -/
theorem commaList_careful {close : TokenKind} {item : Parser α} (h : ∀ s, Careful text item s) :
    Careful text (commaList close item) s :=
  many_careful fun s => .isAt fun _ => .ite (fun _ => .pure) fun _ =>
    (h s).bind fun _ _ _ => .itemEnd fun _ => .pure

/-- Items each of which a comma announces. -/
theorem commaItems_careful {item : Parser α} (h : ∀ s, Careful text item s) :
    Careful text (many do
      if ← eat (.mark .comma) then return some (← item) else return none) s :=
  many_careful fun _ => (eat_careful rfl).bind fun _ s₁ _ =>
    .ite (fun _ => (h s₁).map) fun _ => .pure

end

end EcmaScript.Parser
