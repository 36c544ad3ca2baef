import EcmaScript.Proofs.Tandem.Follows

/-!
# Taking tokens in step

Single tokens, what is remembered for later, and loops. A loop of the other text goes on as
long as the one of the first text does, since each round takes a token in the stretch.
-/

namespace EcmaScript.Parser

open Place

section

variable {w : Tandem} {e : Mode} {K : Prop} {m n : Nat} {α β γ δ : Type} {s t : State}
  {k : TokenKind} {φ : α → γ} {ψ : β → δ} {Q : β → State → Prop}

/-- A token is taken in both texts. -/
theorem advance_follows (hk : s.lexer.token.kind ≠ .endOfFile) :
    Follows w K 1 anywhere id advance advance s t := by
  intro hs hb _ s' hrun
  cases hrun
  exact ⟨hs.next hk, .of_implied (.take .refl hk (.path .refl)) rfl,
    fun ha _ _ hin => ⟨t.next, rfl, InStep.next hin hs hb hk ha⟩⟩

/-- Taking a token implies nothing. -/
theorem advance_mute : Mute advance s := fun _ _ hrun => by
  cases hrun
  rfl

/-- Taking a token as a name implies nothing. -/
theorem takeIdentifier_mute : Mute takeIdentifier s := fun _ _ hrun => by
  cases hrun
  rfl

/-- Taking a token as a private name implies nothing. -/
theorem takePrivateName_mute : Mute takePrivateName s := fun _ _ hrun => by
  cases hrun
  rfl

/-- Looking at the kind of a token implies nothing. -/
theorem isAt_mute : Mute (isAt k) s := fun _ _ hrun => by
  cases hrun
  rfl

/-- Looking at the offset implies nothing. -/
theorem offset_mute : Mute Parser.offset s := fun _ _ hrun => by
  cases hrun
  rfl

/-- A token as something, whatever it is. -/
theorem takeAs_follows {make : Token → α} {make' : Token → γ}
    (hne : s.lexer.token.kind ≠ .endOfFile)
    (h : ∀ a b, Token.Twin w.toShift a b → b.span = w.span a.span → make' b = φ (make a)) :
    Follows w K 1 anywhere φ (take >>= fun t => pure (make t))
      (take >>= fun t => pure (make' t)) s t := by
  refine .congr_run (r := advance >>= fun _ => pure (make s.lexer.token)) ?_ rfl
  refine .alike (.congr (r := advance >>= fun _ => pure (φ (make s.lexer.token))) ?_ ?_)
  · exact .andThen (advance_follows hne) fun _ _ _ _ _ => .pure rfl
  · intro hk _
    rw [← h _ _ hk.2.twin (hk.2.twin.span hne)]
    rfl

/-- A word that is taken is the same name. -/
theorem takeIdentifier_follows (hk : s.lexer.token.kind ≠ .endOfFile) :
    Follows w K 1 anywhere (Identifier.relocate w.span) takeIdentifier takeIdentifier s t :=
  takeAs_follows hk fun _ _ h hspan =>
    by rw [identifierOf, identifierOf, Identifier.relocate, hspan, h.value]

/-- A private name that is taken is the same. -/
theorem takePrivateName_follows (hk : s.lexer.token.kind ≠ .endOfFile) :
    Follows w K 1 anywhere (PrivateName.relocate w.span) takePrivateName takePrivateName s t :=
  takeAs_follows hk fun _ _ h hspan => by rw [PrivateName.relocate, hspan, h.value]

/-- A number that is taken is the same. -/
theorem takeNumber_follows (hk : s.lexer.token.kind ≠ .endOfFile) :
    Follows w K 1 anywhere (NumberLiteral.relocate w.span) takeNumber takeNumber s t :=
  takeAs_follows hk fun _ _ h hspan => by rw [NumberLiteral.relocate, hspan, h.text]

/-- A big integer that is taken is the same. -/
theorem takeBigInt_follows (hk : s.lexer.token.kind ≠ .endOfFile) :
    Follows w K 1 anywhere (BigIntLiteral.relocate w.span) takeBigInt takeBigInt s t :=
  takeAs_follows hk fun _ _ h hspan => by rw [BigIntLiteral.relocate, hspan, h.text]

/-- A string that is taken is the same. -/
theorem takeString_follows (hk : s.lexer.token.kind ≠ .endOfFile) :
    Follows w K 1 anywhere (StringLiteral.relocate w.span) takeString takeString s t :=
  takeAs_follows hk fun _ _ h hspan => by rw [StringLiteral.relocate, hspan, h.value, h.text]

/-- A regular expression that is taken is the same. -/
theorem takeRegex_follows (hk : s.lexer.token.kind ≠ .endOfFile) :
    Follows w K 1 anywhere (RegexLiteral.relocate w.span) takeRegex takeRegex s t :=
  takeAs_follows hk fun _ _ h hspan => by rw [RegexLiteral.relocate, hspan, h.value, h.raw]

/-- What follows a token that may be taken. -/
theorem eat_bind {f : Bool → Parser β} :
    (eat k >>= f) s =
      (isAt k >>= fun b => if b then advance >>= fun _ => f true else f false) s := by
  show ((if s.lexer.token.kind == k then _ else _ : Parser Bool) >>= f) s =
    (if s.lexer.token.kind == k then _ else _ : Parser β) s
  split
  · rfl
  · rfl

/-- A token that is taken if it has a given kind. -/
theorem Tracks.eat {f : Bool → Parser β} {f' : Bool → Parser δ} (hk : isFirm k = true)
    (h₁ : ∀ s₁ t₁, s.lexer.token.kind = k → Passed w .inside advance s () s₁ → Begun w s₁ →
      Tracks w .inside e (K ∧ InStep w s t) 0 Q ψ (f true) (f' true) s₁ t₁)
    (h₂ : s.lexer.token.kind ≠ k → Tracks w .inside e K 0 Q ψ (f false) (f' false) s t) :
    Tracks w .inside e K 0 Q ψ (Parser.eat k >>= f) (Parser.eat k >>= f') s t := by
  have hne : k ≠ .endOfFile := (ne_of_isFirm hk rfl).symm
  have h : Tracks w .inside e K 0 Q ψ
      (Parser.isAt k >>= fun b => if b then advance >>= fun _ => f true else f false)
      (Parser.isAt k >>= fun b => if b then advance >>= fun _ => f' true else f' false) s t :=
    .isAt hk (fun hkind => .andThen (advance_follows (hkind ▸ hne)) fun _ s₁ t₁ =>
      h₁ s₁ t₁ hkind) h₂
  exact (h.congr fun _ _ => eat_bind).congr_run eat_bind

/-- A token that is taken if it has a given kind; otherwise another one is taken. -/
theorem Tracks.eat_taken {f : Bool → Parser β} {f' : Bool → Parser δ}
    (hk : (k == .endOfFile) = false)
    (h₁ : ∀ s₁ t₁, s.lexer.token.kind = k → Passed w .inside advance s () s₁ → Begun w s₁ →
      Tracks w .inside e (K ∧ InStep w s t) n Q ψ (f true) (f' true) s₁ t₁)
    (h₂ : s.lexer.token.kind ≠ k → Tracks w .inside e K (n + 1) Q ψ (f false) (f' false) s t) :
    Tracks w .inside e K (n + 1) Q ψ (Parser.eat k >>= f) (Parser.eat k >>= f') s t := by
  have h : Tracks w .inside e K (n + 1) Q ψ
      (Parser.isAt k >>= fun b => if b then advance >>= fun _ => f true else f false)
      (Parser.isAt k >>= fun b => if b then advance >>= fun _ => f' true else f' false) s t :=
    .isAt_taken (fun hkind => .token (advance_follows (hkind ▸ beq_eq_false_iff_ne.mp hk))
      advance_mute fun _ s₁ t₁ => h₁ s₁ t₁ hkind) h₂
  exact (h.congr fun _ _ => eat_bind).congr_run eat_bind

/-- Where the stretch may not end, a token is taken if it has a given kind. -/
theorem Tracks.eat_nowhere [e.Steady] {f : Bool → Parser β} {f' : Bool → Parser δ}
    (hk : (k == .endOfFile) = false)
    (h₁ : ∀ s₁ t₁, s.lexer.token.kind = k → Passed w .inside advance s () s₁ → Begun w s₁ →
      Tracks w .inside e (K ∧ InStep w s t) 0 nowhere ψ (f true) (f' true) s₁ t₁)
    (h₂ : s.lexer.token.kind ≠ k →
      Tracks w .inside e K 0 nowhere ψ (f false) (f' false) s t) :
    Tracks w .inside e K 0 nowhere ψ (Parser.eat k >>= f) (Parser.eat k >>= f') s t := by
  have h : Tracks w .inside e K 0 nowhere ψ
      (Parser.isAt k >>= fun b => if b then advance >>= fun _ => f true else f false)
      (Parser.isAt k >>= fun b => if b then advance >>= fun _ => f' true else f' false) s t :=
    .isAt_nowhere (fun hkind => .andThen (advance_follows (hkind ▸ beq_eq_false_iff_ne.mp hk))
      fun _ s₁ t₁ => h₁ s₁ t₁ hkind) h₂
  exact (h.congr fun _ _ => eat_bind).congr_run eat_bind

/-- Behind a statement a token is taken if it has a given kind. -/
theorem Tracks.eat_behind {f : Bool → Parser β} {f' : Bool → Parser δ} (hk : isFirm k = true)
    (h₁ : ∀ s₁ t₁, s.lexer.token.kind = k → Passed w .inside advance s () s₁ → Begun w s₁ →
      Tracks w .inside e (K ∧ InStep w s t) 0 Q ψ (f true) (f' true) s₁ t₁)
    (h₂ : s.lexer.token.kind ≠ k → Tracks w .behind e K 0 Q ψ (f false) (f' false) s t) :
    Tracks w .behind e K 0 Q ψ (Parser.eat k >>= f) (Parser.eat k >>= f') s t := by
  have hne : k ≠ .endOfFile := (ne_of_isFirm hk rfl).symm
  have h : Tracks w .behind e K 0 Q ψ
      (Parser.isAt k >>= fun b => if b then advance >>= fun _ => f true else f false)
      (Parser.isAt k >>= fun b => if b then advance >>= fun _ => f' true else f' false) s t :=
    .isAt_behind hk (fun hkind => .andThen (advance_follows (hkind ▸ hne)) fun _ s₁ t₁ =>
      h₁ s₁ t₁ hkind) h₂
  exact (h.congr fun _ _ => eat_bind).congr_run eat_bind

/-- A token is there in both texts or in neither. -/
theorem eat_follows (hk : isFirm k = true) :
    Follows w K 0 anywhere id (eat k) (eat k) s t := by
  have h : Follows w K 0 anywhere id (eat k >>= pure) (eat k >>= pure) s t :=
    .eat hk (fun _ _ _ _ _ => .pure rfl) fun _ => .pure rfl
  rwa [bind_pure] at h

/-- A token that must be there is taken in both texts. -/
theorem expect_follows (hk : (k == .endOfFile) = false) :
    Follows w K 1 anywhere id (expect k) (expect k) s t :=
  .eat_taken hk (fun _ _ _ _ _ => .pure rfl) fun _ => .error unexpected_fails

/-- What is not there stays. -/
theorem eat_same {s₁ : State} (h : eat k s = .ok (false, s₁)) : s₁ = s := by
  obtain ⟨isThere, s₂, hrun, h⟩ := bind_eq_ok h
  cases hrun
  split at h
  · cases h
  · cases h
    rfl

/-- Where another token comes, the one that must be there is missed. -/
theorem expect_fails (hne : s.lexer.token.kind ≠ k) : Fails (expect k) s := by
  rintro ⟨_, s'⟩ hrun
  rw [expect, eat_bind, bind_run (p := isAt k) rfl, beq_eq_false_iff_ne.mpr hne] at hrun
  exact unexpected_fails _ hrun

/-- Taking a token that must be there implies nothing. -/
theorem expect_mute : Mute (expect k) s := by
  intro _ s' hrun
  by_cases hk : s.lexer.token.kind = k
  · rw [expect, eat_bind, bind_run (p := isAt k) rfl, hk, beq_self_eq_true] at hrun
    cases hrun
    rfl
  · exact absurd hrun (expect_fails hk _)

/-- A token that must have a given kind. -/
theorem Tracks.expect {f : Unit → Parser β} {f' : Unit → Parser δ} (hk : (k == .endOfFile) = false)
    (h : ∀ s₁ t₁, Passed w .inside (Parser.expect k) s () s₁ → Begun w s₁ →
      Tracks w .inside e (K ∧ InStep w s t) (n - 1) Q ψ (f ()) (f' ()) s₁ t₁) :
    Tracks w .inside e K n Q ψ (Parser.expect k >>= f) (Parser.expect k >>= f') s t :=
  .token (expect_follows hk) expect_mute fun _ s₁ t₁ => h s₁ t₁

/-- A token that must have a given kind behind a statement. -/
theorem Tracks.expect_behind {f : Unit → Parser β} {f' : Unit → Parser δ} (hk : isFirm k = true)
    (h : ∀ s₁ t₁, Passed w .inside (Parser.expect k) s () s₁ → Begun w s₁ →
      Tracks w .inside e (K ∧ InStep w s t) (n - 1) Q ψ (f ()) (f' ()) s₁ t₁) :
    Tracks w .behind e K n Q ψ (Parser.expect k >>= f) (Parser.expect k >>= f') s t := by
  have hend : k ≠ .endOfFile := (ne_of_isFirm hk rfl).symm
  refine .of_fails (.expect (beq_eq_false_iff_ne.mpr hend) h) fun hslash => (expect_fails ?_).bind
  rintro rfl
  exact Bool.false_ne_true ((isSlash_of_isFirm hk).symm.trans hslash)

/-- Behind a token that is no dot the kind of the current one tells what a slash means. -/
theorem State.Plain.regexAllowed (h : s.Plain) (hk : s.lexer.token.kind ≠ .endOfFile) :
    s.lexer.regexAllowed = s.lexer.token.kind.allowsRegexAfter := by
  obtain ⟨before, hordinary, heq⟩ := h
  rw [heq] at hk ⊢
  cases hl : Lexer.lexeme? before.regexAllowed (Lexer.trivia false before.token.stop).stop with
  | none =>
    rw [Lexer.scan_of_none hl] at hk
    exact absurd rfl hk
  | some l =>
    rw [Lexer.scan_of_some hl]
    show (!Lexer.isPropertyName before.token.kind l.kind && l.kind.allowsRegexAfter) = _
    rw [isPropertyName_of_isOrdinary hordinary]
    rfl

/-- The state where a semicolon has been implied. -/
def State.noted (s : State) : State := { s with implied := s.consumed :: s.implied }

/-- Where the first text implies a semicolon, the other one does too or has it. -/
theorem implied_closes {p q : Parser Unit} (hb : Begun w s) (hp : s.Plain)
    (hrun : p s = .ok ((), s.noted)) (hnoted : Alike w s t ∨ t.lexer.token.kind = .endOfFile →
      q t = .ok ((), t.noted))
    (htaken : t.lexer.token.kind = .mark .semicolon → q t = .ok ((), t.next)) :
    Tracks w .inside .closing K 0 anywhere id p q s t := by
  intro hs _ _ s' hrun'
  rw [hrun] at hrun'
  cases hrun'
  have hsound : s.noted.Sound w.text := ⟨hs.place, hs.isSyntactic⟩
  refine ⟨hsound, ⟨.path .refl, fun offset ho => ?_⟩, fun ha _ _ hin => ?_⟩
  · rcases List.mem_cons.mp ho with rfl | ho
    · exact Or.inr ⟨s.place, .path .refl, .path .refl, rfl⟩
    · exact Or.inl ho
  · have hreach : s.noted.post.reach w.toShift = w.close s.consumed := if_pos List.mem_cons_self
    have hnot : s.consumed ∉ s.implied := fun ho => Nat.lt_irrefl _ (hb.implied_lt _ ho)
    have hlevel : w.close s.consumed = w.stop s.consumed → Level w s.noted t.noted := fun h =>
      { hin.toLevel with consumed := (hin.consumed.trans hb.reach).trans (hreach.trans h).symm }
    by_cases hopen : w.Open s.post
    · refine ⟨t.noted, hnoted (Or.inl (w.alike hs.place hin.near hopen)), ?_⟩
      exact { hlevel (w.close_eq hs.place (Or.inl hopen) hnot) with
        nigh := .near (w.near_noted hs.place hin.near hopen) }
    · rcases w.near_end hs.place hin.near hopen ha (fun hk => hp.regexAllowed hk) with
        ⟨hend, hnear, hclose⟩ | ⟨hsemi, hstop, hnigh⟩
      · exact ⟨t.noted, hnoted (Or.inr hend), { hlevel hclose with nigh := .near hnear }⟩
      · refine ⟨t.next, htaken hsemi, { hin.toLevel with
          consumed := hstop.trans hreach.symm
          nigh := hnigh }⟩

/-- A semicolon that is there. -/
theorem eat_semicolon (hk : s.lexer.token.kind = .mark .semicolon) {f : Bool → Parser Unit} :
    (Parser.eat (.mark .semicolon) >>= f) s = f true s.next := by
  rw [eat_bind, bind_run (p := Parser.isAt (.mark .semicolon)) rfl, hk]
  rfl

/-- A semicolon that is not there. -/
theorem eat_no_semicolon (hk : s.lexer.token.kind ≠ .mark .semicolon) {f : Bool → Parser Unit} :
    (Parser.eat (.mark .semicolon) >>= f) s = f false s := by
  rw [eat_bind, bind_run (p := Parser.isAt (.mark .semicolon)) rfl, beq_eq_false_iff_ne.mpr hk]
  rfl

/-- Where a semicolon is there in the first text, it is taken in both. -/
theorem semicolon_taken {p : Parser Unit} (hk : s.lexer.token.kind = .mark .semicolon) :
    Tracks w .inside .closing K 0 anywhere id
      (eat (.mark .semicolon) >>= fun found => if found then pure () else p)
      (eat (.mark .semicolon) >>= fun found => if found then pure () else p) s t := by
  have h : Follows w K 1 anywhere id
      (eat (.mark .semicolon) >>= fun found => if found then pure () else p)
      (eat (.mark .semicolon) >>= fun found => if found then pure () else p) s t :=
    .eat_taken rfl (fun _ _ _ _ _ => .pure rfl) fun hne => absurd hk hne
  exact h.settled.loose (Nat.zero_le 1)

/-- The end of a statement, where the stretch may end too. -/
theorem semicolon_closes (hb : Begun w s) (hp : s.Plain) :
    Tracks w .inside .closing K 0 anywhere id semicolon semicolon s t := by
  by_cases hk : s.lexer.token.kind = .mark .semicolon
  · exact semicolon_taken hk
  · have hrun : ∀ u : State, u.lexer.token.kind ≠ .mark .semicolon →
        semicolon u = (if u.lexer.token.kind == .mark .closeBrace ||
          u.lexer.token.kind == .endOfFile || u.lexer.token.afterLineBreak
          then noteImplied else unexpected : Parser Unit) u := fun u hu => eat_no_semicolon hu
    by_cases hend : (s.lexer.token.kind == .mark .closeBrace ||
        s.lexer.token.kind == .endOfFile || s.lexer.token.afterLineBreak) = true
    · refine implied_closes hb hp ((hrun s hk).trans (by rw [if_pos hend]; rfl)) (fun ht => ?_)
        fun ht => eat_semicolon ht
      have hne : t.lexer.token.kind ≠ .mark .semicolon := by
        rcases ht with ht | ht
        · rwa [ht.twin.kind]
        · rw [ht]
          exact fun h => nomatch h
      refine (hrun t hne).trans ?_
      rcases ht with ht | ht
      · rw [ht.twin.kind, ht.lineBreak hb.base_lt, if_pos hend]
        rfl
      · rw [ht]
        rfl
    · refine .error fun out hout => (unexpected_fails : Fails (unexpected : Parser Unit) s) out ?_
      rw [← hout, hrun s hk, if_neg hend]

/-- A semicolon that may be missing is taken in both texts or in neither. -/
theorem optionalSemicolon_closes (hb : Begun w s) (hp : s.Plain) :
    Tracks w .inside .closing K 0 anywhere id optionalSemicolon optionalSemicolon s t := by
  by_cases hk : s.lexer.token.kind = .mark .semicolon
  · exact semicolon_taken hk
  · refine implied_closes hb hp (eat_no_semicolon hk) (fun ht => eat_no_semicolon ?_)
      fun ht => eat_semicolon ht
    rcases ht with ht | ht
    · rwa [ht.twin.kind]
    · rw [ht]
      exact fun h => nomatch h

/-- A default is unclaimed in both texts or in neither. -/
theorem checkCoverInit_follows :
    Follows w K 0 anywhere id checkCoverInit checkCoverInit s t := by
  refine .read (a := s) (c := t) rfl rfl ?_
  cases hc : s.coverInit with
  | some place => exact .error fail_fails
  | none => exact (Tracks.pure (c := ()) rfl).congr fun _ hin => by rw [hin.coverInit hc]

/-- Putting aside or putting back an unclaimed default. -/
theorem Tracks.setCoverInit {outer outer' : Option Nat} {p q : Parser α} {f : α → Parser β}
    {f' : α → Parser δ} {a b : α} (hp : p s = .ok (a, { s with coverInit := outer }))
    (hq : q t = .ok (b, { t with coverInit := outer' }))
    (ho : K → InStep w s t → outer = none → outer' = none)
    (h : Tracks w .inside e (K ∧ InStep w s t) n Q ψ (f a) (f' b) { s with coverInit := outer }
      { t with coverInit := outer' }) :
    Tracks w .inside e K n Q ψ (p >>= f) (q >>= f') s t :=
  .step hp hq rfl (fun hs => hs.same rfl rfl rfl List.suffix_rfl hs.isSyntactic)
    (fun hk hin => { hin with coverInit := ho hk hin }) h

/-- Putting back an unclaimed default, or keeping the one met since. -/
theorem Tracks.mergeCoverInit {outer outer' : Option Nat} {f : Unit → Parser β}
    {f' : Unit → Parser δ} (ho : K → outer = none → outer' = none)
    (h : ∀ s₁ t₁, s₁.lexer = s.lexer → s₁.consumed = s.consumed →
      Tracks w .inside e (K ∧ InStep w s t) n Q ψ (f ()) (f' ()) s₁ t₁) :
    Tracks w .inside e K n Q ψ (Parser.mergeCoverInit outer >>= f)
    (Parser.mergeCoverInit outer' >>= f') s t := by
  refine .setCoverInit rfl rfl (fun hk hin hnone => ?_) (h _ _ rfl rfl)
  obtain ⟨houter, hinner⟩ := Option.or_eq_none_iff.mp hnone
  exact Option.or_eq_none_iff.mpr ⟨ho hk houter, hin.coverInit hinner⟩

/-- An expression that no pattern can claim. -/
theorem closed_follows {p : Parser α} {q : Parser γ}
    (h : ∀ (K : Prop) (s t : State), Follows w K n anywhere φ p q s t) :
    Follows w K n anywhere φ (closed p) (closed q) s t := by
  refine .setCoverInit rfl rfl (fun _ _ _ => rfl) (.first (h _ _ _) fun a s₁ t₁ _ => ?_)
  refine .bind checkCoverInit_follows fun _ s₂ t₂ _ => ?_
  exact .setCoverInit rfl rfl (fun hk _ => hk.1.1.2.coverInit) (.pure rfl)

/-- The body of a function, whose suspensions are its own. -/
theorem ownSuspensions_follows {p : Parser α} {q : Parser γ}
    (h : ∀ (K : Prop) (s t : State), Follows w K n anywhere φ p q s t) :
    Follows w K n anywhere φ (ownSuspensions p) (ownSuspensions q) s t := by
  refine .of_base fun _ hs => .read (a := s) (c := t) rfl rfl ?_
  refine .step rfl rfl rfl (fun hs => hs.same rfl rfl rfl List.suffix_rfl fun _ hf => nomatch hf)
    (fun _ hin => { hin with suspension := fun _ => rfl }) ?_
  refine .first (h _ _ _) fun a s₁ t₁ _ => ?_
  exact .step rfl rfl rfl (fun hs₁ => hs₁.same rfl rfl rfl List.suffix_rfl hs.isSyntactic)
    (fun hk hin => { hin with suspension := hk.1.2.suspension }) (.pure rfl)

/-- A result that may be a fault. -/
theorem orFail_follows {f : α → α} {r r' : Except Fault α}
    (h : K → InStep w s t → Cover.Carries f r r') :
    Follows w K 0 anywhere f (orFail r) (orFail r') s t := by
  cases r with
  | error fault => exact .error fail_fails
  | ok a =>
    refine (Tracks.pure (c := f a) rfl).congr fun hk hin => ?_
    rw [h hk hin a rfl]
    rfl

/-- What a round of a loop gives, with both kinds of outcome changed. -/
def Round.map {σ τ : Type} (χ : σ → τ) (φ : α → γ) : Round σ α → Round τ γ
  | .next a => .next (χ a)
  | .done b => .done (φ b)

/-- Where the stretch may end behind a round of a loop. -/
def Round.stops {σ : Type} (N : σ → State → Prop) (P : α → State → Prop) :
    Round σ α → State → Prop
  | .next a, s => N a s
  | .done b, s => P b s

section

variable {m : Mode}

/-- What a list goes on with behind an item, or its end. -/
theorem many_round {N : Prop} {p : Parser (Option α)} {q : Parser (Option γ)}
    (h : Tracks w m m K n (fun _ _ => N) (Option.map φ) p q s t) (found : List α) :
    Tracks w m m K n (Round.stops (fun _ _ => N) fun _ _ => N)
      (Round.map (List.map φ) (List.map φ))
      (do match ← p with
        | some a => return .next (a :: found)
        | none => return .done found.reverse)
      (do match ← q with
        | some a => return .next (a :: found.map φ)
        | none => return .done (found.map φ).reverse) s t := by
  refine .bind_of h (n := 0) (fun item s₁ t₁ _ => ?_) (fun item s₁ r s₂ _ hpass _ _ hc => ?_)
    (Nat.le_refl n) (Nat.le_refl _) (m.lead_le_add n) (Nat.le_refl _)
  · cases item with
    | none => exact .pure (congrArg Round.done List.map_reverse.symm)
    | some a => exact .pure rfl
  · have hrun := hpass.run
    cases item with
    | none => cases hrun; exact hc
    | some a => cases hrun; exact hc

variable [m.Steady]

/-- A loop is followed if its first round is, and what it goes on with. -/
theorem iterate_follows_round {σ τ : Type} {χ : σ → τ} {step : σ → Parser (Round σ α)}
    {step' : τ → Parser (Round τ γ)} {N : σ → State → Prop} {P : α → State → Prop} {a : σ}
    (hround : Tracks w m m K n (Round.stops N P) (Round.map χ φ) (step a) (step' (χ a)) s t)
    (hrest : ∀ a' s₁ t₁, Passed w m (step a) s (.next a') s₁ → s₁.remaining < s.remaining →
      GoesOn w m K (N a' s₁) P φ (iterate step a') (iterate step' (χ a')) s₁ t₁) :
    Tracks w m m K n P φ (iterate step a) (iterate step' (χ a)) s t := by
  intro hs hb b s' hrun
  rw [iterate] at hrun
  cases hout : step a s with
  | error e =>
    rw [hout] at hrun
    cases hrun
  | ok out =>
    obtain ⟨round, s₁⟩ := out
    obtain ⟨hs₁, hway₁, hend₁⟩ := hround hs hb _ _ hout
    rw [hout] at hrun
    cases round with
    | done b' =>
      cases hrun
      refine ⟨hs₁, hway₁, fun ha hc hk hin => ?_⟩
      obtain ⟨t₁, hq, hin₁⟩ := hend₁ ha hc hk hin
      refine ⟨t₁, ?_, hin₁⟩
      rw [iterate, hq]
      rfl
    | next a' =>
      simp only at hrun
      split at hrun
      · rename_i hlt
        have hpass := Tracks.passed hs hb hout hs₁ hway₁
        have hgoes := fun t₁ => hrest a' s₁ t₁ hpass hlt
        have hnext := fun t₁ => Tracks.of_goesOn (hgoes t₁) hs₁ hpass.after b s' hrun
        obtain ⟨hs', hway', -⟩ := hnext t
        refine ⟨hs', hway₁.trans hway' (Nat.le_refl _) (Nat.le_refl _) (m.lead_le_add n)
          (Nat.le_refl _) (Nat.le_refl _), fun ha hc hk hin => ?_⟩
        have ha₁ : w.Ahead 0 s₁.post := w.ahead_of_way hway' ha (Nat.zero_le _) (Nat.zero_le _)
        have hc₁ := Tracks.open_of_goesOn (hgoes t)
          (Tracks.passed hs₁ hpass.after hrun hs' hway') ha hc
        obtain ⟨t₁, hq, hin₁⟩ := hend₁ ha₁ hc₁ hk hin
        have hbase : w.base < s₁.consumed := by
          have htake : s.consumed < s₁.consumed := by
            unfold State.remaining at hlt
            rw [(Mode.level hin).size, (Mode.level hin₁).size] at hlt
            omega
          exact Nat.lt_of_le_of_lt hb.base_le
            ((takes_of_consumed_lt hway₁.takes.toPath htake).lt hs.place)
        have hlt' := (Mode.level hin).remaining_lt (Mode.level hin₁) hs₁ ha₁ hbase hlt
        obtain ⟨t', hq', hin'⟩ := (hnext t₁).2.2 ha hc hk hin₁
        refine ⟨t', ?_, hin'⟩
        rw [iterate, hq]
        show (if t₁.remaining < t.remaining then _ else _) = _
        rw [if_pos hlt']
        exact hq'
      · exact absurd hrun (unexpected_fails _)

/-- A loop whose rounds are followed, as long as they keep an invariant. -/
theorem iterate_follows {σ τ : Type} {χ : σ → τ} {step : σ → Parser (Round σ α)}
    {step' : τ → Parser (Round τ γ)} {I : σ → State → Prop} {N : Prop} {P : α → State → Prop}
    (hstep : ∀ a s t, I a s →
      Tracks w m m K n (Round.stops (fun _ _ => N) P) (Round.map χ φ) (step a) (step' (χ a)) s t)
    (hkeep : ∀ a s a' s₁, I a s → Passed w m (step a) s (.next a') s₁ → I a' s₁)
    (hN : ∀ b s, P b s → N ∨ 0 < n) {a : σ} (hI : I a s) :
    Tracks w m m K n P φ (iterate step a) (iterate step' (χ a)) s t := by
  induction hr : s.remaining using Nat.strongRecOn generalizing a s t with
  | _ r ih =>
    refine iterate_follows_round (hstep a s t hI) fun a' s₁ t₁ hpass hlt => ?_
    have hnext := ih _ (hr ▸ hlt) (hkeep a s a' s₁ hI hpass) rfl (t := t₁)
    rcases Nat.eq_zero_or_pos n with rfl | hn
    · exact Or.inr ⟨hnext, fun b s₂ _ hP => (hN b s₂ hP).resolve_right (Nat.lt_irrefl 0)⟩
    · exact Or.inl (hnext.loose hn)

/-- A loop each of whose rounds takes a token or ends it. -/
theorem iterate_goesOn {σ τ : Type} {χ : σ → τ} {step : σ → Parser (Round σ α)}
    {step' : τ → Parser (Round τ γ)} {I N : σ → State → Prop} {P : α → State → Prop}
    (hstep : ∀ a s t, I a s → Tracks w m m K 1 (Round.stops N P) (Round.map χ φ) (step a)
    (step' (χ a)) s t ∨
      Tracks w m m K 0 (Round.stops N P) (Round.map χ φ) (step a) (step' (χ a)) s t ∧
        ∃ b, step a s = .ok (.done b, s) ∧ (P b s → N a s))
    (hkeep : ∀ a s a' s₁, I a s → Passed w m (step a) s (.next a') s₁ → I a' s₁) {a : σ}
    (hI : I a s) :
    GoesOn w m K (N a s) P φ (iterate step a) (iterate step' (χ a)) s t := by
  induction hr : s.remaining using Nat.strongRecOn generalizing a s t with
  | _ r ih =>
    have hrest := fun a' s₁ t₁ (hpass : Passed w m (step a) s (.next a') s₁) hlt =>
      ih (State.remaining s₁) (hr ▸ hlt) (hkeep a s a' s₁ hI hpass) rfl (t := t₁)
    rcases hstep a s t hI with hround | ⟨hround, b, hdone, hN⟩
    · exact Or.inl (iterate_follows_round hround hrest)
    · refine Or.inr ⟨iterate_follows_round hround hrest, fun b' s' hrun hP => ?_⟩
      rw [iterate, hdone] at hrun
      cases hrun
      exact hN hP

/-- A loop that looks at the token that ends it. -/
theorem iterate_follows_nowhere {σ τ : Type} {χ : σ → τ} {step : σ → Parser (Round σ α)}
    {step' : τ → Parser (Round τ γ)}
    (hstep : ∀ a s t, Tracks w m m K n nowhere (Round.map χ φ) (step a) (step' (χ a)) s t)
    (a : σ) : Tracks w m m K n nowhere φ (iterate step a) (iterate step' (χ a)) s t := by
  refine iterate_follows (I := fun _ _ => True) (N := False) (fun a s t _ => ?_)
    (fun _ _ _ _ _ _ => trivial) (fun _ _ => Or.inl) trivial
  refine (hstep a s t).imp fun r s' h => ?_
  cases r with
  | next _ => exact h
  | done _ => exact h

/-- A list of items. The stretch may end behind it if it may end behind each item. -/
theorem many_follows {N : Prop} {p : Parser (Option α)} {q : Parser (Option γ)}
    (h : ∀ s t, Tracks w m m K 0 (fun _ _ => N) (Option.map φ) p q s t) :
    Tracks w m m K 0 (fun _ _ => N) (List.map φ) (many p) (many q) s t :=
  iterate_follows (χ := List.map φ) (I := fun _ _ => True) (fun found s t _ =>
    many_round (h s t) found)
    (fun _ _ _ _ _ _ => trivial) (fun _ _ => Or.inl) trivial

/-- A list whose first item takes a token. -/
theorem many_follows_taken {N : Prop} {p : Parser (Option α)} {q : Parser (Option γ)}
    (hfirst : Tracks w m m K 1 (fun _ _ => N) (Option.map φ) p q s t)
    (h : ∀ s t, Tracks w m m K 0 (fun _ _ => N) (Option.map φ) p q s t) :
    Tracks w m m K 1 (fun _ _ => N) (List.map φ) (many p) (many q) s t :=
  iterate_follows_round (χ := List.map φ) (many_round hfirst []) fun _ _ _ _ _ =>
    Or.inr ⟨iterate_follows (χ := List.map φ) (I := fun _ _ => True)
      (fun found s t _ => many_round (h s t) found) (fun _ _ _ _ _ _ => trivial) (fun _ _ => Or.inl)
      trivial, fun _ _ _ => id⟩

end

/-- A loop through recursion. -/
theorem recursive_follows {ι : Type} {ω ω' : ι → ι} {φ : α → α}
    {body : (ι → Parser α) → ι → Parser α} {P : ι → α → State → Prop}
    (hbody : ∀ (K₀ : Prop) (again again' : ι → Parser α),
      (∀ (K : Prop) i s t, (K → K₀) → w.base < s.consumed →
        Follows w K n (P i) φ (again (ω i)) (again' (ω' i)) s t) →
      ∀ (K : Prop) i s t, (K → K₀) →
        Follows w K n (P i) φ (body again (ω i)) (body again' (ω' i)) s t)
    (i : ι) : Follows w K n (P i) φ (recursive body (ω i)) (recursive body (ω' i)) s t := by
  induction hr : s.remaining using Nat.strongRecOn generalizing i s t K with
  | _ r ih =>
    refine .congr_run (.congr (r := body (fun i' t' => if t'.remaining < t.remaining then
      recursive body i' t' else unexpected t') (ω' i)) ?_ fun _ _ => by rw [recursive])
      (by rw [recursive])
    refine .of_ahead (hbody (InStep w s t) _ _ (fun K' i' s' t' hK hb => ?_) (K ∧
      InStep w s t) i s t
      And.right) fun _ _ _ hin hk => ⟨hk, hin⟩
    by_cases hlt : s'.remaining < s.remaining
    · refine .congr_run (.of_ahead (.congr ((ih _ (hr ▸ hlt) (K := K') i' rfl).of_known
        (And.left : K' ∧ s'.Sound w.text ∧ w.Ahead n s'.post → K')) fun hk hin => ?_)
        fun hs' _ ha _ hk => ?_) (if_pos hlt)
      · exact if_pos ((hK hk.1).toLevel.remaining_lt (InStep.toLevel hin) hk.2.1 hk.2.2 hb hlt)
      · exact ⟨hk, hs', ha⟩
    · exact .congr_run (.error unexpected_fails) (if_neg hlt)

end

end EcmaScript.Parser
