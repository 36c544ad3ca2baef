import EcmaScript.Proofs.Parser.Primary
import EcmaScript.Proofs.Tandem.Class

/-!
# Primary expressions in step

A private name is the one expression that asks for the operator behind it, so the stretch may not
end there. Everything else ends with its own last token, or with an arrow that is not there.
-/

namespace EcmaScript

namespace Lexer

/-- Where no fault has been met, a piece of a template is terminated. -/
theorem Trace.terminated {text : String} {readings : List Reading} {r : Reading} {lexer : Lexer}
    (h : Trace text (readings ++ [r]) lexer) (hk : lexer.token.kind.isTemplate = true)
    (hclean : lexer.faults = #[]) : lexer.token.flags.unterminated = false := by
  have hchunk : ∀ {chunk : TemplateChunk} {whole opening : TokenKind} {start : Nat},
      (chunk.toLexeme whole opening start).faults = [] →
        (chunk.toLexeme whole opening start).flags.unterminated = false := by
    intro chunk whole opening start hf
    change (if chunk.ending = .missing then _ else _) = [] at hf
    exact decide_eq_false fun he => by rw [if_pos he] at hf; exact nomatch hf
  generalize hrs : readings ++ [r] = all at h
  cases h with
  | start => exact absurd hrs (by simp)
  | @scan _ lexer _ =>
    cases hl : lexeme? lexer.regexAllowed (trivia false lexer.token.stop).stop with
    | none =>
      rw [scan_of_none hl] at hk
      exact absurd hk (by simp [TokenKind.isTemplate])
    | some l =>
      rw [scan_of_some hl] at hk hclean ⊢
      change l.kind.isTemplate = true at hk
      have hfaults := (append_eq_empty hclean).2
      rcases lexeme_cases hl with hw | ⟨-, rfl⟩ | ⟨q, hq, -, -⟩
      · rw [isTemplate_of_isWhole hw.isWhole] at hk
        exact absurd hk (by simp)
      · exact hchunk hfaults
      · rw [hq] at hk
        exact absurd hk (by simp [TokenKind.isTemplate])
  | slash _ ht =>
    rw [rescanSlash_eq ht] at hk
    change (regexLiteral _).kind.isTemplate = true at hk
    rw [kind_regexLiteral] at hk
    exact absurd hk (by simp [TokenKind.isTemplate])
  | template _ _ => exact hchunk (append_eq_empty hclean).2

end Lexer

namespace Parser

open Place

section

variable {w : Tandem} {K : Prop} {α β γ δ : Type} {s t : State} {g : Nested} {ψ : β → δ}
  {Q : β → State → Prop}

/-- Whether the current token is an arrow on the same line. -/
def State.isAtArrow (s : State) : Bool :=
  s.lexer.token.kind == .mark .arrow && !s.lexer.token.afterLineBreak

/-- Whether an arrow follows is the same in both texts. -/
theorem Alike.isAtArrow_eq (h : Alike w s t) (hb : w.base < s.consumed) :
    t.isAtArrow = s.isAtArrow := by
  rw [State.isAtArrow, State.isAtArrow, h.twin.kind, h.lineBreak hb]

/-- Where there is no arrow in the first text, there is none in the other. -/
theorem InStep.isAtArrow_eq_false (h : InStep w s t) (hs : s.Sound w.text)
    (hb : w.base < s.consumed) (hk : s.isAtArrow = false) : t.isAtArrow = false := by
  rcases h.cases hs with ha | ha
  · rw [ha.isAtArrow_eq hb]
    exact hk
  · exact ha.of_kind (motive := fun k => (k == .mark .arrow && _) = false) rfl rfl

/-- Whether an arrow follows is only looked at. -/
theorem atArrow_run {b : Bool} (h : s.isAtArrow = b) : atArrow s = .ok (b, s) := by
  rw [← h]
  rfl

/-- An arrow decides, and it is taken if it is there. -/
theorem Tracks.atArrow {f : Bool → Parser β} {f' : Bool → Parser δ} (hb : w.base < s.consumed)
    (h₁ : Follows w K 1 Q ψ (f true) (f' true) s t)
    (h₂ : Follows w K 0 Q ψ (f false) (f' false) s t) :
    Follows w K 0 Q ψ (Parser.atArrow >>= f) (Parser.atArrow >>= f') s t := by
  refine .of_base fun _ hs => .read (a := s.isAtArrow) (c := t.isAtArrow) rfl rfl ?_
  cases harrow : s.isAtArrow with
  | true =>
    refine (Tracks.alike (n := 0) ((h₁.of_known And.left).congr fun hk _ => ?_)).loose
      (Nat.zero_le 1)
    rw [hk.2.isAtArrow_eq hb, harrow]
  | false => exact h₂.congr fun _ hin => by rw [InStep.isAtArrow_eq_false hin hs hb harrow]

/-- A piece of a template is longer than its first mark. -/
theorem State.Sound.template_lt {text : String} (hs : s.Sound text)
    (hk : s.lexer.token.kind.isTemplate = true) (hclean : s.lexer.faults = #[]) :
    s.offset + 1 < s.lexer.token.stop.offset := by
  obtain ⟨readings, r, ht⟩ := hs.trace
  obtain ⟨hnext, content, e, -, ho, hstop, -⟩ := ht.template_content hk
  have hclosing : 0 < s.lexer.token.closing := by
    rw [Token.closing, ht.terminated hk hclean]
    split
    · exact Nat.two_pos
    · exact Nat.one_pos
  rw [State.offset]
  omega

/-- A piece of a template is the same in both texts, but for its place. -/
theorem templateElement_follows (tagged : Bool) (hk : s.lexer.token.kind.isTemplate = true) :
    Follows w K 0 nowhere (TemplateElement.relocate w.span) (templateElement tagged)
      (templateElement tagged) s t := by
  refine .read rfl rfl (.of_ahead_nowhere
    (L := K ∧ Alike w s t ∧ s.offset + 1 < s.lexer.token.stop.offset) ?_ fun hs _ ha hin hK =>
      ⟨hK, InStep.alike hin hs ha, hs.template_lt hk (w.ahead_clean ha)⟩)
  refine .refuse failHere_fails (fun hK _ h => ?_) fun _ => ?_
  · rwa [← hK.2.1.twin.invalidEscape]
  · refine (Tracks.pure rfl).congr fun hK _ => congrFun (congrArg Pure.pure ?_) t
    have htwin := hK.2.1.twin
    have hlt := hK.2.2
    have hne : s.lexer.token.kind ≠ .endOfFile := by
      intro hend
      rw [hend] at hk
      cases hk
    have hstart : w.start (s.lexer.token.start.offset + 1) = t.lexer.token.start.offset + 1 :=
      (htwin.inside 1 Nat.one_pos hlt).1
    have hstop : ∀ closing, w.stop (max (s.lexer.token.stop.offset - closing)
        (s.lexer.token.start.offset + 1)) =
        max (t.lexer.token.stop.offset - closing) (t.lexer.token.start.offset + 1) :=
      htwin.stop_max hne hlt
    rw [TemplateElement.relocate, Shift.span_ofOffsets, hstart, hstop, htwin.kind, htwin.value,
      htwin.raw, htwin.invalidEscape, htwin.unterminated]

/-- The end of a substitution, which is read again as a piece of the template. -/
def closeSubstitution : Parser Unit := do
  unless ← isAt (.mark .closeBrace) do unexpected
  modify fun s => { s with lexer := s.lexer.rescanTemplate }

/-- The brace that is read again then is taken. -/
theorem closeSubstitution_follows :
    Follows w K 0 nowhere id closeSubstitution closeSubstitution s t := by
  refine .isAt_nowhere (fun hk hs _ _ s' hrun => ?_) fun _ => .error unexpected_fails.bind
  cases hrun
  have hstep := Step.template (p := s.place) hk
  refine ⟨⟨hstep.sound hs.place, hs.isSyntactic⟩, .of_implied (.path (.single hstep)) rfl,
    fun ha hc _ hin => ?_⟩
  exact ⟨_, rfl, InStep.rescanTemplate hin hs hk (w.ahead_of_open ha (hc.resolve_right id))⟩

/-- The pieces and the substitutions of a template. -/
abbrev TemplateParts := List TemplateElement × List Expression

/-- The pieces and the substitutions with their spans elsewhere. -/
def TemplateParts.relocate (f : Relocation) (parts : TemplateParts) : TemplateParts :=
  (parts.1.map (TemplateElement.relocate (f .expression)), parts.2.map (Node.relocate f))

/-- A piece of a template, and the substitution behind it. -/
def templateRound (g : Nested) (ctx : Context) (tagged : Bool) (parts : TemplateParts) :
    Parser (Round TemplateParts TemplateParts) := do
  let element ← templateElement tagged
  advance
  if element.tail then return .done ((element :: parts.1).reverse, parts.2.reverse)
  else
    let expression ← g.expression ctx.allowIn
    closeSubstitution
    return .next (element :: parts.1, expression :: parts.2)

/-- A template is read in rounds. -/
theorem templateLiteral_eq (g : Nested) (ctx : Context) (tagged : Bool) :
    templateLiteral g ctx tagged = (do
      let start ← offset
      let parts ← iterate (templateRound g ctx tagged) ([], [])
      return .templateLiteral (← spanFrom start) parts.1 parts.2) := by
  unfold templateLiteral templateRound closeSubstitution
  simp only [bind_assoc, ite_bind]

/-- Behind a substitution, a piece of the template is the current token. -/
theorem templateRound_next {ctx : Context} {tagged : Bool} {parts parts' : TemplateParts}
    {s' : State} (h : templateRound g ctx tagged parts s = .ok (.next parts', s')) :
    s'.lexer.token.kind.isTemplate = true := by
  obtain ⟨element, s₁, -, h⟩ := bind_eq_ok h
  obtain ⟨-, s₂, -, h⟩ := bind_eq_ok h
  split at h
  · cases h
  · obtain ⟨expression, s₃, -, h⟩ := bind_eq_ok h
    obtain ⟨_, s₄, hclose, hnext⟩ := bind_eq_ok h
    cases hnext
    obtain ⟨isClosed, s₅, -, hclose⟩ := bind_eq_ok hclose
    cases isClosed with
    | false => exact absurd hclose (unexpected_fails.bind _)
    | true =>
      cases hclose
      show s₅.lexer.rescanTemplate.token.kind.isTemplate = true
      rw [Lexer.rescanTemplate_eq]
      show (if _ then TokenKind.templateMiddle else .templateTail).isTemplate = true
      split
      · rfl
      · rfl

/-- A round of a template takes a piece and a substitution. -/
theorem templateRound_follows (hg : g.Keeps w) (ctx : Context) (tagged : Bool)
    (parts : TemplateParts) (hk : s.lexer.token.kind.isTemplate = true) :
    Follows w K 1 (Round.stops (fun _ _ => False) anywhere)
      (Round.map (TemplateParts.relocate w.relocation) (TemplateParts.relocate w.relocation))
      (templateRound g (ctx.widen w.base) tagged parts)
      (templateRound g (w.context ctx) tagged (parts.relocate w.relocation)) s t := by
  refine .before (templateElement_follows tagged hk) fun element s₁ t₁ h₁ => ?_
  have hs₁ : s₁ = s := ((templateElement_meets tagged h₁.before hk).ok h₁.run).1
  subst hs₁
  have hne := ne_endOfFile_of_isOrdinary (isOrdinary_of_isTemplate hk)
  refine .andThen (advance_follows hne) fun _ s₂ t₂ _ _ => .ite Iff.rfl (fun _ => ?_) fun _ => ?_
  · refine .pure (congrArg Round.done ?_)
    exact congrArg₂ Prod.mk (List.map_reverse (l := element :: parts.1)).symm List.map_reverse.symm
  · refine .bind (hg.expression ctx.allowIn) fun e s₃ t₃ _ => ?_
    exact .map closeSubstitution_follows (fun _ => rfl) fun _ _ => id

/-- A template of the first text is one of the other. -/
theorem templateLiteral_follows (hg : g.Keeps w) (ctx : Context) (tagged : Bool)
    (hk : s.lexer.token.kind.isTemplate = true) :
    Follows w K 1 anywhere (Node.relocate w.relocation)
    (templateLiteral g (ctx.widen w.base) tagged)
      (templateLiteral g (w.context ctx) tagged) s t := by
  rw [templateLiteral_eq, templateLiteral_eq]
  refine .offset fun start _ => .andThen (iterate_follows
    (χ := TemplateParts.relocate w.relocation) (φ := TemplateParts.relocate w.relocation)
    (I := fun _ s => s.lexer.token.kind.isTemplate = true)
    (N := False) (fun parts s t hk => templateRound_follows hg ctx tagged parts hk)
    (fun _ _ _ _ _ hpass => templateRound_next hpass.run) (fun _ _ _ => Or.inr Nat.one_pos) hk)
    fun parts s₁ t₁ _ hb => .node hb fun span => ?_
  show Node.templateLiteral _ _ (parts.2.map (Node.relocate w.relocation)) = _
  rw [← Node.mapExpressions_eq]
  rfl

/-- What is spread in the first text is spread in the other. -/
theorem spreadable_follows {p q : Parser Expression}
    (h : ∀ (K : Prop) s t, Follows w K 1 anywhere (Node.relocate w.relocation) p q s t) :
    Follows w K 1 anywhere (Node.relocate w.relocation) (spreadable p) (spreadable q) s t := by
  refine .offset fun start _ => .eat_taken rfl (fun s₁ t₁ _ _ hb => ?_) fun _ => h K s t
  exact .bind (h _ s₁ t₁) fun argument s₂ t₂ h₂ => .node (h₂.begun hb) fun _ => rfl

/-- The end of an element of an array. -/
theorem elementEnd_follows (element : Expression) :
    Follows w K 0 nowhere (Option.map (Option.map (Node.relocate w.relocation)))
      (do
        unless ← isAt (.mark .closeBracket) do expect (.mark .comma)
        return some (some element))
      (do
        unless ← isAt (.mark .closeBracket) do expect (.mark .comma)
        return some (some (element.relocate w.relocation))) s t :=
  .isAt_nowhere (fun _ => .pure rfl) fun _ => .expect rfl fun _ _ _ _ => .pure rfl

/-- Whether a comma behind a spread ends an array. -/
def endsWithComma (k : TokenKind) (lexer : Lexer) : Bool :=
  k == .mark .ellipsis && lexer.token.kind == .mark .comma &&
    lexer.scan.token.kind == .mark .closeBracket

/-- Whether a comma ends a list is the same in both texts. -/
theorem endsWithComma_eq {k : TokenKind} (h : Alike w s t) (hnext : Alike w s.next t.next) :
    endsWithComma k t.lexer = endsWithComma k s.lexer := by
  have hkind : t.lexer.scan.token.kind = s.lexer.scan.token.kind := hnext.twin.kind
  rw [endsWithComma, endsWithComma, h.twin.kind, hkind]

/-- The elements of an array are those in the other text. -/
theorem arrayElements_follows (hg : g.Keeps w) (ctx : Context) {array : Nat}
    (hb : w.base ≤ array) :
    Follows w K 0 nowhere (List.map (Option.map (Node.relocate w.relocation)))
      (arrayElements g (ctx.widen w.base) array)
      (arrayElements g (w.context ctx) (w.start array)) s t := by
  refine many_follows fun s t => .kind_nowhere ?_
  split
  · exact .pure rfl
  · rename_i hk
    exact .andThen (advance_follows (by simp [hk])) fun _ _ _ _ _ => .pure rfl
  · refine .bind (spreadable_follows fun _ s t => hg.assignment ctx s t) fun element s₁ t₁ _ => ?_
    refine .read rfl rfl (.read (a := s₁.next.lexer.token) (c := t₁.next.lexer.token) rfl rfl ?_)
    refine .branch_nowhere (m := 1) (fun _ => ?_) (fun hc => ?_)
      (fun _ => elementEnd_follows element) (fun hc hs hb ha hin _ => ?_)
      (fun hc hs hb ha hin _ => ?_) (by decide)
    · refine .bind offset_mute fun comma s₂ _ =>
        .bind (fun _ _ h => by cases h; rfl) fun _ s₃ _ => ?_
      exact .bind isAt_mute fun _ s₄ _ => .ite .pure (.bind expect_mute fun _ _ _ => .pure)
    · obtain ⟨⟨-, hcomma⟩, -⟩ : (_ ∧ _) ∧ _ := by simpa [Bool.and_eq_true] using hc
      refine .offset fun comma _ => .step rfl rfl rfl (fun hs => hs.notes _) (fun _ hin => ?_) ?_
      · exact { hin with notes := hin.notes.addSpreadComma comma (w.start comma) hb }
      · refine .isAt_taken (fun h => ?_) fun _ => .expect rfl fun _ _ _ _ => .pure rfl
        exact absurd (hcomma.symm.trans h) (by simp)
    · obtain ⟨⟨-, hcomma⟩, -⟩ : (_ ∧ _) ∧ _ := by simpa [Bool.and_eq_true] using hc
      show endsWithComma s.lexer.token.kind t₁.lexer = true
      rw [endsWithComma_eq (InStep.alike hin hs ha)
        (InStep.alike_next hin hs hb (by rw [hcomma]; simp) (by rw [hcomma]; rfl) ha)]
      exact hc
    · show ¬endsWithComma s.lexer.token.kind t₁.lexer = true
      have halike := InStep.alike hin hs ha
      by_cases hcomma : s₁.lexer.token.kind = .mark .comma
      · rcases InStep.cases_next hin hs hb (by rw [hcomma]; simp) (by rw [hcomma]; rfl) ha with
          hnext | hend
        · rw [endsWithComma_eq halike hnext]
          exact hc
        · have hkind : (t₁.lexer.scan.token.kind == .mark .closeBracket) = false :=
            hend.of_kind (motive := fun k => (k == .mark .closeBracket) = false) rfl rfl
          simp [endsWithComma, hkind]
      · simp [endsWithComma, halike.twin.kind, hcomma]

/-- An array of the first text is one of the other. -/
theorem arrayLiteral_follows (hg : g.Keeps w) (ctx : Context) :
    Follows w K 1 anywhere (Node.relocate w.relocation) (arrayLiteral g (ctx.widen w.base))
      (arrayLiteral g (w.context ctx)) s t := by
  refine .offset fun start hstart => .expect rfl fun s₁ t₁ _ _ => ?_
  refine .before (arrayElements_follows hg ctx.allowIn hstart.2) fun elements s₂ t₂ _ => ?_
  refine .expect rfl fun s₃ t₃ _ hb => .node hb fun span => ?_
  rw [← Node.mapOptionals_eq]
  rfl

/-- A default behind a name is left to be claimed in both texts. -/
theorem shorthandMember_follows (hg : g.Keeps w) (ctx : Context) (start : Nat) (name : Identifier)
    (hb : Begun w s) :
    Follows w K 0 anywhere (Node.relocate w.relocation)
      (shorthandMember g (ctx.widen w.base) start name)
      (shorthandMember g (w.context ctx) (w.start start) (name.relocate w.span)) s t := by
  refine .isAt rfl (fun hk => .offset fun place _ => ?_) fun _ => .node hb fun _ => rfl
  refine .setCoverInit rfl rfl (fun _ _ h => absurd h (by simp)) ?_
  refine .andThen (advance_follows (by simp [hk])) fun _ s₁ t₁ _ hb₁ => ?_
  exact .bind (hg.value ctx) fun value s₂ t₂ h₂ => .node (h₂.begun hb₁) fun _ => rfl

/-- A member of an object behind its key, whose first token has the given kind and offset. -/
def objectPropertyBehind (g : Nested) (ctx : Context) (start : Nat) (m : Modifiers)
    (k : TokenKind) (place : Nat) (key : Node .propertyKey) : Parser (Node .objectMember) := do
  if ← isAt (.mark .openParen) then
    let definition ← methodFunction g ctx m.isAsync m.isGenerator m.accessor false
    return .property (← spanFrom start) key (.functionExpression definition) m.accessor
      (m.accessor == .init)
  else if m.requireMethod then unexpected
  else if ← eat (.mark .colon) then
    let value ← g.assignment ctx
    return .property (← spanFrom start) key value .init false
  else
    let name ← shorthandName ctx k place key
    shorthandMember g ctx start name

/-- What comes behind the key of a member is the same in the other text. -/
theorem objectPropertyBehind_follows (hg : g.Keeps w) (ctx : Context) (start : Nat)
    (m : Modifiers) (k : TokenKind) (place : Nat) (key : Node .propertyKey) (hb : Begun w s) :
    Follows w K 0 anywhere (Node.relocate w.relocation)
      (objectPropertyBehind g (ctx.widen w.base) start m k place key)
      (objectPropertyBehind g (w.context ctx) (w.start start) m k (w.start place)
        (key.relocate w.relocation)) s t := by
  refine .isAt rfl (fun _ => ?_) fun _ => .ite Iff.rfl (fun h => by cases h) fun _ =>
    .ite Iff.rfl (fun _ => .error unexpected_fails) fun _ => ?_
  · exact .first (methodFunction_follows hg ctx _ _ _ _) fun _ _ _ h₁ =>
      .node (h₁.begun hb) fun _ => rfl
  · refine .eat rfl (fun s₁ t₁ _ _ hb₁ => ?_) fun _ => ?_
    · exact .bind (hg.assignment ctx s₁ t₁) fun value s₂ t₂ h₂ =>
        .node (h₂.begun hb₁) fun _ => rfl
    · refine .bind (shorthandName_follows ctx _ _ key fun _ => rfl) fun name s₁ t₁ h₁ => ?_
      exact shorthandMember_follows hg ctx start name (h₁.begun hb)

/-- A member of an object behind its modifiers. Its key has the given kind and offset. -/
def objectPropertyFrom (g : Nested) (ctx : Context) (start : Nat) (m : Modifiers) (k : TokenKind)
    (place : Nat) : Parser (Node .objectMember) := do
  let key ← propertyKey g ctx false
  objectPropertyBehind g ctx start m k place key

/-- A word that modifies nothing is the key of a member, behind which the object goes on. -/
theorem objectProperty_ahead (hg : g.Keeps w) (ctx : Context) {word : Keyword}
    {member : Node .objectMember} {s' : State} (hk : s.lexer.token.kind = .word word)
    (hm : ¬modifies endsObjectName s.lexer = true) (hs : s.Sound w.text) (hb : Stands w s)
    (hrun : objectProperty g (ctx.widen w.base) s = .ok (member, s')) (ha : w.Ahead 1 s'.post) :
    w.Ahead 2 s.post := by
  have hne : s.lexer.token.kind ≠ .endOfFile := by rw [hk]; exact fun h => nomatch h
  have hno : ∀ word', eatModifier endsObjectName word' s = .ok (false, s) := by
    intro word'
    refine (bind_run (p := isAt (.word word')) rfl).trans ?_
    cases hw : s.lexer.token.kind == .word word' with
    | false => rfl
    | true =>
      refine (bind_run (p := isModifier endsObjectName) (a := modifies endsObjectName s.lexer)
        rfl).trans ?_
      rw [Bool.eq_false_iff.mpr hm]
      rfl
  have hstar : eat (.mark .times) s = .ok (false, s) := by
    refine (bind_run (p := isAt (.mark .times)) rfl).trans ?_
    rw [hk]
    rfl
  have hmodifiers : modifiers endsObjectName s = .ok ({}, s) :=
    (bind_run (hno _)).trans ((bind_run hstar).trans ((bind_run (hno _)).trans (bind_run (hno _))))
  have hkey : propertyKey g (ctx.widen w.base) false s =
      .ok (.identifierKey (identifierOf s.lexer.token), s.next) := by
    refine (bind_run (p := kind) rfl).trans ?_
    rw [hk]
    rfl
  have hbehind : objectPropertyBehind g (ctx.widen w.base) s.offset {} s.lexer.token.kind s.offset
      (.identifierKey (identifierOf s.lexer.token)) s.next = .ok (member, s') := by
    refine Eq.trans (Eq.symm ?_) hrun
    exact (bind_run (p := offset) rfl).trans ((bind_run hmodifiers).trans
      ((bind_run (p := token) rfl).trans (bind_run hkey)))
  have hway : Way 2 1 1 s.post s.next.post :=
    .of_implied (.take (p := s.place) .refl hne (.path .refl)) rfl
  have hnext : Begun w s.next := hb.begun (n := 0) hs hway
  obtain ⟨-, hrest, -⟩ := objectPropertyBehind_follows (K := True) (t := s) hg ctx s.offset {}
    s.lexer.token.kind s.offset (.identifierKey (identifierOf s.lexer.token)) hnext (hs.next hne)
    (hb.along hs hway) member s' hbehind
  have hone : w.Ahead 1 s.next.post := w.ahead_of_way hrest ha (Nat.le_refl 1) (Nat.le_refl 1)
  exact w.ahead_of_way hway hone (Nat.le_refl 2) (Nat.le_refl 2)

/-- A property of the first text is one of the other. -/
theorem objectProperty_follows (hg : g.Keeps w) (ctx : Context) :
    Follows w K 1 nowhere (Node.relocate w.relocation) (objectProperty g (ctx.widen w.base))
      (objectProperty g (w.context ctx)) s t := by
  refine .of_end (L := K ∧ ∀ word, s.lexer.token.kind = .word word →
    ¬modifies endsObjectName s.lexer = true → w.Ahead 2 s.post) ?_
    fun member s' hpass ha hc _ _ hK => ⟨hK, fun word hk hm =>
      objectProperty_ahead hg ctx hk hm hpass.before hpass.stands hpass.run
        (w.ahead_of_open ha (hc.resolve_right id))⟩
  refine .offset fun start _ => .before (modifiers_follows rfl fun hk => Or.inr hk.2)
    fun m s₁ t₁ _ => ?_
  refine .first_token (f := objectPropertyFrom g (ctx.widen w.base) start m)
    (r := objectPropertyFrom g (w.context ctx) (w.start start) m) (fun place _ => ?_) rfl rfl
  refine .andThen (propertyKey_follows hg ctx false) fun key s₂ t₂ _ hb => ?_
  exact (objectPropertyBehind_follows hg ctx start m _ place key hb).freely

/-- A member of an object is one in the other text. -/
theorem objectMember_follows (hg : g.Keeps w) (ctx : Context) :
    Follows w K 1 nowhere (Node.relocate w.relocation) (objectMember g (ctx.widen w.base))
      (objectMember g (w.context ctx)) s t := by
  refine .offset fun start _ => .eat_taken rfl (fun s₁ t₁ _ _ hb => ?_) fun _ =>
    objectProperty_follows hg ctx
  exact .bind (hg.assignment ctx s₁ t₁) fun argument s₂ t₂ h₂ => .node (h₂.begun hb) fun _ => rfl

/-- An object of the first text is one of the other. -/
theorem objectLiteral_follows (hg : g.Keeps w) (ctx : Context) :
    Follows w K 1 anywhere (Node.relocate w.relocation) (objectLiteral g (ctx.widen w.base))
      (objectLiteral g (w.context ctx)) s t := by
  refine .offset fun start _ => .expect rfl fun s₁ t₁ _ _ => ?_
  refine .before (commaList_follows fun _ _ _ => objectMember_follows hg ctx.allowIn)
    fun members s₂ t₂ _ => .expect rfl fun s₃ t₃ _ hb => .node hb fun span => ?_
  rw [← Node.mapMembers_eq]
  rfl

/-- What stands in parentheses is the same in the other text. -/
theorem coverParenthesized_follows (hg : g.Keeps w) (ctx : Context) :
    Follows w K 1 anywhere (Cover.Parenthesized.relocate w.toShift)
      (coverParenthesized g (ctx.widen w.base)) (coverParenthesized g (w.context ctx)) s t := by
  refine .offset fun start _ => .expect rfl fun s₁ t₁ _ _ => ?_
  let moved : List Expression × Option Nat → List Expression × Option Nat := fun a =>
    (a.1.map (Node.relocate w.relocation), a.2.map w.start)
  refine .before (iterate_follows_nowhere (χ := moved) (φ := moved) (n := 0) (fun a s t => ?_)
    ([], none))
    fun r s₂ t₂ _ => .expect rfl fun s₃ t₃ _ hb => .node hb fun span => ?_
  · obtain ⟨items, trailingComma⟩ := a
    refine .isAt_nowhere (fun _ => .pure ?_) fun _ => ?_
    · exact congrArg Round.done (congrArg₂ Prod.mk List.map_reverse.symm rfl)
    refine .bind (spreadable_follows fun _ s t => hg.assignment ctx.allowIn s t)
      fun item s₁ t₁ _ => ?_
    refine .isAt_nowhere (fun _ => .pure ?_) fun _ => .expect rfl fun s₂ t₂ _ _ => ?_
    · exact congrArg Round.done (congrArg₂ Prod.mk (List.map_reverse (l := item :: items)).symm rfl)
    refine .isAt_nowhere (fun _ => .offset_nowhere fun comma _ => .read rfl rfl (.pure ?_)) fun _ =>
      .read rfl rfl (.pure rfl)
    show _ = Round.next (moved _)
    simp [moved]
  · rw [Cover.Parenthesized.relocate, Node.mapExpressions_eq]

/-- An operator that suspends the function is remembered in the other text only if it is in the
first one, where then no arrow follows. -/
theorem arrowCover_follows (hg : g.Keeps w) (ctx : Context) :
    Follows w K 1 anywhere (Cover.Parenthesized.relocate w.toShift)
    (arrowCover g (ctx.widen w.base))
      (arrowCover g (w.context ctx)) s t := by
  refine .of_base fun _ hs => .read (a := s) (c := t) rfl rfl ?_
  refine .step rfl rfl rfl (fun hs => hs.same rfl rfl rfl List.suffix_rfl fun _ hf => nomatch hf)
    (fun _ hin => { hin with suspension := fun _ => rfl }) ?_
  refine .andThen (coverParenthesized_follows hg ctx) fun cover s₁ t₁ h₁ hb => ?_
  refine .of_base fun _ hs₁ => .read (a := s₁) (c := t₁) rfl rfl ?_
  refine .step rfl rfl rfl (fun hs₁ => hs₁.same rfl rfl rfl List.suffix_rfl fun fault hf => ?_)
    (fun hk hin => { hin with suspension := fun hnone => ?_ }) ?_
  · rcases Option.or_eq_some_iff.mp hf with hf | ⟨-, hf⟩
    · exact hs.isSyntactic fault hf
    · exact hs₁.isSyntactic fault hf
  · obtain ⟨houter, hinner⟩ := Option.or_eq_none_iff.mp hnone
    exact Option.or_eq_none_iff.mpr ⟨hk.1.2.suspension houter, hin.suspension hinner⟩
  cases hsus : s₁.suspension with
  | none => exact (Tracks.pure rfl).congr fun hk _ => by rw [hk.2.suspension hsus]
  | some fault =>
    cases harrow : s₁.isAtArrow with
    | true => exact .error (.step (a := true) (atArrow_run harrow) fail_fails.bind)
    | false =>
      refine .congr_run (r := pure cover) (.congr (.pure rfl) fun hk hin => ?_) ?_
      · cases t₁.suspension with
        | none => rfl
        | some fault' =>
          exact bind_run (a := false) (atArrow_run
            (InStep.isAtArrow_eq_false (t := t₁) hk.2 hs₁ hb.base_lt harrow))
      · exact bind_run (a := false) (atArrow_run harrow)

/-- An arrow function whose parameters were read as expressions. -/
theorem coverArrow_follows (hg : g.Keeps w) (ctx : Context) (start : Nat)
    {cover : Cover.Parenthesized} (isAsync : Bool) {s₁ : State} (hc : Covered w.text s₁ cover s)
    (hb : w.base ≤ s₁.offset) :
    Follows w K 1 anywhere (Node.relocate w.relocation)
      (coverArrow g (ctx.widen w.base) start cover isAsync)
      (coverArrow g (w.context ctx) (w.start start) (cover.relocate w.toShift) isAsync) s t := by
  refine .read rfl rfl (.bind (orFail_follows fun _ hin => ?_) fun params s₂ t₂ _ =>
    arrowFunction_follows hg ctx start params isAsync)
  exact cover.toParameters_carries hin.notes hb hc.items_placed.each

/-- A single expression is noted in both texts. -/
theorem coverExpression_follows {cover : Cover.Parenthesized} {s₁ : State}
    (hc : Covered w.text s₁ cover s) (hb : w.base ≤ s₁.offset) :
    Follows w K 0 anywhere (Node.relocate w.relocation) (coverExpression cover)
      (coverExpression (cover.relocate w.toShift)) s t := by
  have hlength : (cover.relocate w.toShift).items.length = cover.items.length := by
    rw [Cover.Parenthesized.relocate, Node.mapExpressions_eq, List.length_map]
  refine .bind (orFail_follows fun _ _ => Cover.Parenthesized.toExpression_carries
    (Nat.le_succ_of_le hb) hc.inOrder) fun e s₂ t₂ h₂ => ?_
  obtain ⟨he, rfl⟩ := (orFail_meets h₂.before hc.toExpression_yields).ok h₂.run
  obtain ⟨debt, row, parts, hparts⟩ := Node.sketch_expression e
  rw [hparts] at he
  obtain ⟨start, stop, hspan, hlo, hle, -⟩ := he.each.of_mk
  refine .ite (by rw [hlength]) (fun _ => ?_) fun _ => .pure rfl
  refine .step rfl rfl rfl (fun hs => hs.notes _) (fun _ hin => ?_) (.pure rfl)
  have hstart : w.base ≤ start := by omega
  have hstop : w.base < stop := by omega
  have hnotes := hin.notes.addParenthesized hstart hstop
  rw [← hspan, ← Node.span_relocate_expression] at hnotes
  exact { hin with notes := hnotes }

/-- An arrow behind the parentheses is seen in both texts. -/
theorem parenthesizedOrArrow_follows (hg : g.Keeps w) (ctx : Context) :
    Follows w K 1 anywhere (Node.relocate w.relocation) (parenthesizedOrArrow g (ctx.widen w.base))
      (parenthesizedOrArrow g (w.context ctx)) s t := by
  refine .offset fun start _ => .setCoverInit rfl rfl (fun _ _ _ => rfl) ?_
  refine .andThen (arrowCover_follows hg ctx) fun cover s₁ t₁ h₁ hb => ?_
  have hc := (arrowCover_meets hg.sound (ctx.widen w.base) h₁.before).ok h₁.run
  refine .atArrow hb.base_lt ?_ ?_
  · refine .setCoverInit rfl rfl (fun hk _ => hk.1.2.coverInit) ?_
    exact coverArrow_follows hg ctx start false (hc.same (hc.took.sound.same rfl rfl rfl
      List.suffix_rfl
      hc.took.sound.isSyntactic)) h₁.base_le
  · refine .bind (coverExpression_follows hc h₁.base_le) fun e s₂ t₂ _ => ?_
    refine .bind checkCoverInit_follows fun _ s₃ t₃ _ => ?_
    exact .setCoverInit rfl rfl (fun hk _ => hk.1.1.1.2.coverInit) (.pure rfl)

/-- A call of `async` or an arrow function is the same in the other text. -/
theorem asyncCallOrArrow_follows (hg : g.Keeps w) (ctx : Context)
    (hk : s.lexer.token.kind ≠ .endOfFile) :
    Follows w K 2 anywhere (Node.relocate w.relocation) (asyncCallOrArrow g (ctx.widen w.base))
      (asyncCallOrArrow g (w.context ctx)) s t := by
  refine .offset fun start _ => .token (takeIdentifier_follows hk) takeIdentifier_mute
    fun callee s₁ t₁ _ _ => ?_
  refine .setCoverInit rfl rfl (fun _ _ _ => rfl) ?_
  refine .andThen (arrowCover_follows hg ctx) fun cover s₂ t₂ h₂ hb => ?_
  have hc := (arrowCover_meets hg.sound (ctx.widen w.base) h₂.before).ok h₂.run
  refine .atArrow hb.base_lt ?_ ?_
  · refine .setCoverInit rfl rfl (fun hk _ => hk.1.2.coverInit) ?_
    exact coverArrow_follows hg ctx start true (hc.same (hc.took.sound.same rfl rfl rfl
      List.suffix_rfl
      hc.took.sound.isSyntactic)) h₂.base_le
  · refine .bind checkCoverInit_follows fun _ s₃ t₃ h₃ => ?_
    exact .setCoverInit rfl rfl (fun hk _ => hk.1.1.2.coverInit)
      (.node ⟨(h₃.begun hb).base_lt, (h₃.begun hb).implied_lt⟩ fun _ => rfl)

/-- A name or an arrow function is the same in the other text. -/
theorem nameOrArrow_follows (hg : g.Keeps w) (ctx : Context) :
    Follows w K 1 anywhere (Node.relocate w.relocation) (nameOrArrow g (ctx.widen w.base))
      (nameOrArrow g (w.context ctx)) s t := by
  refine .offset fun start _ => .andThen (identifier_follows ctx) fun id s₁ t₁ _ hb => ?_
  exact .atArrow hb.base_lt (arrowFunction_follows hg ctx start (singleParameter id) false)
    (.pure rfl)

/-- What the word `async` starts, by the token behind it and the line that this one is on. -/
def asyncBranch (g : Nested) (ctx : Context) (start : Nat) (afterLineBreak : Bool) (k : TokenKind) :
    Parser Expression := do
  if afterLineBreak then nameOrArrow g ctx
  else if k == .word .functionKw then
    advance
    return .functionExpression (← functionDefinition g ctx start true false)
  else if k.isIdentifierLike then
    advance
    let id ← identifier { ctx with canAwait := true }
    unless ← atArrow do unexpected
    arrowFunction g ctx start (singleParameter id) true
  else if k == .mark .openParen then asyncCallOrArrow g ctx
  else nameOrArrow g ctx

/-- Whether the token behind the word `async` makes it more than a name. -/
def belongsToAsync (afterLineBreak : Bool) (k : TokenKind) : Bool :=
  !afterLineBreak && (k == .word .functionKw || k.isIdentifierLike || k == .mark .openParen)

/-- The word `async` is a name where nothing belongs to it. -/
theorem asyncBranch_eq {ctx : Context} {start : Nat} {afterLineBreak : Bool} {k : TokenKind}
    (h : belongsToAsync afterLineBreak k = false) :
    asyncBranch g ctx start afterLineBreak k = nameOrArrow g ctx := by
  cases afterLineBreak with
  | true => rfl
  | false =>
    obtain ⟨⟨hfunction, hname⟩, hparen⟩ : (_ ∧ _) ∧ _ := by
      simpa only [belongsToAsync, Bool.not_false, Bool.true_and, Bool.or_eq_false_iff] using h
    rw [asyncBranch, if_neg Bool.false_ne_true, hfunction, hname, hparen]
    rfl

/-- What belongs to `async` is taken with it. -/
theorem asyncBranch_follows (hg : g.Keeps w) (ctx : Context) (start : Nat) {afterLineBreak : Bool}
    {k : TokenKind} (hk : s.lexer.token.kind ≠ .endOfFile)
    (hmore : belongsToAsync afterLineBreak k = true) :
    Follows w K 2 anywhere (Node.relocate w.relocation)
      (asyncBranch g (ctx.widen w.base) start afterLineBreak k)
      (asyncBranch g (w.context ctx) (w.start start) afterLineBreak k) s t := by
  refine .ite Iff.rfl (fun hline => ?_) fun _ => ?_
  · rw [belongsToAsync, hline] at hmore
    exact nomatch hmore
  refine .ite Iff.rfl (fun _ => ?_) fun hfunction => .ite Iff.rfl (fun _ => ?_) fun hname =>
    .ite Iff.rfl (fun _ => asyncCallOrArrow_follows hg ctx hk) fun hparen => ?_
  · refine .token (advance_follows hk) advance_mute fun _ s₁ t₁ _ _ => ?_
    exact .map (functionDefinition_follows hg ctx start true false) (fun _ => rfl) fun _ _ => id
  · refine .token (advance_follows hk) advance_mute fun _ s₁ t₁ _ _ => ?_
    refine .andThen (identifier_follows { ctx with canAwait := true }) fun id s₂ t₂ _ hb => ?_
    exact .atArrow hb.base_lt (arrowFunction_follows hg ctx start (singleParameter id) true)
      (.error unexpected_fails.bind)
  · simp [belongsToAsync, hfunction, hname, hparen] at hmore

/-- Where the stretch ends behind the word `async`, it is a name. -/
theorem asyncPrimary_follows (hg : g.Keeps w) (ctx : Context)
    (hk : s.lexer.token.kind = .word .asyncKw) :
    Follows w K 1 anywhere (Node.relocate w.relocation) (asyncPrimary g (ctx.widen w.base))
      (asyncPrimary g (w.context ctx)) s t := by
  have hreread : isReread s.lexer.token.kind = false := by rw [hk]; rfl
  have hne : s.lexer.token.kind ≠ .endOfFile := by simp [hk]
  refine .of_base fun hb hs => .offset fun start _ => ?_
  have hbase : w.base < s.next.consumed :=
    Nat.lt_of_le_of_lt hb.base_le (hs.place.offset_lt_stop hne)
  refine .read (a := s.next.lexer.token) (c := t.next.lexer.token) rfl rfl ?_
  change Follows w K 1 anywhere _
    (asyncBranch g (ctx.widen w.base) start s.next.lexer.token.afterLineBreak
      s.next.lexer.token.kind)
    (asyncBranch g (w.context ctx) (w.start start) t.next.lexer.token.afterLineBreak
    t.next.lexer.token.kind) s t
  cases hmore : belongsToAsync s.next.lexer.token.afterLineBreak s.next.lexer.token.kind with
  | true =>
    refine .loose (.of_ahead (.congr (asyncBranch_follows (K := K ∧ Alike w s.next t.next) hg ctx
      start hne hmore) fun hk _ => ?_) fun hs hb ha hin hk =>
        ⟨hk, InStep.alike_next hin hs hb hne hreread ha⟩)
      (Nat.le_succ 1)
    rw [hk.2.twin.kind, hk.2.lineBreak hbase]
  | false =>
    rw [asyncBranch_eq hmore]
    refine .of_ahead (.congr (nameOrArrow_follows (K := K ∧ (Alike w s.next t.next ∨
      AtEnd t.next.lexer)) hg ctx) fun hk _ => ?_) fun hs hb ha hin hk =>
        ⟨hk, InStep.cases_next hin hs hb hne hreread ha⟩
    rw [asyncBranch_eq]
    rcases hk.2 with hnext | hend
    · rw [hnext.twin.kind, hnext.lineBreak hbase]
      exact hmore
    · rw [hend.lineBreak]
      exact hend.of_kind (motive := fun k => belongsToAsync false k = false) rfl rfl

/-- Behind a private name comes the operator `in`. -/
theorem privateNameIn_run {ctx : Context} {e : Expression} {s' : State}
    (h : privateNameIn ctx s = .ok (e, s')) :
    e.isArrow = false ∧ isInOperator ctx s'.lexer.token.kind = true := by
  unfold privateNameIn at h
  split at h
  · obtain ⟨next, s₁, hpeek, h⟩ := bind_eq_ok h
    cases hpeek
    split at h
    · exact absurd h (unexpected_fails.bind _)
    · rename_i hin
      cases h
      obtain ⟨hnoIn, hkind⟩ : _ ∧ _ := by simpa [Bool.or_eq_true] using hin
      refine ⟨rfl, ?_⟩
      show (s.lexer.scan.token.kind == _ && _) = true
      rw [hkind, hnoIn]
      rfl
  · obtain ⟨t, s₁, -, h⟩ := bind_eq_ok h
    exact absurd h (failHere_fails.bind _)

/-- The operator behind a private name is in the stretch, since the expression does not end before
it. -/
theorem privateNameIn_follows (ctx : Context) (hk : s.lexer.token.kind = .privateName) :
    Follows w K 1 (ends (continues ctx)) (Node.relocate w.relocation)
    (privateNameIn (ctx.widen w.base))
      (privateNameIn (w.context ctx)) s t := by
  have hreread : isReread s.lexer.token.kind = false := by rw [hk]; rfl
  have hne : s.lexer.token.kind ≠ .endOfFile := by simp [hk]
  refine .imp_passed (P := nowhere) ?_ fun e s' hpass hends => ?_
  · refine .ite Iff.rfl (fun _ => ?_) fun _ => .error (.step rfl failHere_fails.bind)
    refine .read (a := s.next.lexer.token) (c := t.next.lexer.token) rfl rfl ?_
    refine .of_ahead_mute ?_ (L := K ∧ Alike w s.next t.next) ?_ fun hs hb ha hin hk =>
      ⟨hk, InStep.alike_next hin hs hb hne hreread ha⟩
    · exact .ite (.bind (.of_fails unexpected_fails) fun _ _ _ => .bind takePrivateName_mute
        fun _ _ _ => .pure) (.bind takePrivateName_mute fun _ _ _ => .pure)
    refine .refuse unexpected_fails (fun hk _ h => ?_) fun _ => ?_
    · rwa [hk.2.twin.kind] at h
    · exact .map (takePrivateName_follows (by simp [hk])) (fun _ => rfl) fun _ _ => False.elim
  · obtain ⟨harrow, hin⟩ := privateNameIn_run hpass.run
    have hin : isInOperator ctx s'.lexer.token.kind = true := hin
    rcases hends with h | h
    · rw [harrow] at h
      cases h
    · rw [continues, hin, Bool.or_true] at h
      cases h

/-- A slash is read again as a regular expression, which then is taken. -/
theorem rescanSlash_follows
    (hk : s.lexer.token.kind = .mark .slash ∨ s.lexer.token.kind = .mark .slashAssign) :
    Follows w K 0 nowhere id (modify fun s => { s with lexer := s.lexer.rescanSlash })
      (modify fun s => { s with lexer := s.lexer.rescanSlash }) s t := by
  intro hs _ _ s' hrun
  cases hrun
  have hstep := Step.slash (p := s.place) hk
  refine ⟨⟨hstep.sound hs.place, hs.isSyntactic⟩, .of_implied (.path (.single hstep)) rfl,
    fun ha hc _ hin => ?_⟩
  exact ⟨_, rfl, InStep.rescanSlash hin hs hk (w.ahead_of_open ha (hc.resolve_right id))⟩

/-- A slash is read again as the same regular expression. -/
theorem slashRegex_follows
    (hk : s.lexer.token.kind = .mark .slash ∨ s.lexer.token.kind = .mark .slashAssign) :
    Follows w K 1 anywhere (Node.relocate w.relocation)
      (do
        modify fun s => { s with lexer := s.lexer.rescanSlash }
        return (.regex (← takeRegex) : Expression))
      (do
        modify fun s => { s with lexer := s.lexer.rescanSlash }
        return (.regex (← takeRegex) : Expression)) s t := by
  refine .before (rescanSlash_follows hk) fun _ s₁ t₁ h₁ => ?_
  have hregex := (rescanSlash_onto h₁.before hk).2
  have hrun := h₁.run
  cases hrun
  exact .map (takeRegex_follows (by rw [hregex]; simp)) (fun _ => rfl) fun _ _ => id

/-- A single token as a node. -/
theorem leaf_follows {f : Span → Expression} {start : Nat}
    (hk : s.lexer.token.kind ≠ .endOfFile)
    (hf : ∀ span, f (w.span span) = (f span).relocate w.relocation) :
    Follows w K 1 anywhere (Node.relocate w.relocation)
      (do
        advance
        return f (← spanFrom start))
      (do
        advance
        return f (← spanFrom (w.start start))) s t :=
  .andThen (advance_follows hk) fun _ _ _ _ hb => .node hb hf

end

/-- An operand without operators is the same in the other text. -/
theorem primary_follows {w : Tandem} {K K₀ : Prop} {s t : State} {g g' : Grammar}
    (hg : g.Keeps w K₀ g') (hK : K → K₀) (ctx : Context) :
    Follows w K 1 (ends (continues ctx)) (Node.relocate w.relocation) (primary g (ctx.widen w.base))
      (primary g' (w.context ctx)) s t := by
  have hn := hg.nested
  unfold primary
  rw [hg.toNested_eq]
  refine .offset fun start _ => .kind ?_
  split
  · rename_i hk
    exact .freely (leaf_follows (by simp [hk]) fun _ => rfl)
  · rename_i hk
    exact .freely (leaf_follows (by simp [hk]) fun _ => rfl)
  · rename_i hk
    exact .freely (leaf_follows (f := (.boolean · true)) (by simp [hk]) fun _ => rfl)
  · rename_i hk
    exact .freely (leaf_follows (f := (.boolean · false)) (by simp [hk]) fun _ => rfl)
  · rename_i hk
    exact .map (takeNumber_follows (by simp [hk])) (fun _ => rfl) fun _ _ _ => trivial
  · rename_i hk
    exact .map (takeBigInt_follows (by simp [hk])) (fun _ => rfl) fun _ _ _ => trivial
  · rename_i hk
    exact .map (takeString_follows (by simp [hk])) (fun _ => rfl) fun _ _ _ => trivial
  · rename_i hk
    exact .freely (slashRegex_follows (Or.inl hk))
  · rename_i hk
    exact .freely (slashRegex_follows (Or.inr hk))
  · rename_i hk
    exact .map (takeRegex_follows (by simp [hk])) (fun _ => rfl) fun _ _ _ => trivial
  · rename_i hk
    exact .map (templateLiteral_follows hn ctx false (by rw [hk]; rfl)) (fun _ => rfl)
      fun _ _ _ => trivial
  · rename_i hk
    exact .map (templateLiteral_follows hn ctx false (by rw [hk]; rfl)) (fun _ => rfl)
      fun _ _ _ => trivial
  · exact .freely (parenthesizedOrArrow_follows hn ctx)
  · exact .freely (arrayLiteral_follows hn ctx)
  · exact .freely (objectLiteral_follows hn ctx)
  · exact .map (functionDefinition_follows hn ctx start false false) (fun _ => rfl)
      fun _ _ _ => trivial
  · exact .map (classDefinition_follows hg hK ctx false) (fun _ => rfl) fun _ _ _ => trivial
  · rename_i hk
    exact .freely (asyncPrimary_follows hn ctx hk)
  · rename_i hk
    exact privateNameIn_follows ctx hk
  · exact .ite Iff.rfl (fun _ => .freely (nameOrArrow_follows hn ctx)) fun _ =>
      .error unexpected_fails

end Parser

end EcmaScript
