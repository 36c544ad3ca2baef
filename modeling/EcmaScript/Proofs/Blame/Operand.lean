import EcmaScript.Proofs.Blame.Expression
import EcmaScript.Proofs.Slice.Reading

/-!
# Places that operands and operators blame

What stands in parentheses may be blamed when the parser knows already what comes behind them: at
one of its nodes, behind its last comma, or at the closing parenthesis. An operator blames the
start of an operand. A template ends each substitution that it starts.
-/

namespace EcmaScript.Parser

open Sketch

section

variable {text : String} {s : State} {g : Nested} {ctx : Context} {place : Nat} {D : List Nat}

/-- The brace that ends a substitution is read again at the same place, as a piece of the
template. -/
theorem resume_leads (hk : s.lexer.token.kind = .mark .closeBrace) :
    Leads text (0 :: D) D (modify fun s => { s with lexer := s.lexer.rescanTemplate }) s := by
  intro hs
  have hstep := Place.Step.template (p := s.place) hk
  have hle := hstep.offset_le hs.sound.place
  obtain ⟨readings, r, ht, hl⟩ := hs.legal
  refine ⟨hs.later ⟨hstep.sound hs.sound.place, hs.sound.isSyntactic⟩ ?_ hle rfl rfl rfl, hle, ?_⟩
  · exact ⟨readings, _, ht.template hk, hl⟩
  · exact .single (.resume hk)

/-- A head or a middle starts a substitution, the other pieces of a template count nothing. -/
theorem template_leads {tail : Bool} (hk : s.lexer.token.kind.isTemplate = true)
    (htail : tail = (s.lexer.token.kind == .template || s.lexer.token.kind == .templateTail)) :
    Leads text D (if tail then D else 0 :: D) advance s := by
  have hne : ∀ {k : TokenKind}, k.isTemplate = false → s.lexer.token.kind ≠ k := by
    rintro k hkind rfl
    exact nomatch hk.symm.trans hkind
  have h : Leads text D (countToken s.lexer.token.kind D) advance s :=
    advance_leads (hne rfl) (hne rfl) fun h => absurd h (hne rfl)
  have hcount : countToken s.lexer.token.kind D = if tail then D else 0 :: D := by
    rw [htail]
    cases hkind : s.lexer.token.kind <;> rw [hkind] at hk <;> first | rfl | exact nomatch hk
  rwa [hcount] at h

/-- A piece of a template with an invalid escape is blamed where it starts. -/
theorem templateElement_careful (tagged : Bool) (s : State) :
    Careful text (templateElement tagged) s :=
  .read (a := s.lexer.token) rfl (.refuse (fun _ => failHere_blames rfl) fun _ => .pure)

/-- A piece of a template is only looked at. -/
theorem templateElement_ok {tagged : Bool} {element : TemplateElement} {s' : State}
    (h : templateElement tagged s = .ok (element, s')) : s' = s ∧
      element.tail = (s.lexer.token.kind == .template || s.lexer.token.kind == .templateTail) := by
  have h := read_ok (a := s.lexer.token) rfl h
  obtain ⟨-, h⟩ := refuse_ok (fun _ _ => failHere_ok) h
  obtain ⟨rfl, rfl⟩ := pure_ok h
  exact ⟨rfl, rfl⟩

/-- What is read behind a substitution is a piece of the template. -/
theorem isTemplate_resumed (lexer : Lexer) :
    lexer.rescanTemplate.token.kind.isTemplate = true := by
  rw [Lexer.rescanTemplate_eq]
  show (if _ then TokenKind.templateMiddle else .templateTail).isTemplate = true
  split <;> rfl

/-- A template ends each substitution that it starts. -/
theorem templateLiteral_careful (hg : g.Cares text) (ctx : Context) (tagged : Bool)
    (hk : s.lexer.token.kind.isTemplate = true) :
    Careful text (templateLiteral g ctx tagged) s := by
  refine .read rfl ((iterate_leads (I := fun _ s => s.lexer.token.kind.isTemplate = true)
    (fun (quasis, expressions) s hk => ?_) (fun (quasis, expressions) s parts' s' _ _ hrun => ?_)
    hk).bind fun _ _ _ => .node)
  · refine (templateElement_careful tagged s).bind_of fun element s₁ h₁ _ => ?_
    obtain ⟨rfl, htail⟩ := templateElement_ok h₁
    refine (template_leads hk htail).bind fun _ s₂ _ => ?_
    cases element.tail with
    | true => exact .pure
    | false =>
      refine (hg.expression _ s₂).bind fun e s₃ _ => .read rfl ?_
      refine .require (fun _ => unexpected_blames) fun hclose => ?_
      exact (resume_leads (eq_of_beq hclose)).bind fun _ _ _ => .pure
  · obtain ⟨element, s₁, -, hrun⟩ := bind_ok hrun
    obtain ⟨-, s₂, -, hrun⟩ := bind_ok hrun
    rcases ite_ok hrun with ⟨-, hrun⟩ | ⟨-, hrun⟩
    · exact nomatch (pure_ok hrun).1
    · obtain ⟨e, s₃, -, hrun⟩ := bind_ok hrun
      have hrun := read_ok (a := s₃.lexer.token.kind == .mark .closeBrace) rfl hrun
      obtain ⟨-, hrun⟩ := refuseNot_ok (fun _ _ => unexpected_ok) hrun
      cases hrun
      exact isTemplate_resumed s₃.lexer

/-- A spread is one token before what is spread. -/
theorem spreadable_careful {p : Parser Expression} (h : ∀ s, Careful text p s) (s : State) :
    Careful text (spreadable p) s := by
  refine .read rfl ((eat_careful rfl).bind fun _ s₁ _ => .ite (fun _ => ?_) fun _ => h s₁)
  exact (h s₁).bind fun _ _ _ => .node

/-- Notes may change, as long as the commas that are noted have been come to. -/
theorem State.Mindful.withNotes (hs : s.Mindful text) {notes : CoverNotes}
    (h : ∀ note ∈ notes.spreadCommas, s.Met text note.2) :
    ({ s with notes } : State).Mindful text :=
  ⟨⟨hs.sound.place, hs.sound.isSyntactic⟩, hs.legal, hs.coverInit, hs.suspension, h⟩

/-- The comma behind a spread is noted when it is the current token. -/
theorem arrayElements_careful (hg : g.Cares text) (ctx : Context) (array : Nat) (s : State) :
    Careful text (arrayElements g ctx array) s := by
  refine many_careful fun s => .kind ?_
  split
  · exact .pure
  · rename_i hk
    exact (advance_careful (by rw [hk]; rfl)).bind fun _ _ _ => .pure
  · refine (spreadable_careful (hg.assignment ctx) s).bind fun element s₁ _ => .isAt fun _ => ?_
    have hend : ∀ s, Careful text (do
        unless ← isAt (.mark .closeBracket) do expect (.mark .comma)
        return some (some element)) s := fun s => .itemEnd fun _ => .pure
    refine .read (p := peek) rfl (.ite (fun _ => .offset fun hcomma => ?_) fun _ => hend s₁)
    refine .remember rfl rfl (fun hs₁ => hs₁.withNotes ?_) (hend _)
    exact List.forall_mem_cons.mpr ⟨hcomma, hs₁.spreadComma⟩

/-- An array stands in brackets, which count nothing. -/
theorem arrayLiteral_careful (hg : g.Cares text) (ctx : Context) (s : State) :
    Careful text (arrayLiteral g ctx) s := by
  refine .read rfl ((expect_careful rfl).bind fun _ s₁ _ => ?_)
  refine (arrayElements_careful hg _ _ s₁).bind fun _ s₂ _ => ?_
  exact (expect_careful rfl).bind fun _ _ _ => .node

/-- The place of a default is remembered until a pattern claims it. -/
theorem shorthandMember_careful (hg : g.Cares text) (ctx : Context) (start : Nat)
    (name : Identifier) (s : State) : Careful text (shorthandMember g ctx start name) s := by
  refine .isAt_of (fun hk => .offset fun hplace => ?_) .node
  refine .remember rfl rfl (fun hs => hs.withCoverInit (hs.coverInit.or ?_)) ?_
  · rintro place ⟨⟩
    exact hplace
  · refine (advance_careful (by rw [hk]; rfl)).bind fun _ s₁ _ => ?_
    exact (hg.value ctx s₁).bind fun _ _ _ => .node

/-- A property may be blamed at its key when more has been read. -/
theorem objectProperty_careful (hg : g.Cares text) (ctx : Context) (s : State) :
    Careful text (objectProperty g ctx) s := by
  refine .read rfl ((modifiers_careful _ s).bind fun m s₁ _ => .of_mindful fun hs₁ => ?_)
  have hplace := hs₁.sound.met_offset
  refine .read (a := s₁.lexer.token) rfl ?_
  refine (propertyKey_careful hg ctx false s₁).bind fun key s₂ h₂ => .isAt fun _ => ?_
  refine .ite (fun _ => ?_) fun _ => .ite (fun _ => unexpected_leads) fun _ => ?_
  · exact (methodFunction_careful hg ctx _ _ _ _ s₂).bind fun _ _ _ => .node
  · refine (eat_careful rfl).bind fun _ s₃ h₃ => .ite (fun _ => ?_) fun _ => ?_
    · exact (hg.assignment ctx s₃).bind fun _ _ _ => .node
    · refine (shorthandName_careful ((hplace.later h₂).later h₃)).bind fun name s₄ _ => ?_
      exact shorthandMember_careful hg ctx _ name s₄

/-- A member of an object is a spread or a property. -/
theorem objectMember_careful (hg : g.Cares text) (ctx : Context) (s : State) :
    Careful text (objectMember g ctx) s := by
  refine .read rfl ((eat_careful rfl).bind fun _ s₁ _ => .ite (fun _ => ?_) fun _ => ?_)
  · exact (hg.assignment ctx s₁).bind fun _ _ _ => .node
  · exact objectProperty_careful hg ctx s₁

/-- An object closes the brace that it opens. -/
theorem objectLiteral_careful (hg : g.Cares text) (ctx : Context) (s : State) :
    Careful text (objectLiteral g ctx) s := by
  refine .read rfl (openBrace_leads.bind fun _ s₁ _ => ?_)
  refine (commaList_careful (objectMember_careful hg _)).bind fun _ s₂ _ => ?_
  exact closeBrace_leads.bind fun _ _ _ => .node

/-- What stands in parentheses is read without deciding what it is. -/
theorem coverParenthesized_careful (hg : g.Cares text) (ctx : Context) (s : State) :
    Careful text (coverParenthesized g ctx) s := by
  refine .read rfl ((expect_careful rfl).bind fun _ s₁ _ => ?_)
  refine Leads.bind (iterate_careful fun (items, trailingComma) s => .isAt fun _ =>
    .ite (fun _ => .pure) fun _ => ?_) fun _ s₂ _ => (expect_careful rfl).bind fun _ _ _ => .node
  refine (spreadable_careful (hg.assignment _) s).bind fun item s₁ _ => .isAt fun _ => ?_
  refine .ite (fun _ => .pure) fun _ => (expect_careful rfl).bind fun _ s₂ _ => .isAt fun _ => ?_
  exact .ite (fun _ => .read rfl (Leads.pure.bind fun _ _ _ => .pure))
    fun _ => Leads.pure.bind fun _ _ _ => .pure

/-- The places besides the nodes in parentheses that can be blamed: behind a comma that no
expression follows, and at the closing parenthesis. -/
structure Closes (text : String) (cover : Cover.Parenthesized) (s : State) : Prop where
  comma : s.Recalls text cover.trailingComma
  closing : s.Met text (Position.offset cover.span.stop - 1)

/-- The mark of a single byte that was taken last starts one byte before its end. -/
theorem State.Sound.met_last {p : Punctuator} {t : Token} (hs : s.Sound text) (ht : t ∈ s.taken)
    (hk : t.kind = .mark p) (hp : p.text.length = 1) (hlen : byteLength p.text.toList = 1)
    (hstop : t.stop.offset = s.consumed) : s.Met text (s.consumed - 1) := by
  obtain ⟨readings, r, before, htrace, rfl, -⟩ := hs.place.taken t ht
  obtain ⟨cs, hc⟩ := htrace.mark_spelled hk
  have hend : before.token.stop.offset = before.token.start.offset + 1 := by
    have hrest := hc.symm
    obtain ⟨c, hpc⟩ := List.length_eq_one_iff.mp ((String.length_toList).trans hp)
    rw [hpc] at hrest hlen
    rw [htrace.stop_of_mark hk, hp, Cursor.next_eq hrest]
    simp only [byteLength_cons, byteLength_nil] at hlen
    show before.token.start.offset + c.utf8Size = _
    omega
  have hplace : before.token.start.offset = s.consumed - 1 := by omega
  rw [← hplace]
  refine hs.met_of_le htrace.place.1.isBoundary ?_
  omega

/-- The places that can be blamed besides the expressions are known behind the parenthesis. -/
theorem coverParenthesized_closes (hg : g.Sound text) (ctx : Context) (hs : s.Sound text) :
    Meets text (coverParenthesized g ctx) s fun cover s' => Closes text cover s' := by
  refine .step rfl (.expect hs rfl fun s₁ h₁ => .bind (P := fun r s' => s'.Sound text ∧
    s'.Recalls text r.2) ?_ fun r s₂ h₂ => ?_)
  · refine iterate_meets (I := fun a s' => s'.Sound text ∧ s'.Recalls text a.2)
      (fun _ _ h => h.1) ?_ ⟨h₁.sound, nofun⟩
    rintro ⟨items, trailingComma⟩ s₂ ⟨h₂, hc⟩
    refine .step rfl (.ite (fun _ => .pure ⟨h₂, hc⟩) fun _ => ?_)
    refine .bind (spreadable_makes (hg.assignment _) s₂ h₂) fun item s₃ h₃ => .step rfl ?_
    refine .ite (fun _ => .pure ⟨h₃.1.sound, hc.later h₃.1.offset_le⟩) fun _ => ?_
    refine .expect h₃.1.sound rfl fun s₄ h₄ => .step rfl (.ite (fun _ => ?_) fun _ => ?_)
    · refine .step rfl (.step rfl (.pure ⟨h₄.sound, ?_⟩))
      rintro place ⟨⟩
      exact h₄.sound.met_offset
    · exact .step rfl (.pure ⟨h₄.sound, nofun⟩)
  · refine .bind (P := fun _ s' => s₂.offset ≤ s'.offset ∧ s'.Met text (s'.consumed - 1)) ?_
      fun _ s₃ h₃ => .step rfl (.pure ⟨h₂.2.later h₃.1, h₃.2⟩)
    refine .eatLast h₂.1 rfl (fun s₃ h₃ hlast _ => .pure ?_) (unexpected_meets h₂.1)
    obtain ⟨t, ht, hk, hstop⟩ := hlast
    exact ⟨h₃.offset_le, h₃.sound.met_last ht hk rfl rfl hstop⟩

/-- What follows the parentheses does not matter for what stands in them. -/
theorem arrowCover_ok {cover : Cover.Parenthesized} {s' : State}
    (h : arrowCover g ctx s = .ok (cover, s')) :
    ∃ s₁, coverParenthesized g ctx { s with suspension := none } = .ok (cover, s₁) ∧
      s'.lexer = s₁.lexer := by
  obtain ⟨_, _, hclear, h⟩ := bind_ok (read_ok (p := get) rfl h)
  cases hclear
  obtain ⟨inner, s₁, hinner, h⟩ := bind_ok h
  obtain ⟨_, s₂, hset, h⟩ := bind_ok (read_ok (p := get) rfl h)
  cases hset
  refine ⟨s₁, ?_⟩
  cases hsus : s₁.suspension with
  | none =>
    rw [hsus] at h
    obtain ⟨rfl, rfl⟩ := pure_ok h
    exact ⟨hinner, rfl⟩
  | some fault =>
    rw [hsus] at h
    obtain ⟨-, h⟩ := refuse_ok (fun _ _ => fail_ok) (read_ok (p := atArrow) rfl h)
    obtain ⟨rfl, rfl⟩ := pure_ok h
    exact ⟨hinner, rfl⟩

/-- What suspends in parentheses is blamed only if an arrow follows. -/
theorem arrowCover_careful (hg : g.Cares text) (ctx : Context) (s : State) :
    Careful text (arrowCover g ctx) s := by
  refine .of_mindful fun hs => .read (p := get) (a := s) rfl ?_
  refine .remember rfl rfl (fun _ => hs.withSuspension nofun nofun) ?_
  refine (coverParenthesized_careful hg ctx _).bind fun cover s₁ h₁ => .of_mindful fun hs₁ => ?_
  refine .read (p := get) (a := s₁) rfl (.remember rfl rfl (fun _ => hs₁.withSuspension ?_ ?_) ?_)
  · rw [Option.map_or]
    exact (hs.suspension.later h₁).or hs₁.suspension
  · intro fault hf
    rcases Option.or_eq_some_iff.mp hf with hf | ⟨_, hf⟩
    · exact hs.sound.isSyntactic fault hf
    · exact hs₁.sound.isSyntactic fault hf
  · cases hsus : s₁.suspension with
    | none => exact .pure
    | some fault =>
      have hplace : s₁.Met text fault.offset := hs₁.suspension _ (by rw [hsus]; rfl)
      refine .read (p := atArrow) rfl (.refuse (fun _ => ?_) fun _ => .pure)
      exact fail_blames hplace (hs₁.sound.isSyntactic fault hsus)

/-- What was read between parentheses, and the places that can be blamed. -/
structure CoverMet (text : String) (cover : Cover.Parenthesized) (s : State) : Prop
    extends Closes text cover s where
  items : AllStart (s.Met text) (Node.sketchExpressions cover.items)

/-- All that can be blamed of what stands in parentheses has been come to. -/
theorem arrowCover_coverMet {cover : Cover.Parenthesized} {s' : State} (hg : g.Sound text)
    (hs : s.Sound text) (h : arrowCover g ctx s = .ok (cover, s')) : CoverMet text cover s' := by
  obtain ⟨s₁, hinner, hlexer⟩ := arrowCover_ok h
  have hcovered := (arrowCover_meets hg ctx hs).ok h
  have hclear : ({ s with suspension := none } : State).Sound text := ⟨hs.place, nofun⟩
  have hcloses := (coverParenthesized_closes hg ctx hclear).ok hinner
  have hle : s₁.offset ≤ s'.offset :=
    Nat.le_of_eq (congrArg (fun lexer => lexer.token.start.offset) hlexer).symm
  exact ⟨⟨hcloses.comma.later hle, hcloses.closing.later hle⟩,
    hcovered.took.sound.allStart hcovered.items_placed⟩

/-- What is no parameter is blamed before the body is read. -/
theorem coverArrow_careful (hg : g.Cares text) (ctx : Context) (start : Nat)
    {cover : Cover.Parenthesized} (isAsync : Bool) (h : CoverMet text cover s) :
    Careful text (coverArrow g ctx start cover isAsync) s := by
  refine .of_mindful fun hs => .read (p := get) (a := s) rfl ?_
  refine (orFail_careful (Cover.toParameters_refusesAt hs.spreadComma h.items)).bind
    fun params s₁ _ => ?_
  exact arrowFunction_careful hg ctx _ params _ s₁

/-- What is no expression is blamed behind the parentheses. -/
theorem coverExpression_careful {cover : Cover.Parenthesized} (h : CoverMet text cover s) :
    Careful text (coverExpression cover) s := by
  refine (orFail_careful (Cover.toExpression_refusesAt h.items h.comma h.closing)).bind
    fun e s₁ _ => .ite (fun _ => .remember rfl rfl (fun hs => ?_) .pure) fun _ => .pure
  exact hs.withNotes hs.spreadComma

/-- Unclaimed defaults before the parentheses are remembered behind them. -/
theorem parenthesizedOrArrow_careful (hg : g.Cares text) (ctx : Context) (s : State) :
    Careful text (parenthesizedOrArrow g ctx) s := by
  refine .read rfl (.takeCoverInit fun houter => .of_mindful fun hs => ?_)
  refine (arrowCover_careful hg ctx _).bind_of fun cover s₁ hrun h₁ => ?_
  have hcover := arrowCover_coverMet hg.sound hs.sound hrun
  refine .read (p := atArrow) rfl (.ite (fun _ => ?_) fun _ => ?_)
  · refine .setCoverInit (houter.later h₁) ?_
    refine coverArrow_careful hg ctx _ _ ?_
    exact ⟨⟨hcover.comma, hcover.closing⟩, hcover.items⟩
  · refine (coverExpression_careful hcover).bind fun e s₂ h₂ => ?_
    refine checkCoverInit_careful.bind fun _ s₃ h₃ => ?_
    exact .setCoverInit (((houter.later h₁).later h₂).later h₃) .pure

/-- What stands in the parentheses becomes parameters or arguments. -/
theorem asyncCallOrArrow_careful (hg : g.Cares text) (ctx : Context)
    (hk : isUncounted s.lexer.token.kind = true) : Careful text (asyncCallOrArrow g ctx) s := by
  refine .read rfl ((takeAs_careful hk).bind fun callee s₁ _ => ?_)
  refine .takeCoverInit fun houter => .of_mindful fun hs => ?_
  refine (arrowCover_careful hg ctx _).bind_of fun cover s₂ hrun h₂ => ?_
  have hcover := arrowCover_coverMet hg.sound hs.sound hrun
  refine .read (p := atArrow) rfl (.ite (fun _ => ?_) fun _ => ?_)
  · refine .setCoverInit (houter.later h₂) ?_
    refine coverArrow_careful hg ctx _ _ ?_
    exact ⟨⟨hcover.comma, hcover.closing⟩, hcover.items⟩
  · refine checkCoverInit_careful.bind fun _ s₃ h₃ => ?_
    exact .setCoverInit ((houter.later h₂).later h₃) .node

/-- A name is a parameter if an arrow follows. -/
theorem nameOrArrow_careful (hg : g.Cares text) (ctx : Context) (s : State) :
    Careful text (nameOrArrow g ctx) s := by
  refine .read rfl ((identifier_careful ctx s).bind fun id s₁ _ => ?_)
  refine .read (p := atArrow) rfl (.ite (fun _ => ?_) fun _ => .pure)
  exact arrowFunction_careful hg ctx _ _ _ s₁

/-- The word `async` starts a function, a call or a name. -/
theorem asyncPrimary_careful (hg : g.Cares text) (ctx : Context)
    (hk : isUncounted s.lexer.token.kind = true) : Careful text (asyncPrimary g ctx) s := by
  refine .read rfl (.read (p := peek) rfl (.ite (fun _ => nameOrArrow_careful hg ctx s)
    fun _ => ?_))
  refine .ite (fun _ => (advance_careful hk).bind fun _ s₁ _ => ?_) fun _ => .ite (fun _ => ?_)
    fun _ => ?_
  · exact (functionDefinition_careful hg ctx _ _ _ s₁).map
  · refine (advance_careful hk).bind fun _ s₁ _ => (identifier_careful _ s₁).bind fun id s₂ _ => ?_
    refine .read (p := atArrow) rfl (.require (fun _ => unexpected_blames) fun _ => ?_)
    exact arrowFunction_careful hg ctx _ _ _ s₂
  · exact .ite (fun _ => asyncCallOrArrow_careful hg ctx hk) fun _ => nameOrArrow_careful hg ctx s

/-- A private name without its operator is unexpected. -/
theorem privateNameIn_careful (ctx : Context) (hk : isUncounted s.lexer.token.kind = true) :
    Careful text (privateNameIn ctx) s := by
  refine .ite (fun _ => ?_) fun _ => ?_
  · refine .read (p := peek) rfl (.refuse (fun _ => unexpected_blames) fun _ => ?_)
    exact (takeAs_careful hk).map
  · exact .read (p := token) rfl (failHere_blames rfl).cut

/-- A slash is read again as a regular expression at the same place. -/
theorem rescanSlash_careful
    (hk : s.lexer.token.kind = .mark .slash ∨ s.lexer.token.kind = .mark .slashAssign) :
    Careful text (do
      modify fun s => { s with lexer := s.lexer.rescanSlash }
      return Node.regex (← takeRegex)) s := by
  intro D
  have hread : Leads text D D (modify fun s => { s with lexer := s.lexer.rescanSlash }) s := by
    intro hs
    have hstep := Place.Step.slash (p := s.place) hk
    have hle := hstep.offset_le hs.sound.place
    obtain ⟨readings, r, ht, hl⟩ := hs.legal
    refine ⟨hs.later ⟨hstep.sound hs.sound.place, hs.sound.isSyntactic⟩ ?_ hle rfl rfl rfl, hle, ?_⟩
    · exact ⟨readings, _, ht.slash hk, hl⟩
    · exact .single (.slash hk)
  have hkind : s.lexer.rescanSlash.token.kind = .regex := by
    rw [Lexer.rescanSlash_eq hk]
    exact Lexer.kind_regexLiteral _
  refine hread.bind_of fun _ s₁ h₁ _ => (takeAs_careful ?_).map
  cases h₁
  show isUncounted s.lexer.rescanSlash.token.kind = true
  rw [hkind]
  rfl

/-- Operands without operators are told apart by their first token. -/
theorem primary_careful {g : Grammar} (hg : g.Cares text) (ctx : Context) (s : State) :
    Careful text (primary g ctx) s := by
  have hn := hg.toCares
  intro D
  refine .read rfl (.kind ?_)
  split
  · rename_i hk
    exact (advance_careful (by rw [hk]; rfl)).bind fun _ _ _ => .node
  · rename_i hk
    exact (advance_careful (by rw [hk]; rfl)).bind fun _ _ _ => .node
  · rename_i hk
    exact (advance_careful (by rw [hk]; rfl)).bind fun _ _ _ => .node
  · rename_i hk
    exact (advance_careful (by rw [hk]; rfl)).bind fun _ _ _ => .node
  · rename_i hk
    exact (takeAs_careful (by rw [hk]; rfl)).map
  · rename_i hk
    exact (takeAs_careful (by rw [hk]; rfl)).map
  · rename_i hk
    exact (takeAs_careful (by rw [hk]; rfl)).map
  · exact rescanSlash_careful (Or.inl ‹_›)
  · exact rescanSlash_careful (Or.inr ‹_›)
  · rename_i hk
    exact (takeAs_careful (by rw [hk]; rfl)).map
  · rename_i hk
    exact (templateLiteral_careful hn ctx false (by rw [hk]; rfl)).map
  · rename_i hk
    exact (templateLiteral_careful hn ctx false (by rw [hk]; rfl)).map
  · exact parenthesizedOrArrow_careful hn ctx s
  · exact arrayLiteral_careful hn ctx s
  · exact objectLiteral_careful hn ctx s
  · exact (functionDefinition_careful hn ctx _ _ _ s).map
  · exact (classDefinition_careful hg ctx _ s).map
  · rename_i hk
    exact asyncPrimary_careful hn ctx (by rw [hk]; rfl)
  · rename_i hk
    exact privateNameIn_careful ctx (by rw [hk]; rfl)
  · exact .ite (fun _ => nameOrArrow_careful hn ctx s) fun _ => unexpected_leads

/-- Whether an arrow function is complete is only looked at. -/
theorem Leads.completeArrow {α : Type} {f : Bool → Parser α} {e : Expression}
    (h : ∀ b, Careful text (f b) s) : Careful text (isCompleteArrow e >>= f) s := by
  obtain ⟨b, hb⟩ := isCompleteArrow_run e s
  exact .read hb (h b)

/-- A name behind a dot is one token. -/
theorem memberName_careful (ctx : Context) (s : State) : Careful text (memberName ctx) s := by
  refine .read (a := s.lexer.token) rfl (.ite (fun hk => ?_) fun _ => ?_)
  · refine .require (fun _ => failHere_blames rfl) fun _ => ?_
    exact (takeAs_careful (by rw [eq_of_beq hk]; rfl)).map
  · refine .ite (fun hname => ?_) fun _ => unexpected_leads
    exact (takeAs_careful (isUncounted_of_isIdentifierName hname)).map

/-- A computed property stands in brackets, which count nothing. -/
theorem computedMember_careful (hg : g.Cares text) (ctx : Context) (s : State) :
    Careful text (computedMember g ctx) s :=
  (expect_careful rfl).bind fun _ s₁ _ => (hg.expression _ s₁).bind fun _ _ _ =>
    (expect_careful rfl).bind fun _ _ _ => .pure

/-- Arguments stand in parentheses, which count nothing. -/
theorem arguments_careful (hg : g.Cares text) (ctx : Context) (s : State) :
    Careful text (arguments g ctx) s :=
  (expect_careful rfl).bind fun _ _ _ =>
    (commaList_careful (spreadable_careful (hg.value _))).bind fun _ _ _ =>
      (expect_careful rfl).bind fun _ _ _ => .pure

/-- Behind the mark of an optional link no template can stand. -/
theorem optionalLink_careful (hg : g.Cares text) (ctx : Context) (start : Nat)
    (object : Expression) (s : State) : Careful text (optionalLink g ctx start object) s := by
  refine .kind ?_
  split
  · exact (arguments_careful hg ctx s).bind fun _ _ _ => .node
  · exact (computedMember_careful hg ctx s).bind fun _ _ _ => .node
  · exact failHere_leads rfl
  · exact failHere_leads rfl
  · exact (memberName_careful ctx s).bind fun _ _ _ => .node

/-- What is attached to an operand starts with the current token. -/
theorem attach_careful (hg : g.Cares text) (ctx : Context) (start : Nat) (behindNew : Bool)
    (operand : Expression) (chained : Bool) (s : State) :
    Careful text (attach g ctx start behindNew operand chained s.lexer.token.kind) s := by
  unfold attach
  split
  · rename_i hk
    refine (advance_careful (by rw [hk]; rfl)).bind fun _ s₁ _ => ?_
    exact (memberName_careful ctx s₁).bind fun _ _ _ => .node
  · rename_i hk
    refine .refuse (fun _ => failHere_blames rfl) fun _ => ?_
    refine (advance_careful (by rw [hk]; rfl)).bind fun _ s₁ _ => ?_
    exact (optionalLink_careful hg ctx start operand s₁).map
  · exact (computedMember_careful hg ctx s).bind fun _ _ _ => .node
  · exact .ite (fun _ => .pure) fun _ => (arguments_careful hg ctx s).bind fun _ _ _ => .node
  · rename_i hk
    refine .refuse (fun _ => failHere_blames rfl) fun _ => ?_
    exact (templateLiteral_careful hg ctx true (by rw [hk]; rfl)).bind fun _ _ _ => .node
  · rename_i hk
    refine .refuse (fun _ => failHere_blames rfl) fun _ => ?_
    exact (templateLiteral_careful hg ctx true (by rw [hk]; rfl)).bind fun _ _ _ => .node
  · exact .pure

/-- An unclaimed default is blamed before anything is attached to it. -/
theorem subscripts_careful (hg : g.Cares text) (ctx : Context) (start : Nat) (behindNew : Bool)
    (operand : Expression) (s : State) :
    Careful text (subscripts g ctx start behindNew operand) s := by
  refine (iterate_careful fun (operand, chained) s => ?_).bind fun (e, chained) s₁ _ =>
    .ite (fun _ => .node) fun _ => .pure
  rw [subscript_eq]
  refine .kind (.ite (fun _ => ?_) fun _ => attach_careful hg ctx start behindNew operand chained s)
  refine checkCoverInit_careful.bind_of fun _ s₁ h₁ _ => ?_
  rw [← checkCoverInit_ok h₁]
  exact attach_careful hg ctx start behindNew operand chained s

/-- The word `super` is blamed where it stands if nothing fits behind it. -/
theorem superBase_careful (ctx : Context) (hk : isUncounted s.lexer.token.kind = true) :
    Careful text (superBase ctx) s := by
  refine .offset fun hplace => (advance_careful hk).bind fun _ s₁ h₁ => .kind ?_
  exact .require (fun _ => fail_blames (hplace.later h₁) rfl) fun _ => .node

/-- The word `new` is blamed where it stands if there is no function around it. -/
theorem newTarget_careful {start : Nat} (hplace : s.Met text start)
    (hk : isUncounted s.lexer.token.kind = true) : Careful text (newTarget ctx start) s := by
  refine .read rfl ((advance_careful hk).bind fun _ s₁ h₁ => ?_)
  refine .read (a := s₁.lexer.token.kind == .word .targetKw) rfl ?_
  refine .require (fun _ => unexpected_blames) fun htarget => ?_
  refine .require (fun _ => fail_blames (hplace.later h₁) rfl) fun _ => ?_
  exact (takeAs_careful (by rw [eq_of_beq htarget]; rfl)).bind fun _ _ _ => .node

/-- Behind `new` there is a dot or an operand. -/
theorem construct_careful {g : Grammar} (hg : g.Cares text) (ctx : Context)
    (hk : isUncounted s.lexer.token.kind = true) : Careful text (construct g ctx) s := by
  refine .offset fun hplace => (advance_careful hk).bind fun _ s₁ h₁ => ?_
  refine .isAt_of (fun hdot => newTarget_careful (hplace.later h₁) (by rw [hdot]; rfl))
    (.read rfl ?_)
  refine (hg.newCallee ctx s₁).bind fun callee s₂ _ => ?_
  refine (subscripts_careful hg.toCares ctx _ _ callee s₂).bind fun callee s₃ _ => .isAt fun _ => ?_
  refine .ite (fun _ => ?_) fun _ => Leads.pure.bind fun _ _ _ => .node
  exact (arguments_careful hg.toCares ctx s₃).bind fun _ _ _ => .node

/-- An operand starts with `new`, with `super` or as an operand without operators. -/
theorem operandBase_careful {g : Grammar} (hg : g.Cares text) (ctx : Context) (s : State) :
    Careful text (operandBase g ctx) s := by
  refine .kind ?_
  split
  · rename_i hk
    exact construct_careful hg ctx (by rw [hk]; rfl)
  · rename_i hk
    exact superBase_careful ctx (by rw [hk]; rfl)
  · exact primary_careful hg ctx s

/-- An arrow function is complete, and nothing is attached to it. -/
theorem operand_careful {g : Grammar} (hg : g.Cares text) (ctx : Context) (s : State) :
    Careful text (operand g ctx) s := by
  refine .read rfl (.takeCoverInit fun houter => (operandBase_careful hg ctx _).bind
    fun base s₁ h₁ => ?_)
  refine .completeArrow fun _ => .ite (fun _ => ?_) fun _ => ?_
  · exact Leads.pure.bind fun _ s₂ h₂ => .mergeCoverInit ((houter.later h₁).later h₂) .pure
  · refine (subscripts_careful hg.toCares ctx _ _ base s₁).bind fun _ s₂ h₂ => ?_
    exact .mergeCoverInit ((houter.later h₁).later h₂) .pure

/-- With the recursion over heritages all parsers of a construct are careful. -/
theorem Nested.Cares.grammar (hg : g.Cares text) : g.grammar.Cares text where
  toCares := hg
  heritage ctx s := by
    refine recursive_careful fun again hagain ctx s => ?_
    exact operand_careful (g := { g with heritage := again }) ⟨hg, hagain⟩ ctx s

/-- A power behind a unary operator is blamed at its mark. -/
theorem rejectPower_careful (s : State) : Careful text rejectPower s :=
  .isAt fun _ => .ite (fun _ => failHere_leads rfl) fun _ => .pure

/-- An operand that cannot be changed is blamed where it starts. -/
theorem postfixExpression_careful {g : Grammar} (hg : g.Cares text) (ctx : Context) (s : State) :
    Careful text (postfixExpression g ctx) s := by
  refine .offset fun hplace => (operand_careful hg ctx s).bind fun e s₁ h₁ => .kind ?_
  cases hop : UpdateOperator.ofKind? s₁.lexer.token.kind with
  | none => exact .pure
  | some operator =>
    have hk := isUncounted_of_eq_some rfl hop
    refine .read (p := afterLineBreak) rfl (.completeArrow fun _ => .ite (fun _ => .pure)
      fun _ => ?_)
    refine .require (fun _ => fail_blames (hplace.later h₁) rfl) fun _ => ?_
    exact (advance_careful hk).bind fun _ _ _ => .node

/-- What cannot be changed is blamed where it starts, behind the operator. -/
theorem prefixUpdate_careful {g : Grammar} (hg : g.Cares text) (ctx : Context)
    (operator : UpdateOperator) (hk : isUncounted s.lexer.token.kind = true) :
    Careful text (prefixUpdate g ctx operator) s := by
  refine .read rfl ((advance_careful hk).bind fun _ s₁ _ => .offset fun hplace => ?_)
  refine (hg.unary ctx s₁).bind fun e s₂ h₂ => ?_
  exact .require (fun _ => fail_blames (hplace.later h₂) rfl) fun _ => .node

/-- A unary operator counts nothing. -/
theorem unaryOperation_careful {g : Grammar} (hg : g.Cares text) (ctx : Context)
    (operator : UnaryOperator) (hk : isUncounted s.lexer.token.kind = true) :
    Careful text (unaryOperation g ctx operator) s := by
  refine .read rfl ((advance_careful hk).bind fun _ s₁ _ => (hg.unary ctx s₁).bind fun e s₂ _ => ?_)
  exact (rejectPower_careful s₂).bind fun _ _ _ => .node

/-- Waiting is remembered as a suspension. -/
theorem awaitOperation_careful {g : Grammar} (hg : g.Cares text) (ctx : Context)
    (hk : isUncounted s.lexer.token.kind = true) : Careful text (awaitOperation g ctx) s := by
  unfold awaitOperation
  refine .refuse (fun _ => failHere_blames rfl) fun _ => .read rfl ?_
  refine (noteSuspension_careful rfl).bind_of fun _ s₁ h₁ _ => ?_
  cases h₁
  refine Leads.bind (advance_careful hk) fun _ s₂ _ => ?_
  refine (hg.unary ctx s₂).bind fun e s₃ _ => ?_
  exact (rejectPower_careful s₃).bind fun _ _ _ => .node

/-- Unary operators are told apart by the current token. -/
theorem unaryExpression_careful {g : Grammar} (hg : g.Cares text) (ctx : Context) (s : State) :
    Careful text (unaryExpression g ctx) s := by
  refine .kind ?_
  cases hu : UnaryOperator.ofKind? s.lexer.token.kind with
  | some operator => exact unaryOperation_careful hg ctx operator (isUncounted_of_eq_some rfl hu)
  | none =>
    cases hop : UpdateOperator.ofKind? s.lexer.token.kind with
    | some operator => exact prefixUpdate_careful hg ctx operator (isUncounted_of_eq_some rfl hop)
    | none =>
      refine .ite (fun hk => awaitOperation_careful hg ctx ?_) fun _ =>
        postfixExpression_careful hg ctx s
      rw [eq_of_beq (Bool.and_eq_true_iff.mp hk).1]
      rfl

/-- Operators that do not mix are blamed where the right operand starts. -/
theorem binaryOperation_careful {g : Grammar} (hg : g.Cares text) (ctx : Context)
    (min : Precedence) (start : Nat) (left : Expression) (operator : BinaryOperator)
    (hk : isUncounted s.lexer.token.kind = true) :
    Careful text (binaryOperation g ctx min start left operator) s := by
  unfold binaryOperation
  refine .refuse (fun _ => unexpected_blames) fun _ => .refuse (fun _ => unexpected_blames)
    fun _ => ?_
  refine (advance_careful hk).bind fun _ s₁ _ => .of_mindful fun hs₁ => ?_
  have hplace := hs₁.sound.met_offset
  refine .read rfl ((hg.binary ctx _ s₁).bind fun right s₂ h₂ => ?_)
  exact .refuse (fun _ => fail_blames (hplace.later h₂) rfl) fun _ => .node

/-- An operator that binds more tightly than the given one takes its operand. -/
theorem binaryExpression_careful {g : Grammar} (hg : g.Cares text) (ctx : Context)
    (min : Precedence) (s : State) : Careful text (binaryExpression g ctx min) s := by
  refine .read rfl ((unaryExpression_careful hg ctx s).bind fun left s₁ _ => ?_)
  refine .completeArrow fun _ => .ite (fun _ => .pure) fun _ => ?_
  refine iterate_careful fun left s => .read rfl ?_
  cases hop : (BinaryOperator.ofKind? s.lexer.token.kind).filter fun operator =>
      !(operator == .isIn && ctx.noIn) && min < operator.precedence with
  | none => exact .pure
  | some operator =>
    have hk := isUncounted_of_eq_some rfl (Option.filter_eq_some_iff.mp hop).1
    exact (binaryOperation_careful hg ctx min _ left operator hk).map

/-- The marks of a condition count nothing. -/
theorem conditionalExpression_careful {g : Grammar} (hg : g.Cares text) (ctx : Context)
    (s : State) : Careful text (conditionalExpression g ctx) s := by
  refine .read rfl ((binaryExpression_careful hg ctx 0 s).bind fun test s₁ _ => ?_)
  refine .read (a := s₁.lexer.token.kind == .mark .question) rfl
    (.completeArrow fun _ => .ite (fun _ => .pure) fun hk => ?_)
  have hk : isUncounted s₁.lexer.token.kind = true := by
    simp only [Bool.or_eq_true, Bool.not_eq_true', not_or, Bool.not_eq_false] at hk
    rw [eq_of_beq hk.1]
    rfl
  refine (advance_careful hk).bind fun _ s₂ _ => (hg.value _ s₂).bind fun _ s₃ _ => ?_
  exact (expect_careful rfl).bind fun _ s₄ _ => (hg.value _ s₄).bind fun _ _ _ => .node

/-- Yielding is remembered as a suspension. -/
theorem yieldExpression_careful {g : Grammar} (hg : g.Cares text) (ctx : Context)
    (hk : isUncounted s.lexer.token.kind = true) : Careful text (yieldExpression g ctx) s := by
  unfold yieldExpression
  refine .refuse (fun _ => failHere_blames rfl) fun _ => .read rfl ?_
  refine (noteSuspension_careful rfl).bind_of fun _ s₁ h₁ _ => ?_
  cases h₁
  refine Leads.bind (advance_careful hk) fun _ s₂ _ => ?_
  refine .read (p := afterLineBreak) rfl (.ite (fun _ => .node) fun _ => ?_)
  refine (eat_careful rfl).bind fun delegate s₃ _ => .kind (.ite (fun _ => ?_) fun _ => ?_)
  · exact (hg.value _ s₃).bind fun _ _ _ => Leads.pure.bind fun _ _ _ => .node
  · exact Leads.pure.bind fun _ _ _ => .node

/-- What is no target is blamed at one of its nodes. -/
theorem assignmentTarget_careful (operator : AssignmentOperator) {outer : Option Nat}
    {left : Expression} (houter : s.Recalls text outer)
    (hleft : AllStart (s.Met text) left.sketch) :
    Careful text (assignmentTarget operator outer left) s := by
  refine .of_mindful fun hs => .ite (fun _ => ?_) fun _ => ?_
  · refine .setCoverInit houter (.read (p := get) rfl (orFail_careful ?_))
    exact Cover.toTarget_refusesAt hs.spreadComma rfl hleft
  · exact .mergeCoverInit houter (orFail_careful (Cover.toSimpleTarget_refusesAt hleft))

/-- Behind a mark of assignment the left side is made a target. -/
theorem assignmentExpression_careful {g : Grammar} (hg : g.Cares text) (hm : g.Sound text)
    (ctx : Context) (s : State) : Careful text (assignmentExpression g ctx) s := by
  refine .read (a := s.lexer.token.kind == .word .yieldKw) rfl (.ite (fun hk => ?_) fun _ => ?_)
  · refine yieldExpression_careful hg ctx ?_
    rw [eq_of_beq (Bool.and_eq_true_iff.mp hk).1]
    rfl
  refine .read rfl (.takeCoverInit fun houter => ?_)
  refine (conditionalExpression_careful hg ctx _).bind_meets
    (conditionalExpression_makes hm ctx _) fun left s₁ hleft h₁ => ?_
  refine .completeArrow fun complete => .kind ?_
  cases hop : (AssignmentOperator.ofKind? s₁.lexer.token.kind).filter fun _ => !complete with
  | none => exact .mergeCoverInit (houter.later h₁) .pure
  | some operator =>
    have hk := isUncounted_of_eq_some rfl (Option.filter_eq_some_iff.mp hop).1
    have hstarts := hleft.1.sound.allStart hleft.2
    refine (assignmentTarget_careful operator (houter.later h₁) hstarts).bind_meets
      (fun hs => assignmentTarget_meets operator _ hs hleft.2) fun target s₂ h₂ _ => ?_
    rw [← h₂.1.lexer_eq] at hk
    exact (advance_careful hk).bind fun _ s₃ _ => (hg.value _ s₃).bind fun _ _ _ => .node

end

end EcmaScript.Parser
