import EcmaScript.Proofs.Machine.Nested

/-!
# Registers are restored

A machine with fuel for all levels that may be entered runs as the parsers do. So it is never out
of fuel, and every parsing function puts back the registers that it has changed: the flags, the
depth of nesting, and what a function notes about its statements. At the labels only whether they
are labels of loops may change, their names stay.
-/

namespace EcmaScript

open EcmaScript.Parser

namespace Machine

section

variable {text : String} {d n : Nat} {r : Registers} {s s' : State} {g : Nested}
  {g' : Parser.Nested}

/-- A template runs in the machine as in the parser, and gives back the registers. -/
theorem templateLiteral_runs {tagged : Bool} (hg : g.RunsAs text d g') (hr : r.depth = d) :
    Runs text d n r r (templateLiteral g tagged)
      (Parser.templateLiteral g' r.context tagged) := by
  refine .step fun _ => .bind (.iterate (fun a => ?_) (fun a => ?_) _) fun _ => .step fun _ => .pure
  · refine .step fun _ => .step fun _ => .ite (fun _ => .pure) fun _ => ?_
    exact .bind (.allowIn (hg.expression hr)) fun _ => .rescanTemplate .pure
  · have hgoes := Goes.of_makes (hg.sound.expression_makes r.context.allowIn)
    refine .step fun element => .step fun _ => .ite (.pure rfl) ?_
    have hrest := fun (e : Expression) => keeps_rescanTemplate text (p := Pure.pure
      (Round.next (β := List TemplateElement × List Expression) (element :: a.1, e :: a.2)))
    exact hgoes.bind.progresses

/-- What may be spread runs as in the parser if it does so by itself. -/
theorem spreadable_runs {m : Machine Expression} {p : Parser Expression}
    (h : Runs text d n r r m p) : Runs text d n r r (spreadable m) (Parser.spreadable p) :=
  .step fun _ => .step fun _ => .ite (fun _ => .bind h fun _ => .step fun _ => .pure) fun _ => h

/-- The elements of an array run in the machine as in the parser. -/
theorem arrayElements_runs {array : Nat} (hg : g.RunsAs text d g') (hr : r.depth = d) :
    Runs text d n r r (arrayElements g array)
      (Parser.arrayElements g' r.context array) := by
  have hnotes := fun comma => keeps_notes text fun s => s.notes.addSpreadComma array comma
  have helement := spreadable_makes (hg.sound.assignment r.context)
  refine .many (.step fun k => ?_) (.kind fun k s a s' hs hk h hc => ?_)
  · have hrun : Runs text d n r r (do
        let element ← spreadable g.assignment
        if k == .mark .ellipsis && (← isAt (.mark .comma)) &&
            (← peek).kind == .mark .closeBracket then
          let comma ← offset
          (modify fun s => { s with notes := s.notes.addSpreadComma array comma } : Parser Unit)
        unless ← isAt (.mark .closeBracket) do expect (.mark .comma)
        return some (some element)) (do
        let element ← Parser.spreadable (g'.assignment r.context)
        if k == .mark .ellipsis && (← isAt (.mark .comma)) &&
            (← peek).kind == .mark .closeBracket then
          let comma ← offset
          modify fun s => { s with notes := s.notes.addSpreadComma array comma }
        unless ← isAt (.mark .closeBracket) do expect (.mark .comma)
        return some (some element)) := by
      refine .bind (spreadable_runs (hg.assignment hr)) fun _ => .step fun _ => .step fun _ =>
        .ite (fun _ => .step fun _ => .step fun _ => ?_) fun _ => ?_
      · exact .step fun _ => .require .pure
      · exact .step fun _ => .require .pure
    cases k with
    | mark p =>
      cases p with
      | closeBracket => exact .pure
      | comma => exact .step fun _ => .pure
      | _ => exact hrun
    | _ => exact hrun
  · have hgoes : Goes text (do
        let element ← Parser.spreadable (g'.assignment r.context)
        if k == .mark .ellipsis && (← isAt (.mark .comma)) &&
            (← peek).kind == .mark .closeBracket then
          let comma ← offset
          modify fun s => { s with notes := s.notes.addSpreadComma array comma }
        unless ← isAt (.mark .closeBracket) do expect (.mark .comma)
        return some (some element) : Parser (Option (Option Expression))) :=
      (Goes.of_makes helement).bind (k := fun _ => inferInstance)
    cases k with
    | mark p =>
      cases p with
      | closeBracket => exact (Progresses.pure rfl).lt hs h hc
      | comma => exact consumed_lt_of_advance hs (by simp [hk]) h
      | _ => exact hgoes.progresses.lt hs h hc
    | _ => exact hgoes.progresses.lt hs h hc

/-- An array runs in the machine as in the parser. -/
theorem arrayLiteral_runs (hg : g.RunsAs text d g') (hr : r.depth = d) :
    Runs text d n r r (arrayLiteral g) (Parser.arrayLiteral g' r.context) :=
  .step fun _ => .step fun _ => .bind (.allowIn (arrayElements_runs hg hr)) fun _ =>
    .step fun _ => .step fun _ => .pure

/-- A name alone runs as a member as it does in the parser. -/
theorem shorthandMember_runs {start : Nat} {name : Identifier} (hg : g.RunsAs text d g')
    (hr : r.depth = d) :
    Runs text d n r r (shorthandMember g start name)
      (Parser.shorthandMember g' r.context start name) := by
  have hmark := fun place : Nat => keeps_coverInit text fun s => s.coverInit.or (some place)
  refine .step fun _ => .ite (fun _ => .step fun _ => .step fun _ => .step fun _ => ?_) fun _ => ?_
  · exact .bind (hg.value hr) fun _ => .step fun _ => .pure
  · exact .step fun _ => .pure

/-- A property runs in the machine as in the parser. -/
theorem objectProperty_runs (hg : g.RunsAs text d g') (hr : r.depth = d) :
    Runs text d n r r (objectProperty g) (Parser.objectProperty g' r.context) := by
  refine .step fun _ => .step fun _ => .step fun _ => .bind (propertyKey_runs hg hr) fun _ =>
    .step fun _ => .ite (fun _ => ?method) fun _ => .ite (fun _ => .lift) fun _ =>
      .step fun _ => .ite (fun _ => ?value) fun _ => ?shorthand
  case method => exact .bind (methodFunction_runs hg hr) fun _ => .step fun _ => .pure
  case value => exact .bind (hg.assignment hr) fun _ => .step fun _ => .pure
  case shorthand => exact .bind .reading fun _ => shorthandMember_runs hg hr

/-- A member of an object runs in the machine as in the parser. -/
theorem objectMember_runs (hg : g.RunsAs text d g') (hr : r.depth = d) :
    Runs text d n r r (objectMember g) (Parser.objectMember g' r.context) := by
  refine .step fun _ => .step fun _ => .ite (fun _ => ?_) fun _ => objectProperty_runs hg hr
  exact .bind (hg.assignment hr) fun _ => .step fun _ => .pure

/-- An object runs in the machine as in the parser. -/
theorem objectLiteral_runs (hg : g.RunsAs text d g') (hr : r.depth = d) :
    Runs text d n r r (objectLiteral g) (Parser.objectLiteral g' r.context) := by
  have hmakes := objectMember_makes hg.sound r.context.allowIn
  exact .step fun _ => .step fun _ => .bind (.allowIn (.commaList (objectMember_runs hg hr) hmakes))
    fun _ => .step fun _ => .step fun _ => .pure

/-- What stands in parentheses runs in the machine as in the parser. -/
theorem coverParenthesized_runs (hg : g.RunsAs text d g') (hr : r.depth = d) :
    Runs text d n r r (coverParenthesized g) (Parser.coverParenthesized g' r.context) := by
  refine .step fun _ => .step fun _ => .bind (.allowIn (.iterate (fun _ => ?_) (fun _ => ?_) _))
    fun _ => .step fun _ => .step fun _ => .pure
  · refine .step fun _ => .ite (fun _ => .pure) fun _ =>
      .bind (spreadable_runs (hg.assignment hr)) fun _ => .step fun _ => ?_
    refine .ite (fun _ => .pure) fun _ => .step fun _ => .step fun _ => .ite (fun _ => ?_)
      fun _ => ?_
    · exact .step fun _ => .pure
    · exact .pure
  · have hgoes := Goes.of_makes (spreadable_makes (hg.sound.assignment r.context.allowIn))
    exact .step fun _ => .ite (.pure rfl) hgoes.bind.progresses

/-- The operator that suspends the function is put back too, if no arrow follows. -/
theorem arrowCover_runs (hg : g.RunsAs text d g') (hr : r.depth = d) :
    Runs text d n r r (arrowCover g) (Parser.arrowCover g' r.context) := by
  intro s hs hn
  have h₁ : Later text s { s with suspension := none } :=
    .same hs.sound rfl rfl rfl rfl fun _ hf => absurd hf.symm (Option.some_ne_none _)
  refine .step rfl (.step rfl (.bind (coverParenthesized_runs hg hr _ (h₁.proper hs) hn) ?_))
  rintro cover _ s₂ ⟨rfl, h₂⟩
  have hl : ∀ inner, s₂.suspension = inner →
      Later text s { s₂ with suspension := s.suspension.or inner } := by
    intro inner hinner
    refine (h₁.trans h₂).trans (.same h₂.sound rfl rfl rfl rfl fun fault hf => ?_)
    rcases Option.or_eq_some_iff.mp hf with hf | ⟨-, hf⟩
    · exact hs.sound.isSyntactic fault hf
    · exact h₂.sound.isSyntactic fault (hinner.trans hf)
  refine .step rfl (.step rfl ?_)
  cases hinner : s₂.suspension with
  | none => exact Runs.after .pure hs hn (hl _ hinner)
  | some fault => exact Runs.after (.step fun _ => .refuse .pure) hs hn (hl _ hinner)

/-- Parentheses become an arrow function in the machine as in the parser. -/
theorem coverArrow_runs {start : Nat} {cover : Cover.Parenthesized} {isAsync : Bool}
    (hg : g.RunsAs text d g') (hr : r.depth = d) :
    Runs text d n r r (coverArrow g start cover isAsync)
      (Parser.coverArrow g' r.context start cover isAsync) :=
  .step fun _ => .step fun _ => arrowFunction_runs hg hr

/-- Parentheses run as in the parser, whatever they become. -/
theorem parenthesizedOrArrow_runs (hg : g.RunsAs text d g') (hr : r.depth = d) :
    Runs text d n r r (parenthesizedOrArrow g) (Parser.parenthesizedOrArrow g' r.context) := by
  refine .step fun _ => .step fun _ => .bind (arrowCover_runs hg hr) fun _ =>
    .step fun _ => .ite (fun _ => .step fun _ => coverArrow_runs hg hr) fun _ => ?_
  exact .step fun _ => .step fun _ => .step fun _ => .pure

/-- A call of `async` or an arrow function runs as in the parser. -/
theorem asyncCallOrArrow_runs (hg : g.RunsAs text d g') (hr : r.depth = d) :
    Runs text d n r r (asyncCallOrArrow g) (Parser.asyncCallOrArrow g' r.context) := by
  refine .step fun _ => .step fun _ => .step fun _ => .bind (arrowCover_runs hg hr) fun _ =>
    .step fun _ => .ite (fun _ => .step fun _ => coverArrow_runs hg hr) fun _ => ?_
  exact .step fun _ => .step fun _ => .step fun _ => .pure

/-- A name or an arrow function of it runs as in the parser. -/
theorem nameOrArrow_runs (hg : g.RunsAs text d g') (hr : r.depth = d) :
    Runs text d n r r (nameOrArrow g) (Parser.nameOrArrow g' r.context) :=
  .step fun _ => .bind .reading fun _ => .step fun _ =>
    .ite (fun _ => arrowFunction_runs hg hr) fun _ => .pure

/-- Whatever begins with `async` runs as in the parser. -/
theorem asyncPrimary_runs (hg : g.RunsAs text d g') (hr : r.depth = d) :
    Runs text d n r r (asyncPrimary g) (Parser.asyncPrimary g' r.context) := by
  refine .step fun _ => .step fun _ => .ite (fun _ => nameOrArrow_runs hg hr) fun _ =>
    .ite (fun _ => ?function) fun _ => .ite (fun _ => ?arrow) fun _ =>
      .ite (fun _ => asyncCallOrArrow_runs hg hr) fun _ => nameOrArrow_runs hg hr
  case function => exact .step fun _ => .bind (functionDefinition_runs hg hr) fun _ => .pure
  case arrow =>
    refine .step fun _ => .bind (.withFlags .reading) fun _ => .step fun _ => .require ?_
    exact arrowFunction_runs hg hr

/-- A key in brackets runs in the machine as in the parser. -/
theorem computedMember_runs (hg : g.RunsAs text d g') (hr : r.depth = d) :
    Runs text d n r r (computedMember g) (Parser.computedMember g' r.context) :=
  .step fun _ => .bind (.allowIn (hg.expression hr)) fun _ => .step fun _ => .pure

/-- Arguments run in the machine as in the parser. -/
theorem arguments_runs (hg : g.RunsAs text d g') (hr : r.depth = d) :
    Runs text d n r r (arguments g) (Parser.arguments g' r.context) := by
  have hmakes := spreadable_makes (hg.sound.value_makes r.context.allowIn)
  exact .step fun _ => .bind (.allowIn (.commaList (spreadable_runs (hg.value hr)) hmakes)) fun _ =>
    .step fun _ => .pure

/-- An optional link runs in the machine as in the parser. -/
theorem optionalLink_runs {start : Nat} {object : Expression} (hg : g.RunsAs text d g')
    (hr : r.depth = d) :
    Runs text d n r r (optionalLink g start object)
      (Parser.optionalLink g' r.context start object) := by
  refine .step fun k => ?_
  cases k with
  | mark p =>
    cases p with
    | openParen => exact .bind (arguments_runs hg hr) fun _ => .step fun _ => .pure
    | openBracket => exact .bind (computedMember_runs hg hr) fun _ => .step fun _ => .pure
    | _ => exact .bind .reading fun _ => .step fun _ => .pure
  | template => exact .lift
  | templateHead => exact .lift
  | _ => exact .bind .reading fun _ => .step fun _ => .pure

/-- What is attached to an operand runs in the machine as in the parser. -/
theorem attach_runs {start : Nat} {behindNew chained : Bool} {operand : Expression} {k : TokenKind}
    (hg : g.RunsAs text d g') (hr : r.depth = d) :
    Runs text d n r r (attach g start behindNew operand chained k)
      (Parser.attach g' r.context start behindNew operand chained k) := by
  unfold attach Parser.attach
  cases k with
  | mark p =>
    cases p with
    | dot => exact .step fun _ => .bind .reading fun _ => .step fun _ => .pure
    | questionDot =>
      dsimp only
      exact .refuse (.step fun _ => .bind (optionalLink_runs hg hr) fun _ => .pure)
    | openBracket => exact .bind (computedMember_runs hg hr) fun _ => .step fun _ => .pure
    | openParen =>
      refine .ite (fun _ => .pure) fun _ => .bind (arguments_runs hg hr) fun _ => ?_
      exact .step fun _ => .pure
    | _ => exact .pure
  | template =>
    dsimp only
    exact .refuse (.bind (templateLiteral_runs hg hr) fun _ => .step fun _ => .pure)
  | templateHead =>
    dsimp only
    exact .refuse (.bind (templateLiteral_runs hg hr) fun _ => .step fun _ => .pure)
  | _ => exact .pure

/-- An optional link goes on in the text. -/
theorem goes_optionalLink {ctx : Context} {start : Nat} {object : Expression}
    (hg : g'.Sound text) : Goes text (Parser.optionalLink g' ctx start object) := by
  have hmember : Goes text (memberName ctx) := Goes.of_makes (memberName_makes ctx)
  refine .step fun k => ?_
  cases k with
  | mark p =>
    cases p with
    | openParen => exact (Goes.of_makes (arguments_makes hg ctx)).bind
    | openBracket => exact (Goes.of_makes (computedMember_makes hg ctx)).bind
    | _ => exact hmember.bind
  | template => exact .failHere
  | templateHead => exact .failHere
  | _ => exact hmember.bind

/-- What is attached is a token at least. -/
theorem attach_progresses {ctx : Context} {start : Nat} {behindNew chained : Bool}
    {operand : Expression} {round : Round (Expression × Bool) (Expression × Bool)}
    (hg : g'.Sound text) (hs : s.Sound text)
    (h : Parser.attach g' ctx start behindNew operand chained s.lexer.token.kind s =
      .ok (round, s'))
    (hnext : round.isNext = true) : s.consumed < s'.consumed := by
  have hdone : ∀ a : Expression × Bool,
      Progresses text Round.isNext (Pure.pure (Round.done (σ := Expression × Bool) a)) :=
    fun _ => .pure rfl
  have htemplate := fun hk => (templateLiteral_meets hg ctx true hs hk).imp
    fun _ _ h => And.intro h.1.sound h.1.lt
  unfold Parser.attach at h
  generalize hk : s.lexer.token.kind = k at h
  cases k with
  | mark p =>
    cases p with
    | dot =>
      have hname : Goes text (memberName ctx) := Goes.of_makes (memberName_makes ctx)
      exact (Goes.step fun _ => hname.bind).progresses.lt hs h hnext
    | questionDot =>
      dsimp only at h
      exact (Goes.refuse (.step fun _ => (goes_optionalLink hg).bind)).progresses.lt hs h hnext
    | openBracket =>
      exact (Goes.of_makes (computedMember_makes hg ctx)).bind.progresses.lt hs h hnext
    | openParen =>
      have hcall := Goes.of_makes (arguments_makes hg ctx)
      exact (Progresses.ite (hdone _) hcall.bind.progresses).lt hs h hnext
    | _ => exact (hdone _).lt hs h hnext
  | template =>
    obtain ⟨-, h⟩ := refuse_ok (fun _ _ h => (failHere_ok h).elim) h
    exact consumed_lt_of_first hs (htemplate (by rw [hk]; rfl)) h
  | templateHead =>
    obtain ⟨-, h⟩ := refuse_ok (fun _ _ h => (failHere_ok h).elim) h
    exact consumed_lt_of_first hs (htemplate (by rw [hk]; rfl)) h
  | _ => exact (hdone _).lt hs h hnext

/-- All calls and accesses of an operand run in the machine as in the parser. -/
theorem subscripts_runs {start : Nat} {behindNew : Bool} {operand : Expression}
    (hg : g.RunsAs text d g') (hr : r.depth = d) :
    Runs text d n r r (subscripts g start behindNew operand)
      (Parser.subscripts g' r.context start behindNew operand) := by
  refine .bind (.iterate (fun a => ?_) (fun a => ?_) _) fun _ =>
    .ite (fun _ => .step fun _ => .pure) fun _ => .pure
  · exact .step fun _ => .refuse (attach_runs hg hr)
  · obtain ⟨operand, chained⟩ := a
    rw [subscript_eq]
    refine .kind fun k s a s' hs hk h hc => ?_
    subst hk
    rcases ite_ok h with ⟨-, h⟩ | ⟨-, h⟩
    · obtain ⟨u, s₁, hcheck, h⟩ := bind_ok h
      obtain rfl := checkCoverInit_ok hcheck
      exact attach_progresses hg.sound hs h hc
    · exact attach_progresses hg.sound hs h hc

end

section

variable {text : String} {d n : Nat} {r : Registers} {g : Grammar} {g' : Parser.Grammar}

/-- A primary expression runs in the machine as in the parser. -/
theorem primary_runs (hg : g.RunsAs text d n g') (hr : r.depth = d) :
    Runs text d n r r (primary g) (Parser.primary g' r.context) := by
  have hword : ∀ {start : Nat} {make : Span → Expression}, Runs text d n r r (do
      advance
      return make (← spanFrom start)) (do
      advance
      return make (← spanFrom start)) := .step fun _ => .step fun _ => .pure
  have hname : ∀ {k : TokenKind}, Runs text d n r r
      (if k.isIdentifierLike || k == .escapedReservedWord then nameOrArrow g.toNested
        else unexpected)
      (if k.isIdentifierLike || k == .escapedReservedWord then
        Parser.nameOrArrow g'.toNested r.context else unexpected) :=
    .ite (fun _ => nameOrArrow_runs hg.toRunsAs hr) fun _ => .lift
  refine .step fun start => .kind fun k s hs hn hk => ?_
  cases k with
  | mark p =>
    cases p with
    | slash =>
      refine .step rfl (Runs.after ?_ hs hn (.rescanSlash hs.sound (.inl hk)))
      exact .step fun _ => .pure
    | slashAssign =>
      refine .step rfl (Runs.after ?_ hs hn (.rescanSlash hs.sound (.inr hk)))
      exact .step fun _ => .pure
    | openParen => exact parenthesizedOrArrow_runs hg.toRunsAs hr s hs hn
    | openBracket => exact arrayLiteral_runs hg.toRunsAs hr s hs hn
    | openBrace => exact objectLiteral_runs hg.toRunsAs hr s hs hn
    | _ => exact hname s hs hn
  | word w =>
    cases w with
    | thisKw => exact hword s hs hn
    | nullKw => exact hword s hs hn
    | trueKw => exact hword s hs hn
    | falseKw => exact hword s hs hn
    | functionKw =>
      exact Runs.bind (functionDefinition_runs hg.toRunsAs hr) (fun _ => .pure) s hs hn
    | classKw => exact Runs.bind (classDefinition_runs hg hr) (fun _ => .pure) s hs hn
    | asyncKw => exact asyncPrimary_runs hg.toRunsAs hr s hs hn
    | _ => exact hname s hs hn
  | number => exact Runs.step (fun _ => .pure) s hs hn
  | bigInt => exact Runs.step (fun _ => .pure) s hs hn
  | string => exact Runs.step (fun _ => .pure) s hs hn
  | regex => exact Runs.step (fun _ => .pure) s hs hn
  | template => exact Runs.bind (templateLiteral_runs hg.toRunsAs hr) (fun _ => .pure) s hs hn
  | templateHead => exact Runs.bind (templateLiteral_runs hg.toRunsAs hr) (fun _ => .pure) s hs hn
  | privateName => exact Runs.reading s hs hn
  | _ => exact hname s hs hn

/-- A construction runs in the machine as in the parser. -/
theorem construct_runs (hg : g.RunsAs text d n g') (hr : r.depth = d) :
    Runs text d n r r (construct g) (Parser.construct g' r.context) := by
  refine .step fun _ => .step fun _ => .step fun _ => .ite (fun _ => .reading) fun _ => ?_
  refine .step fun _ => .bind (hg.newCallee hr) fun _ =>
    .bind (subscripts_runs hg.toRunsAs hr) fun _ => .step fun _ => .ite (fun _ => ?_) fun _ => ?_
  · exact .bind (arguments_runs hg.toRunsAs hr) fun _ => .step fun _ => .pure
  · exact .bind .pure fun _ => .step fun _ => .pure

/-- What an operand begins with runs in the machine as in the parser. -/
theorem operandBase_runs (hg : g.RunsAs text d n g') (hr : r.depth = d) :
    Runs text d n r r (operandBase g) (Parser.operandBase g' r.context) := by
  refine .step fun k => ?_
  cases k with
  | word w =>
    cases w with
    | newKw => exact construct_runs hg hr
    | superKw => exact .reading
    | _ => exact primary_runs hg hr
  | _ => exact primary_runs hg hr

/-- An operand runs in the machine as in the parser. -/
theorem operand_runs (hg : g.RunsAs text d n g') (hr : r.depth = d) :
    Runs text d n r r (operand g) (Parser.operand g' r.context) := by
  refine .step fun _ => .step fun _ => .bind (operandBase_runs hg hr) fun _ => .step fun _ =>
    .ite (fun _ => .bind .pure fun _ => .step fun _ => .pure) fun _ => ?_
  exact .bind (subscripts_runs hg.toRunsAs hr) fun _ => .step fun _ => .pure

/-- The heritage of a class in the heritage of a class has fuel for all of its levels. -/
theorem heritage_runs {g : Nested} {g' : Parser.Nested} (hg : g.RunsAs text d g')
    (hr : r.depth = d) : Runs text d n r r g.heritage (g'.heritage r.context) :=
  .recursive (fun _ _ _ h _ hr => operand_runs ⟨hg, h _⟩ hr) hr

/-- With constructs that run as the parser's, the whole grammar does. -/
theorem Nested.RunsAs.grammar {g : Nested} {g' : Parser.Nested} (hg : g.RunsAs text d g') :
    g.grammar.RunsAs text d n g'.grammar := ⟨hg, heritage_runs hg⟩

/-- An operator behind an operand runs in the machine as in the parser. -/
theorem postfixExpression_runs (hg : g.RunsAs text d n g') (hr : r.depth = d) :
    Runs text d n r r (postfixExpression g) (Parser.postfixExpression g' r.context) := by
  refine .step fun _ => .bind (operand_runs hg hr) fun _ => .step fun k => ?_
  cases UpdateOperator.ofKind? k with
  | none => exact .pure
  | some operator =>
    refine .step fun _ => .step fun _ => .ite (fun _ => .pure) fun _ => .require ?_
    exact .step fun _ => .step fun _ => .pure

/-- Counting up or down before the use runs as in the parser. -/
theorem prefixUpdate_runs {operator : UpdateOperator} (hg : g.RunsAs text d n g')
    (hr : r.depth = d) :
    Runs text d n r r (prefixUpdate g operator) (Parser.prefixUpdate g' r.context operator) :=
  .step fun _ => .step fun _ => .step fun _ => .bind (hg.unary hr) fun _ =>
    .require (.step fun _ => .pure)

/-- A prefixed operator runs in the machine as in the parser. -/
theorem unaryOperation_runs {operator : UnaryOperator} (hg : g.RunsAs text d n g')
    (hr : r.depth = d) :
    Runs text d n r r (unaryOperation g operator) (Parser.unaryOperation g' r.context operator) :=
  .step fun _ => .step fun _ => .bind (hg.unary hr) fun _ => .step fun _ => .step fun _ => .pure

/-- Waiting runs in the machine as in the parser. -/
theorem awaitOperation_runs (hg : g.RunsAs text d n g') (hr : r.depth = d) :
    Runs text d n r r (awaitOperation g) (Parser.awaitOperation g' r.context) := by
  have hnote : Keeps text (noteSuspension .awaitInParameters) := keeps_noteSuspension text rfl
  unfold awaitOperation Parser.awaitOperation
  refine .registers (.refuse (.step fun _ => .step fun _ => .step fun _ =>
    .bind (hg.unary hr) fun _ => ?_))
  exact .step fun _ => .step fun _ => .pure

/-- Operators in front of an operand run in the machine as in the parser. -/
theorem unaryExpression_runs (hg : g.RunsAs text d n g') (hr : r.depth = d) :
    Runs text d n r r (unaryExpression g) (Parser.unaryExpression g' r.context) := by
  refine .step fun k => ?_
  cases UnaryOperator.ofKind? k with
  | some operator => exact unaryOperation_runs hg hr
  | none =>
    cases UpdateOperator.ofKind? k with
    | some operator => exact prefixUpdate_runs hg hr
    | none =>
      exact .registers (.ite (fun _ => awaitOperation_runs hg hr) fun _ =>
        postfixExpression_runs hg hr)

/-- An operator with its right operand runs in the machine as in the parser. -/
theorem binaryOperation_runs {min : Precedence} {start : Nat} {left : Expression}
    {operator : BinaryOperator} (hg : g.RunsAs text d n g') (hr : r.depth = d) :
    Runs text d n r r (binaryOperation g min start left operator)
      (Parser.binaryOperation g' r.context min start left operator) := by
  unfold binaryOperation Parser.binaryOperation
  exact .refuse (.refuse (.step fun _ => .step fun _ => .bind (hg.binary hr) fun _ =>
    .refuse (.step fun _ => .pure)))

/-- An operator with its right operand goes on in the text. -/
theorem goes_binaryOperation {ctx : Context} {min : Precedence} {start : Nat} {left : Expression}
    {operator : BinaryOperator} (hg : g'.toNested.Sound text) :
    Goes text (Parser.binaryOperation g' ctx min start left operator) := by
  have hright := Goes.of_makes (hg.binary ctx operator.rightPrecedence)
  unfold Parser.binaryOperation
  exact .refuse (.refuse (.step fun _ => .step fun _ => hright.bind))

/-- A chain of operators runs in the machine as in the parser. -/
theorem binaryExpression_runs {min : Precedence} (hg : g.RunsAs text d n g') (hr : r.depth = d) :
    Runs text d n r r (binaryExpression g min) (Parser.binaryExpression g' r.context min) := by
  refine .step fun _ => .bind (unaryExpression_runs hg hr) fun _ => .step fun _ =>
    .ite (fun _ => .pure) fun _ => .iterate (fun _ => ?_) (fun _ => ?_) _
  · refine .bind .reading fun operator? => ?_
    cases operator? with
    | none => exact .pure
    | some operator => exact .bind (binaryOperation_runs hg hr) fun _ => .pure
  · refine .step fun operator? => ?_
    cases operator? with
    | none => exact .pure rfl
    | some operator => exact (goes_binaryOperation hg.sound).bind.progresses

/-- A choice runs in the machine as in the parser. -/
theorem conditionalExpression_runs (hg : g.RunsAs text d n g') (hr : r.depth = d) :
    Runs text d n r r (conditionalExpression g) (Parser.conditionalExpression g' r.context) := by
  refine .step fun _ => .bind (binaryExpression_runs hg hr) fun _ => .step fun _ => .step fun _ =>
    .ite (fun _ => .pure) fun _ => .step fun _ => .bind (.allowIn (hg.value hr)) fun _ => ?_
  exact .step fun _ => .bind (hg.value hr) fun _ => .step fun _ => .pure

/-- What a generator hands out runs in the machine as in the parser. -/
theorem yieldExpression_runs (hg : g.RunsAs text d n g') (hr : r.depth = d) :
    Runs text d n r r (yieldExpression g) (Parser.yieldExpression g' r.context) := by
  have hnote : Keeps text (noteSuspension .yieldInParameters) := keeps_noteSuspension text rfl
  unfold yieldExpression Parser.yieldExpression
  refine .registers (.refuse (.step fun _ => .step fun _ => .step fun _ => .step fun _ =>
    .ite (fun _ => .step fun _ => .pure) fun _ => .step fun _ => .step fun _ =>
      .ite (fun _ => .bind (hg.value hr) fun _ => ?_) fun _ => ?_))
  · exact .bind .pure fun _ => .step fun _ => .pure
  · exact .bind .pure fun _ => .step fun _ => .pure

/-- An assignment runs in the machine as in the parser. -/
theorem assignmentExpression_runs (hg : g.RunsAs text d n g') (hr : r.depth = d) :
    Runs text d n r r (assignmentExpression g) (Parser.assignmentExpression g' r.context) := by
  refine .step fun _ => .registers (.ite (fun _ => yieldExpression_runs hg hr) fun _ => ?_)
  refine .step fun _ => .step fun _ => .bind (conditionalExpression_runs hg hr) fun _ =>
    .step fun complete => .step fun k => ?_
  cases (AssignmentOperator.ofKind? k).filter fun _ => !complete with
  | none => exact .step fun _ => .pure
  | some operator =>
    exact .step fun _ => .step fun _ => .bind (hg.value hr) fun _ => .step fun _ => .pure

end

section

variable {text : String} {d n : Nat} {r : Registers} {s : State} {g : Nested} {g' : Parser.Nested}

/-- A condition in parentheses runs in the machine as in the parser. -/
theorem condition_runs (hg : g.RunsAs text d g') (hr : r.depth = d) :
    Runs text d n r r (condition g) (Parser.condition g' r.context) :=
  .step fun _ => .bind (.allowIn (hg.expression hr)) fun _ => .step fun _ => .pure

/-- An expression as a statement runs in the machine as in the parser. -/
theorem expressionStatement_runs (hg : g.RunsAs text d g') (hr : r.depth = d) :
    Runs text d n r r (expressionStatement g) (Parser.expressionStatement g' r.context) :=
  .step fun _ => .bind (.allowIn (hg.expression hr)) fun _ => .step fun _ => .step fun _ => .pure

/-- A statement below another one marks at most the labels directly in front of it. -/
theorem substatement_marks (hg : g.RunsAs text d g') (hr : r.depth = d) (hs : s.Proper text)
    (hl : r.LabelsBelow (s.offset + 1)) :
    RunsAt d r s (substatement g) (Parser.substatement g' r.context)
      fun _ r' s' => r.Marked s.offset r' ∧ Later text s s' := by
  refine .step rfl ?_
  cases s.lexer.token.kind with
  | word w =>
    cases w with
    | constKw => exact .never fun _ _ h => (unexpected_ok h).elim
    | classKw => exact .never fun _ _ h => (unexpected_ok h).elim
    | letKw =>
      refine .step rfl ?_
      refine .refuse (fun _ _ h => (unexpected_ok h).elim) (.ite (fun _ => ?_) fun _ => ?_)
      · exact hg.statement hr hs hl
      · exact (hg.expressionStatement hr s hs (Nat.le_refl _)).imp fun _ _ _ h => ⟨.inl h.1, h.2⟩
    | _ => exact hg.statement hr hs hl
  | _ => exact hg.statement hr hs hl

/-- Where no label is in the way a statement below another one gives back the registers. -/
theorem substatement_runs (hg : g.RunsAs text d g') (hr : r.depth = d) (hl : r.LabelsBelow n) :
    Runs text d n r r (substatement g) (Parser.substatement g' r.context) := by
  intro s hs hn
  have hbelow := hl.mono (Nat.le_trans hn hs.sound.consumed_le)
  exact (substatement_marks hg hr hs (hbelow.mono (Nat.le_succ _))).imp
    fun _ _ _ h => ⟨h.1.eq hbelow, h.2⟩

/-- The body of a loop gives back the registers that count loops. -/
theorem loopBody_runs (hg : g.RunsAs text d g') (hr : r.depth = d) (hl : r.LabelsBelow n) :
    Runs text d n r r (loopBody g) (Parser.loopBody g' r.context) := by
  refine .registers (.setFacts ?_)
  have hp : Parser.loopBody g' r.context = Parser.substatement g' r.context.loop >>= Pure.pure :=
    (bind_pure _).symm
  rw [hp]
  exact .bind (substatement_runs hg hr hl) fun _ => .registers (.setFacts .pure)

/-- A choice between statements gives back the registers behind its word. -/
theorem ifStatement_runs (hg : g.RunsAs text d g') (hr : r.depth = d) (hs : s.Proper text)
    (hk : s.lexer.token.kind ≠ .endOfFile) (hl : r.LabelsBelow (s.offset + 1)) :
    RunsAt d r s (ifStatement g) (Parser.ifStatement g' r.context) (Restored text r s) := by
  refine .step rfl (.advance hs hk (.bind (condition_runs hg hr) fun _ =>
    .bind (substatement_runs hg hr hl) fun _ => .step fun _ => .ite (fun _ => ?_) fun _ => ?_))
  · exact .bind (substatement_runs hg hr hl) fun _ => .step fun _ => .pure
  · exact .step fun _ => .pure

/-- A loop that tests first gives back the registers that it counted up. -/
theorem whileStatement_runs (hg : g.RunsAs text d g') (hr : r.depth = d) (hs : s.Proper text)
    (hk : s.lexer.token.kind ≠ .endOfFile) (hl : r.LabelsBelow (s.offset + 1)) :
    RunsAt d r s (whileStatement g) (Parser.whileStatement g' r.context) (Restored text r s) :=
  .step rfl (.advance hs hk (.bind (condition_runs hg hr) fun _ =>
    .bind (loopBody_runs hg hr hl) fun _ => .step fun _ => .pure))

/-- A loop that tests last gives back the registers that it counted up. -/
theorem doStatement_runs (hg : g.RunsAs text d g') (hr : r.depth = d) (hs : s.Proper text)
    (hk : s.lexer.token.kind ≠ .endOfFile) (hl : r.LabelsBelow (s.offset + 1)) :
    RunsAt d r s (doStatement g) (Parser.doStatement g' r.context) (Restored text r s) :=
  .step rfl (.advance hs hk (.bind (loopBody_runs hg hr hl) fun _ => .step fun _ =>
    .bind (condition_runs hg hr) fun _ => .step fun _ => .step fun _ => .pure))

/-- A return runs in the machine as in the parser. -/
theorem returnStatement_runs (hg : g.RunsAs text d g') (hr : r.depth = d) :
    Runs text d n r r (returnStatement g) (Parser.returnStatement g' r.context) := by
  refine .step fun _ => .registers (.require (.step fun _ => .step fun _ => .step fun _ =>
    .ite (fun _ => ?_) fun _ => ?_))
  · exact .bind .pure fun _ => .step fun _ => .step fun _ => .pure
  · exact .bind (.allowIn (hg.expression hr)) fun _ => .bind .pure fun _ =>
      .step fun _ => .step fun _ => .pure

/-- A throw runs in the machine as in the parser. -/
theorem throwStatement_runs (hg : g.RunsAs text d g') (hr : r.depth = d) :
    Runs text d n r r (throwStatement g) (Parser.throwStatement g' r.context) :=
  .step fun _ => .step fun _ => .step fun _ => .refuse (.bind (.allowIn (hg.expression hr))
    fun _ => .step fun _ => .step fun _ => .pure)

/-- The parameter of a handler runs in the machine as in the parser. -/
theorem catchParameter_runs (hg : g.RunsAs text d g') (hr : r.depth = d) :
    Runs text d n r r (catchParameter g) (Parser.catchParameter g' r.context) :=
  .step fun _ => .ite (fun _ => .bind (hg.bindingTarget hr) fun _ => .step fun _ => .pure)
    fun _ => .pure

/-- A handler runs as in the parser, if no label is in the way. -/
theorem catchClause_runs (hg : g.RunsAs text d g') (hr : r.depth = d) (hl : r.LabelsBelow n) :
    Runs text d n r r (catchClause g) (Parser.catchClause g' r.context) := by
  rw [catchClause_eq]
  exact .step fun _ => .step fun _ => .bind (catchParameter_runs hg hr) fun _ =>
    .bind (hg.innerBlock hr hl) fun _ => .step fun _ => .pure

/-- A handler that may be missing runs in the machine as in the parser. -/
theorem tryHandler_runs (hg : g.RunsAs text d g') (hr : r.depth = d) (hl : r.LabelsBelow n) :
    Runs text d n r r (tryHandler g) (Parser.tryHandler g' r.context) :=
  .step fun _ => .ite (fun _ => .bind (catchClause_runs hg hr hl) fun _ => .pure) fun _ => .pure

/-- What is done in the end runs in the machine as in the parser. -/
theorem tryFinalizer_runs (hg : g.RunsAs text d g') (hr : r.depth = d) (hl : r.LabelsBelow n) :
    Runs text d n r r (tryFinalizer g) (Parser.tryFinalizer g' r.context) :=
  .step fun _ => .ite (fun _ => .bind (hg.innerBlock hr hl) fun _ => .pure) fun _ => .pure

/-- A guarded block gives back the registers behind its word. -/
theorem tryStatement_runs (hg : g.RunsAs text d g') (hr : r.depth = d) (hs : s.Proper text)
    (hk : s.lexer.token.kind ≠ .endOfFile) (hl : r.LabelsBelow (s.offset + 1)) :
    RunsAt d r s (tryStatement g) (Parser.tryStatement g' r.context) (Restored text r s) := by
  rw [tryStatement_eq]
  refine .step rfl (.advance hs hk (.bind (hg.innerBlock hr hl) fun _ =>
    .bind (tryHandler_runs hg hr hl) fun handler => .bind (tryFinalizer_runs hg hr hl)
      fun finalizer => ?_))
  cases handler with
  | some handler => exact .step fun _ => .pure
  | none =>
    cases finalizer with
    | some finalizer => exact .step fun _ => .pure
    | none => exact .lift

/-- The statements of a case run as in the parser, if no label is in the way. -/
theorem caseBody_runs (hg : g.RunsAs text d g') (hr : r.depth = d) (hl : r.LabelsBelow n) :
    Runs text d n r r (caseBody g) (Parser.caseBody g' r.context) := by
  have hstatement := Goes.of_makes (hg.sound.statement r.context)
  refine .many (.step fun k => ?_) (.step fun k => ?_)
  · cases k with
    | word w =>
      cases w with
      | caseKw => exact .pure
      | defaultKw => exact .pure
      | _ => exact .bind (hg.inner hr hl) fun _ => .pure
    | mark p =>
      cases p with
      | closeBrace => exact .pure
      | _ => exact .bind (hg.inner hr hl) fun _ => .pure
    | endOfFile => exact .lift
    | _ => exact .bind (hg.inner hr hl) fun _ => .pure
  · cases k with
    | word w =>
      cases w with
      | caseKw => exact .pure rfl
      | defaultKw => exact .pure rfl
      | _ => exact hstatement.bind.progresses
    | mark p =>
      cases p with
      | closeBrace => exact .pure rfl
      | _ => exact hstatement.bind.progresses
    | endOfFile => exact .unexpected
    | _ => exact hstatement.bind.progresses

/-- The test of a case runs in the machine as in the parser. -/
theorem caseTest_runs {seenDefault : Bool} (hg : g.RunsAs text d g') (hr : r.depth = d) :
    Runs text d n r r (caseTest g seenDefault) (Parser.caseTest g' r.context seenDefault) := by
  refine .step fun k => ?_
  cases k with
  | word w =>
    cases w with
    | caseKw => exact .step fun _ => .bind (.allowIn (hg.expression hr)) fun _ => .pure
    | defaultKw =>
      dsimp only
      exact .refuse (.step fun _ => .pure)
    | _ => exact .lift
  | _ => exact .lift

/-- The cases of a switch run as in the parser, if no label is in the way. -/
theorem switchCases_runs (hg : g.RunsAs text d g') (hr : r.depth = d) (hl : r.LabelsBelow n) :
    Runs text d n r r (switchCases g) (Parser.switchCases g' r.context) := by
  refine .iterate (fun _ => ?_) (fun a => ?_) _
  · refine .step fun _ => .ite (fun _ => .pure) fun _ => .step fun _ =>
      .bind (caseTest_runs hg hr) fun _ => .step fun _ => .bind (caseBody_runs hg hr hl) fun _ => ?_
    exact .step fun _ => .pure
  · have htest : Goes text (Parser.caseTest g' r.context a.2) :=
      .of_makes (f := Node.sketchExpression?) fun _ hs => caseTest_meets hg.sound _ _ hs
    refine .step fun _ => .ite (.pure rfl) (.step fun _ => (htest.kept fun _ s hs => ?_).progresses)
    refine .expect hs rfl fun s₁ h₁ => .bind (caseBody_meets hg.sound _ h₁.sound) fun _ s₂ h₂ => ?_
    exact .step rfl (.pure (h₁.kept.trans h₂.1))

/-- A switch gives back the registers that it counted up. -/
theorem switchStatement_runs (hg : g.RunsAs text d g') (hr : r.depth = d) (hs : s.Proper text)
    (hk : s.lexer.token.kind ≠ .endOfFile) (hl : r.LabelsBelow (s.offset + 1)) :
    RunsAt d r s (switchStatement g) (Parser.switchStatement g' r.context)
      (Restored text r s) := by
  refine .step rfl (.advance hs hk (.bind (condition_runs hg hr) fun _ => .step fun _ =>
    .registers (.setFacts ?_)))
  refine .bind (switchCases_runs hg hr hl) fun _ => .step fun _ => .registers (.setFacts ?_)
  exact .step fun _ => .pure

/-- A statement on the members of an object gives back the registers. -/
theorem withStatement_runs (hg : g.RunsAs text d g') (hr : r.depth = d) (hs : s.Proper text)
    (hk : s.lexer.token.kind ≠ .endOfFile) (hl : r.LabelsBelow (s.offset + 1)) :
    RunsAt d r s (withStatement g) (Parser.withStatement g' r.context) (Restored text r s) :=
  .step rfl (.advance hs hk (.bind (condition_runs hg hr) fun _ =>
    .bind (substatement_runs hg hr hl) fun _ => .step fun _ => .pure))

/-- What a loop runs over runs itself in the machine as in the parser. -/
theorem loopSource_runs {loop : LoopKind} (hg : g.RunsAs text d g') (hr : r.depth = d) :
    Runs text d n r r (loopSource g loop) (Parser.loopSource g' r.context loop) := by
  cases loop with
  | forOf => exact .allowIn (hg.value hr)
  | forIn => exact .allowIn (hg.expression hr)

/-- A loop over values gives back the registers, if no label is in the way. -/
theorem loopOverValues_runs {start : Nat} {isAwait : Bool} {loop : LoopKind} {head : Node .forHead}
    (hg : g.RunsAs text d g') (hr : r.depth = d) (hl : r.LabelsBelow n) :
    Runs text d n r r (loopOverValues g start isAwait loop head)
      (Parser.loopOverValues g' r.context start isAwait loop head) := by
  rw [loopOverValues_eq]
  unfold loopOverValues
  exact .refuse (.step fun _ => .bind (loopSource_runs hg hr) fun _ => .step fun _ =>
    .bind (loopBody_runs hg hr hl) fun _ => .step fun _ => .pure)

/-- An expression that may be missing runs in the machine as in the parser. -/
theorem optionalExpression_runs {close : TokenKind} (hg : g.RunsAs text d g') (hr : r.depth = d) :
    Runs text d n r r (optionalExpression g close)
      (Parser.optionalExpression g' r.context close) :=
  .step fun _ => .ite (fun _ => .pure) fun _ => .bind (.allowIn (hg.expression hr)) fun _ => .pure

/-- A loop on a condition gives back the registers, if no label is in the way. -/
theorem loopOnCondition_runs {start : Nat} {isAwait : Bool} {init : Node .forInit}
    (hg : g.RunsAs text d g') (hr : r.depth = d) (hl : r.LabelsBelow n) :
    Runs text d n r r (loopOnCondition g start isAwait init)
      (Parser.loopOnCondition g' r.context start isAwait init) := by
  unfold loopOnCondition Parser.loopOnCondition
  refine .refuse (.step fun _ => .bind (optionalExpression_runs hg hr) fun _ => .step fun _ =>
    .bind (optionalExpression_runs hg hr) fun _ => .step fun _ => ?_)
  exact .bind (loopBody_runs hg hr hl) fun _ => .step fun _ => .pure

/-- A loop whose head declares variables gives back the registers. -/
theorem declarationLoop_runs {start : Nat} {isAwait : Bool} {variableKind : VariableKind}
    (hg : g.RunsAs text d g') (hr : r.depth = d) (hl : r.LabelsBelow n) :
    Runs text d n r r (declarationLoop g start isAwait variableKind)
      (Parser.declarationLoop g' r.context start isAwait variableKind) := by
  refine .bind (headDeclaration_runs hg hr) fun declaration => .step fun loop? => ?_
  cases loop? with
  | some loop => exact .step fun _ => loopOverValues_runs hg hr hl
  | none =>
    cases declaration with
    | declaration span variableKind ds => exact .step fun _ => loopOnCondition_runs hg hr hl

/-- A loop whose head begins with an expression gives back the registers. -/
theorem expressionLoop_runs {start : Nat} {isAwait : Bool} (hg : g.RunsAs text d g')
    (hr : r.depth = d) (hl : r.LabelsBelow n) :
    Runs text d n r r (expressionLoop g start isAwait)
      (Parser.expressionLoop g' r.context start isAwait) := by
  refine .step fun _ => .bind (.disallowIn (hg.expressionOrCover hr)) fun _ =>
    .step fun loop? => ?_
  cases loop? with
  | some loop =>
    exact .step fun _ => .step fun _ => .step fun _ => loopOverValues_runs hg hr hl
  | none => exact .step fun _ => .step fun _ => loopOnCondition_runs hg hr hl

/-- Every head of a loop gives back the registers, with the loop behind it. -/
theorem forHead_runs {start : Nat} {isAwait : Bool} (hg : g.RunsAs text d g') (hr : r.depth = d)
    (hl : r.LabelsBelow n) :
    Runs text d n r r (forHead g start isAwait)
      (Parser.forHead g' r.context start isAwait) := by
  refine .step fun _ => .step fun variableKind? => ?_
  cases variableKind? with
  | some variableKind => exact declarationLoop_runs hg hr hl
  | none =>
    refine .step fun _ => .ite (fun _ => ?_) fun _ => ?_
    · exact loopOnCondition_runs hg hr hl
    · exact expressionLoop_runs hg hr hl

/-- Every kind of `for` loop gives back the registers behind its word. -/
theorem forStatement_runs (hg : g.RunsAs text d g') (hr : r.depth = d) (hs : s.Proper text)
    (hk : s.lexer.token.kind ≠ .endOfFile) (hl : r.LabelsBelow (s.offset + 1)) :
    RunsAt d r s (forStatement g) (Parser.forStatement g' r.context) (Restored text r s) :=
  .step rfl (.advance hs hk (.step fun _ => .registers (.refuse (forHead_runs hg hr hl))))

/-- A labeled statement marks the labels in front of it, and removes its own. -/
theorem labeledStatement_marks (hg : g.RunsAs text d g') (hr : r.depth = d) (hs : s.Proper text)
    (hl : r.LabelsBelow (s.offset + 1)) :
    RunsAt d r s (labeledStatement g) (Parser.labeledStatement g' r.context)
      fun _ r' s' => r.Marked s.offset r' ∧ Later text s s' := by
  have hname := (identifier_makes r.context s hs.sound).imp fun _ _ h => h.1.lt
  refine .step rfl (.bind ((RunsAt.first hs.sound hname).congr rfl rfl) ?_)
  rintro id r s₁ ⟨rfl, h₁, hlt⟩
  have hs₁ := h₁.proper hs
  refine .bind (Runs.lift s₁ hs₁ (Nat.le_refl _)) ?_
  rintro - r s₂ ⟨rfl, h₂⟩
  have hs₂ := h₂.proper hs₁
  have hstart : s.offset < s₂.offset :=
    Nat.lt_of_lt_of_le hlt (Nat.le_trans h₂.consumed_le hs₂.sound.consumed_le)
  refine .registers (.refuse (fun _ _ h => (fail_ok h).elim) (.step rfl (.setFacts ?_)))
  have hbelow : ∀ l ∈ markLabels s.offset (startsLoop s₂.lexer.token.kind) r.facts.labels,
      l.bodyStart < s₂.offset := by
    intro l hm
    obtain ⟨l', hm', heq⟩ := bodyStart_of_mem_markLabels hm
    exact heq ▸ Nat.lt_of_lt_of_le (hl l' hm') hstart
  refine .bind (substatement_marks hg hr hs₂ ?_) ?_
  · exact List.forall_mem_cons.mpr ⟨Nat.lt_succ_self _, fun l h => Nat.lt_succ_of_lt (hbelow l h)⟩
  · rintro body r₃ s₃ ⟨hm, h₃⟩
    have hmark := hm.tail_labels rfl rfl hbelow
    refine .registers (.setFacts (.step rfl (.pure ⟨.inr ⟨_, hmark⟩, ?_⟩)))
    exact (h₁.trans h₂).trans h₃

/-- A statement with a word of its own marks at most the labels directly in front of it. -/
theorem plainStatement_marks (hg : g.RunsAs text d g') (hr : r.depth = d) (hs : s.Proper text)
    (hl : r.LabelsBelow (s.offset + 1)) :
    RunsAt d r s (plainStatement g) (Parser.plainStatement g' r.context)
      fun _ r' s' => r.Marked s.offset r' ∧ Later text s s' := by
  refine .step rfl (.step rfl (.ite (fun _ => labeledStatement_marks hg hr hs hl) fun _ => ?_))
  exact (expressionStatement_runs hg hr).marked hs

/-- A declared function runs in the machine as in the parser. -/
theorem functionDeclaration_runs {isAsync : Bool} (hg : g.RunsAs text d g') (hr : r.depth = d) :
    Runs text d n r r (functionDeclaration g isAsync)
      (Parser.functionDeclaration g' r.context isAsync) :=
  .step fun _ => .refuse (.bind (functionDefinition_runs hg hr) fun _ => .pure)

end

section

variable {text : String} {d n : Nat} {r : Registers} {s : State}

/-- A statement marks at most the labels directly in front of it, and gives back all else. -/
theorem statement_marks {g : Grammar} {g' : Parser.Grammar} (hg : ∀ n, g.RunsAs text d n g')
    (hr : r.depth = d) (hs : s.Proper text) (hl : r.LabelsBelow (s.offset + 1)) :
    RunsAt d r s (statement g) (Parser.statement g' r.context)
      fun _ r' s' => r.Marked s.offset r' ∧ Later text s s' := by
  have hg' := (hg 0).toRunsAs
  have hplain := plainStatement_marks hg' hr hs hl
  refine .step rfl (.step rfl ?_)
  cases hk : s.lexer.token.kind with
  | mark p =>
    cases p with
    | openBrace =>
      exact .bind (hg'.block hr hs hl) fun _ _ _ h => .pure ⟨.inl h.1, h.2⟩
    | semicolon => exact Runs.marked (.step fun _ => .step fun _ => .pure) hs
    | _ => exact hplain
  | word w =>
    have hne : s.lexer.token.kind ≠ .endOfFile := by simp [hk]
    cases w with
    | varKw => exact (variableStatement_runs hg' hr).marked hs
    | constKw => exact (variableStatement_runs hg' hr).marked hs
    | letKw =>
      exact .step rfl (.ite (fun _ => (variableStatement_runs hg' hr).marked hs) fun _ => hplain)
    | functionKw => exact (functionDeclaration_runs hg' hr).marked hs
    | asyncKw =>
      refine .step rfl (.ite (fun _ => ?_) fun _ => hplain)
      exact (functionDeclaration_runs hg' hr).marked hs
    | classKw =>
      exact Runs.marked (.bind (classDefinition_runs (hg _) hr) fun _ => .pure) hs
    | ifKw => exact (ifStatement_runs hg' hr hs hne hl).marked
    | forKw => exact (forStatement_runs hg' hr hs hne hl).marked
    | whileKw => exact (whileStatement_runs hg' hr hs hne hl).marked
    | doKw => exact (doStatement_runs hg' hr hs hne hl).marked
    | returnKw => exact (returnStatement_runs hg' hr).marked hs
    | breakKw => exact Runs.reading.marked hs
    | continueKw => exact Runs.reading.marked hs
    | throwKw => exact (throwStatement_runs hg' hr).marked hs
    | tryKw => exact (tryStatement_runs hg' hr hs hne hl).marked
    | switchKw => exact (switchStatement_runs hg' hr hs hne hl).marked
    | withKw => exact (withStatement_runs hg' hr hs hne hl).marked
    | debuggerKw => exact Runs.marked (.step fun _ => .step fun _ => .step fun _ => .pure) hs
    | _ => exact hplain
  | _ => exact hplain

/-- A run one level further down gives back the depth too. -/
theorem Runs.deeper {α : Type} {m : Machine α} {p : Parser α} (hlt : r.depth < maxDepth)
    (h : Runs text (r.depth + 1) n { r with depth := r.depth + 1 }
      { r with depth := r.depth + 1 } m p) :
    Runs text r.depth n r r (Machine.deeper m) p := fun s hs hn =>
  .deeper hlt (h s hs hn) fun _ _ _ ⟨hr, hl⟩ => hr ▸ ⟨rfl, rfl, hl⟩

/-- A level, given that one level more may be entered. -/
theorem Nested.RunsAs.around {g : Nested} {g' : Parser.Nested} (hg : g.RunsAs text (d + 1) g')
    (hd : d < maxDepth) : g.around.RunsAs text d g'.around where
  sound := hg.sound.around
  statement {r s} hr hs hl := by
    subst hr
    refine .deeper hd (statement_marks (fun _ => hg.grammar) rfl hs hl) ?_
    rintro a r₁ s₁ ⟨rfl | ⟨isLoop, rfl⟩, hlater⟩
    · exact ⟨rfl, .inl rfl, hlater⟩
    · exact ⟨rfl, .inr ⟨isLoop, rfl⟩, hlater⟩
  expressionStatement hr := by
    subst hr
    exact .deeper hd (expressionStatement_runs hg rfl)
  bindingTarget hr := by
    subst hr
    exact .deeper hd (bindingTarget_runs hg rfl)
  assignment hr := by
    subst hr
    exact .deeper hd (assignmentExpression_runs hg.grammar rfl)
  binary hr := by
    subst hr
    exact .deeper hd (binaryExpression_runs hg.grammar rfl)
  unary hr := by
    subst hr
    exact .deeper hd (unaryExpression_runs hg.grammar rfl)
  newCallee hr := by
    subst hr
    exact .deeper hd (operandBase_runs hg.grammar rfl)

/-- Behind the last level that may be entered there is one more, which is refused. -/
theorem Nested.RunsAs.last {g : Nested} (hd : d = maxDepth) :
    g.around.RunsAs text d Parser.Nested.tooDeep where
  sound := Parser.Nested.tooDeep_sound
  statement hr _ _ := hr ▸ .deeper_maxDepth (hr.trans hd)
  expressionStatement hr _ _ _ := hr ▸ .deeper_maxDepth (hr.trans hd)
  bindingTarget hr _ _ _ := hr ▸ .deeper_maxDepth (hr.trans hd)
  assignment hr _ _ _ := hr ▸ .deeper_maxDepth (hr.trans hd)
  binary hr _ _ _ := hr ▸ .deeper_maxDepth (hr.trans hd)
  unary hr _ _ _ := hr ▸ .deeper_maxDepth (hr.trans hd)
  newCallee hr _ _ _ := hr ▸ .deeper_maxDepth (hr.trans hd)

/-- There is fuel for all levels that may be entered, and for one more. -/
theorem Nested.RunsAs.ofFuel {depth fuel : Nat} (hd : d + depth = maxDepth) (hf : depth < fuel) :
    (Nested.ofFuel fuel).RunsAs text d (Parser.Nested.ofDepth depth) := by
  induction depth generalizing d fuel with
  | zero =>
    obtain ⟨fuel, rfl⟩ := Nat.exists_eq_succ_of_ne_zero (Nat.ne_of_gt hf)
    exact .last hd
  | succ depth ih =>
    obtain ⟨fuel, rfl⟩ := Nat.exists_eq_succ_of_ne_zero (Nat.ne_of_gt (Nat.zero_lt_of_lt hf))
    exact (ih (by omega) (Nat.lt_of_succ_lt_succ hf)).around (by omega)

/-- The machine for scripts runs as the parser for scripts does. -/
theorem script_runs : Runs text 0 n {} {} script Parser.script :=
  (Nested.RunsAs.ofFuel (Nat.zero_add maxDepth) (Nat.lt_succ_self maxDepth)).statementsUntil rfl
    (.nil rfl)

end

/-- The registers and the states that there may be in a run from the start of a text on: those
that are made by what constructs do to them, one thing at a time. -/
inductive Reachable (text : String) : Registers → State → Prop where
  | start : Reachable text {} (.ofString text)
  | take {r : Registers} {s : State} : Reachable text r s → Reachable text r s.next
  | rescanSlash {r : Registers} {s : State} : Reachable text r s →
      s.lexer.token.kind = .mark .slash ∨ s.lexer.token.kind = .mark .slashAssign →
      Reachable text r { s with lexer := s.lexer.rescanSlash }
  | rescanTemplate {r : Registers} {s : State} : Reachable text r s →
      s.lexer.token.kind = .mark .closeBrace →
      Reachable text r { s with lexer := s.lexer.rescanTemplate }
  | remember {r : Registers} {s : State} (coverInit : Option Nat) (suspension : Option Fault)
      (notes : CoverNotes) (implied : List Nat) : Reachable text r s →
      (∀ fault, suspension = some fault → fault.IsSyntactic) →
      Reachable text r { s with coverInit, suspension, notes, implied }
  | setFlags {r : Registers} {s : State} (flags : Flags) : Reachable text r s →
      Reachable text { r with flags } s
  | setDepth {r : Registers} {s : State} {depth : Nat} : Reachable text r s → depth ≤ maxDepth →
      Reachable text { r with depth } s
  | setCounts {r : Registers} {s : State} (canReturn : Bool) (iterationDepth breakableDepth : Nat) :
      Reachable text r s →
      Reachable text { r with facts :=
        { r.facts with canReturn, iterationDepth, breakableDepth } } s
  | addLabel {r : Registers} {s : State} (name : String) (isLoop : Bool) (start : Nat) :
      Reachable text r s →
      Reachable text { r with facts := { r.facts with
        labels := ⟨name, isLoop, s.offset⟩ :: markLabels start isLoop r.facts.labels } } s
  | removeLabel {r : Registers} {s : State} : Reachable text r s →
      Reachable text { r with facts := { r.facts with labels := r.facts.labels.tail } } s
  | hideLabels {r : Registers} {s : State} : Reachable text r s →
      Reachable text { r with facts := { r.facts with labels := [] } } s
  | showLabels {r₀ r : Registers} {s₀ s : State} : Reachable text r₀ s₀ → Reachable text r s →
      s₀.offset ≤ s.offset →
      Reachable text { r with facts := { r.facts with labels := r₀.facts.labels } } s

/-- The registers and the state are as they are where a construct can start. -/
structure Ready (text : String) (r : Registers) (s : State) : Prop where
  proper : s.Proper text
  depth_le : r.depth ≤ maxDepth
  labels : r.LabelsBelow (s.offset + 1)

/-- Marking labels does not change their names. -/
theorem map_name_markLabels {start : Nat} {isLoop : Bool} {labels : List Label} :
    (markLabels start isLoop labels).map (·.name) = labels.map (·.name) := by
  conv_rhs => rw [← List.takeWhile_append_dropWhile (p := (·.bodyStart == start)) (l := labels)]
  rw [markLabels, List.map_append, List.map_append, List.map_map]
  rfl

/-- A machine that is ready stays so while the state goes on. -/
theorem Ready.later {r : Registers} {s s' : State} {text : String} (h : Ready text r s)
    (hl : Later text s s') : Ready text r s' where
  proper := hl.proper h.proper
  depth_le := h.depth_le
  labels := h.labels.mono (Nat.succ_le_succ hl.offset_le)

/-- Every machine that can be reached is ready for more. -/
theorem Reachable.ready {text : String} {r : Registers} {s : State} (h : Reachable text r s) :
    Ready text r s := by
  induction h with
  | start => exact ⟨⟨State.sound_ofString text, rfl⟩, Nat.zero_le _, .nil rfl⟩
  | take _ ih => exact ih.later (.advance ih.proper.sound)
  | rescanSlash _ hk ih => exact ih.later (.rescanSlash ih.proper.sound hk)
  | rescanTemplate _ hk ih => exact ih.later (.rescanTemplate ih.proper.sound hk)
  | remember _ _ _ _ _ hf ih => exact ih.later (.same ih.proper.sound rfl rfl rfl rfl hf)
  | setFlags _ _ ih => exact ⟨ih.proper, ih.depth_le, ih.labels⟩
  | setDepth _ hd ih => exact ⟨ih.proper, hd, ih.labels⟩
  | setCounts _ _ _ _ ih => exact ⟨ih.proper, ih.depth_le, ih.labels⟩
  | addLabel _ _ _ _ ih =>
    refine ⟨ih.proper, ih.depth_le, List.forall_mem_cons.mpr ⟨Nat.lt_succ_self _, fun l hl => ?_⟩⟩
    obtain ⟨l', hl', heq⟩ := bodyStart_of_mem_markLabels hl
    exact heq ▸ ih.labels l' hl'
  | removeLabel _ ih =>
    exact ⟨ih.proper, ih.depth_le, fun l hl => ih.labels l (List.mem_of_mem_tail hl)⟩
  | hideLabels _ ih => exact ⟨ih.proper, ih.depth_le, .nil rfl⟩
  | showLabels _ _ hle ih₀ ih =>
    exact ⟨ih.proper, ih.depth_le, fun l hl => Nat.lt_of_lt_of_le (ih₀.labels l hl)
      (Nat.succ_le_succ hle)⟩

/-- The parsing functions of the grammar, each as a machine and as a parser, with what is known of
the registers and the state where it is called: a word that has been looked at, or that the
statements of the labels start before the last token. -/
inductive Parses (g : Nested) (g' : Parser.Nested) (r : Registers) (s : State) :
    {α : Type} → Machine α → (Context → Parser α) → Prop where
  | nestedStatement : Parses g g' r s g.statement g'.statement
  | nestedExpressionStatement : Parses g g' r s g.expressionStatement g'.expressionStatement
  | nestedBindingTarget : Parses g g' r s g.bindingTarget g'.bindingTarget
  | nestedAssignment : Parses g g' r s g.assignment g'.assignment
  | nestedBinary (min : Precedence) : Parses g g' r s (g.binary min) (g'.binary · min)
  | nestedUnary : Parses g g' r s g.unary g'.unary
  | nestedNewCallee : Parses g g' r s g.newCallee g'.newCallee
  | value : Parses g g' r s g.value g'.value
  | expressionOrCover : Parses g g' r s g.expressionOrCover g'.expressionOrCover
  | expression : Parses g g' r s g.expression g'.expression
  | statementsUntil (close : TokenKind) : r.LabelsBelow s.consumed → Parses g g' r s
    (g.statementsUntil close) (g'.statementsUntil · close)
  | block : Parses g g' r s g.block g'.block
  | identifier : Parses g g' r s (reading Parser.identifier) Parser.identifier
  | propertyKey (allowPrivate : Bool) : Parses g g' r s (Machine.propertyKey g allowPrivate)
    (Parser.propertyKey g' · allowPrivate)
  | bindingElement : Parses g g' r s (Machine.bindingElement g) (Parser.bindingElement g')
  | bindingElements : Parses g g' r s (Machine.bindingElements g) (Parser.bindingElements g')
  | arrayBinding : Parses g g' r s (Machine.arrayBinding g) (Parser.arrayBinding g')
  | bindingProperty : Parses g g' r s (Machine.bindingProperty g) (Parser.bindingProperty g')
  | objectBinding : Parses g g' r s (Machine.objectBinding g) (Parser.objectBinding g')
  | bindingTarget : Parses g g' r s (Machine.bindingTarget g) (Parser.bindingTarget g')
  | restParameter : Parses g g' r s (Machine.restParameter g) (Parser.restParameter g')
  | formalParameters : Parses g g' r s (Machine.formalParameters g) (Parser.formalParameters g')
  | declarator (variableKind : VariableKind) : Parses g g' r s (Machine.declarator g variableKind)
    (Parser.declarator g' · variableKind)
  | variableStatement (variableKind : VariableKind) : Parses g g' r s
    (Machine.variableStatement g variableKind) (Parser.variableStatement g' · variableKind)
  | headDeclaration (variableKind : VariableKind) : Parses g g' r s
    (Machine.headDeclaration g variableKind) (Parser.headDeclaration g' · variableKind)
  | parametersAndBody (flags : Flags) (accessor : PropertyKind) :
    Parses g g' r s (parametersAndBody g flags accessor) fun _ =>
      Parser.parametersAndBody g'
        ({ flags, facts := { canReturn := true } } : Registers).context accessor
  | functionDefinition (start : Nat) (isAsync isDeclaration : Bool) : Parses g g' r s
    (Machine.functionDefinition g start isAsync isDeclaration)
    (Parser.functionDefinition g' · start isAsync isDeclaration)
  | methodFunction (isAsync isGenerator : Bool) (accessor : PropertyKind) (superCall : Bool) :
    Parses g g' r s (Machine.methodFunction g isAsync isGenerator accessor superCall)
    (Parser.methodFunction g' · isAsync isGenerator accessor superCall)
  | arrowFunction (start : Nat) (params : Node .parameters) (isAsync : Bool) : Parses g g' r s
    (Machine.arrowFunction g start params isAsync) (Parser.arrowFunction g' · start params isAsync)
  | fieldInitializer : Parses g g' r s (Machine.fieldInitializer g) (Parser.fieldInitializer g')
  | staticBlock : Parses g g' r s (Machine.staticBlock g) (Parser.staticBlock g')
  | methodOrField (start : Nat) (derived isStatic hasConstructor : Bool) : Parses g g' r s
    (Machine.methodOrField g start derived isStatic hasConstructor)
    (Parser.methodOrField g' · start derived isStatic hasConstructor)
  | classElement (derived hasConstructor : Bool) : Parses g g' r s
    (Machine.classElement g derived hasConstructor)
    (Parser.classElement g' · derived hasConstructor)
  | classElements (derived : Bool) : Parses g g' r s (Machine.classElements g derived)
    (Parser.classElements g' · derived)
  | classDefinition (isDeclaration : Bool) : Parses g g' r s
    (Machine.classDefinition g.grammar isDeclaration)
    (Parser.classDefinition g'.grammar · isDeclaration)
  | templateLiteral (tagged : Bool) : Parses g g' r s (Machine.templateLiteral g tagged)
    (Parser.templateLiteral g' · tagged)
  | arrayElements (array : Nat) : Parses g g' r s (Machine.arrayElements g array)
    (Parser.arrayElements g' · array)
  | arrayLiteral : Parses g g' r s (Machine.arrayLiteral g) (Parser.arrayLiteral g')
  | shorthandMember (start : Nat) (name : Identifier) : Parses g g' r s
    (Machine.shorthandMember g start name) (Parser.shorthandMember g' · start name)
  | objectProperty : Parses g g' r s (Machine.objectProperty g) (Parser.objectProperty g')
  | objectMember : Parses g g' r s (Machine.objectMember g) (Parser.objectMember g')
  | objectLiteral : Parses g g' r s (Machine.objectLiteral g) (Parser.objectLiteral g')
  | coverParenthesized : Parses g g' r s (Machine.coverParenthesized g)
    (Parser.coverParenthesized g')
  | arrowCover : Parses g g' r s (Machine.arrowCover g) (Parser.arrowCover g')
  | coverArrow (start : Nat) (cover : Cover.Parenthesized) (isAsync : Bool) : Parses g g' r s
    (Machine.coverArrow g start cover isAsync) (Parser.coverArrow g' · start cover isAsync)
  | parenthesizedOrArrow : Parses g g' r s (Machine.parenthesizedOrArrow g)
    (Parser.parenthesizedOrArrow g')
  | asyncCallOrArrow : Parses g g' r s (Machine.asyncCallOrArrow g) (Parser.asyncCallOrArrow g')
  | nameOrArrow : Parses g g' r s (Machine.nameOrArrow g) (Parser.nameOrArrow g')
  | asyncPrimary : Parses g g' r s (Machine.asyncPrimary g) (Parser.asyncPrimary g')
  | primary : Parses g g' r s (Machine.primary g.grammar) (Parser.primary g'.grammar)
  | privateNameIn : Parses g g' r s (reading Parser.privateNameIn) Parser.privateNameIn
  | memberName : Parses g g' r s (reading Parser.memberName) Parser.memberName
  | computedMember : Parses g g' r s (Machine.computedMember g) (Parser.computedMember g')
  | arguments : Parses g g' r s (Machine.arguments g) (Parser.arguments g')
  | optionalLink (start : Nat) (object : Expression) : Parses g g' r s
    (Machine.optionalLink g start object) (Parser.optionalLink g' · start object)
  | subscripts (start : Nat) (behindNew : Bool) (operand : Expression) : Parses g g' r s
    (Machine.subscripts g start behindNew operand) (Parser.subscripts g' · start behindNew operand)
  | superBase : Parses g g' r s (reading Parser.superBase) Parser.superBase
  | newTarget (start : Nat) : Parses g g' r s (reading (Parser.newTarget · start))
    (Parser.newTarget · start)
  | construct : Parses g g' r s (Machine.construct g.grammar) (Parser.construct g'.grammar)
  | operandBase : Parses g g' r s (Machine.operandBase g.grammar) (Parser.operandBase g'.grammar)
  | operand : Parses g g' r s (Machine.operand g.grammar) (Parser.operand g'.grammar)
  | heritage : Parses g g' r s g.heritage g'.heritage
  | postfixExpression : Parses g g' r s (Machine.postfixExpression g.grammar)
    (Parser.postfixExpression g'.grammar)
  | prefixUpdate (operator : UpdateOperator) : Parses g g' r s
    (Machine.prefixUpdate g.grammar operator) (Parser.prefixUpdate g'.grammar · operator)
  | unaryOperation (operator : UnaryOperator) : Parses g g' r s
    (Machine.unaryOperation g.grammar operator) (Parser.unaryOperation g'.grammar · operator)
  | awaitOperation : Parses g g' r s (Machine.awaitOperation g.grammar)
    (Parser.awaitOperation g'.grammar)
  | unaryExpression : Parses g g' r s (Machine.unaryExpression g.grammar)
    (Parser.unaryExpression g'.grammar)
  | binaryOperation (min : Precedence) (start : Nat) (left : Expression) (operator : BinaryOperator)
    : Parses g g' r s (Machine.binaryOperation g.grammar min start left operator)
    (Parser.binaryOperation g'.grammar · min start left operator)
  | binaryExpression (min : Precedence) : Parses g g' r s (Machine.binaryExpression g.grammar min)
    (Parser.binaryExpression g'.grammar · min)
  | conditionalExpression : Parses g g' r s (Machine.conditionalExpression g.grammar)
    (Parser.conditionalExpression g'.grammar)
  | yieldExpression : Parses g g' r s (Machine.yieldExpression g.grammar)
    (Parser.yieldExpression g'.grammar)
  | assignmentExpression : Parses g g' r s (Machine.assignmentExpression g.grammar)
    (Parser.assignmentExpression g'.grammar)
  | condition : Parses g g' r s (Machine.condition g) (Parser.condition g')
  | substatement : Parses g g' r s (Machine.substatement g) (Parser.substatement g')
  | loopBody : r.LabelsBelow s.consumed → Parses g g' r s (Machine.loopBody g) (Parser.loopBody g')
  | expressionStatement : Parses g g' r s (Machine.expressionStatement g)
    (Parser.expressionStatement g')
  | ifStatement : s.lexer.token.kind = .word .ifKw → Parses g g' r s (Machine.ifStatement g)
    (Parser.ifStatement g')
  | whileStatement : s.lexer.token.kind = .word .whileKw → Parses g g' r s
    (Machine.whileStatement g) (Parser.whileStatement g')
  | doStatement : s.lexer.token.kind = .word .doKw → Parses g g' r s (Machine.doStatement g)
    (Parser.doStatement g')
  | returnStatement : Parses g g' r s (Machine.returnStatement g) (Parser.returnStatement g')
  | breakStatement : Parses g g' r s (reading Parser.breakStatement) Parser.breakStatement
  | continueStatement : Parses g g' r s (reading Parser.continueStatement) Parser.continueStatement
  | throwStatement : Parses g g' r s (Machine.throwStatement g) (Parser.throwStatement g')
  | tryStatement : s.lexer.token.kind = .word .tryKw → Parses g g' r s (Machine.tryStatement g)
    (Parser.tryStatement g')
  | catchClause : r.LabelsBelow s.consumed → Parses g g' r s (Machine.catchClause g)
    (Parser.catchClause g')
  | switchStatement : s.lexer.token.kind = .word .switchKw → Parses g g' r s
    (Machine.switchStatement g) (Parser.switchStatement g')
  | switchCases : r.LabelsBelow s.consumed → Parses g g' r s (Machine.switchCases g)
    (Parser.switchCases g')
  | caseTest (seenDefault : Bool) : Parses g g' r s (Machine.caseTest g seenDefault)
    (Parser.caseTest g' · seenDefault)
  | caseBody : r.LabelsBelow s.consumed → Parses g g' r s (Machine.caseBody g) (Parser.caseBody g')
  | withStatement : s.lexer.token.kind = .word .withKw → Parses g g' r s (Machine.withStatement g)
    (Parser.withStatement g')
  | forStatement : s.lexer.token.kind = .word .forKw → Parses g g' r s (Machine.forStatement g)
    (Parser.forStatement g')
  | loopOverValues (start : Nat) (isAwait : Bool) (loop : LoopKind) (head : Node .forHead)
    : r.LabelsBelow s.consumed → Parses g g' r s (Machine.loopOverValues g start isAwait loop head)
    (Parser.loopOverValues g' · start isAwait loop head)
  | loopOnCondition (start : Nat) (isAwait : Bool) (init : Node .forInit)
    : r.LabelsBelow s.consumed → Parses g g' r s (Machine.loopOnCondition g start isAwait init)
    (Parser.loopOnCondition g' · start isAwait init)
  | declarationLoop (start : Nat) (isAwait : Bool) (variableKind : VariableKind)
    : r.LabelsBelow s.consumed → Parses g g' r s
    (Machine.declarationLoop g start isAwait variableKind)
    (Parser.declarationLoop g' · start isAwait variableKind)
  | expressionLoop (start : Nat) (isAwait : Bool) : r.LabelsBelow s.consumed → Parses g g' r s
    (Machine.expressionLoop g start isAwait) (Parser.expressionLoop g' · start isAwait)
  | labeledStatement : Parses g g' r s (Machine.labeledStatement g) (Parser.labeledStatement g')
  | functionDeclaration (isAsync : Bool) : Parses g g' r s (Machine.functionDeclaration g isAsync)
    (Parser.functionDeclaration g' · isAsync)
  | statement : Parses g g' r s (Machine.statement g.grammar) (Parser.statement g'.grammar)

/-- Whatever is parsed from a ready machine runs as in the parser. -/
theorem Parses.runs {text : String} {g : Nested} {g' : Parser.Nested} {r : Registers} {s : State}
    {α : Type} {m : Machine α} {p : Context → Parser α} (h : Parses g g' r s m p)
    (hg : g.RunsAs text r.depth g') (hs : Ready text r s) :
    RunsAt r.depth r s m (p r.context)
      fun _ r' s' => r.Marked s.offset r' ∧ Later text s s' := by
  cases h with
  | nestedStatement => exact hg.statement rfl hs.proper hs.labels
  | nestedExpressionStatement => exact (hg.expressionStatement rfl).marked hs.proper
  | nestedBindingTarget => exact (hg.bindingTarget rfl).marked hs.proper
  | nestedAssignment => exact (hg.assignment rfl).marked hs.proper
  | nestedBinary => exact (hg.binary rfl).marked hs.proper
  | nestedUnary => exact (hg.unary rfl).marked hs.proper
  | nestedNewCallee => exact (hg.newCallee rfl).marked hs.proper
  | value => exact (hg.value rfl).marked hs.proper
  | expressionOrCover => exact (hg.expressionOrCover rfl).marked hs.proper
  | expression => exact (hg.expression rfl).marked hs.proper
  | statementsUntil _ hl => exact (hg.statementsUntil rfl hl).marked hs.proper
  | block => exact (hg.block rfl hs.proper hs.labels).marked
  | identifier => exact Runs.reading.marked hs.proper
  | propertyKey => exact (propertyKey_runs hg rfl).marked hs.proper
  | bindingElement => exact (bindingElement_runs hg rfl).marked hs.proper
  | bindingElements => exact (bindingElements_runs hg rfl).marked hs.proper
  | arrayBinding => exact (arrayBinding_runs hg rfl).marked hs.proper
  | bindingProperty => exact (bindingProperty_runs hg rfl).marked hs.proper
  | objectBinding => exact (objectBinding_runs hg rfl).marked hs.proper
  | bindingTarget => exact (bindingTarget_runs hg rfl).marked hs.proper
  | restParameter => exact (restParameter_runs hg rfl).marked hs.proper
  | formalParameters => exact (formalParameters_runs hg rfl).marked hs.proper
  | declarator => exact (declarator_runs hg rfl).marked hs.proper
  | variableStatement => exact (variableStatement_runs hg rfl).marked hs.proper
  | headDeclaration => exact (headDeclaration_runs hg rfl).marked hs.proper
  | parametersAndBody => exact (parametersAndBody_runs hg rfl).marked hs.proper
  | functionDefinition => exact (functionDefinition_runs hg rfl).marked hs.proper
  | methodFunction => exact (methodFunction_runs hg rfl).marked hs.proper
  | arrowFunction => exact (arrowFunction_runs hg rfl).marked hs.proper
  | fieldInitializer => exact (fieldInitializer_runs hg rfl).marked hs.proper
  | staticBlock => exact (staticBlock_runs hg rfl).marked hs.proper
  | methodOrField => exact (methodOrField_runs hg rfl).marked hs.proper
  | classElement => exact (classElement_runs hg rfl).marked hs.proper
  | classElements => exact (classElements_runs hg rfl).marked hs.proper
  | classDefinition => exact (classDefinition_runs hg.grammar rfl).marked hs.proper
  | templateLiteral => exact (templateLiteral_runs hg rfl).marked hs.proper
  | arrayElements => exact (arrayElements_runs hg rfl).marked hs.proper
  | arrayLiteral => exact (arrayLiteral_runs hg rfl).marked hs.proper
  | shorthandMember => exact (shorthandMember_runs hg rfl).marked hs.proper
  | objectProperty => exact (objectProperty_runs hg rfl).marked hs.proper
  | objectMember => exact (objectMember_runs hg rfl).marked hs.proper
  | objectLiteral => exact (objectLiteral_runs hg rfl).marked hs.proper
  | coverParenthesized => exact (coverParenthesized_runs hg rfl).marked hs.proper
  | arrowCover => exact (arrowCover_runs hg rfl).marked hs.proper
  | coverArrow => exact (coverArrow_runs hg rfl).marked hs.proper
  | parenthesizedOrArrow => exact (parenthesizedOrArrow_runs hg rfl).marked hs.proper
  | asyncCallOrArrow => exact (asyncCallOrArrow_runs hg rfl).marked hs.proper
  | nameOrArrow => exact (nameOrArrow_runs hg rfl).marked hs.proper
  | asyncPrimary => exact (asyncPrimary_runs hg rfl).marked hs.proper
  | primary => exact (primary_runs hg.grammar rfl).marked hs.proper
  | privateNameIn => exact Runs.reading.marked hs.proper
  | memberName => exact Runs.reading.marked hs.proper
  | computedMember => exact (computedMember_runs hg rfl).marked hs.proper
  | arguments => exact (arguments_runs hg rfl).marked hs.proper
  | optionalLink => exact (optionalLink_runs hg rfl).marked hs.proper
  | subscripts => exact (subscripts_runs hg rfl).marked hs.proper
  | superBase => exact Runs.reading.marked hs.proper
  | newTarget => exact Runs.reading.marked hs.proper
  | construct => exact (construct_runs hg.grammar rfl).marked hs.proper
  | operandBase => exact (operandBase_runs hg.grammar rfl).marked hs.proper
  | operand => exact (operand_runs hg.grammar rfl).marked hs.proper
  | heritage => exact (heritage_runs hg rfl).marked hs.proper
  | postfixExpression => exact (postfixExpression_runs hg.grammar rfl).marked hs.proper
  | prefixUpdate => exact (prefixUpdate_runs hg.grammar rfl).marked hs.proper
  | unaryOperation => exact (unaryOperation_runs hg.grammar rfl).marked hs.proper
  | awaitOperation => exact (awaitOperation_runs hg.grammar rfl).marked hs.proper
  | unaryExpression => exact (unaryExpression_runs hg.grammar rfl).marked hs.proper
  | binaryOperation => exact (binaryOperation_runs hg.grammar rfl).marked hs.proper
  | binaryExpression => exact (binaryExpression_runs hg.grammar rfl).marked hs.proper
  | conditionalExpression => exact (conditionalExpression_runs hg.grammar rfl).marked hs.proper
  | yieldExpression => exact (yieldExpression_runs hg.grammar rfl).marked hs.proper
  | assignmentExpression => exact (assignmentExpression_runs hg.grammar rfl).marked hs.proper
  | condition => exact (condition_runs hg rfl).marked hs.proper
  | substatement => exact substatement_marks hg rfl hs.proper hs.labels
  | loopBody hl => exact (loopBody_runs hg rfl hl).marked hs.proper
  | expressionStatement => exact (expressionStatement_runs hg rfl).marked hs.proper
  | ifStatement hk => exact (ifStatement_runs hg rfl hs.proper (by simp [hk]) hs.labels).marked
  | whileStatement hk =>
    exact (whileStatement_runs hg rfl hs.proper (by simp [hk]) hs.labels).marked
  | doStatement hk => exact (doStatement_runs hg rfl hs.proper (by simp [hk]) hs.labels).marked
  | returnStatement => exact (returnStatement_runs hg rfl).marked hs.proper
  | breakStatement => exact Runs.reading.marked hs.proper
  | continueStatement => exact Runs.reading.marked hs.proper
  | throwStatement => exact (throwStatement_runs hg rfl).marked hs.proper
  | tryStatement hk => exact (tryStatement_runs hg rfl hs.proper (by simp [hk]) hs.labels).marked
  | catchClause hl => exact (catchClause_runs hg rfl hl).marked hs.proper
  | switchStatement hk =>
    exact (switchStatement_runs hg rfl hs.proper (by simp [hk]) hs.labels).marked
  | switchCases hl => exact (switchCases_runs hg rfl hl).marked hs.proper
  | caseTest => exact (caseTest_runs hg rfl).marked hs.proper
  | caseBody hl => exact (caseBody_runs hg rfl hl).marked hs.proper
  | withStatement hk => exact (withStatement_runs hg rfl hs.proper (by simp [hk]) hs.labels).marked
  | forStatement hk => exact (forStatement_runs hg rfl hs.proper (by simp [hk]) hs.labels).marked
  | loopOverValues _ _ _ _ hl => exact (loopOverValues_runs hg rfl hl).marked hs.proper
  | loopOnCondition _ _ _ hl => exact (loopOnCondition_runs hg rfl hl).marked hs.proper
  | declarationLoop _ _ _ hl => exact (declarationLoop_runs hg rfl hl).marked hs.proper
  | expressionLoop _ _ hl => exact (expressionLoop_runs hg rfl hl).marked hs.proper
  | labeledStatement => exact labeledStatement_marks hg rfl hs.proper hs.labels
  | functionDeclaration => exact (functionDeclaration_runs hg rfl).marked hs.proper
  | statement => exact statement_marks (fun _ => hg.grammar) rfl hs.proper hs.labels

/-- The parsing functions that are called for one item of a list after the other. -/
inductive ParsesItem (g : Nested) (g' : Parser.Nested) :
    {α : Type} → Machine α → (Context → Parser α) → Prop where
  | nestedStatement : ParsesItem g g' g.statement g'.statement
  | statement : ParsesItem g g' (Machine.statement g.grammar) (Parser.statement g'.grammar)
  | nestedAssignment : ParsesItem g g' g.assignment g'.assignment
  | assignmentExpression : ParsesItem g g' (Machine.assignmentExpression g.grammar)
    (Parser.assignmentExpression g'.grammar)
  | operand : ParsesItem g g' (Machine.operand g.grammar) (Parser.operand g'.grammar)
  | nestedBindingTarget : ParsesItem g g' g.bindingTarget g'.bindingTarget
  | bindingTarget : ParsesItem g g' (Machine.bindingTarget g) (Parser.bindingTarget g')
  | classElement (derived hasConstructor : Bool) :
    ParsesItem g g' (Machine.classElement g derived hasConstructor)
      (Parser.classElement g' · derived hasConstructor)
  | objectMember : ParsesItem g g' (Machine.objectMember g) (Parser.objectMember g')

section

variable {text : String} {g : Nested} {g' : Parser.Nested} {r : Registers} {s : State} {α : Type}
  {m : Machine α} {p : Context → Parser α}

/-- An item is a token at least. -/
theorem ParsesItem.takes (h : ParsesItem g g' m p) (hg : g'.Sound text) (ctx : Context)
    (hs : s.Sound text) : Meets text (p ctx) s fun _ s' => s.offset < s'.consumed := by
  have hmakes : ∀ {f : α → List Sketch}, Makes text f (p ctx) →
      Meets text (p ctx) s fun _ s' => s.offset < s'.consumed :=
    fun h => (h s hs).imp fun _ _ h => h.1.lt
  cases h with
  | nestedStatement => exact hmakes (hg.statement ctx)
  | statement => exact hmakes (statement_makes hg.grammar ctx)
  | nestedAssignment => exact hmakes (hg.assignment ctx)
  | assignmentExpression => exact hmakes (assignmentExpression_makes hg.grammar ctx)
  | operand => exact hmakes (operand_makes hg.grammar ctx)
  | nestedBindingTarget => exact hmakes (hg.bindingTarget ctx).makes
  | bindingTarget => exact hmakes (bindingTarget_makesWhole hg ctx).makes
  | classElement => exact hmakes (classElement_makes hg ctx _ _)
  | objectMember => exact hmakes (objectMember_makes hg ctx)

end

section

variable {text : String} {r : Registers} {s : State} {fuel : Nat} {α : Type} {m : Machine α}
  {p : Context → Parser α}

/-- Where a parsing function can be called, it runs as the parser does, if there is fuel for all
levels. -/
theorem Parses.runsAt (hs : Ready text r s) (hf : maxDepth < r.depth + fuel)
    (h : Parses (.ofFuel fuel) (.ofDepth (maxDepth - r.depth)) r s m p) :
    RunsAt r.depth r s m (p r.context)
      fun _ r' s' => r.Marked s.offset r' ∧ Later text s s' := by
  have hd : r.depth + (maxDepth - r.depth) = maxDepth := Nat.add_sub_cancel' hs.depth_le
  exact h.runs (.ofFuel hd (by omega)) hs

/-- Wherever a parsing function is called, it runs as the parser does: the registers take the place
of the context, and there is fuel for all of its loops. The depth of nesting stays between the one
at the call and one more than may be entered. If there is a result, then the flags, the depth, what
the function notes and the names of the labels are what they were at the call. -/
theorem parses_restores (hs : Reachable text r s) (hf : maxDepth < r.depth + fuel)
    (h : Parses (.ofFuel fuel) (.ofDepth (maxDepth - r.depth)) r s m p) :
    (m r s).parsed? = some (p r.context s) ∧
      (∀ depth ∈ (m r s).depths, r.depth ≤ depth ∧ depth ≤ 101) ∧
      ∀ a r' s', (m r s).outcome = .ok (a, r', s') →
        r'.flags = r.flags ∧ r'.depth = r.depth ∧ r'.facts.canReturn = r.facts.canReturn ∧
          r'.facts.iterationDepth = r.facts.iterationDepth ∧
          r'.facts.breakableDepth = r.facts.breakableDepth ∧
          r'.facts.labels.map (·.name) = r.facts.labels.map (·.name) := by
  have hrun := h.runsAt hs.ready hf
  refine ⟨hrun.parsed?, hrun.depths, fun a r' s' hok => ?_⟩
  rcases (hrun.ok hok).1.1 with rfl | ⟨isLoop, rfl⟩
  · exact ⟨rfl, rfl, rfl, rfl, rfl, rfl⟩
  · exact ⟨rfl, rfl, rfl, rfl, rfl, map_name_markLabels⟩

/-- A loop with a label, at the start of a text. -/
theorem parses_restores_labeledLoop :
    let run := statement (Nested.ofFuel 101).grammar {} (.ofString "a: while (b) break a;")
    run.depths = [1, 2, 1, 2, 1, 0] ∧ (∀ depth ∈ run.depths, 0 ≤ depth ∧ depth ≤ 101) ∧
      run.outcome.toOption.map (fun out => (out.2.1, out.2.2.consumed)) = some ({}, 21) ∧
      ∀ a r' s', run.outcome = .ok (a, r', s') → r'.flags = {} ∧ r'.depth = 0 := by
  have hreach : Reachable "a: while (b) break a;" {} (.ofString "a: while (b) break a;") := .start
  obtain ⟨-, hdepths, hok⟩ := parses_restores hreach (by decide : maxDepth < 0 + 101) .statement
  exact ⟨by decide +kernel, hdepths, by decide +kernel,
    fun a r' s' h => ⟨(hok a r' s' h).1, (hok a r' s' h).2.1⟩⟩

/-- The parser always makes progress. The token that comes next never starts before the end of the
last one. Wherever a parsing function is called, it is never out of fuel, so all of its loops end,
and if there is a result, then the end of the last token is no earlier one; where it is called for
one item of a list after the other, the token that came next at the call has been taken. -/
theorem parses_progress (hs : Reachable text r s) (hf : maxDepth < r.depth + fuel)
    (h : Parses (.ofFuel fuel) (.ofDepth (maxDepth - r.depth)) r s m p) :
    s.consumed ≤ s.offset ∧ (m r s).parsed? = some (p r.context s) ∧
      ∀ a r' s', (m r s).outcome = .ok (a, r', s') →
        s.consumed ≤ s'.consumed ∧ s'.consumed ≤ s'.offset ∧
          (ParsesItem (.ofFuel fuel) (.ofDepth (maxDepth - r.depth)) m p →
            s.offset < s'.consumed) := by
  have hrun := h.runsAt hs.ready hf
  have hsound := hs.ready.proper.sound
  refine ⟨hsound.consumed_le, hrun.parsed?, fun a r' s' hok => ?_⟩
  obtain ⟨⟨-, hlater⟩, hp⟩ := hrun.ok hok
  refine ⟨hlater.consumed_le, hlater.sound.consumed_le, fun hitem => ?_⟩
  exact (hitem.takes (Parser.Nested.ofDepth_sound _) _ hsound).ok hp

/-- A loop with a label, up to the end of a text. -/
theorem parses_progress_labeledLoop :
    let s := State.ofString "a: while (b) break a;"
    let run := statement (Nested.ofFuel 101).grammar {} s
    run.outcome.toOption.map (fun out => out.2.2.consumed) = some 21 ∧ s.consumed ≤ s.offset ∧
      ∀ a r' s', run.outcome = .ok (a, r', s') →
        s.consumed ≤ s'.consumed ∧ s'.consumed ≤ s'.offset ∧ s.offset < s'.consumed := by
  have hreach : Reachable "a: while (b) break a;" {} (.ofString "a: while (b) break a;") := .start
  obtain ⟨hle, -, hok⟩ := parses_progress hreach (by decide : maxDepth < 0 + 101) .statement
  refine ⟨by decide +kernel, hle, fun a r' s' h => ?_⟩
  exact ⟨(hok a r' s' h).1, (hok a r' s' h).2.1, (hok a r' s' h).2.2 .statement⟩

end

end Machine

end EcmaScript
