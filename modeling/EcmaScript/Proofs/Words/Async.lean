import EcmaScript.Proofs.Lexer.Alone
import EcmaScript.Proofs.Words.Chain

/-!
# Parameters of asynchronous arrow functions

A single parameter of an asynchronous arrow function can stand in parentheses or without them. The
two ways are read apart: without parentheses the parameter is read as a name by the rules of the
function, in parentheses it is read as an argument by the rules around the function and turned into
a parameter later. So the name `await` is refused in the one way and not in the other.
-/

namespace EcmaScript

/-- An asynchronous arrow function with a name as its only parameter. -/
def Expression.IsAsyncArrow (name : String) (e : Expression) : Prop :=
  ∃ span params place binder body,
    e = .conciseArrow span
      (.parameters params [.element place (.binding { span := binder, name }) none] none) body
      true 0

/-- A script that is an asynchronous arrow function with a name as its only parameter. -/
def Program.IsAsyncArrow (name : String) (p : Program) : Prop :=
  ∃ span e, p.body = [.expressionStatement span e] ∧ Expression.IsAsyncArrow name e

namespace Lexer

/-- A text that is one token when it is read alone consists of this token. -/
theorem tokenize_of_isToken {text : String} {l : Lexeme} (h : IsToken true text.toList l)
    (hh : text.toList.head? ≠ some '#') :
    tokenize text = ([l.alone text], []) ∧ (l.alone text).text = text := by
  have hhash : ∀ cs, text.toList ≠ '#' :: '!' :: cs := fun cs hc => hh (by rw [hc]; rfl)
  obtain ⟨front, hrest, hoffset⟩ := reaches_lexeme h.lexeme
  have hchars : (l.alone text).text.toList = front := toList_textUntil hrest hoffset
  rw [h.rest, List.append_nil] at hrest
  refine ⟨(tokenize_of_lexeme hhash h.gap h.lexeme h.rest).trans (by rw [h.faults]), ?_⟩
  exact String.toList_injective (hchars.trans hrest.symm)

/-- A piece of text, read alone, is one word that can be used as a name. -/
structure IsWord (piece : List Char) (t : Token) : Prop where
  isToken : ∀ regexAllowed, ∃ l, IsToken regexAllowed piece l ∧ l.kind = t.kind ∧ l.value = t.value
  isIdentifierLike : t.kind.isIdentifierLike = true

/-- A text that is one token is a word if its token can be used as a name. -/
theorem isWord_of_tokenize {text : String} {t : Token} (h : tokenize text = ([t], []))
    (ht : t.text = text) (hk : t.kind.isIdentifierLike = true) : IsWord text.toList t := by
  obtain ⟨l, hgap, hl, hrest, hfaults, rfl⟩ := lexeme_of_tokenize h ht
  have hkind : l.kind.isIdentifierLike = true := hk
  refine ⟨fun regexAllowed => ⟨l, ⟨hgap, ?_, hfaults, hrest⟩, rfl, rfl⟩, hk⟩
  show lexeme? regexAllowed (.ofString text) = some l
  cases hl' : lexeme? regexAllowed (.ofString text) with
  | none =>
    rw [lexeme?, rest_of_lexeme_none hl'] at hl
    cases hl
  | some l' =>
    rcases lexeme_allowed hl' with ⟨-, htrue⟩ | ⟨-, htrue⟩
    · exact htrue.symm.trans hl
    · obtain rfl := Option.some.inj (htrue.symm.trans hl)
      rw [kind_regexLiteral] at hkind
      cases hkind

end Lexer

namespace Parser

open Lexer

section

variable {text : String} {s : State} {ctx : Context} {k : TokenKind} {piece : List Char} {t : Token}

/-- A word that may be a name is no other token. -/
theorem ne_of_isIdentifierLike {k' : TokenKind} (hk : k.isIdentifierLike = true)
    (hk' : k'.isIdentifierLike = false) : k ≠ k' := by
  rintro rfl
  cases hk'.symm.trans hk

/-- Whatever can be used as a name is one, unless it is reserved where it stands. -/
theorem identifier_eq (hk : s.lexer.token.kind.isIdentifierLike = true) :
    identifier ctx s =
      (checkName ctx s.lexer.token.kind s.offset >>= fun _ => takeIdentifier) s := by
  refine (bind_run (a := s.lexer.token) rfl).trans ?_
  rw [if_neg (by rw [beq_iff_eq]; exact ne_of_isIdentifierLike hk rfl), hk]
  rfl

/-- A word that the context does not keep for itself is taken as a name. -/
theorem identifier_of_free (hk : s.lexer.token.kind.isIdentifierLike = true)
    (hy : ctx.canYield = false) (ha : s.lexer.token.kind = .word .awaitKw → ctx.canAwait = false) :
    identifier ctx s = .ok (identifierOf s.lexer.token, s.next) := by
  have hcheck : checkName ctx s.lexer.token.kind s.offset s = .ok ((), s) := by
    unfold checkName
    split
    · rw [hy]
      rfl
    · rename_i heq
      rw [ha heq]
      rfl
    · rfl
  exact (identifier_eq hk).trans (bind_run hcheck)

/-- A primary expression may start with a word that the context does not keep for itself. -/
theorem startsPrimary_of_isIdentifierLike (hk : k.isIdentifierLike = true)
    (hy : ctx.canYield = false) (ha : ctx.canAwait = false) : startsPrimary ctx k = true := by
  unfold startsPrimary
  rw [hy, ha]
  cases k with
  | identifier => rfl
  | word w => cases w <;> first | rfl | exact nomatch hk
  | _ => exact nomatch hk

/-- A word in parentheses is a name. -/
theorem primary_word {g : Grammar} (hk : s.lexer.token.kind.isIdentifierLike = true)
    (hnext : s.next.lexer.token.kind = .mark .closeParen)
    (hline : s.next.lexer.token.afterLineBreak = false) :
    primary g ctx s = nameOrArrow g.toNested ctx s := by
  refine (bind_run (a := s.offset) rfl).trans ?_
  refine (bind_run (a := s.lexer.token.kind) rfl).trans ?_
  have hasync : asyncPrimary g.toNested ctx s = nameOrArrow g.toNested ctx s := by
    refine (bind_run (a := s.offset) rfl).trans ?_
    refine (bind_run (a := s.next.lexer.token) rfl).trans ?_
    rw [hline, hnext]
    rfl
  generalize s.lexer.token.kind = k at hk
  cases k with
  | identifier => rfl
  | word w => cases w <;> first | rfl | exact hasync | exact nomatch hk
  | _ => exact nomatch hk

/-- A number is a primary expression of one token. -/
theorem primary_number (g : Grammar) (ctx : Context) (hk : s.lexer.token.kind = .number) :
    ∃ literal, primary g ctx s = .ok (.number literal, s.next) := by
  let number := s.lexer.token
  refine ⟨⟨number.span, Numeral.value number.text, number.text⟩, ?_⟩
  refine (bind_run (a := s.offset) rfl).trans ?_
  refine (bind_run (a := TokenKind.number) (by rw [← hk]; rfl)).trans ?_
  rfl

/-- Behind a name a slash divides. -/
theorem not_allowsRegexAfter (hk : k.isIdentifierLike = true) : k.allowsRegexAfter = false := by
  cases k with
  | identifier => rfl
  | word w => cases w <;> first | rfl | exact nomatch hk
  | _ => exact nomatch hk

/-- An arrow in front of the blank is seen ahead. -/
theorem At.isAtArrow {rest : List Char} (h : At text s (.mark .arrow) rest) :
    s.isAtArrow = true := by
  have hline : s.lexer.token.afterLineBreak = false := h.isAt.lineBreak
  rw [State.isAtArrow, h.kind, hline]
  rfl

/-- The suspension of the state is set. -/
theorem setSuspension_run {outer : Option Fault} (h : s.suspension = outer) :
    (modify fun s => { s with suspension := outer } : Parser Unit) s = .ok ((), s) := by
  obtain ⟨⟩ := s
  subst h
  rfl

/-- A function that suspends nothing leaves the surroundings as they are. -/
theorem ownSuspensions_run {α : Type} {p : Parser α} {a : α} {s' : State} (hs : s.suspension = none)
    (hs' : s'.suspension = none) (h : p s = .ok (a, s')) : ownSuspensions p s = .ok (a, s') := by
  refine (bind_run (a := s) rfl).trans ((bind_run (setSuspension_run hs)).trans ?_)
  rw [hs]
  exact (bind_run h).trans (bind_run (setSuspension_run hs'))

/-- From the arrow on there is only the body. -/
theorem arrowFunction_zero (n start : Nat) (ctx : Context) (params : Node .parameters)
    (h : At text s (.mark .arrow) (' ' :: (['0'] ++ []))) (hs : s.suspension = none) :
    ∃ span body, arrowFunction (Nested.ofDepth (n + 1)) ctx start params true s =
        .ok (.conciseArrow span params body true 0, s.next.next) ∧
      AtLink text s.next.next [] ∧ s.consumed < s.next.next.consumed := by
  have hzero : At text s.next .number [] := h.next_blank .number rfl rfl closes_nil
  obtain ⟨hend, hclean⟩ := hzero.isAt.scan_end
  have hlink : AtLink text s.next.next [] :=
    ⟨hzero.sound_next rfl, hzero.size, hzero.coverInit, hclean, fun _ => hend,
      fun _ _ _ h => nomatch h⟩
  obtain ⟨literal, hprimary⟩ :=
    primary_number (Nested.ofDepth n).grammar (ctx.arrow true) hzero.kind
  have hvalue : (Nested.ofDepth (n + 1)).value (ctx.arrow true) s.next =
      .ok (.number literal, s.next.next) := by
    refine (value_alone (by rw [hzero.kind]; rfl) hzero.coverInit fun e s' he => ?_).trans hprimary
    obtain ⟨rfl, rfl⟩ := Prod.mk.inj (Except.ok.inj (hprimary.symm.trans he))
    exact ⟨hzero.coverInit, by rw [hlink.done rfl]; rfl⟩
  refine ⟨.ofOffsets start s.next.next.consumed, .number literal, ?_, hlink,
    Nat.lt_trans (h.consumed_lt rfl) (hzero.consumed_lt rfl)⟩
  refine (bind_run (expect_run h.kind)).trans ?_
  refine (bind_run (isAt_run_of_ne hzero.kind (by decide))).trans ?_
  exact bind_run (ownSuspensions_run hs hs hvalue)

/-- How an arrow and a body are spelled behind a parameter. -/
def arrowEnd : List Char := ' ' :: (['=', '>'] ++ (' ' :: (['0'] ++ [])))

/-- Behind the parameter there are an arrow and a body, and nothing else. -/
theorem arrowFunction_end (n start : Nat) (ctx : Context) (params : Span) (id : Identifier)
    (hid : id.scope = 0) (h : At text s k arrowEnd) (hk : isOrdinary k = true)
    (hr : k.allowsRegexAfter = false) (hs : s.suspension = none) :
    At text s.next (.mark .arrow) (' ' :: (['0'] ++ [])) ∧
    ∃ e s', arrowFunction (Nested.ofDepth (n + 1)) ctx start
        (.parameters params [.element id.span (.binding id) none] none) true s.next = .ok (e, s') ∧
      Expression.IsAsyncArrow id.name e ∧ AtLink text s' [] ∧ s.consumed < s'.consumed := by
  have harrow : At text s.next (.mark .arrow) (' ' :: (['0'] ++ [])) :=
    h.next_blank (.mark .arrow) hk (by rw [hr]; rfl) (closes_cons (by decide))
  obtain ⟨span, body, hrun, hlink, hlt⟩ := arrowFunction_zero n start ctx
    (.parameters params [.element id.span (.binding id) none] none) harrow hs
  refine ⟨harrow, _, _, hrun, ?_, hlink, Nat.lt_trans (h.consumed_lt hk) hlt⟩
  obtain ⟨place, name, scope⟩ := id
  subst hid
  exact ⟨span, params, place, place, body, rfl⟩

/-- A parameter without parentheses is read by the rules of the function that it belongs to, so it
cannot be `await`. -/
theorem asyncPrimary_bare {n : Nat} (h : At text s (.word .asyncKw) (' ' :: (piece ++ arrowEnd)))
    (hw : IsWord piece t) (hs : s.suspension = none) (hy : ctx.canYield = false) :
    Settles (asyncPrimary (Nested.ofDepth (n + 1)) ctx) s
      (fun e s' => t.kind ≠ .word .awaitKw ∧ Expression.IsAsyncArrow t.value e ∧ AtLink text s' [] ∧
        s.consumed < s'.consumed)
      (fun faults => t.kind = .word .awaitKw ∧
        ∃ place, faults = #[⟨.unexpectedReservedWord, place⟩]) := by
  obtain ⟨l, htoken, hkind, hvalue⟩ := hw.isToken false
  obtain ⟨hname, hval⟩ := h.next_token_blank rfl htoken (closes_cons (by decide))
  rw [hkind] at hname
  rw [hvalue] at hval
  have hlike : s.next.lexer.token.kind.isIdentifierLike = true := by
    rw [hname.kind]
    exact hw.isIdentifierLike
  have hline : s.next.lexer.token.afterLineBreak = false := hname.isAt.lineBreak
  have hfunction : s.next.lexer.token.kind ≠ .word .functionKw := ne_of_isIdentifierLike hlike rfl
  refine .step (a := s.offset) rfl (.step (a := s.next.lexer.token) rfl ?_)
  rw [hline, beq_eq_false_iff_ne.mpr hfunction, hlike]
  refine .step advance_run ?_
  by_cases hawait : t.kind = .word .awaitKw
  · refine .of_error (e := ⟨#[⟨.unexpectedReservedWord, s.next.offset⟩]⟩) ?_ ⟨hawait, _, rfl⟩
    have hrefused : identifier { ctx with canAwait := true } s.next =
        .error ⟨#[⟨.unexpectedReservedWord, s.next.offset⟩]⟩ := by
      rw [identifier_eq hlike, hname.kind, hawait]
      show Except.error _ = _
      rw [hname.isAt.faults]
      rfl
    simp only [Bind.bind, StateT.bind, hrefused, Except.bind]
  · have hidentifier : identifier { ctx with canAwait := true } s.next =
        .ok (identifierOf s.next.lexer.token, s.next.next) :=
      identifier_of_free hlike hy fun h => absurd (hname.kind.symm.trans h) hawait
    obtain ⟨harrow, e, s', hrun, hasync, hlink, hlt⟩ := arrowFunction_end n s.offset ctx
      s.next.lexer.token.span (identifierOf s.next.lexer.token) rfl hname
      (isOrdinary_of_isIdentifierLike hw.isIdentifierLike)
      (not_allowsRegexAfter hw.isIdentifierLike) hs
    refine .step hidentifier (.step (atArrow_run harrow.isAtArrow) ?_)
    refine .of_ok hrun ⟨hawait, ?_, hlink, Nat.lt_trans (h.consumed_lt rfl) hlt⟩
    rw [← hval]
    exact hasync

/-- A name read as an expression is a parameter. -/
theorem toParameters_reference {notes : CoverNotes} (hn : notes.parenthesized = []) (span : Span)
    (id : Identifier) :
    Cover.Parenthesized.toParameters ⟨span, [.reference id], none⟩ notes =
      .ok (.parameters span [.element id.span (.binding id) none] none) := by
  have hplain : notes.isParenthesized (Node.reference id).span = false := by
    rw [CoverNotes.isParenthesized, hn]
    rfl
  have hpattern : Cover.toPattern notes true (.reference id) = .ok (.binding id) := by
    rw [Cover.toPattern, hplain]
    rfl
  have helement : Cover.toElement notes true (.reference id) =
      .ok (.element id.span (.binding id) none) := by
    rw [Cover.toElement, hpattern]
    rfl
  rw [Cover.Parenthesized.toParameters, Cover.toParameterItems, helement]
  · rfl
  · rintro _ _ ⟨⟩

/-- A word between parentheses is read as a name. -/
theorem coverParenthesized_word {n : Nat}
    (h : At text s (.mark .openParen) (piece ++ ')' :: arrowEnd)) (hw : IsWord piece t)
    (hy : ctx.canYield = false) (ha : ctx.canAwait = false) :
    s.next.lexer.token.value = t.value ∧ s.consumed < s.next.next.consumed ∧
      At text s.next.next (.mark .closeParen) arrowEnd ∧
      Settles (coverParenthesized (Nested.ofDepth (n + 1)) ctx) s
        (fun cover s' => s' = s.next.next.next ∧ ∃ span,
          cover = ⟨span, [.reference (identifierOf s.next.lexer.token)], none⟩)
        (fun _ => False) := by
  obtain ⟨l, htoken, hkind, hvalue⟩ := hw.isToken true
  obtain ⟨hname, hval⟩ := h.next_token rfl htoken (closes_cons (by decide))
  rw [hkind] at hname
  rw [hvalue] at hval
  have hord := isOrdinary_of_isIdentifierLike hw.isIdentifierLike
  have hlike : s.next.lexer.token.kind.isIdentifierLike = true := by
    rw [hname.kind]
    exact hw.isIdentifierLike
  have hname' : At text s.next t.kind ([')'] ++ arrowEnd) := hname
  have hclose : At text s.next.next (.mark .closeParen) arrowEnd :=
    hname'.next (.mark .closeParen) hord
      (by rw [not_allowsRegexAfter hw.isIdentifierLike]; rfl) (closes_cons (by decide))
  have hprimary : primary (Nested.ofDepth n).grammar ctx.allowIn s.next =
      .ok (.reference (identifierOf s.next.lexer.token), s.next.next) := by
    rw [primary_word hlike hclose.kind hclose.isAt.lineBreak]
    refine (bind_run (a := s.next.offset) rfl).trans ?_
    refine (bind_run (identifier_of_free hlike hy fun _ => ha)).trans ?_
    exact bind_run (atArrow_run_of_ne hclose.kind (by decide))
  have hstart : startsPrimary ctx.allowIn s.next.lexer.token.kind = true :=
    startsPrimary_of_isIdentifierLike hlike hy ha
  have hassignment := (assignment_alone hstart hname.coverInit fun e s' he => by
    obtain ⟨rfl, rfl⟩ := Prod.mk.inj (Except.ok.inj (hprimary.symm.trans he))
    exact ⟨hclose.coverInit, by rw [hclose.kind]; rfl⟩).trans hprimary
  have hitem : spreadable ((Nested.ofDepth (n + 1)).assignment ctx.allowIn) s.next =
      .ok (.reference (identifierOf s.next.lexer.token), s.next.next) := by
    refine (bind_run (a := s.next.offset) rfl).trans ?_
    refine (bind_run (eat_run_of_ne hname.kind ?_)).trans hassignment
    exact ne_of_isIdentifierLike hw.isIdentifierLike rfl
  refine ⟨hval, Nat.lt_trans (h.consumed_lt rfl) (hname.consumed_lt hord), hclose, ?_⟩
  refine .step (a := s.offset) rfl (.step (expect_run h.kind) ?_)
  refine .bind (P := fun r s' => s' = s.next.next ∧
    r = ([.reference (identifierOf s.next.lexer.token)], none)) (.iterate ?_) (fun _ => id) ?_
  · refine .step (isAt_run_of_ne hname.kind (ne_of_isIdentifierLike hw.isIdentifierLike rfl)) ?_
    exact .step hitem (.step (isAt_run hclose.kind) (.pure ⟨rfl, rfl⟩))
  · rintro _ _ ⟨rfl, rfl⟩
    refine .step (expect_run hclose.kind) ?_
    exact .step (a := Span.ofOffsets s.offset s.next.next.next.consumed) rfl (.pure ⟨rfl, _, rfl⟩)

/-- A parameter in parentheses is read by the rules around the function, and what has become of it
is not checked again. -/
theorem asyncPrimary_parenthesized {n : Nat}
    (h : At text s (.word .asyncKw) (' ' :: '(' :: (piece ++ ')' :: arrowEnd)))
    (hw : IsWord piece t) (hs : s.suspension = none) (hn : s.notes.parenthesized = [])
    (hy : ctx.canYield = false) (ha : ctx.canAwait = false) :
    Settles (asyncPrimary (Nested.ofDepth (n + 1)) ctx) s
      (fun e s' => Expression.IsAsyncArrow t.value e ∧ AtLink text s' [] ∧ s.consumed < s'.consumed)
      (fun _ => False) := by
  have hopen := h.next_openParen rfl
  have hline : s.next.lexer.token.afterLineBreak = false := hopen.isAt.lineBreak
  obtain ⟨hvalue, hlt, hclose, hcover⟩ := coverParenthesized_word (n := n) hopen hw hy ha
  refine .step (a := s.offset) rfl (.step (a := s.next.lexer.token) rfl ?_)
  rw [hline, hopen.kind]
  have hcallee : takeIdentifier s = .ok (identifierOf s.lexer.token, s.next) := rfl
  refine .step (a := s.offset) rfl (.step hcallee ?_)
  refine .step (takeCoverInit_run hopen.coverInit) ?_
  refine .bind (P := fun cover s' => s' = s.next.next.next.next ∧ ∃ span,
    cover = ⟨span, [.reference (identifierOf s.next.next.lexer.token)], none⟩) ?_ (fun _ => id) ?_
  · refine .step (a := s.next) rfl (.step (setSuspension_run hs) ?_)
    refine .bind hcover (fun _ => id) ?_
    rintro _ _ ⟨rfl, span, rfl⟩
    have houter : s.next.suspension = none := hs
    have hinner : s.next.next.next.next.suspension = none := hs
    refine .step (a := s.next.next.next.next) rfl ?_
    simp only [houter, hinner, Option.or_none]
    exact .step (setSuspension_run hinner) (.pure ⟨rfl, span, rfl⟩)
  · rintro _ _ ⟨rfl, span, rfl⟩
    obtain ⟨harrow, e, s', hrun, hasync, hlink, hlt'⟩ := arrowFunction_end n s.offset ctx
      span (identifierOf s.next.next.lexer.token) rfl hclose rfl rfl hs
    refine .step (atArrow_run harrow.isAtArrow) ?_
    refine .step (setCoverInit_run harrow.coverInit) ?_
    refine .step (a := s.next.next.next.next) rfl ?_
    have hnotes : s.next.next.next.next.notes.parenthesized = [] := hn
    rw [toParameters_reference hnotes]
    refine .step rfl (.of_ok hrun ⟨?_, hlink, ?_⟩)
    · rw [← hvalue]
      exact hasync
    · exact Nat.lt_trans (h.consumed_lt rfl) (Nat.lt_trans hlt hlt')

/-- A script that starts with the word `async`, and with no function behind it, is one expression
if the text ends behind it. -/
theorem script_async {P : Expression → Prop} {E : Array Fault → Prop} {rest : List Char}
    (h : At text s (.word .asyncKw) rest) (hcolon : s.next.lexer.token.kind ≠ .mark .colon)
    (hfunction : s.next.lexer.token.kind ≠ .word .functionKw)
    (hrun : Settles (asyncPrimary (Nested.ofDepth 98) {}) s
      (fun e s' => P e ∧ AtLink text s' [] ∧ s.consumed < s'.consumed) E) :
    Settles script s
      (fun body s' => (∃ span e, body = [.expressionStatement span e] ∧ P e) ∧
        s'.lexer.faults = #[]) E := by
  have hprimary : primary (Nested.ofDepth 98).grammar {} s =
      asyncPrimary (Nested.ofDepth 98) {} s :=
    (bind_run (a := s.offset) rfl).trans
      (bind_run (a := TokenKind.word .asyncKw) (by rw [← h.kind]; rfl))
  have hexpression : (Nested.ofDepth 99).expression {} s =
      asyncPrimary (Nested.ofDepth 98) {} s := by
    refine (expression_alone (by rw [h.kind]; rfl) h.coverInit
      fun e s' he => ?_).trans hprimary
    obtain ⟨-, hlink, -⟩ := hrun.ok (hprimary.symm.trans he)
    exact ⟨hlink.coverInit, by rw [hlink.done rfl]; rfl⟩
  have hsettles : Settles ((Nested.ofDepth 99).expression {}) s
      (fun e s' => P e ∧ AtLink text s' [] ∧ s.consumed < s'.consumed) E := by
    unfold Settles at hrun ⊢
    rwa [hexpression]
  have hplain : atAsyncFunction s = .ok (false, s) := by
    refine (bind_run (a := s.next.lexer.token) rfl).trans ?_
    rw [beq_eq_false_iff_ne.mpr hfunction]
    rfl
  have hstatement : Settles ((Nested.ofDepth 100).statement {}) s
      (fun statement s' => ∃ span e, statement = .expressionStatement span e ∧ P e ∧
        AtLink text s' [] ∧ s.consumed < s'.consumed) E := by
    refine .step (a := s.offset) rfl (.step (a := TokenKind.word .asyncKw)
      (by rw [← h.kind]; rfl) ?_)
    refine .step hplain (.step (a := TokenKind.word .asyncKw) (by rw [← h.kind]; rfl) ?_)
    refine .step (a := s.next.lexer.token) rfl ?_
    rw [beq_eq_false_iff_ne.mpr hcolon]
    refine .step (a := s.offset) rfl (.bind hsettles (fun _ => id) ?_)
    rintro e s' ⟨hp, hlink, hlt⟩
    obtain ⟨s'', hend, hlink', hconsumed⟩ := semicolon_end hlink
    refine .step hend (.step (a := Span.ofOffsets s.offset s''.consumed) rfl (.pure ?_))
    exact ⟨_, e, rfl, hp, hlink', by rwa [hconsumed]⟩
  refine .iterate (.bind (P := fun item s' => ∃ span e, item = some (.expressionStatement span e) ∧
    P e ∧ AtLink text s' [] ∧ s.consumed < s'.consumed) ?_ (fun _ => id) ?_)
  · refine .step (isAt_run_of_ne h.kind (by decide)) ?_
    refine .step (isAt_run_of_ne h.kind (by decide)) ?_
    refine .bind hstatement (fun _ => id) ?_
    rintro _ s' ⟨span, e, rfl, h⟩
    exact .pure ⟨span, e, rfl, h⟩
  · rintro _ s' ⟨span, e, rfl, hp, hlink, hlt⟩
    refine .pure ⟨remaining_lt hlink.sound h.size hlink.size hlt, .iterate ?_⟩
    refine .step (a := none) (bind_run (isAt_run (hlink.done rfl))) (.pure ?_)
    exact ⟨⟨span, e, rfl, hp⟩, hlink.clean⟩

/-- A script that ends cleanly is accepted, and one that ends early is refused. -/
theorem parse_of_script {P : List Statement → Prop} {E : Array Fault → Prop}
    (h : Settles script (State.ofString text) (fun body s' => P body ∧ s'.lexer.faults = #[]) E) :
    (∃ body, parse text = .ok (.ofStatements body) ∧ P body) ∨
      ∃ faults, parse text = .error (faults.toList.map (Fault.diagnose text)) ∧ E faults := by
  rw [parse, parseFaults]
  cases hrun : script (State.ofString text) with
  | ok out =>
    obtain ⟨hbody, hclean⟩ := h.ok hrun
    refine Or.inl ⟨out.1, ?_, hbody⟩
    simp only [hclean]
    rfl
  | error abort => exact Or.inr ⟨abort.faults, rfl, h.error hrun⟩

end

end Parser

/-- A script that begins with the word `async`. -/
theorem Parser.at_async {text : String} {rest : List Char}
    (h : text.toList = ['a', 's', 'y', 'n', 'c'] ++ rest) (hrest : Lexer.Closes rest) :
    At text (State.ofString text) (.word .asyncKw) rest := by
  have hread : Lexer.readsOne true ['a', 's', 'y', 'n', 'c'] (· == .word .asyncKw) = true := by
    rfl
  obtain ⟨l, htoken, hkind⟩ := Lexer.isToken_of_readsOne hread
  obtain ⟨hat, -⟩ := at_ofString_token h (fun cs h => by cases h) htoken hrest
  rwa [eq_of_beq hkind] at hat

/-- An asynchronous arrow function whose parameter is a single word in parentheses is always
accepted. Without the parentheses it is accepted, as the same function, unless the word is `await`,
which is refused as a reserved word. -/
theorem parse_asyncArrow {text : String} {t : Token} (h : tokenize text = ([t], []))
    (ht : t.text = text) (hk : t.kind.isIdentifierLike = true) :
    (∃ p, parse ("async (" ++ text ++ ") => 0") = .ok p ∧ p.IsAsyncArrow t.value) ∧
    (t.kind ≠ .word .awaitKw →
      ∃ p, parse ("async " ++ text ++ " => 0") = .ok p ∧ p.IsAsyncArrow t.value) ∧
    (t.kind = .word .awaitKw → ∃ place, parse ("async " ++ text ++ " => 0") =
      .error [Fault.diagnose ("async " ++ text ++ " => 0") ⟨.unexpectedReservedWord, place⟩]) := by
  have hw := Lexer.isWord_of_tokenize h ht hk
  have hpair : ("async (" ++ text ++ ") => 0").toList =
      ['a', 's', 'y', 'n', 'c'] ++ (' ' :: '(' :: (text.toList ++ ')' :: Parser.arrowEnd)) := by
    simp [Parser.arrowEnd]
  have hbare : ("async " ++ text ++ " => 0").toList =
      ['a', 's', 'y', 'n', 'c'] ++ (' ' :: (text.toList ++ Parser.arrowEnd)) := by
    simp [Parser.arrowEnd]
  have hatPair := Parser.at_async hpair (Lexer.closes_cons (by decide))
  have hatBare := Parser.at_async hbare (Lexer.closes_cons (by decide))
  obtain ⟨l, htoken, hkind, -⟩ := hw.isToken false
  obtain ⟨hname, -⟩ := hatBare.next_token_blank rfl htoken (Lexer.closes_cons (by decide))
  have hlike : l.kind.isIdentifierLike = true := by rwa [hkind]
  have hopen := hatPair.next_openParen rfl
  have hpairEnds := Parser.parse_of_script (Parser.script_async hatPair
    (by rw [hopen.kind]; decide) (by rw [hopen.kind]; decide)
    (Parser.asyncPrimary_parenthesized (n := 97) hatPair hw rfl rfl rfl rfl))
  have hbareEnds := Parser.parse_of_script (Parser.script_async hatBare
    (by rw [hname.kind]; exact Parser.ne_of_isIdentifierLike hlike rfl)
    (by rw [hname.kind]; exact Parser.ne_of_isIdentifierLike hlike rfl)
    (P := fun e => t.kind ≠ .word .awaitKw ∧ Expression.IsAsyncArrow t.value e)
    ((Parser.asyncPrimary_bare (n := 97) hatBare hw rfl rfl).imp
      fun e s' h => ⟨⟨h.1, h.2.1⟩, h.2.2⟩))
  refine ⟨?_, fun hne => ?_, fun heq => ?_⟩
  · rcases hpairEnds with ⟨body, hparse, span, e, rfl, hasync⟩ | ⟨_, _, hfalse⟩
    · exact ⟨_, hparse, span, e, rfl, hasync⟩
    · exact hfalse.elim
  · rcases hbareEnds with ⟨body, hparse, span, e, rfl, -, hasync⟩ | ⟨_, _, hawait, -⟩
    · exact ⟨_, hparse, span, e, rfl, hasync⟩
    · exact absurd hawait hne
  · rcases hbareEnds with ⟨_, _, _, _, _, hne, _⟩ | ⟨faults, hparse, -, place, rfl⟩
    · exact absurd heq hne
    · exact ⟨place, hparse⟩

/-- A word that is reserved in other places is a parameter in both ways. -/
theorem parse_asyncArrow_yield :
    ∃ t, tokenize "yield" = ([t], []) ∧ t.text = "yield" ∧ t.kind = .word .yieldKw ∧
      (∃ p, parse "async (yield) => 0" = .ok p ∧ p.IsAsyncArrow t.value) ∧
      ∃ p, parse "async yield => 0" = .ok p ∧ p.IsAsyncArrow t.value := by
  have hread : Lexer.readsOne true "yield".toList (· == .word .yieldKw) = true := rfl
  obtain ⟨l, htoken, hkind⟩ := Lexer.isToken_of_readsOne hread
  obtain ⟨htokens, htext⟩ := Lexer.tokenize_of_isToken htoken (by decide)
  have hyield : (l.alone "yield").kind = .word .yieldKw := eq_of_beq hkind
  obtain ⟨hpair, hbare, -⟩ := parse_asyncArrow htokens htext (by rw [hyield]; rfl)
  exact ⟨_, htokens, htext, hyield, hpair, hbare (by rw [hyield]; decide)⟩

/-- The two ways do not agree on the word `await`. -/
theorem parse_asyncArrows_differ : ¬∀ (text : String) (t : Token), tokenize text = ([t], []) →
    t.text = text → t.kind.isIdentifierLike = true →
      ((∃ p, parse ("async " ++ text ++ " => 0") = .ok p) ↔
        ∃ p, parse ("async (" ++ text ++ ") => 0") = .ok p) := by
  intro hsame
  have hread : Lexer.readsOne true "await".toList (· == .word .awaitKw) = true := rfl
  obtain ⟨l, htoken, hkind⟩ := Lexer.isToken_of_readsOne hread
  obtain ⟨htokens, htext⟩ := Lexer.tokenize_of_isToken htoken (by decide)
  have hawait : (l.alone "await").kind = .word .awaitKw := eq_of_beq hkind
  have hiff := hsame "await" _ htokens htext (by rw [hawait]; rfl)
  have hruns : (parse "async (await) => 0").isOk = true ∧ (parse "async await => 0").isOk =
    false := by
    decide +kernel
  obtain ⟨hpair, hbare⟩ := hruns
  have haccepted : ∃ p, parse "async (await) => 0" = .ok p := by
    cases hparse : parse "async (await) => 0" with
    | ok p => exact ⟨p, rfl⟩
    | error e =>
      rw [hparse] at hpair
      exact nomatch hpair
  obtain ⟨p, hparse⟩ := hiff.mpr haccepted
  have hparse : parse "async await => 0" = .ok p := hparse
  rw [hparse] at hbare
  exact nomatch hbare

end EcmaScript
