import EcmaScript.Proofs.Tandem.Expression
import EcmaScript.Proofs.Words.Name

/-!
# Names as expressions

A name is an expression of its own when nothing behind it can be attached to it. What parsers do
with it, and where they stand afterwards, is known then to the last detail. Other runs are known as
far as it takes: how they end when they succeed, and with which faults they end early.
-/

namespace EcmaScript.Parser

open Lexer

/-- The run ends with a result and a state as the first condition says, or early with faults as
the second one says. -/
def Settles {α : Type} (p : Parser α) (s : State) (Q : α → State → Prop)
    (E : Array Fault → Prop) : Prop :=
  match p s with
  | .ok (a, s') => Q a s'
  | .error e => E e.faults

section

variable {α β : Type} {s s' : State} {E E' : Array Fault → Prop}

/-- A run that is known to succeed. -/
theorem Settles.of_ok {p : Parser α} {Q : α → State → Prop} {a : α} (h : p s = .ok (a, s'))
    (hq : Q a s') : Settles p s Q E := by
  unfold Settles
  rw [h]
  exact hq

/-- A run that is known to abort. -/
theorem Settles.of_error {p : Parser α} {Q : α → State → Prop} {e : Abort} (h : p s = .error e)
    (he : E e.faults) : Settles p s Q E := by
  unfold Settles
  rw [h]
  exact he

/-- What holds of the result of a run that succeeds. -/
theorem Settles.ok {p : Parser α} {Q : α → State → Prop} {a : α} (h : Settles p s Q E)
    (hp : p s = .ok (a, s')) : Q a s' := by
  unfold Settles at h
  rw [hp] at h
  exact h

/-- What holds of the faults of a run that aborts. -/
theorem Settles.error {p : Parser α} {Q : α → State → Prop} {e : Abort} (h : Settles p s Q E)
    (hp : p s = .error e) : E e.faults := by
  unfold Settles at h
  rw [hp] at h
  exact h

/-- Parsers one behind the other settle when each does, from where the one before it ends. -/
theorem Settles.bind {p : Parser α} {f : α → Parser β} {P : α → State → Prop} {Q : β → State → Prop}
    (h : Settles p s P E) (he : ∀ faults, E faults → E' faults)
    (hf : ∀ a s', P a s' → Settles (f a) s' Q E') : Settles (p >>= f) s Q E' := by
  cases hp : p s with
  | error e =>
    refine .of_error (e := e) ?_ (he _ (h.error hp))
    simp only [Bind.bind, StateT.bind, hp, Except.bind]
  | ok out =>
    have hrun := hf _ _ (h.ok hp)
    unfold Settles at hrun ⊢
    rw [bind_run hp]
    exact hrun

/-- A step whose result is known. -/
theorem Settles.step {p : Parser α} {f : α → Parser β} {Q : β → State → Prop} {a : α}
    (hp : p s = .ok (a, s')) (h : Settles (f a) s' Q E) : Settles (p >>= f) s Q E := by
  unfold Settles at h ⊢
  rw [bind_run hp]
  exact h

/-- A run that settles for more settles for less. -/
theorem Settles.imp {p : Parser α} {P Q : α → State → Prop} (h : Settles p s P E)
    (hpq : ∀ a s', P a s' → Q a s') : Settles p s Q E := by
  unfold Settles at h ⊢
  split at h
  · exact hpq _ _ h
  · exact h

/-- The faults may be told less exactly. -/
theorem Settles.weaken {p : Parser α} {Q : α → State → Prop} (h : Settles p s Q E)
    (he : ∀ faults, E faults → E' faults) : Settles p s Q E' := by
  unfold Settles at h ⊢
  split at h
  · exact h
  · exact he _ h

/-- A result that is given at once. -/
theorem Settles.pure {a : α} {Q : α → State → Prop} (h : Q a s) : Settles (Pure.pure a) s Q E := h

/-- A parser that never ends with a result. -/
theorem Settles.of_fails {p : Parser α} {Q : α → State → Prop} (h : Fails p s)
    (he : ∀ faults, E faults) : Settles p s Q E := by
  cases hp : p s with
  | error e => exact .of_error hp (he _)
  | ok out => exact absurd hp (h out)

/-- A round of a loop, and the rounds behind it. -/
theorem Settles.iterate {σ : Type} {step : σ → Parser (Round σ β)} {a : σ} {Q : β → State → Prop}
    (h : Settles (step a) s (fun round s' => match round with
      | .done b => Q b s'
      | .next a' => s'.remaining < s.remaining ∧ Settles (iterate step a') s' Q E) E) :
    Settles (Parser.iterate step a) s Q E := by
  unfold Settles at h ⊢
  rw [Parser.iterate]
  cases hrun : step a s with
  | error e =>
    rw [hrun] at h
    exact h
  | ok out =>
    obtain ⟨round, s₁⟩ := out
    rw [hrun] at h
    cases round with
    | done b => exact h
    | next a' =>
      obtain ⟨hlt, h⟩ := h
      simp only [if_pos hlt]
      exact h

/-- A parser that aborts at once, with its own fault behind the earlier ones. -/
theorem Settles.fail {place : Nat} {problem : Problem} {Q : α → State → Prop}
    (h : E (s.lexer.faults.push ⟨problem, place⟩)) : Settles (fail place problem) s Q E := h

end

/-- What is left of the text gets less when a token is taken. -/
theorem remaining_lt {text : String} {s s' : State} (hs : s'.Sound text)
    (hsize : s.size = text.utf8ByteSize) (hsize' : s'.size = text.utf8ByteSize)
    (hlt : s.consumed < s'.consumed) : s'.remaining < s.remaining := by
  have hle := hs.place.isBoundary.le
  have hle : s'.consumed ≤ text.utf8ByteSize := hle
  unfold State.remaining
  omega

/-- The parser is at a token of a kind, with `rest` behind it. -/
structure At (text : String) (s : State) (k : TokenKind) (rest : List Char) : Prop where
  sound : s.Sound text
  size : s.size = text.utf8ByteSize
  coverInit : s.coverInit = none
  isAt : s.lexer.IsAt k rest

section

variable {text : String} {s : State} {k k' : TokenKind} {rest piece behind : List Char}
  {x target : Name}

/-- The kind of the current token. -/
theorem At.kind (h : At text s k rest) : s.lexer.token.kind = k := h.isAt.kind

/-- Behind an ordinary token the state is that of a parser that took it. -/
theorem At.sound_next (h : At text s k rest) (hk : isOrdinary k = true) : s.next.Sound text :=
  h.sound.next (by rw [h.kind]; exact ne_endOfFile_of_isOrdinary hk)

/-- Taking the token goes ahead in the text. -/
theorem At.consumed_lt (h : At text s k rest) (hk : isOrdinary k = true) :
    s.consumed < s.next.consumed :=
  Nat.lt_of_le_of_lt h.sound.consumed_le (h.sound.place.offset_lt_stop (by
    show s.lexer.token.kind ≠ _
    rw [h.kind]
    exact ne_endOfFile_of_isOrdinary hk))

/-- The next token starts behind the current one. -/
theorem At.offset_lt (h : At text s k rest) (hk : isOrdinary k = true) :
    s.offset < s.next.offset :=
  Nat.lt_of_lt_of_le (h.sound.place.offset_lt_stop (by
    show s.lexer.token.kind ≠ _
    rw [h.kind]
    exact ne_endOfFile_of_isOrdinary hk)) (h.sound_next hk).consumed_le

/-- A piece that is one token is taken. -/
theorem At.next_token {l : Lexeme} (h : At text s k (piece ++ behind)) (hk : isOrdinary k = true)
    (ht : IsToken k.allowsRegexAfter piece l) (hb : Lexer.Closes behind) :
    At text s.next l.kind behind ∧ s.next.lexer.token.value = l.value := by
  obtain ⟨hat, hvalue⟩ := h.isAt.scan hk ht hb
  exact ⟨⟨h.sound_next hk, h.size, h.coverInit, hat⟩, hvalue⟩

/-- A piece that is one token, with a blank before it, is taken. -/
theorem At.next_token_blank {l : Lexeme} (h : At text s k (' ' :: (piece ++ behind)))
    (hk : isOrdinary k = true) (ht : IsToken k.allowsRegexAfter piece l)
    (hb : Lexer.Closes behind) :
    At text s.next l.kind behind ∧ s.next.lexer.token.value = l.value := by
  obtain ⟨hat, hvalue⟩ := h.isAt.scan_blank hk ht hb
  exact ⟨⟨h.sound_next hk, h.size, h.coverInit, hat⟩, hvalue⟩

/-- The next piece is taken. -/
theorem At.next (h : At text s k (piece ++ behind)) (k' : TokenKind)
    (hk : isOrdinary k = true) (hread : readsOne k.allowsRegexAfter piece (· == k') = true)
    (hb : Lexer.Closes behind) :
    At text s.next k' behind := by
  obtain ⟨l, htoken, hkind⟩ := isToken_of_readsOne hread
  obtain ⟨hat, -⟩ := h.next_token hk htoken hb
  rwa [eq_of_beq hkind] at hat

/-- The next piece, with a blank before it, is taken. -/
theorem At.next_blank (h : At text s k (' ' :: (piece ++ behind))) (k' : TokenKind)
    (hk : isOrdinary k = true) (hread : readsOne k.allowsRegexAfter piece (· == k') = true)
    (hb : Lexer.Closes behind) :
    At text s.next k' behind := by
  obtain ⟨l, htoken, hkind⟩ := isToken_of_readsOne hread
  obtain ⟨hat, -⟩ := h.next_token_blank hk htoken hb
  rwa [eq_of_beq hkind] at hat

/-- An opening parenthesis, with a blank before it, is taken. -/
theorem At.next_openParen (h : At text s k (' ' :: '(' :: rest)) (hk : isOrdinary k = true) :
    At text s.next (.mark .openParen) rest := by
  have hgap : trivia false s.lexer.token.stop =
      ⟨false, [], ⟨s.lexer.token.stop.offset + 1, '(' :: rest⟩⟩ := by
    rw [trivia_blank h.isAt.rest, trivia_char rfl (fun _ _ h => by cases h)]
    rfl
  have hscan : s.lexer.scan = _ := scan_of_some (by
    rw [hgap]
    exact lexeme_openParen s.lexer.regexAllowed rfl)
  rw [hgap] at hscan
  have hproperty : isPropertyName s.lexer.token.kind (.mark .openParen) = false := by
    rw [h.kind]
    exact isPropertyName_of_isOrdinary hk _
  refine ⟨h.sound_next hk, h.size, h.coverInit, ?_⟩
  show s.lexer.scan.IsAt _ _
  rw [hscan, hproperty]
  refine ⟨rfl, rfl, rfl, ?_, rfl⟩
  rw [h.isAt.faults]
  rfl

/-- The next word is taken. -/
theorem At.next_name (h : At text s k (x.chars ++ behind)) (hk : isOrdinary k = true)
    (hr : k.allowsRegexAfter = true) (hb : Lexer.Closes behind) :
    At text s.next .identifier behind ∧ s.next.lexer.token.value = x.value := by
  obtain ⟨l, htoken, hkind, hvalue⟩ := x.isToken
  rw [← hr] at htoken
  rw [← hkind, ← hvalue]
  exact h.next_token hk htoken hb

/-- The next word, with a blank before it, is taken. -/
theorem At.next_name_blank (h : At text s k (' ' :: (x.chars ++ behind))) (hk : isOrdinary k = true)
    (hr : k.allowsRegexAfter = true) (hb : Lexer.Closes behind) :
    At text s.next .identifier behind ∧ s.next.lexer.token.value = x.value := by
  obtain ⟨l, htoken, hkind, hvalue⟩ := x.isToken
  rw [← hr] at htoken
  rw [← hkind, ← hvalue]
  exact h.next_token_blank hk htoken hb

end

/-- A text that starts with a piece that is one token starts with this token. -/
theorem at_ofString_token {text : String} {piece rest : List Char} {l : Lexeme}
    (htext : text.toList = piece ++ rest) (hhash : ∀ cs, piece ≠ '#' :: cs)
    (ht : IsToken true piece l) (hrest : Lexer.Closes rest) :
    At text (State.ofString text) l.kind rest ∧
      (State.ofString text).lexer.token.value = l.value := by
  have hne : piece ≠ [] := by
    rintro rfl
    exact nomatch ht.lexeme
  have hskip : (Lexer.ofString text).skipHashbang = Lexer.ofString text := by
    unfold Lexer.skipHashbang
    split
    · rename_i cs hc
      have hc : text.toList = '#' :: '!' :: cs := congrArg Cursor.rest hc
      obtain ⟨ch, chs, rfl⟩ := List.exists_cons_of_ne_nil hne
      rw [htext, List.cons_append] at hc
      exact absurd (congrArg (· :: chs) (List.cons.inj hc).1) (hhash chs)
    · rfl
  have hlexer : (State.ofString text).lexer = (Lexer.ofString text).scan :=
    congrArg Lexer.scan hskip
  have hstart := isAt_ofString text
  rw [htext] at hstart
  obtain ⟨hat, hval⟩ := hstart.scan rfl ht hrest
  rw [← hlexer] at hat hval
  exact ⟨⟨State.sound_ofString _, rfl, rfl, hat⟩, hval⟩

/-- A text that starts with a word starts with its token. -/
theorem at_ofString {text : String} {x : Name} {rest : List Char}
    (htext : text.toList = x.chars ++ rest) (hrest : Lexer.Closes rest) :
    At text (State.ofString text) .identifier rest ∧
      (State.ofString text).lexer.token.value = x.value := by
  obtain ⟨l, htoken, hkind, hvalue⟩ := x.isToken
  rw [← hkind, ← hvalue]
  exact at_ofString_token htext x.ne_hash htoken hrest

/-- Nothing can be attached to a name before such a token, and it is no parameter. -/
def endsName (k : TokenKind) : Bool :=
  !isSubscript k && k != .mark .arrow && (UpdateOperator.ofKind? k).isNone

section

variable {s : State} {ctx : Context}

/-- No default of a cover literal is pending. -/
theorem takeCoverInit_run (h : s.coverInit = none) : takeCoverInit s = .ok (none, s) := by
  obtain ⟨⟩ := s
  subst h
  rfl

/-- Nothing changes when none is pending. -/
theorem setCoverInit_run (h : s.coverInit = none) : setCoverInit none s = .ok ((), s) := by
  obtain ⟨⟩ := s
  subst h
  rfl

theorem mergeCoverInit_run (s : State) : mergeCoverInit none s = .ok ((), s) := by
  obtain ⟨⟩ := s
  rfl

/-- The check passes when none is pending. -/
theorem checkCoverInit_run (h : s.coverInit = none) : checkCoverInit s = .ok ((), s) := by
  refine (bind_run (a := s) rfl).trans ?_
  rw [h]
  rfl

/-- Another token is looked for. -/
theorem isAt_run_of_ne {k k' : TokenKind} (hk : s.lexer.token.kind = k) (hne : k ≠ k') :
    isAt k' s = .ok (false, s) := by
  refine (bind_run (a := k) (by rw [← hk]; rfl)).trans ?_
  rw [beq_eq_false_iff_ne.mpr hne]
  rfl

/-- A token that is not there is not taken. -/
theorem eat_run_of_ne {k k' : TokenKind} (hk : s.lexer.token.kind = k) (hne : k ≠ k') :
    eat k' s = .ok (false, s) :=
  bind_run (isAt_run_of_ne hk hne)

/-- The current token is looked for. -/
theorem isAt_run {k : TokenKind} (hk : s.lexer.token.kind = k) : isAt k s = .ok (true, s) := by
  refine (bind_run (a := k) (by rw [← hk]; rfl)).trans ?_
  rw [beq_self_eq_true]
  rfl

/-- The current token is taken when it is the one that is looked for. -/
theorem eat_run {k : TokenKind} (hk : s.lexer.token.kind = k) : eat k s = .ok (true, s.next) :=
  bind_run (isAt_run hk)

/-- The current token is taken. -/
theorem advance_run : advance s = .ok ((), s.next) := rfl

/-- A token that is expected and there is taken. -/
theorem expect_run {k : TokenKind} (hk : s.lexer.token.kind = k) :
    expect k s = .ok ((), s.next) :=
  bind_run (eat_run hk)

/-- A name that is no word of the language is taken. -/
theorem identifier_run (hk : s.lexer.token.kind = .identifier) :
    identifier ctx s = .ok (identifierOf s.lexer.token, s.next) := by
  refine (bind_run (a := s.lexer.token) rfl).trans ?_
  simp only [hk]
  rfl

/-- No arrow follows when the token is another one. -/
theorem atArrow_run_of_ne {k : TokenKind} (hk : s.lexer.token.kind = k) (hne : k ≠ .mark .arrow) :
    atArrow s = .ok (false, s) := by
  refine (bind_run (isAt_run_of_ne hk hne)).trans ?_
  rfl

/-- A name in front of anything but an arrow is a reference. -/
theorem nameOrArrow_run {g : Nested} (hk : s.lexer.token.kind = .identifier)
    (hnext : s.next.lexer.token.kind ≠ .mark .arrow) :
    nameOrArrow g ctx s = .ok (.reference (identifierOf s.lexer.token), s.next) := by
  refine (bind_run (a := s.lexer.token.start.offset) rfl).trans ?_
  refine (bind_run (identifier_run hk)).trans ?_
  refine (bind_run (atArrow_run_of_ne rfl hnext)).trans ?_
  rfl

/-- A name is a primary expression. -/
theorem primary_name {g : Grammar} (hk : s.lexer.token.kind = .identifier)
    (hnext : s.next.lexer.token.kind ≠ .mark .arrow) :
    primary g ctx s = .ok (.reference (identifierOf s.lexer.token), s.next) := by
  refine (bind_run (a := s.lexer.token.start.offset) rfl).trans ?_
  refine (bind_run (a := TokenKind.identifier) (by rw [← hk]; rfl)).trans ?_
  exact nameOrArrow_run hk hnext

/-- A name is an operand without anything in front. -/
theorem operandBase_name {g : Grammar} (hk : s.lexer.token.kind = .identifier)
    (hnext : s.next.lexer.token.kind ≠ .mark .arrow) :
    operandBase g ctx s = .ok (.reference (identifierOf s.lexer.token), s.next) := by
  refine (bind_run (a := TokenKind.identifier) (by rw [← hk]; rfl)).trans ?_
  exact primary_name hk hnext

/-- Nothing is attached to an operand before a token that attaches nothing. -/
theorem subscripts_stay {g : Nested} {start : Nat} {e : Expression}
    (hk : isSubscript s.lexer.token.kind = false) :
    subscripts g ctx start false e s = .ok (e, s) := by
  have hloop : iterate (subscript g ctx start false) (e, false) s = .ok ((e, false), s) := by
    rw [iterate, subscript_run (e, false) (by rw [isAttached, hk]; rfl) fun h => by
      rw [hk] at h
      cases h]
  exact bind_run hloop

/-- A name that nothing continues is an operand. -/
theorem operand_name {g : Grammar} (hk : s.lexer.token.kind = .identifier)
    (hnext : endsName s.next.lexer.token.kind = true) :
    operand g ctx s = .ok (.reference (identifierOf s.lexer.token), s.next) := by
  simp only [endsName, Bool.and_eq_true, Bool.not_eq_true', bne_iff_ne] at hnext
  obtain ⟨⟨hsub, harrow⟩, -⟩ := hnext
  have hbase : operandBase g ctx { s with coverInit := none } =
      .ok (.reference (identifierOf s.lexer.token), { s with coverInit := none }.next) :=
    operandBase_name hk harrow
  rw [operand_eq]
  refine (bind_run (a := s.lexer.token.start.offset) rfl).trans ?_
  refine (bind_run (p := takeCoverInit) (a := s.coverInit) rfl).trans ?_
  have hall : (operandBase g ctx >>= attachAll g.toNested ctx s.lexer.token.start.offset)
      { s with coverInit := none } =
      .ok (.reference (identifierOf s.lexer.token), { s with coverInit := none }.next) := by
    refine (bind_run hbase).trans ?_
    refine (bind_run (a := false) rfl).trans ?_
    exact subscripts_stay hsub
  refine (bind_run hall).trans ?_
  cases s with
  | mk lexer size consumed coverInit suspension notes taken implied =>
    cases coverInit <;> rfl

/-- A name that nothing continues is a unary expression. -/
theorem unaryExpression_name {g : Grammar} (hk : s.lexer.token.kind = .identifier)
    (hnext : endsName s.next.lexer.token.kind = true) :
    unaryExpression g ctx s = .ok (.reference (identifierOf s.lexer.token), s.next) := by
  have hupdate : UpdateOperator.ofKind? s.next.lexer.token.kind = none := by
    simp only [endsName, Bool.and_eq_true, Option.isNone_iff_eq_none] at hnext
    exact hnext.2
  refine (bind_run (a := TokenKind.identifier) (by rw [← hk]; rfl)).trans ?_
  refine (bind_run (a := s.lexer.token.start.offset) rfl).trans ?_
  refine (bind_run (operand_name hk hnext)).trans ?_
  refine (bind_run (a := s.next.lexer.token.kind) rfl).trans ?_
  rw [hupdate]
  rfl

/-- Before such a token a name is a whole expression. -/
def endsExpression (k : TokenKind) : Bool :=
  endsName k && (BinaryOperator.ofKind? k).isNone && (AssignmentOperator.ofKind? k).isNone &&
    k != .mark .question && k != .mark .comma

end

/-- A step whose result nothing is done to. -/
theorem bind_stay {α : Type} {p : Parser α} {f : α → Parser α} {s : State}
    (h : ∀ a s', p s = .ok (a, s') → f a s' = .ok (a, s')) : (p >>= f) s = p s := by
  cases hp : p s with
  | error e => simp only [Bind.bind, StateT.bind, hp, Except.bind]
  | ok out => exact (bind_run hp).trans (h _ _ hp)

/-- Whether a token that starts an expression is left to primary expressions. -/
def startsPrimary (ctx : Context) (k : TokenKind) : Bool :=
  (UnaryOperator.ofKind? k).isNone && (UpdateOperator.ofKind? k).isNone &&
    !(k == .word .awaitKw && ctx.canAwait) && !(k == .word .yieldKw && ctx.canYield) &&
    k != .word .newKw && k != .word .superKw

/-- Whatever the run gives, no default waits for a pattern and nothing is attached to it. -/
def StandsAlone (p : Parser Expression) (s : State) : Prop :=
  ∀ e s', p s = .ok (e, s') → s'.coverInit = none ∧ endsExpression s'.lexer.token.kind = true

section

variable {s : State} {ctx : Context} {g : Grammar}

/-- A primary expression that stands alone is the whole operand. -/
theorem operand_alone (hk : startsPrimary ctx s.lexer.token.kind = true) (hc : s.coverInit = none)
    (h : StandsAlone (primary g ctx) s) : operand g ctx s = primary g ctx s := by
  simp only [startsPrimary, Bool.and_eq_true, bne_iff_ne] at hk
  have hbase : operandBase g ctx s = primary g ctx s := by
    refine (bind_run (a := s.lexer.token.kind) rfl).trans (congrFun ?_ s)
    split
    · exact absurd ‹_› hk.1.2
    · exact absurd ‹_› hk.2
    · rfl
  have hattach : (operandBase g ctx >>= attachAll g.toNested ctx s.lexer.token.start.offset) s =
      primary g ctx s := by
    refine (bind_stay fun e s' he => ?_).trans hbase
    obtain ⟨-, hnext⟩ := h e s' (hbase.symm.trans he)
    simp only [endsExpression, endsName, Bool.and_eq_true, Bool.not_eq_true'] at hnext
    obtain ⟨b, hb⟩ := isCompleteArrow_run e s'
    refine (bind_run hb).trans ?_
    cases b with
    | true => rfl
    | false => exact subscripts_stay hnext.1.1.1.1.1.1
  rw [operand_eq]
  refine (bind_run (a := s.lexer.token.start.offset) rfl).trans ?_
  refine (bind_run (takeCoverInit_run hc)).trans ((bind_stay fun e s' _ => ?_).trans hattach)
  exact bind_run (mergeCoverInit_run s')

/-- It is the whole unary expression. -/
theorem unaryExpression_alone (hk : startsPrimary ctx s.lexer.token.kind = true)
    (hc : s.coverInit = none) (h : StandsAlone (primary g ctx) s) :
    unaryExpression g ctx s = primary g ctx s := by
  have hstart := hk
  simp only [startsPrimary, Bool.and_eq_true, Option.isNone_iff_eq_none, Bool.not_eq_true'] at hk
  obtain ⟨⟨⟨⟨⟨hunary, hupdate⟩, hawait⟩, -⟩, -⟩, -⟩ := hk
  refine (bind_run (a := s.lexer.token.kind) rfl).trans ?_
  rw [hunary, hupdate]
  simp only [hawait]
  refine (bind_run (a := s.lexer.token.start.offset) rfl).trans ?_
  refine (bind_stay fun e s' he => ?_).trans (operand_alone hstart hc h)
  obtain ⟨-, hnext⟩ := h e s' ((operand_alone hstart hc h).symm.trans he)
  simp only [endsExpression, endsName, Bool.and_eq_true, Option.isNone_iff_eq_none] at hnext
  refine (bind_run (a := s'.lexer.token.kind) rfl).trans ?_
  rw [hnext.1.1.1.1.2]
  rfl

/-- It is the whole conditional expression. -/
theorem conditionalExpression_alone (hk : startsPrimary ctx s.lexer.token.kind = true)
    (hc : s.coverInit = none) (h : StandsAlone (primary g ctx) s) :
    conditionalExpression g ctx s = primary g ctx s := by
  have hunary := unaryExpression_alone hk hc h
  have hbinary : binaryExpression g ctx 0 s = primary g ctx s := by
    refine (bind_run (a := s.offset) rfl).trans ((bind_stay fun e s' he => ?_).trans hunary)
    obtain ⟨-, hnext⟩ := h e s' (hunary.symm.trans he)
    simp only [endsExpression, Bool.and_eq_true, Option.isNone_iff_eq_none] at hnext
    have hnone : operatorAt ctx 0 s'.lexer.token.kind = none := by
      rw [operatorAt, hnext.1.1.1.2]
      rfl
    obtain ⟨b, hb⟩ := isCompleteArrow_run e s'
    refine (bind_run hb).trans ?_
    cases b with
    | true => rfl
    | false =>
      show iterate (binaryRound g ctx 0 s.offset) e s' = _
      rw [iterate, binaryRound_run hnone]
  refine (bind_run (a := s.offset) rfl).trans ((bind_stay fun e s' he => ?_).trans hbinary)
  obtain ⟨-, hnext⟩ := h e s' (hbinary.symm.trans he)
  simp only [endsExpression, Bool.and_eq_true, bne_iff_ne] at hnext
  refine (bind_run (isAt_run_of_ne rfl hnext.1.2)).trans ?_
  obtain ⟨b, hb⟩ := isCompleteArrow_run e s'
  exact bind_run hb

/-- It is the whole assignment. -/
theorem assignmentExpression_alone (hk : startsPrimary ctx s.lexer.token.kind = true)
    (hc : s.coverInit = none) (h : StandsAlone (primary g ctx) s) :
    assignmentExpression g ctx s = primary g ctx s := by
  have hconditional := conditionalExpression_alone hk hc h
  simp only [startsPrimary, Bool.and_eq_true, Bool.not_eq_true'] at hk
  have hyield : isAt (.word .yieldKw) s = .ok (s.lexer.token.kind == .word .yieldKw, s) := rfl
  refine (bind_run hyield).trans ?_
  rw [hk.1.1.2]
  refine (bind_run (a := s.offset) rfl).trans ?_
  refine (bind_run (takeCoverInit_run hc)).trans ((bind_stay fun e s' he => ?_).trans hconditional)
  obtain ⟨-, hnext⟩ := h e s' (hconditional.symm.trans he)
  simp only [endsExpression, Bool.and_eq_true, Option.isNone_iff_eq_none] at hnext
  obtain ⟨b, hb⟩ := isCompleteArrow_run e s'
  refine (bind_run hb).trans ?_
  refine (bind_run (a := s'.lexer.token.kind) rfl).trans ?_
  rw [hnext.1.1.2]
  exact bind_run (mergeCoverInit_run s')

/-- No default waits for a pattern before or behind such an expression. -/
theorem closed_alone {p : Parser Expression} (hc : s.coverInit = none) (h : StandsAlone p s) :
    closed p s = p s := by
  refine (bind_run (takeCoverInit_run hc)).trans (bind_stay fun e s' he => ?_)
  refine (bind_run (checkCoverInit_run (h e s' he).1)).trans ?_
  exact bind_run (setCoverInit_run (h e s' he).1)

/-- An expression that stands alone is its primary expression. -/
theorem assignment_alone {n : Nat} (hk : startsPrimary ctx s.lexer.token.kind = true)
    (hc : s.coverInit = none) (h : StandsAlone (primary (Nested.ofDepth n).grammar ctx) s) :
    (Nested.ofDepth (n + 1)).assignment ctx s = primary (Nested.ofDepth n).grammar ctx s :=
  assignmentExpression_alone hk hc h

/-- It is a value, one level deeper. -/
theorem value_alone {n : Nat} (hk : startsPrimary ctx s.lexer.token.kind = true)
    (hc : s.coverInit = none) (h : StandsAlone (primary (Nested.ofDepth n).grammar ctx) s) :
    (Nested.ofDepth (n + 1)).value ctx s = primary (Nested.ofDepth n).grammar ctx s := by
  have hassignment := assignment_alone hk hc h
  refine (closed_alone hc fun e s' he => ?_).trans hassignment
  exact h e s' (hassignment.symm.trans he)

/-- It is a whole expression, one level deeper. -/
theorem expression_alone {n : Nat} (hk : startsPrimary ctx s.lexer.token.kind = true)
    (hc : s.coverInit = none) (h : StandsAlone (primary (Nested.ofDepth n).grammar ctx) s) :
    (Nested.ofDepth (n + 1)).expression ctx s = primary (Nested.ofDepth n).grammar ctx s := by
  have hassignment := assignment_alone hk hc h
  have hcover : (Nested.ofDepth (n + 1)).expressionOrCover ctx s =
      primary (Nested.ofDepth n).grammar ctx s := by
    refine (bind_run (a := s.offset) rfl).trans ((bind_stay fun e s' he => ?_).trans hassignment)
    obtain ⟨-, hnext⟩ := h e s' (hassignment.symm.trans he)
    simp only [endsExpression, Bool.and_eq_true, bne_iff_ne] at hnext
    exact bind_run (isAt_run_of_ne rfl hnext.2)
  exact (closed_alone hc fun e s' he => h e s' (hcover.symm.trans he)).trans hcover

/-- A name in parentheses, say. -/
theorem expression_name (n : Nat) (hc : s.coverInit = none) (hk : s.lexer.token.kind = .identifier)
    (hnext : endsExpression s.next.lexer.token.kind = true) :
    (Nested.ofDepth (n + 1)).expression ctx s =
      .ok (.reference (identifierOf s.lexer.token), s.next) := by
  have harrow : s.next.lexer.token.kind ≠ .mark .arrow := by
    simp only [endsExpression, endsName, Bool.and_eq_true, bne_iff_ne] at hnext
    exact hnext.1.1.1.1.1.2
  have hprimary : primary (Nested.ofDepth n).grammar ctx s = _ := primary_name hk harrow
  refine (expression_alone (by rw [hk]; rfl) hc fun e s' he => ?_).trans hprimary
  obtain ⟨rfl, rfl⟩ := Prod.mk.inj (Except.ok.inj (hprimary.symm.trans he))
  exact ⟨hc, hnext⟩

end

end EcmaScript.Parser
