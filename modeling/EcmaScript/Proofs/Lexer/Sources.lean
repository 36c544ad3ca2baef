import EcmaScript.Proofs.Lexer.Session

/-!
# Where tokens come from

Whatever is done in a session, every token that is current in it or kept in a snapshot has been read
at its start: as what comes next there, as a regular expression from a slash on, or as the rest of a
template from a brace on. So what is true of every lexeme is true of every such token.
-/

namespace EcmaScript

namespace Lexer

open Cursor

/-- A token is what was read at its start, if anything has been read. -/
inductive Source (t : Token) : Prop where
  /-- Nothing has been read. -/
  | unread : t.kind = .unknown → Source t
  /-- The text has ended. -/
  | ended : t.kind = .endOfFile → t.start.rest = [] → t.stop = t.start → Source t
  | read {regexAllowed : Bool} {l : Lexeme} :
      lexeme? regexAllowed t.start = some l → again t l = t → Source t
  | regex {cs : List Char} :
      t.start.rest = '/' :: cs → again t (regexLiteral t.start) = t → Source t
  | resumed {cs : List Char} :
      t.start.rest = '}' :: cs → again t (templateContinuation t.start) = t → Source t

/-- A token that was read stands in a text. -/
structure Stands (text : String) (t : Token) : Prop where
  isIn : t.start.IsIn text
  reaches : t.start.Reaches t.stop
  source : Source t

/-- A token that was read again ends where its lexeme does. -/
theorem stop_of_again {t : Token} {l : Lexeme} (h : again t l = t) : t.stop = l.stop :=
  (congrArg Token.stop h).symm

/-- A token that was read again has the kind of its lexeme. -/
theorem kind_of_again {t : Token} {l : Lexeme} (h : again t l = t) : t.kind = l.kind :=
  (congrArg Token.kind h).symm

/-- A token that was read and is no end of a text has characters. -/
theorem Source.length_lt {t : Token} (h : Source t) (hu : t.kind ≠ .unknown)
    (he : t.kind ≠ .endOfFile) : t.stop.rest.length < t.start.rest.length := by
  cases h with
  | unread hk => exact absurd hk hu
  | ended hk => exact absurd hk he
  | read hl ht =>
    rw [stop_of_again ht]
    exact length_lexeme_lt hl
  | regex hc ht =>
    rw [stop_of_again ht]
    exact length_regexLiteral_lt hc
  | resumed hc ht =>
    rw [stop_of_again ht]
    exact length_templateContinuation_lt hc

/-- A punctuator is spelled where it stands. -/
theorem Source.mark_spelled {t : Token} (h : Source t) {p : Punctuator} (hk : t.kind = .mark p) :
    p.text.toList <+: t.start.rest := by
  cases h with
  | unread hu => rw [hk] at hu; exact nomatch hu
  | ended he => rw [hk] at he; exact nomatch he
  | @read _ l hl ht =>
    rw [kind_of_again ht] at hk
    rcases lexeme_cases hl with hw | ⟨_, rfl⟩ | ⟨q, hq, _, hspelled⟩
    · have hw := hw.isWhole
      rw [hk] at hw
      exact nomatch hw
    · change (if _ then TokenKind.templateHead else .template) = .mark p at hk
      split at hk
      · exact nomatch hk
      · exact nomatch hk
    · rw [hk] at hq
      cases hq
      exact hspelled
  | regex _ ht =>
    rw [kind_of_again ht, kind_regexLiteral] at hk
    exact nomatch hk
  | resumed _ ht =>
    rw [kind_of_again ht] at hk
    change (if _ then TokenKind.templateMiddle else .templateTail) = .mark p at hk
    split at hk
    · exact nomatch hk
    · exact nomatch hk

/-- A token stands where its characters are. -/
theorem Stands.slice_span {text : String} {t : Token} {front : List Char} (h : Stands text t)
    (hr : t.start.rest = front ++ t.stop.rest) :
    t.span.slice? text = some (String.ofList front) := by
  obtain ⟨before, kr, ko⟩ := h.isIn
  obtain ⟨middle, lr, lo⟩ := h.reaches
  obtain rfl : middle = front := List.append_cancel_right (lr.symm.trans hr)
  have hstart : t.start.offset = byteLength before := by
    rw [ko]
    exact Nat.zero_add _
  have htext : text.toList = before ++ (middle ++ t.stop.rest) := by
    rw [← lr]
    exact kr
  rw [Token.span, lo, hstart]
  exact Span.slice?_ofOffsets htext

section

variable {text : String} {lexer : Lexer}

/-- Before anything is read, the token stands at the start. -/
theorem stands_ofString (text : String) : Stands text (ofString text).token :=
  ⟨.refl _, .refl _, .unread rfl⟩

/-- The next token stands in the text. -/
theorem Stands.scan (h : Stands text lexer.token) : Stands text lexer.scan.token := by
  have hin : lexer.scan.token.start.IsIn text := by
    rw [start_scan]
    exact (h.isIn.trans h.reaches).trans (reaches_trivia false _)
  cases hl : lexeme? lexer.regexAllowed (trivia false lexer.token.stop).stop with
  | none =>
    rw [scan_of_none hl] at hin ⊢
    exact ⟨hin, .refl _, .ended rfl (rest_of_lexeme_none hl) rfl⟩
  | some l =>
    rw [scan_of_some hl] at hin ⊢
    exact ⟨hin, reaches_lexeme hl, .read hl rfl⟩

/-- Only before the first token there is a line for an interpreter. -/
theorem Stands.skipHashbang (h : Stands text lexer.token) :
    Stands text lexer.skipHashbang.token := by
  unfold Lexer.skipHashbang
  split
  · rename_i cs hstop
    have hunread : lexer.token.kind = .unknown := by
      refine Decidable.byContradiction fun hk => ?_
      by_cases he : lexer.token.kind = .endOfFile
      · cases h.source with
        | unread hu => exact hk hu
        | ended _ hr hs =>
          rw [← hs, hstop] at hr
          exact nomatch hr
        | read hl ht => exact absurd (kind_of_again ht ▸ he) (honest_lexeme hl).ne_endOfFile
        | regex _ ht =>
          rw [kind_of_again ht, kind_regexLiteral] at he
          exact nomatch he
        | resumed _ ht =>
          exact absurd (kind_of_again ht ▸ he) (honest_templateContinuation _).ne_endOfFile
      · have hlt := h.reaches.offset_lt (h.source.length_lt hk he)
        rw [hstop] at hlt
        exact absurd hlt (Nat.not_lt_zero _)
    refine ⟨h.isIn, h.reaches.trans ?_, .unread hunread⟩
    rw [hstop]
    exact (reaches_cons_cons rfl).trans (reaches_skipWhile _ _)
  · exact h

/-- A slash that is read again stands in the text. -/
theorem Stands.rescanSlash (h : Stands text lexer.token) :
    Stands text lexer.rescanSlash.token := by
  by_cases hk : lexer.token.kind = .mark .slash ∨ lexer.token.kind = .mark .slashAssign
  · rw [rescanSlash_eq hk]
    have hslash : ∃ cs, lexer.token.start.rest = '/' :: cs := by
      rcases hk with hk | hk
      · obtain ⟨cs, hc⟩ := h.source.mark_spelled hk
        exact ⟨cs, hc.symm⟩
      · obtain ⟨cs, hc⟩ := h.source.mark_spelled hk
        exact ⟨'=' :: cs, hc.symm⟩
    obtain ⟨cs, hc⟩ := hslash
    exact ⟨h.isIn, reaches_regexLiteral _, .regex hc rfl⟩
  · rw [show lexer.rescanSlash = lexer by rw [Lexer.rescanSlash, if_neg (by simpa using hk)]]
    exact h

/-- A closing brace that is read again stands in the text. -/
theorem Stands.rescanTemplate (h : Stands text lexer.token)
    (hk : lexer.token.kind = .mark .closeBrace) : Stands text lexer.rescanTemplate.token := by
  rw [rescanTemplate_eq]
  obtain ⟨cs, hc⟩ := h.source.mark_spelled hk
  exact ⟨h.isIn, reaches_templateContinuation _, .resumed hc.symm rfl⟩

end

namespace Session

/-- The current token and those of the snapshots stand in the text. -/
def AllStand (text : String) (s : Session) : Prop :=
  Stands text s.lexer.token ∧ ∀ snapshot ∈ s.saved, Stands text snapshot.token

/-- No step of a session leaves the text. -/
theorem AllStand.step {text : String} {s t : Session} {step : Step} (h : s.step? step = some t)
    (hs : s.AllStand text) : t.AllStand text := by
  cases step with
  | scan =>
    obtain rfl := Option.some.inj h
    exact ⟨hs.1.scan, hs.2⟩
  | skipHashbang =>
    obtain rfl := Option.some.inj h
    exact ⟨hs.1.skipHashbang, hs.2⟩
  | rescanSlash =>
    obtain rfl := Option.some.inj h
    exact ⟨hs.1.rescanSlash, hs.2⟩
  | rescanTemplate =>
    simp only [step?] at h
    split at h
    · rename_i hk
      obtain rfl := Option.some.inj h
      exact ⟨hs.1.rescanTemplate hk, hs.2⟩
    · cases h
  | save =>
    obtain rfl := Option.some.inj h
    refine ⟨hs.1, fun snapshot hm => ?_⟩
    rcases List.mem_cons.mp hm with rfl | hm
    · exact hs.1
    · exact hs.2 snapshot hm
  | restore =>
    obtain ⟨lexer, saved⟩ := s
    cases saved with
    | nil => cases h
    | cons snapshot older =>
      obtain rfl := Option.some.inj h
      exact ⟨hs.2 snapshot List.mem_cons_self,
        fun other hm => hs.2 other (List.mem_cons_of_mem _ hm)⟩

/-- All tokens of a session stand in its text. -/
theorem allStand {text : String} {steps : List Step} {s : Session}
    (h : (ofString text).run? steps = some s) : s.AllStand text :=
  run?_keeps AllStand.step h ⟨stands_ofString text, fun _ hm => absurd hm List.not_mem_nil⟩

end Session

end Lexer

end EcmaScript
