import EcmaScript.Proofs.Lexer.Tiling

/-!
# Traces of a lexer

A trace lists the tokens that a lexer has read of a text, each with the faults that its
reading has told. A token is read behind the one before it, and the last token may be read
again, a slash as a regular expression and a closing brace as the rest of a template. The
faults of a lexer are exactly those of its trace, so none of a token on it is lost and none
of any other token is left. Looking ahead and going back to a snapshot leaves no trace.
-/

namespace EcmaScript

/-- The offset of a place between two characters of a text, or at one of its ends. -/
def IsBoundary (text : String) (offset : Nat) : Prop :=
  ∃ before behind, text.toList = before ++ behind ∧ byteLength before = offset

namespace Cursor

/-- The cursor stands somewhere in the text. -/
def IsIn (c : Cursor) (text : String) : Prop := (ofString text).Reaches c

/-- A cursor in a text stands between two characters. -/
theorem IsIn.isBoundary {c : Cursor} {text : String} (h : c.IsIn text) :
    IsBoundary text c.offset := by
  obtain ⟨front, hr, ho⟩ := h
  exact ⟨front, c.rest, hr, by rw [ho]; exact (Nat.zero_add _).symm⟩

end Cursor

/-- Whether a piece of a template is its last one. -/
def Token.isTail (t : Token) : Bool := t.kind == .template || t.kind == .templateTail

/-- The number of bytes in what a piece of a template ends with. -/
def Token.closing (t : Token) : Nat :=
  if !t.isTail then 2 else if t.flags.unterminated then 0 else 1

namespace Lexer

/-- What a piece of a template ends with tells whether it is the last one. -/
theorem closing_eq_width {t : Token} {ending : ChunkEnd} {whole opening : TokenKind}
    (hw : (whole == .template || whole == .templateTail) = true)
    (ho : (opening == .template || opening == .templateTail) = false)
    (hk : t.kind = if ending = .substitution then opening else whole)
    (hf : t.flags.unterminated = decide (ending = .missing)) : t.closing = ending.width := by
  rw [Token.closing, Token.isTail, hk, hf]
  cases ending with
  | closed => simp [hw, ChunkEnd.width]
  | substitution => simp [ho, ChunkEnd.width]
  | missing => simp [hw, ChunkEnd.width]

/-- A token that was read, and what was wrong with it. -/
structure Reading where
  /-- The token. -/
  token : Token
  /-- The faults of the gap before the token. -/
  gap : List Fault
  /-- The faults of the spelling of the token. -/
  own : List Fault

namespace Reading

/-- All that the reading has told. -/
def faults (r : Reading) : List Fault := r.gap ++ r.own

/-- The reading after its token was read again. -/
def again (r : Reading) (token : Token) (l : Lexeme) : Reading :=
  ⟨token, r.gap, r.own ++ l.faults⟩

end Reading

/-- A token after it was read again, from the same place on. -/
def again (token : Token) (l : Lexeme) : Token :=
  { token with
    kind := l.kind, value := l.value, raw := l.raw
    flags := { l.flags with afterLineBreak := token.flags.afterLineBreak }
    stop := l.stop }

/-- A slash is read again as a regular expression. -/
theorem rescanSlash_eq {lexer : Lexer}
    (h : lexer.token.kind = .mark .slash ∨ lexer.token.kind = .mark .slashAssign) :
    lexer.rescanSlash =
      ⟨again lexer.token (regexLiteral lexer.token.start), false,
        lexer.faults ++ (regexLiteral lexer.token.start).faults⟩ := by
  have hk : (lexer.token.kind == .mark .slash || lexer.token.kind == .mark .slashAssign) =
    true := by
    rcases h with h | h
    · rw [h]
      rfl
    · rw [h]
      rfl
  rw [rescanSlash, if_pos hk]
  rfl

/-- A closing brace is read again as a template's continuation. -/
theorem rescanTemplate_eq (lexer : Lexer) :
    lexer.rescanTemplate =
      ⟨again lexer.token (templateContinuation lexer.token.start),
        (templateContinuation lexer.token.start).kind.allowsRegexAfter,
        lexer.faults ++ (templateContinuation lexer.token.start).faults⟩ := rfl

/-- The reading of the token behind the current one. -/
def reading (lexer : Lexer) : Reading :=
  let gap := trivia false lexer.token.stop
  { token := lexer.scan.token
    gap := gap.faults
    own := match lexeme? lexer.regexAllowed gap.stop with
      | none => []
      | some l => l.faults }

/-- `Trace text readings lexer` says that the lexer has come to where it is by these readings
of the text. -/
inductive Trace (text : String) : List Reading → Lexer → Prop where
  | start : Trace text [] (ofString text).skipHashbang
  | scan {readings : List Reading} {lexer : Lexer} :
      Trace text readings lexer → Trace text (readings ++ [lexer.reading]) lexer.scan
  | slash {readings : List Reading} {r : Reading} {lexer : Lexer} :
      Trace text (readings ++ [r]) lexer →
      lexer.token.kind = .mark .slash ∨ lexer.token.kind = .mark .slashAssign →
      Trace text (readings ++ [r.again lexer.rescanSlash.token (regexLiteral lexer.token.start)])
        lexer.rescanSlash
  | template {readings : List Reading} {r : Reading} {lexer : Lexer} :
      Trace text (readings ++ [r]) lexer → lexer.token.kind = .mark .closeBrace →
      Trace text
        (readings ++ [r.again lexer.rescanTemplate.token (templateContinuation lexer.token.start)])
        lexer.rescanTemplate

/-- The next token adds what its reading tells. -/
theorem faults_scan (lexer : Lexer) :
    lexer.scan.faults.toList = lexer.faults.toList ++ lexer.reading.faults := by
  cases h : lexeme? lexer.regexAllowed (trivia false lexer.token.stop).stop with
  | none =>
    rw [scan_of_none h]
    simp [Reading.faults, reading, h]
  | some l =>
    rw [scan_of_some h]
    simp [Reading.faults, reading, h]

/-- The token was read from the text, when no more had been told than the lexer has told. -/
def HasRead (text : String) (lexer : Lexer) (t : Token) : Prop :=
  ∃ readings r before, Trace text (readings ++ [r]) before ∧ before.token = t ∧
    (lexer.faults = #[] → before.faults = #[])

/-- The current token was read last. -/
theorem Trace.hasRead {text : String} {readings : List Reading} {r : Reading} {lexer : Lexer}
    (h : Trace text (readings ++ [r]) lexer) : lexer.HasRead text lexer.token :=
  ⟨readings, r, lexer, h, rfl, id⟩

namespace HasRead

variable {text : String} {lexer lexer' : Lexer} {t : Token}

/-- A lexer that has told no less has read the token too. -/
theorem mono (h : lexer.HasRead text t) {more : List Fault}
    (he : lexer'.faults.toList = lexer.faults.toList ++ more) : lexer'.HasRead text t := by
  obtain ⟨readings, r, before, htrace, ht, hf⟩ := h
  refine ⟨readings, r, before, htrace, ht, fun hnone => hf ?_⟩
  rw [hnone] at he
  exact Array.toList_eq_nil_iff.mp (List.append_eq_nil_iff.mp he.symm).1

/-- What has been read stays read. -/
theorem scan (h : lexer.HasRead text t) : lexer.scan.HasRead text t := h.mono (faults_scan lexer)

/-- What has been read stays read when a slash is read again. -/
theorem rescanSlash (h : lexer.HasRead text t)
    (hk : lexer.token.kind = .mark .slash ∨ lexer.token.kind = .mark .slashAssign) :
    lexer.rescanSlash.HasRead text t := by
  rw [rescanSlash_eq hk]
  exact h.mono Array.toList_appendList

/-- What has been read stays read when a closing brace is read again. -/
theorem rescanTemplate (h : lexer.HasRead text t) : lexer.rescanTemplate.HasRead text t := by
  rw [rescanTemplate_eq]
  exact h.mono Array.toList_appendList

end HasRead

namespace Trace

/-- The faults of a lexer are those of the tokens on its trace, in their order. -/
theorem faults_eq {text : String} {readings : List Reading} {lexer : Lexer}
    (h : Trace text readings lexer) : lexer.faults.toList = readings.flatMap Reading.faults := by
  induction h with
  | start =>
    unfold skipHashbang
    split <;> rfl
  | scan _ ih => rw [faults_scan, ih, List.flatMap_append, List.flatMap_singleton]
  | @slash readings r lexer _ hk ih =>
    rw [rescanSlash_eq hk]
    simp only [Array.toList_appendList, ih, List.flatMap_append, List.flatMap_singleton,
      Reading.faults, Reading.again, List.append_assoc]
  | @template readings r lexer _ hk ih =>
    rw [rescanTemplate_eq]
    simp only [Array.toList_appendList, ih, List.flatMap_append, List.flatMap_singleton,
      Reading.faults, Reading.again, List.append_assoc]

/-- Whatever a lexer has told is lexical. -/
theorem isLexical {text : String} {readings : List Reading} {lexer : Lexer}
    (h : Trace text readings lexer) : ∀ r ∈ readings, ∀ f ∈ r.faults, f.IsLexical := by
  have hlast : ∀ (readings : List Reading) (r : Reading),
      (∀ r ∈ readings, ∀ f ∈ r.faults, f.IsLexical) → (∀ f ∈ r.faults, f.IsLexical) →
      ∀ x ∈ readings ++ [r], ∀ f ∈ x.faults, f.IsLexical := by
    intro readings r hrs hr x hx
    rcases List.mem_append.mp hx with hx | hx
    · exact hrs x hx
    · rw [List.mem_singleton.mp hx]
      exact hr
  have hagain : ∀ (r : Reading) (t : Token) (l : Lexeme), (∀ f ∈ r.faults, f.IsLexical) →
      l.Honest → ∀ f ∈ (r.again t l).faults, f.IsLexical := by
    intro r t l hr hl f hf
    rw [Reading.faults, Reading.again, ← List.append_assoc] at hf
    rcases List.mem_append.mp hf with hf | hf
    · exact hr f hf
    · exact hl.isLexical f hf
  induction h with
  | start => simp
  | @scan readings lexer _ ih =>
    refine hlast readings _ ih fun f hf => ?_
    rcases List.mem_append.mp hf with hf | hf
    · change f ∈ (trivia false lexer.token.stop).faults at hf
      rcases trivia_covers false lexer.token.stop with ⟨_, _, _, _, he⟩ | ⟨_, _, _, _, _, _, he⟩
      · rw [he] at hf
        exact absurd hf (by simp)
      · rw [he] at hf
        rw [List.mem_singleton.mp hf]
        rfl
    · simp only [reading] at hf
      split at hf
      · exact absurd hf (by simp)
      · rename_i l hs
        exact (honest_lexeme hs).isLexical f hf
  | @slash readings r lexer _ _ ih =>
    exact hlast readings _ (fun x hx => ih x (List.mem_append_left _ hx))
      (hagain r _ _ (ih r (by simp)) (whole_regexLiteral _).toHonest)
  | @template readings r lexer _ _ ih =>
    exact hlast readings _ (fun x hx => ih x (List.mem_append_left _ hx))
      (hagain r _ _ (ih r (by simp)) (honest_templateContinuation _))

/-- The current token of a trace lies in the text: its start reaches its end, which is a
later place unless the text has ended. -/
theorem place {text : String} {readings : List Reading} {lexer : Lexer}
    (h : Trace text readings lexer) :
    lexer.token.start.IsIn text ∧ lexer.token.start.Reaches lexer.token.stop ∧
      (readings ≠ [] → lexer.token.kind ≠ .endOfFile →
        lexer.token.stop.rest.length < lexer.token.start.rest.length) := by
  induction h with
  | start =>
    have hstart : (ofString text).skipHashbang.token.start = Cursor.ofString text := by
      unfold skipHashbang
      split
      · rfl
      · rfl
    obtain ⟨line, hr, ho, _⟩ := skipHashbang_spec text
    rw [hstart]
    exact ⟨.refl _, ⟨line, hr, by rw [ho]; exact (Nat.zero_add _).symm⟩, fun hne => absurd rfl hne⟩
  | @scan readings lexer _ ih =>
    have hstart := start_scan lexer
    refine ⟨?_, ?_, fun _ hk => (scan_advances hk).2⟩
    · rw [hstart]
      exact (ih.1.trans ih.2.1).trans (reaches_trivia false _)
    · cases hl : lexeme? lexer.regexAllowed (trivia false lexer.token.stop).stop with
      | none =>
        rw [scan_of_none hl]
        exact .refl _
      | some l =>
        rw [scan_of_some hl]
        exact reaches_lexeme hl
  | @slash readings r lexer _ hk ih =>
    rw [rescanSlash_eq hk]
    obtain ⟨ch, cs, hc⟩ := List.exists_cons_of_length_pos
      (Nat.zero_lt_of_lt (ih.2.2 (by simp) (by rcases hk with hk | hk <;> rw [hk] <;> simp)))
    exact ⟨ih.1, reaches_regexLiteral _, fun _ _ => length_regexLiteral_lt hc⟩
  | @template readings r lexer _ hk ih =>
    rw [rescanTemplate_eq]
    obtain ⟨ch, cs, hc⟩ := List.exists_cons_of_length_pos
      (Nat.zero_lt_of_lt (ih.2.2 (by simp) (by rw [hk]; simp)))
    exact ⟨ih.1, reaches_templateContinuation _, fun _ _ => length_templateContinuation_lt hc⟩

/-- A punctuator is spelled where it stands. -/
theorem mark_spelled {text : String} {readings : List Reading} {r : Reading} {lexer : Lexer}
    (h : Trace text (readings ++ [r]) lexer) {p : Punctuator} (hk : lexer.token.kind = .mark p) :
    p.text.toList <+: lexer.token.start.rest := by
  generalize hrs : readings ++ [r] = all at h
  cases h with
  | start => exact absurd hrs (by simp)
  | @scan _ lexer _ =>
    rw [start_scan]
    cases hl : lexeme? lexer.regexAllowed (trivia false lexer.token.stop).stop with
    | none =>
      rw [scan_of_none hl] at hk
      exact absurd hk (by simp)
    | some l =>
      rw [scan_of_some hl] at hk
      change l.kind = .mark p at hk
      rcases lexeme_cases hl with hw | ⟨_, rfl⟩ | ⟨q, hq, _, hspelled⟩
      · have hw := hw.isWhole
        rw [hk] at hw
        exact absurd hw (by simp [isWhole])
      · change (if _ then TokenKind.templateHead else .template) = .mark p at hk
        split at hk
        · exact absurd hk (by simp)
        · exact absurd hk (by simp)
      · rw [hk] at hq
        cases hq
        exact hspelled
  | slash _ ht =>
    rw [rescanSlash_eq ht] at hk
    exact absurd (hk.symm.trans (kind_regexLiteral _)) (by simp)
  | template _ _ =>
    rw [rescanTemplate_eq] at hk
    change (if _ then TokenKind.templateMiddle else .templateTail) = .mark p at hk
    split at hk
    · exact absurd hk (by simp)
    · exact absurd hk (by simp)

end Trace

end Lexer

end EcmaScript
