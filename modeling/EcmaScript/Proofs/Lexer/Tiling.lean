import EcmaScript.Proofs.Lexer.Faults

/-!
# Tokens tile the text

What lies between two tokens is described by a small grammar of its own: blanks, line
breaks, and the two kinds of comments. The tokens of a text, with such gaps before, between
and behind them, make up the text exactly, whatever is wrong with their spelling. The first
gap may have a line for an interpreter before it, and the last one may end in a comment that
is not closed, which is then among the faults.
-/

namespace EcmaScript

namespace Lexer

open Character Cursor

/-- `Gap gap behind` says that the characters of `gap` may stand between two tokens when
the text goes on with `behind`. -/
inductive Gap : List Char → List Char → Prop where
  /-- Tokens may follow each other at once. -/
  | nil {behind : List Char} : Gap [] behind
  | blank {ch : Char} {gap behind : List Char} :
      isBlank ch = true → Gap gap behind → Gap (ch :: gap) behind
  | lineBreak {ch : Char} {gap behind : List Char} :
      isLineBreak ch = true → Gap gap behind → Gap (ch :: gap) behind
  /-- A comment that runs up to a line break or the end of the text. -/
  | lineComment {body gap behind : List Char} :
      (∀ ch ∈ body, isLineBreak ch = false) → (∀ ch ∈ (gap ++ behind).head?,
      isLineBreak ch = true) →
      Gap gap behind → Gap ('/' :: '/' :: (body ++ gap)) behind
  /-- A comment that runs up to the first mark that closes it. -/
  | blockComment {body gap behind : List Char} :
      ¬ ['*', '/'] <:+: body → Gap gap behind →
      Gap ('/' :: '*' :: (body ++ '*' :: '/' :: gap)) behind

/-- The start of a block comment that the text does not close. -/
def OpenComment (cs : List Char) : Prop :=
  ∃ body, cs = '/' :: '*' :: body ∧ ¬ ['*', '/'] <:+: body

/-- `Hashbang line behind` says that `line`, with which the text starts, is skipped: it names
an interpreter and runs up to a line break or the end of the text. -/
inductive Hashbang : List Char → List Char → Prop where
  | none {behind : List Char} : Hashbang [] behind
  | line {body behind : List Char} :
      (∀ ch ∈ body, isLineBreak ch = false) → (∀ ch ∈ behind.head?, isLineBreak ch = true) →
      Hashbang ('#' :: '!' :: body) behind

/-- `Tiled faults offset cs tokens` says that the text `cs`, which starts at `offset`,
consists of the tokens with gaps before, between and behind them. -/
inductive Tiled (faults : List Fault) : Nat → List Char → List Token → Prop where
  | done {offset : Nat} {gap : List Char} : Gap gap [] → Tiled faults offset gap []
  /-- The text ends in a comment that is not closed, and this is told. -/
  | unclosed {offset : Nat} {gap comment : List Char} :
      Gap gap comment → OpenComment comment →
      ⟨.unterminatedComment, offset + byteLength gap⟩ ∈ faults →
      Tiled faults offset (gap ++ comment) []
  | token {offset : Nat} {gap spelling behind : List Char} {t : Token} {tokens : List Token} :
      Gap gap (spelling ++ behind) → spelling ≠ [] → t.text = String.ofList spelling →
      t.span = .ofOffsets (offset + byteLength gap)
        (offset + byteLength gap + byteLength spelling) →
      Tiled faults (offset + byteLength gap + byteLength spelling) behind tokens →
      Tiled faults offset (gap ++ (spelling ++ behind)) (t :: tokens)

/-- What is read of a block comment: up to its first closing mark, or to the end of the text. -/
theorem blockComment_spec (lineBreak : Bool) (offset : Nat) (cs : List Char) :
    (if (blockComment lineBreak offset cs).closed then
      ∃ body, cs = body ++ '*' :: '/' :: (blockComment lineBreak offset cs).stop.rest ∧
        (blockComment lineBreak offset cs).stop.offset = offset + byteLength body + 2 ∧
        ¬ ['*', '/'] <:+: body
    else (blockComment lineBreak offset cs).stop = ⟨offset + byteLength cs, []⟩ ∧
      ¬ ['*', '/'] <:+: cs) := by
  fun_induction blockComment lineBreak offset cs with
  | case1 lineBreak offset => exact ⟨rfl, by simp⟩
  | case2 lineBreak offset cs => exact ⟨[], rfl, rfl, by simp⟩
  | case3 lineBreak offset c cs hne ih =>
    -- a closing mark across the new first character would have ended the comment here
    have hcons : ∀ body, (∃ t, cs = body ++ t ∧ t.head? ≠ some '/') → ¬ ['*', '/'] <:+: body →
        ¬ ['*', '/'] <:+: c :: body := by
      rintro body ⟨t, ht, hh⟩ hb hi
      rcases List.infix_cons_iff.mp hi with hp | hi
      · obtain ⟨u, hu⟩ := hp
        simp only [List.cons_append, List.nil_append, List.cons.injEq] at hu
        obtain ⟨hc, hu⟩ := hu
        rw [← hu, List.cons_append] at ht
        exact hne (u ++ t) hc.symm ht
      · exact hb hi
    split
    · rename_i hclosed
      rw [if_pos hclosed] at ih
      obtain ⟨body, hr, ho, hb⟩ := ih
      refine ⟨c :: body, by rw [List.cons_append, ← hr], ?_, hcons body ⟨_, hr, by simp⟩ hb⟩
      rw [ho, byteLength_cons]
      omega
    · rename_i hopen
      rw [if_neg hopen] at ih
      obtain ⟨hs, hb⟩ := ih
      refine ⟨?_, hcons cs ⟨[], by simp, by simp⟩ hb⟩
      rw [hs, byteLength_cons, Nat.add_assoc]

/-- What was read from `c` on is a gap, or a gap that ends in a comment that is not closed;
only then there is a fault, at the start of the comment. -/
def Trivia.Covers (g : Trivia) (c : Cursor) : Prop :=
  (∃ gap, c.rest = gap ++ g.stop.rest ∧ g.stop.offset = c.offset + byteLength gap ∧
    Gap gap g.stop.rest ∧ g.faults = []) ∨
  ∃ gap comment, c.rest = gap ++ comment ∧ g.stop = ⟨c.offset + byteLength c.rest, []⟩ ∧
    Gap gap comment ∧ OpenComment comment ∧
    g.faults = [⟨.unterminatedComment, c.offset + byteLength gap⟩]

/-- One more piece may stand in front of what was read. -/
theorem Trivia.Covers.extend {g : Trivia} {c d : Cursor} (h : g.Covers d) (piece : List Char)
    (hr : c.rest = piece ++ d.rest) (ho : d.offset = c.offset + byteLength piece)
    (hg : ∀ gap behind, gap ++ behind = d.rest → Gap gap behind → Gap (piece ++ gap) behind) :
    g.Covers c := by
  rcases h with ⟨gap, h1, h2, h3, h4⟩ | ⟨gap, comment, h1, h2, h3, h4, h5⟩
  · refine Or.inl ⟨piece ++ gap, ?_, ?_, hg gap _ h1.symm h3, h4⟩
    · rw [hr, List.append_assoc, ← h1]
    · rw [h2, ho, byteLength_append, Nat.add_assoc]
  · refine Or.inr ⟨piece ++ gap, comment, ?_, ?_, hg gap _ h1.symm h3, h4, ?_⟩
    · rw [hr, List.append_assoc, ← h1]
    · rw [h2, hr, byteLength_append, ho, Nat.add_assoc]
    · rw [h5, ho, byteLength_append, Nat.add_assoc]

/-- What is skipped before a token is a gap, as long as no comment is left open. -/
theorem trivia_covers (lineBreak : Bool) (c : Cursor) : (trivia lineBreak c).Covers c := by
  fun_induction trivia lineBreak c with
  | case1 lineBreak c h => exact Or.inl ⟨[], rfl, rfl, .nil, rfl⟩
  | case2 lineBreak c cs h ih =>
    refine ih.extend ('/' :: '/' :: cs.takeWhile (!isLineBreak ·)) ?_ ?_ ?_
    · rw [h, skipWhile_eq, List.cons_append, List.cons_append, List.takeWhile_append_dropWhile]
    · rw [skipWhile_eq]
      show c.offset + 2 + byteLength (cs.takeWhile _) = c.offset + (1 + (1 + byteLength _))
      omega
    · intro gap behind hgb hg
      refine .lineComment ?_ ?_ hg
      · intro ch hch
        simpa using List.all_eq_true.mp (List.all_takeWhile) ch hch
      · intro ch hch
        rw [hgb, skipWhile_eq] at hch
        have hd := List.head?_dropWhile_not (fun x => !isLineBreak x) cs
        rw [Option.mem_def.mp hch] at hd
        simpa using hd
  | case3 lineBreak c cs h comment hclosed ih =>
    have hc := blockComment_spec false (c.offset + 2) cs
    rw [if_pos hclosed] at hc
    obtain ⟨body, hr, ho, hb⟩ := hc
    refine ih.extend ('/' :: '*' :: (body ++ ['*', '/'])) ?_ ?_ ?_
    · rw [h, hr, List.cons_append, List.cons_append, List.append_assoc]
      rfl
    · have hl : byteLength ['*', '/'] = 2 := by decide
      rw [ho, byteLength_cons, byteLength_cons, byteLength_append, hl]
      show _ = c.offset + (1 + (1 + (byteLength body + 2)))
      omega
    · intro gap behind hgb hg
      rw [List.cons_append, List.cons_append, List.append_assoc]
      exact .blockComment hb hg
  | case4 lineBreak c cs h comment hopen =>
    have hc := blockComment_spec false (c.offset + 2) cs
    rw [if_neg hopen] at hc
    refine Or.inr ⟨[], c.rest, rfl, ?_, .nil, ⟨cs, h, hc.2⟩, rfl⟩
    show comment.stop = _
    rw [hc.1, h]
    show (⟨c.offset + 2 + _, []⟩ : Cursor) = ⟨c.offset + (1 + (1 + byteLength cs)), []⟩
    rw [Nat.add_assoc, ← Nat.add_assoc 1 1]
  | case5 lineBreak c ch cs _ _ h hl ih =>
    exact ih.extend [ch] h rfl fun gap behind _ hg => .lineBreak hl hg
  | case6 lineBreak c ch cs _ _ h hl hb ih =>
    exact ih.extend [ch] h rfl fun gap behind _ hg => .blank hb hg
  | case7 lineBreak c ch cs _ _ h hl hb => exact Or.inl ⟨[], rfl, rfl, .nil, rfl⟩

/-- A gap goes ahead in the text. -/
theorem reaches_trivia (lineBreak : Bool) (c : Cursor) :
    c.Reaches (trivia lineBreak c).stop := by
  rcases trivia_covers lineBreak c with ⟨gap, hr, ho, _, _⟩ | ⟨_, _, _, hs, _⟩
  · exact ⟨gap, hr, ho⟩
  · rw [hs]
    exact ⟨c.rest, (List.append_nil _).symm, rfl⟩

/-- The token at the end of the text. -/
theorem scan_of_none {lexer : Lexer}
    (h : lexeme? lexer.regexAllowed (trivia false lexer.token.stop).stop = none) :
    lexer.scan =
      { token :=
          { kind := .endOfFile, value := "", raw := ""
            flags := { afterLineBreak := (trivia false lexer.token.stop).lineBreak }
            start := (trivia false lexer.token.stop).stop
            stop := (trivia false lexer.token.stop).stop }
        regexAllowed := lexer.regexAllowed
        faults := lexer.faults ++ (trivia false lexer.token.stop).faults } := by
  simp only [scan, h]

/-- The token of a lexeme behind its gap. -/
theorem scan_of_some [NameClasses] {lexer : Lexer} {l : Lexeme}
    (h : lexeme? lexer.regexAllowed (trivia false lexer.token.stop).stop = some l) :
    lexer.scan =
      { token :=
          { kind := l.kind, value := l.value, raw := l.raw
            flags := { l.flags with afterLineBreak := (trivia false lexer.token.stop).lineBreak }
            start := (trivia false lexer.token.stop).stop
            stop := l.stop }
        regexAllowed := !isPropertyName lexer.token.kind l.kind && l.kind.allowsRegexAfter
        faults := lexer.faults ++ (trivia false lexer.token.stop).faults ++ l.faults } := by
  simp only [scan, h]

/-- There is a lexeme as long as there is text. -/
theorem rest_of_lexeme_none {regexAllowed : Bool} {c : Cursor}
    (h : lexeme? regexAllowed c = none) : c.rest = [] := by
  unfold lexeme? at h
  split at h
  · assumption
  · exact absurd h (by simp)

/-- A token starts behind its gap. -/
theorem start_scan (lexer : Lexer) :
    lexer.scan.token.start = (trivia false lexer.token.stop).stop := by
  cases h : lexeme? lexer.regexAllowed (trivia false lexer.token.stop).stop with
  | none => rw [scan_of_none h]
  | some l => rw [scan_of_some h]

/-- At the end of the text there is no character left, and the faults of the last gap have
been told. -/
theorem scan_of_endOfFile {lexer : Lexer} (h : lexer.scan.token.kind = .endOfFile) :
    (trivia false lexer.token.stop).stop.rest = [] ∧
      lexer.scan.faults.toList =
        lexer.faults.toList ++ (trivia false lexer.token.stop).faults := by
  cases hl : lexeme? lexer.regexAllowed (trivia false lexer.token.stop).stop with
  | none =>
    rw [scan_of_none hl]
    exact ⟨rest_of_lexeme_none hl, by simp⟩
  | some l =>
    rw [scan_of_some hl] at h
    exact absurd h (honest_lexeme hl).ne_endOfFile

/-- A token that is not the end of the text reaches from its start to a later place. -/
theorem scan_advances {lexer : Lexer} (h : lexer.scan.token.kind ≠ .endOfFile) :
    lexer.scan.token.start.Reaches lexer.scan.token.stop ∧
      lexer.scan.token.stop.rest.length < lexer.scan.token.start.rest.length := by
  cases hl : lexeme? lexer.regexAllowed (trivia false lexer.token.stop).stop with
  | none =>
    rw [scan_of_none hl] at h
    exact absurd rfl h
  | some l =>
    rw [scan_of_some hl]
    exact ⟨reaches_lexeme hl, length_lexeme_lt hl⟩

/-- Resuming a template keeps where a token starts, and it still reaches to a later place. -/
theorem track_advances {lexer : Lexer} (h : lexer.scan.token.kind ≠ .endOfFile)
    (depths : List Nat) :
    (lexer.scan.track depths).1.token.start = lexer.scan.token.start ∧
      lexer.scan.token.start.Reaches (lexer.scan.track depths).1.token.stop ∧
      (lexer.scan.track depths).1.token.stop.rest.length <
        lexer.scan.token.start.rest.length := by
  obtain ⟨hr, hl⟩ := scan_advances h
  obtain ⟨ch, cs, hc⟩ := List.exists_cons_of_ne_nil (start_scan_ne_nil h)
  unfold track
  split
  · exact ⟨rfl, hr, hl⟩
  · exact ⟨rfl, hr, hl⟩
  · exact ⟨rfl, reaches_templateContinuation _, length_templateContinuation_lt hc⟩
  · exact ⟨rfl, hr, hl⟩
  · exact ⟨rfl, hr, hl⟩

/-- The tokens that are left tile the text that is left. -/
theorem remaining_tiled (lexer : Lexer) (depths : List Nat) :
    Tiled (lexer.remaining depths).2.faults.toList lexer.token.stop.offset
      lexer.token.stop.rest (lexer.remaining depths).1 := by
  fun_induction remaining lexer depths with
  | case1 lexer depths next h =>
    obtain ⟨hn, hf⟩ := scan_of_endOfFile h
    rcases trivia_covers false lexer.token.stop with
      ⟨gap, hr, _, hg, _⟩ | ⟨gap, comment, hr, _, hg, ho, hc⟩
    · rw [hn, List.append_nil] at hr
      rw [hn] at hg
      rw [hr]
      exact .done hg
    · rw [hr]
      refine .unclosed hg ho ?_
      show _ ∈ lexer.scan.faults.toList
      rw [hf, hc]
      simp
  | case2 lexer depths next h current tokens last hrec ih =>
    rw [hrec] at ih
    obtain ⟨hstart, hreach, hlt⟩ := track_advances h depths
    have hgap : (trivia false lexer.token.stop).stop = current.1.token.start := by
      rw [← start_scan, hstart]
    rw [← hstart] at hreach hlt
    rcases trivia_covers false lexer.token.stop with
      ⟨gap, hr, ho, hg, _⟩ | ⟨gap, comment, _, hs, _⟩
    · rw [hgap] at hr ho hg
      obtain ⟨spelling, kr, ko⟩ := hreach
      rw [kr] at hg hr
      rw [hr]
      refine .token hg ?_ ?_ ?_ ?_
      · rintro rfl
        rw [kr, List.nil_append] at hlt
        exact absurd hlt (Nat.lt_irrefl _)
      · rw [Token.text, Cursor.textUntil, Cursor.charsUntil_eq kr ko]
      · rw [Token.span, ko, ho]
      · rw [← ho, ← ko]
        exact ih
    · -- a gap that ends in an open comment leaves no room for a token
      have hn : current.1.token.start.rest = [] := by rw [← hgap, hs]
      rw [hn] at hlt
      exact absurd hlt (Nat.not_lt_zero _)

/-- Every token of a tiling has its spelling as the slice of its span. -/
theorem Tiled.slice {faults : List Fault} {text : String} {before cs : List Char}
    {tokens : List Token} (h : Tiled faults (byteLength before) cs tokens)
    (ht : text.toList = before ++ cs) :
    ∀ t ∈ tokens, t.span.start < t.span.stop ∧ t.span.slice? text = some t.text := by
  generalize ho : byteLength before = offset at h
  induction h generalizing before with
  | done => simp
  | unclosed => simp
  | @token offset gap spelling behind t tokens hg hne htext hspan _ ih =>
    subst ho
    intro u hu
    have hcut : text.toList = (before ++ gap) ++ (spelling ++ behind) := by
      rw [ht, List.append_assoc]
    rcases List.mem_cons.mp hu with rfl | hu
    · have hpos : 0 < byteLength spelling := by
        obtain ⟨ch, cs, rfl⟩ := List.exists_cons_of_ne_nil hne
        have hp := ch.utf8Size_pos
        rw [byteLength_cons]
        omega
      rw [hspan, htext, ← byteLength_append, Span.slice?_ofOffsets hcut]
      refine ⟨?_, rfl⟩
      show byteLength (before ++ gap) + 1 < byteLength (before ++ gap) + byteLength spelling + 1
      omega
    · have hnext : text.toList = (before ++ gap ++ spelling) ++ behind := by
        rw [hcut, List.append_assoc (before ++ gap)]
      refine ih hnext ?_ u hu
      rw [byteLength_append, byteLength_append]

/-- Every token of a tiling starts at or behind the offset from which it is tiled. -/
theorem Tiled.start_ge {faults : List Fault} {offset : Nat} {cs : List Char} {tokens : List Token}
    (h : Tiled faults offset cs tokens) : ∀ t ∈ tokens, offset + 1 ≤ t.span.start := by
  induction h with
  | done => simp
  | unclosed => simp
  | @token offset gap spelling behind t tokens hg hne htext hspan _ ih =>
    intro u hu
    rcases List.mem_cons.mp hu with rfl | hu
    · rw [hspan]
      show offset + 1 ≤ offset + byteLength gap + 1
      omega
    · have := ih u hu
      omega

/-- The tokens of a tiling are disjoint and in the order of the text. -/
theorem Tiled.pairwise {faults : List Fault} {offset : Nat} {cs : List Char} {tokens : List Token}
    (h : Tiled faults offset cs tokens) :
    tokens.Pairwise fun a b => a.span.stop ≤ b.span.start := by
  induction h with
  | done => exact .nil
  | unclosed => exact .nil
  | @token offset gap spelling behind t tokens hg hne htext hspan hrest ih =>
    refine .cons (fun u hu => ?_) ih
    rw [hspan]
    exact hrest.start_ge u hu

/-- A line for an interpreter at the start of a text is moved over, and nothing else is. -/
theorem skipHashbang_spec (text : String) :
    ∃ line, text.toList = line ++ (ofString text).skipHashbang.token.stop.rest ∧
      (ofString text).skipHashbang.token.stop.offset = byteLength line ∧
      Hashbang line (ofString text).skipHashbang.token.stop.rest := by
  unfold skipHashbang
  split
  · rename_i cs h
    have hr : text.toList = '#' :: '!' :: cs := congrArg Cursor.rest h
    refine ⟨'#' :: '!' :: cs.takeWhile (!isLineBreak ·), ?_, ?_, ?_⟩
    · simp only [skipWhile_eq]
      rw [hr, List.cons_append, List.cons_append, List.takeWhile_append_dropWhile]
    · simp only [skipWhile_eq]
      show 2 + _ = 1 + (1 + _)
      omega
    · refine .line ?_ ?_
      · intro ch hch
        simpa using List.all_eq_true.mp (List.all_takeWhile) ch hch
      · intro ch hch
        simp only [skipWhile_eq] at hch
        have hd := List.head?_dropWhile_not (fun x => !isLineBreak x) cs
        rw [Option.mem_def.mp hch] at hd
        simpa using hd
  · exact ⟨[], rfl, rfl, .none⟩

end Lexer

/-- The tokens of a text, with gaps before, between and behind them, make up the text: their
spans are not empty, disjoint, in the order of the text, in range and on character
boundaries, and every gap is trivia. -/
theorem tokenize_tiles (text : String) :
    (∃ line rest, text.toList = line ++ rest ∧ Lexer.Hashbang line rest ∧
      Lexer.Tiled (tokenize text).2 (byteLength line) rest (tokenize text).1) ∧
    (∀ t ∈ (tokenize text).1,
      t.span.start < t.span.stop ∧ t.span.slice? text = some t.text) ∧
    (tokenize text).1.Pairwise fun a b => a.span.stop ≤ b.span.start := by
  obtain ⟨line, ht, ho, hh⟩ := Lexer.skipHashbang_spec text
  have htiled := Lexer.remaining_tiled (Lexer.ofString text).skipHashbang []
  rw [ho] at htiled
  exact ⟨⟨line, _, ht, hh, htiled⟩, htiled.slice ht, htiled.pairwise⟩

end EcmaScript
