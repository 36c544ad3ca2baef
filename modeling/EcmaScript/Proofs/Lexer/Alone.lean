import EcmaScript.Proofs.Lexer.Spelling
import EcmaScript.Proofs.Slice.Reading

/-!
# Texts of one token

A text that starts with a token which reaches to its end is this token alone.

Many readers look past the end of their token: a number goes on as long as digits follow, and a
question mark before a dot is told from `?.` by the character behind the dot. But what they see
there only decides where the token ends. A text that is cut off at both ends of a token, well
formed or not, is read as this token and nothing else.

A slash that was taken for a division is left out, as it would start a regular expression, and so
are the chunks of a template behind a substitution, which do not start a token.
-/

namespace EcmaScript

namespace Lexer

open Character

/-- A gap is empty in front of a character that neither stands in gaps nor opens a comment. -/
theorem trivia_stay (lineBreak : Bool) {c : Cursor} {ch : Char} {cs : List Char}
    (h : c.rest = ch :: cs) (hs : ch ≠ '/') (hl : isLineBreak ch = false)
    (hb : isBlank ch = false) : trivia lineBreak c = ⟨lineBreak, [], c⟩ := by
  rw [trivia_char h fun _ _ he => absurd he hs, hl, hb]
  rfl

/-- A lexeme that starts where the last token stopped is the next token. -/
theorem scan_of_front [NameClasses] {lexer : Lexer} {l : Lexeme}
    (hg : trivia false lexer.token.stop = ⟨false, [], lexer.token.stop⟩)
    (hl : lexeme? lexer.regexAllowed lexer.token.stop = some l) :
    lexer.scan.token =
        { kind := l.kind, value := l.value, raw := l.raw
          flags := { l.flags with afterLineBreak := false }
          start := lexer.token.stop, stop := l.stop } ∧
      lexer.scan.faults = lexer.faults ++ l.faults := by
  have hread : lexeme? lexer.regexAllowed (trivia false lexer.token.stop).stop = some l := by
    rw [hg]
    exact hl
  have hnone : lexer.faults ++ ([] : List Fault) ++ l.faults = lexer.faults ++ l.faults := by simp
  rw [scan_of_some hread, hg]
  exact ⟨rfl, hnone⟩

/-- The token that a lexeme at the start of a text is. -/
def Lexeme.alone (l : Lexeme) (text : String) : Token :=
  { kind := l.kind, value := l.value, raw := l.raw
    flags := { l.flags with afterLineBreak := false }
    start := .ofString text, stop := l.stop }

/-- Outside of templates no token is read again. -/
theorem track_nil (lexer : Lexer) : ∃ depths, lexer.track [] = (lexer, depths) := by
  unfold track
  split
  · exact ⟨_, rfl⟩
  · exact ⟨_, rfl⟩
  · rename_i h
    exact nomatch h
  · exact ⟨_, rfl⟩
  · exact ⟨_, rfl⟩

/-- A lexeme that reaches from the start of a text to its end is the only token of the text. -/
theorem tokenize_of_lexeme {text : String} {l : Lexeme}
    (hh : ∀ cs, text.toList ≠ '#' :: '!' :: cs)
    (hg : trivia false (.ofString text) = ⟨false, [], .ofString text⟩)
    (hl : lexeme? true (.ofString text) = some l) (hr : l.stop.rest = []) :
    tokenize text = ([l.alone text], l.faults) := by
  have hstart : (ofString text).skipHashbang = ofString text := by
    unfold skipHashbang
    split
    · rename_i cs hc
      exact absurd (congrArg Cursor.rest hc) (hh cs)
    · rfl
  have hgap : trivia false (ofString text).token.stop = ⟨false, [], .ofString text⟩ := hg
  have hread : lexeme? (ofString text).regexAllowed (trivia false (ofString text).token.stop).stop =
      some l := by
    rw [hgap]
    exact hl
  have hscan := scan_of_some hread
  rw [hgap] at hscan
  have hfirst : (ofString text).scan.token = l.alone text := by rw [hscan]; rfl
  have hfaults : (ofString text).scan.faults.toList = l.faults := by
    rw [hscan]
    simp [ofString]
  have hne : (ofString text).scan.token.kind ≠ .endOfFile := by
    rw [hfirst]
    exact (honest_lexeme hl).ne_endOfFile
  obtain ⟨depths, htrack⟩ := track_nil (ofString text).scan
  obtain ⟨hend, -, -, -, hsame⟩ := scan_of_rest_nil (b := (ofString text).scan)
    (by rw [hfirst]; exact hr)
  rw [tokenize, hstart, remaining, dif_neg hne]
  simp only [htrack]
  rw [remaining, dif_pos hend]
  simp only [hsame, hfirst, hfaults]

/-- A token that is alone in its text was read first, and nothing is wrong behind it. -/
theorem scan_of_tokenize {text : String} {t : Token} (h : tokenize text = ([t], [])) :
    (ofString text).skipHashbang.scan.token = t ∧ t.kind ≠ .endOfFile ∧
      (ofString text).skipHashbang.scan.faults = #[] := by
  rw [tokenize, remaining] at h
  by_cases hend : (ofString text).skipHashbang.scan.token.kind = .endOfFile
  · rw [dif_pos hend] at h
    exact nomatch congrArg Prod.fst h
  · rw [dif_neg hend] at h
    obtain ⟨depths, htrack⟩ := track_nil (ofString text).skipHashbang.scan
    simp only [htrack, Prod.mk.injEq, List.cons.injEq] at h
    obtain ⟨⟨rfl, hrest⟩, hfaults⟩ := h
    refine ⟨rfl, hend, ?_⟩
    rw [remaining] at hrest hfaults
    by_cases hnext : (ofString text).skipHashbang.scan.scan.token.kind = .endOfFile
    · rw [dif_pos hnext, faults_scan] at hfaults
      exact Array.toList_eq_nil_iff.mp (List.append_eq_nil_iff.mp hfaults).1
    · rw [dif_neg hnext] at hrest
      exact nomatch hrest

/-- A token that is a whole text was read from the start of the text to its end. -/
theorem lexeme_of_tokenize {text : String} {t : Token} (h : tokenize text = ([t], []))
    (ht : t.text = text) :
    ∃ l, trivia false (.ofString text) = ⟨false, [], .ofString text⟩ ∧
      lexeme? true (.ofString text) = some l ∧ l.stop.rest = [] ∧ l.faults = [] ∧
      t = l.alone text := by
  obtain ⟨htoken, hkind, hclean⟩ := scan_of_tokenize h
  have hkind' := hkind
  rw [← htoken] at hkind'
  obtain ⟨⟨spelling, hspelling, hspan⟩, -⟩ := scan_advances hkind'
  obtain ⟨line, hline, hoffset, -⟩ := skipHashbang_spec text
  obtain ⟨gap, hgap, hstart⟩ := reaches_trivia false (ofString text).skipHashbang.token.stop
  rw [← start_scan] at hgap hstart
  rw [htoken] at hspelling hspan hgap hstart
  have hchars : t.text.toList = spelling := toList_textUntil hspelling hspan
  -- The token leaves no room for anything before it or behind it.
  have hwhole : text.toList = line ++ (gap ++ (text.toList ++ t.stop.rest)) := by
    conv_lhs => rw [hline, hgap, hspelling, ← hchars, ht]
  have hlength := congrArg List.length hwhole
  simp only [List.length_append] at hlength
  obtain rfl : line = [] := List.eq_nil_of_length_eq_zero (by omega)
  obtain rfl : gap = [] := List.eq_nil_of_length_eq_zero (by omega)
  have hrest : t.stop.rest = [] := List.eq_nil_of_length_eq_zero (by omega)
  have hfront : (ofString text).skipHashbang.token.stop = .ofString text :=
    congrArg₂ Cursor.mk hoffset hline.symm
  have hallowed : (ofString text).skipHashbang.regexAllowed = true := by
    unfold skipHashbang
    split <;> rfl
  have hat : (trivia false (.ofString text)).stop = .ofString text := by
    rw [← hfront, ← start_scan, htoken]
    exact congrArg₂ Cursor.mk (hstart.trans (Nat.add_zero _)) hgap.symm
  cases hl : lexeme? true (.ofString text) with
  | none =>
    rw [scan_of_none (by rw [hallowed, hfront, hat, hl])] at htoken
    exact absurd (congrArg Token.kind htoken).symm hkind
  | some l =>
    rw [scan_of_some (l := l) (by rw [hallowed, hfront, hat, hl]), hfront, hat] at htoken
    have hfaults : (ofString text).skipHashbang.scan.faults.toList = [] := by rw [hclean]
    rw [scan_of_some (l := l) (by rw [hallowed, hfront, hat, hl]), hfront] at hfaults
    simp only [Array.toList_appendList, List.append_eq_nil_iff] at hfaults
    have hgap := trivia_stop (.ofString text) false false
    rw [hat] at hgap
    rw [hgap] at htoken
    refine ⟨l, hgap, rfl, ?_, hfaults.2, htoken.symm⟩
    rw [← htoken] at hrest
    exact hrest

end Lexer

namespace Lexer

open Window Cursor

section

variable {c : Cursor} {l : Lexeme}

/-- The text of a lexeme is a window in which it is read alone, to the end of the text. -/
theorem lexeme_contained (hl : lexeme? true c = some l) :
    ∃ w : Window, w.part = c.textUntil l.stop ∧ c = w.widen (.ofString w.part) ∧
      ∃ l', lexeme? true (.ofString w.part) = some l' ∧ l = l'.widen w ∧
        l'.stop = ⟨w.part.utf8ByteSize, []⟩ := by
  obtain ⟨spelling, hrest, hoffset⟩ := reaches_lexeme hl
  have htext : c.textUntil l.stop = .ofList spelling := by
    rw [textUntil, charsUntil_eq hrest hoffset]
  obtain ⟨w, hin, hbehind, hc⟩ := exists_widen hrest
  have hpart : Cursor.ofString w.part = ⟨0, spelling⟩ := by
    rw [Cursor.ofString, toList_part, hin]
  rw [← hpart] at hc
  rw [hc] at hl
  have hholds : w.Holds l.stop := Nat.le_of_eq (congrArg List.length hbehind)
  -- The window ends with the token, so it does not go on with the dot of a fraction.
  have hcut := not_fraction hl fun _ hdot => by
    have hlength := congrArg List.length (hbehind.trans hdot)
    exact absurd hlength (Nat.ne_of_lt (Nat.lt_succ_self _))
  obtain ⟨l', hl', rfl⟩ := widen_lexeme hl hholds hcut
  have hnil : l'.stop.rest = [] := List.append_left_eq_self.mp hbehind.symm
  obtain ⟨front, hfront, hend⟩ := reaches_lexeme hl'
  rw [hnil, List.append_nil] at hfront
  rw [← hfront, hpart, ← hin, byteLength_eq_utf8ByteSize] at hend
  refine ⟨w, by rw [htext, Window.part, hin], hc, l', hl', rfl, ?_⟩
  exact congrArg₂ Cursor.mk (hend.trans (Nat.zero_add _)) hnil

/-- A lexeme behind a gap is, read alone, the token that fills its text. -/
theorem scan_contained (hgap : trivia false c = ⟨false, [], c⟩) (hl : lexeme? true c = some l) :
    (ofString (c.textUntil l.stop)).scan.token =
        { l.alone (c.textUntil l.stop) with
          stop := ⟨(c.textUntil l.stop).utf8ByteSize, []⟩ } ∧
      (ofString (c.textUntil l.stop)).scan.scan.token.kind = .endOfFile := by
  obtain ⟨w, hpart, rfl, l', hl', rfl, hstop⟩ := lexeme_contained hl
  have hscan := scan_alone hgap holds_widen hl'
  rw [← hpart]
  refine ⟨?_, (scan_of_rest_nil ?_).1⟩
  · rw [hscan, hstop]
    rfl
  · rw [hscan, hstop]

end

/-- Following the braces of substitutions changes no token but a chunk of a template. -/
theorem token_track (lexer : Lexer) (depths : List Nat) :
    (lexer.track depths).1 = lexer ∨ (lexer.track depths).1.token.kind = .templateMiddle ∨
      (lexer.track depths).1.token.kind = .templateTail := by
  unfold track
  split
  · exact Or.inl rfl
  · exact Or.inl rfl
  · refine Or.inr ?_
    show (if _ then TokenKind.templateMiddle else .templateTail) = _ ∨
      (if _ then TokenKind.templateMiddle else .templateTail) = _
    split
    · exact Or.inl rfl
    · exact Or.inr rfl
  · exact Or.inl rfl
  · exact Or.inl rfl

/-- A token that is left is the next one of some lexer, unless it is a chunk of a template. -/
theorem mem_remaining {lexer : Lexer} {depths : List Nat} {t : Token}
    (h : t ∈ (lexer.remaining depths).1) (hm : t.kind ≠ .templateMiddle)
    (ht : t.kind ≠ .templateTail) :
    ∃ before : Lexer, before.scan.token = t ∧ t.kind ≠ .endOfFile := by
  fun_induction remaining lexer depths with
  | case1 => cases h
  | case2 lexer depths next hne current tokens last hrec ih =>
    rw [hrec] at ih
    rcases List.mem_cons.mp h with rfl | h
    · rcases token_track next depths with hsame | hchunk | hchunk
      · have htoken : current.1.token = lexer.scan.token := congrArg Lexer.token hsame
        rw [htoken]
        exact ⟨lexer, rfl, hne⟩
      · exact absurd hchunk hm
      · exact absurd hchunk ht
    · exact ih h

end Lexer

/-- The text of a token is read as this token from its start to its end, with the same flags except
that no line break comes before it, and nothing follows. -/
def Token.ReadsAlone (t : Token) : Prop :=
  (Lexer.ofString t.text).scan.token =
      { t.behindLine false with
        start := .ofString t.text, stop := ⟨t.text.utf8ByteSize, []⟩ } ∧
    (Lexer.ofString t.text).scan.scan.token.kind = .endOfFile

/-- Every token of a text that is neither a division nor a chunk of a template behind a
substitution is self-contained. -/
theorem readsAlone_of_mem_tokenize {text : String} {t : Token} (h : t ∈ (tokenize text).1)
    (hslash : t.kind ≠ .mark .slash) (hassign : t.kind ≠ .mark .slashAssign)
    (hmiddle : t.kind ≠ .templateMiddle) (htail : t.kind ≠ .templateTail) : t.ReadsAlone := by
  obtain ⟨before, rfl, hne⟩ := Lexer.mem_remaining h hmiddle htail
  cases hl : Lexer.lexeme? before.regexAllowed (Lexer.trivia false before.token.stop).stop with
  | none => exact absurd (by rw [Lexer.scan_of_none hl]) hne
  | some l =>
    have hscan := Lexer.scan_of_some hl
    have hgap := Lexer.trivia_stop before.token.stop false false
    rw [hscan] at hslash hassign ⊢
    rcases Lexer.lexeme_allowed hl with ⟨-, hl⟩ | ⟨hk, -⟩
    · exact Lexer.scan_contained hgap hl
    · exact absurd (Lexer.isSlash_iff.mp hk) (not_or.mpr ⟨hslash, hassign⟩)

/-- A number that runs into a word, and a string without an end, are read alone too. -/
theorem readsAlone_of_faulty :
    (tokenize "7in \"a").1.map (fun t => (t.kind, t.text, t.flags.unterminated)) =
        [(.illegal, "7in", false), (.string, "\"a", true)] ∧
      ∀ t ∈ (tokenize "7in \"a").1, t.ReadsAlone := by
  have htokens : (tokenize "7in \"a").1.map (fun t => (t.kind, t.text, t.flags.unterminated)) =
      [(.illegal, "7in", false), (.string, "\"a", true)] := by decide +kernel
  refine ⟨htokens, fun t h => ?_⟩
  have hkind : t.kind = .illegal ∨ t.kind = .string := by
    have hmem := List.mem_map_of_mem
      (f := fun t : Token => (t.kind, t.text, t.flags.unterminated)) h
    rw [htokens] at hmem
    simp only [List.mem_cons, Prod.mk.injEq, List.not_mem_nil, or_false] at hmem
    exact hmem.imp And.left And.left
  have hne : ∀ k : TokenKind, k ≠ .illegal → k ≠ .string → t.kind ≠ k := by
    rintro k hi hs rfl
    exact hkind.elim hi hs
  exact readsAlone_of_mem_tokenize h (hne _ (by decide) (by decide)) (hne _ (by decide) (by decide))
    (hne _ (by decide) (by decide)) (hne _ (by decide) (by decide))

end EcmaScript
