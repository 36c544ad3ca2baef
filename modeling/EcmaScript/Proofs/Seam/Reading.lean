import EcmaScript.Proofs.Slice.Closed
import EcmaScript.Proofs.Slice.Reading
import EcmaScript.Proofs.Tandem.InStep

/-!
# Reading on both sides of a seam

A text in two pieces, and the text with one character more between the pieces. Each piece is a
stretch of both texts, and a lexer that reads a token of the piece in the one text reads it in the
other text too: the token is read in the piece alone, and from there in the other text, where what
comes behind the first piece goes on with no token.
-/

namespace EcmaScript

open Lexer

/-- Lexers of two texts are at the same token of a stretch that the texts share. Unless that is the
end of the texts, a slash behind it means the same to both. -/
structure Window.Both (v w : Window) (a b : Lexer) : Prop where
  token : ∃ t : Token, a.token = t.widen v ∧ b.token = t.widen w
  regexAllowed : a.token.kind ≠ .endOfFile → b.regexAllowed = a.regexAllowed

namespace Lexer

open Character Window Cursor

variable {v w : Window} {a b m : Lexer} {d : Cursor}

/-- A template's continuation that is read without a fault is read the same in front of what closes
the window. -/
theorem closed_templateContinuation (hw : w.IsClosed) {ch : Char} {cs : List Char}
    (hd : d.rest = ch :: cs) (hf : (templateContinuation d).faults = []) :
    templateContinuation (w.widen d) = (templateContinuation d).widen w := by
  have he := TemplateChunk.ended_of_faults hf
  unfold templateContinuation
  rw [widen_next hd, closed_templateChunk hw he]
  exact TemplateChunk.widen_toLexeme ..

/-- A token of the stretch alone is read in the text. -/
theorem closed_scan (hw : w.IsClosed) (hb : b.token = m.token.widen w)
    (hr : b.regexAllowed = m.regexAllowed) (hf : m.scan.faults = #[])
    (hk : m.scan.token.kind ≠ .endOfFile) :
    b.scan.token = m.scan.token.widen w ∧ b.scan.regexAllowed = m.scan.regexAllowed ∧
      b.scan.faults = b.faults := by
  cases hl : lexeme? m.regexAllowed (trivia false m.token.stop).stop with
  | none =>
    rw [scan_of_none hl] at hk
    exact absurd rfl hk
  | some l =>
    rw [scan_of_some hl] at hf ⊢
    obtain ⟨hgap, hown⟩ := append_eq_empty hf
    have hgap := (append_eq_empty hgap).2
    have hstop : b.token.stop = w.widen m.token.stop := by rw [hb]; rfl
    have htrivia : trivia false b.token.stop = (trivia false m.token.stop).widen w := by
      rw [hstop]
      refine closed_trivia hw hgap fun hnil => ?_
      rw [lexeme?, hnil] at hl
      cases hl
    have hlexeme : lexeme? b.regexAllowed (trivia false b.token.stop).stop = some (l.widen w) := by
      rw [hr, htrivia]
      exact closed_lexeme hw hl hown
    have hkind : b.token.kind = m.token.kind := by rw [hb]; rfl
    rw [scan_of_some hlexeme, htrivia, hkind]
    refine ⟨rfl, rfl, ?_⟩
    show b.faults ++ (trivia false m.token.stop).faults ++ l.faults.map w.fault = b.faults
    rw [hgap, hown]
    simp

/-- A lexer that has met no fault has met none in the gap before its token. -/
theorem trivia_of_scan (h : a.scan.faults = #[]) : (trivia false a.token.stop).faults = [] := by
  cases hl : lexeme? a.regexAllowed (trivia false a.token.stop).stop with
  | none =>
    rw [scan_of_none hl] at h
    exact (append_eq_empty h).2
  | some l =>
    rw [scan_of_some hl] at h
    exact (append_eq_empty (append_eq_empty h).1).2

end Lexer

namespace Window.Both

open Character Window Cursor

variable {v w : Window} {a b : Lexer}

/-- The two current tokens are of one kind. -/
theorem kind (h : Both v w a b) : b.token.kind = a.token.kind := by
  obtain ⟨t, ha, hb⟩ := h.token
  rw [ha, hb]
  rfl

/-- Both current tokens are on a new line or neither is. -/
theorem afterLineBreak (h : Both v w a b) :
    b.token.afterLineBreak = a.token.afterLineBreak := by
  obtain ⟨t, ha, hb⟩ := h.token
  rw [ha, hb]
  rfl

/-- The lexer of the stretch alone that is at the same token. -/
theorem reads (h : Both v w a b) : ∃ m : Lexer, m.faults = #[] ∧ v.Reads a m ∧
    a.token = m.token.widen v ∧ b.token = m.token.widen w ∧
      (a.token.kind ≠ .endOfFile → b.regexAllowed = m.regexAllowed) := by
  obtain ⟨t, ha, hb⟩ := h.token
  exact ⟨⟨t, a.regexAllowed, #[]⟩, rfl, ⟨by rw [ha]; rfl, rfl⟩, ha, hb, h.regexAllowed⟩

/-- The next token, if it lies in the stretch. Behind a question mark one token more has to be
known. -/
theorem scan (hw : w.IsClosed) (h : Both v w a b) (hne : a.token.kind ≠ .endOfFile)
    (hf : a.scan.faults = #[])
    (hin : v.behind.length < a.scan.token.start.rest.length) (hs : v.Holds a.scan.token.stop)
    (hnext : a.scan.token.kind = .mark .question →
      a.scan.token.stop.rest = '.' :: v.behind → v.Holds a.scan.scan.token.stop) :
    Both v w a.scan b.scan ∧ b.scan.faults = b.faults := by
  obtain ⟨m, hm, hreads, -, hb, hr⟩ := h.reads
  obtain ⟨htoken, hregex, hclean⟩ := Lexer.widen_scan hreads hf hin hs hnext
  have hkind : m.scan.token.kind ≠ .endOfFile := by
    intro hk
    have hend : a.scan.token.kind = .endOfFile := by rw [htoken]; exact hk
    rw [start_scan, (scan_of_endOfFile hend).1] at hin
    exact absurd hin (Nat.not_lt_zero _)
  obtain ⟨htoken', hregex', hclean'⟩ := closed_scan hw hb (hr hne) (hclean.trans hm) hkind
  exact ⟨⟨⟨_, htoken, htoken'⟩, fun _ => hregex'.trans hregex.symm⟩, hclean'⟩

/-- The next token, if the stretch goes to the end of both texts. -/
theorem scan_last (hv : v.behind = []) (hw : w.behind = []) (h : Both v w a b)
    (hne : a.token.kind ≠ .endOfFile) (hf : a.scan.faults = #[]) :
    Both v w a.scan b.scan ∧ b.scan.faults = b.faults := by
  have hclosed : w.IsClosed := by simp [IsClosed, hw]
  have hholds : ∀ c, v.Holds c := by simp [Holds, hv]
  by_cases hk : a.scan.token.kind = .endOfFile
  · obtain ⟨m, -, -, ha, hb, -⟩ := h.reads
    obtain ⟨hnil, -⟩ := scan_of_endOfFile hk
    have hgap := trivia_of_scan hf
    have hstop : a.token.stop = v.widen m.token.stop := by rw [ha]; rfl
    have hstop' : b.token.stop = w.widen m.token.stop := by rw [hb]; rfl
    have htrivia : trivia false a.token.stop = (trivia false m.token.stop).widen v := by
      rw [hstop] at hgap ⊢
      exact widen_trivia hgap (hholds _)
    have hgap' : (trivia false m.token.stop).faults = [] := by
      rw [htrivia] at hgap
      exact hgap
    have htrivia' : trivia false b.token.stop = (trivia false m.token.stop).widen w := by
      rw [hstop']
      exact closed_trivia hclosed hgap' fun _ => hw
    have hnil' : (trivia false b.token.stop).stop.rest = [] := by
      rw [htrivia] at hnil
      rw [htrivia']
      show _ ++ w.behind = []
      rw [(List.append_eq_nil_iff.mp hnil).1, hw]
      rfl
    rw [scan_of_none (by rw [lexeme?, hnil]), scan_of_none (by rw [lexeme?, hnil']), htrivia,
      htrivia']
    refine ⟨⟨⟨⟨.endOfFile, "", "", { afterLineBreak := (trivia false m.token.stop).lineBreak },
      (trivia false m.token.stop).stop, (trivia false m.token.stop).stop⟩, rfl, rfl⟩,
      fun hne => absurd rfl hne⟩, ?_⟩
    show b.faults ++ (trivia false m.token.stop).faults = b.faults
    rw [hgap']
    simp
  · refine h.scan hclosed hne hf ?_ (hholds _) fun _ _ => hholds _
    rw [hv]
    exact List.length_pos_iff.mpr (start_scan_ne_nil hk)

/-- Both read the slash again as a regular expression, alike. -/
theorem rescanSlash (hw : w.IsClosed) (h : Both v w a b)
    (hk : a.token.kind = .mark .slash ∨ a.token.kind = .mark .slashAssign)
    (hf : a.rescanSlash.faults = #[]) (hin : v.behind.length < a.token.start.rest.length)
    (hs : v.Holds a.rescanSlash.token.stop) :
    Both v w a.rescanSlash b.rescanSlash ∧ b.rescanSlash.faults = b.faults := by
  obtain ⟨m, -, -, ha, hb, -⟩ := h.reads
  rw [rescanSlash_eq hk] at hf hs ⊢
  rw [rescanSlash_eq (by rw [h.kind]; exact hk)]
  have hown := (append_eq_empty hf).2
  have hstart : a.token.start = v.widen m.token.start := by rw [ha]; rfl
  have hstart' : b.token.start = w.widen m.token.start := by rw [hb]; rfl
  rw [hstart] at hown hin
  obtain ⟨ch, cs, hd⟩ := exists_cons_of_widen hin
  have hs : v.Holds (regexLiteral a.token.start).stop := hs
  rw [hstart] at hs
  have hwide := widen_regexLiteral hd hs
  have halone : (regexLiteral m.token.start).faults = [] := by
    rw [hwide] at hown
    exact List.map_eq_nil_iff.mp hown
  have hwide' := closed_regexLiteral hw hd halone
  refine ⟨⟨⟨again m.token (regexLiteral m.token.start), ?_, ?_⟩, fun _ => rfl⟩, ?_⟩
  · rw [hstart, hwide, ha]
    rfl
  · rw [hstart', hwide', hb]
    rfl
  · show b.faults ++ (regexLiteral b.token.start).faults = b.faults
    rw [hstart', hwide']
    simp [Lexeme.widen, halone]

/-- Both read the brace again as a template's continuation, alike. -/
theorem rescanTemplate (hw : w.IsClosed) (h : Both v w a b) (hf : a.rescanTemplate.faults = #[])
    (hin : v.behind.length < a.token.start.rest.length)
    (hs : v.Holds a.rescanTemplate.token.stop) :
    Both v w a.rescanTemplate b.rescanTemplate ∧ b.rescanTemplate.faults = b.faults := by
  obtain ⟨m, -, -, ha, hb, -⟩ := h.reads
  rw [rescanTemplate_eq] at hf hs ⊢
  rw [rescanTemplate_eq]
  have hown := (append_eq_empty hf).2
  have hstart : a.token.start = v.widen m.token.start := by rw [ha]; rfl
  have hstart' : b.token.start = w.widen m.token.start := by rw [hb]; rfl
  rw [hstart] at hown hin
  obtain ⟨ch, cs, hd⟩ := exists_cons_of_widen hin
  have hs : v.Holds (templateContinuation a.token.start).stop := hs
  rw [hstart] at hs
  have hwide := widen_templateContinuation hd hs
  have halone : (templateContinuation m.token.start).faults = [] := by
    rw [hwide] at hown
    exact List.map_eq_nil_iff.mp hown
  have hwide' := closed_templateContinuation hw hd halone
  refine ⟨⟨⟨again m.token (templateContinuation m.token.start), ?_, ?_⟩, fun _ => ?_⟩, ?_⟩
  · rw [hstart, hwide, ha]
    rfl
  · rw [hstart', hwide', hb]
    rfl
  · rw [hstart, hstart', hwide, hwide']
    rfl
  · show b.faults ++ (templateContinuation b.token.start).faults = b.faults
    rw [hstart', hwide']
    simp [Lexeme.widen, halone]

/-- Two tokens that are read alike have the same text. -/
theorem text (h : Both v w a b) (hr : a.token.start.Reaches a.token.stop) :
    b.token.text = a.token.text := by
  obtain ⟨t, ha, hb⟩ := h.token
  rw [ha] at hr ⊢
  have ht : t.start.Reaches t.stop := reaches_of_widen hr
  rw [hb, Token.text, Token.text]
  exact (widen_textUntil ht).trans (widen_textUntil ht).symm

/-- The two tokens are the same if all offsets in them are moved as the stretch is. -/
theorem twin {s : Shift} (h : Both v w a b) (hr : a.token.start.Reaches a.token.stop)
    (hstart : s.start a.token.start.offset + v.base = a.token.start.offset + w.base)
    (hstop : a.token.kind ≠ .endOfFile →
      s.stop a.token.stop.offset + v.base = a.token.stop.offset + w.base)
    (hinside : ∀ k, a.token.start.offset < k → k < a.token.stop.offset →
      s.start k + v.base = k + w.base ∧ s.stop k + v.base = k + w.base) :
    Token.Twin s a.token b.token := by
  have htext := h.text hr
  obtain ⟨t, ha, hb⟩ := h.token
  have hs : a.token.start.offset = t.start.offset + v.base := by rw [ha]; rfl
  have he : a.token.stop.offset = t.stop.offset + v.base := by rw [ha]; rfl
  have hs' : b.token.start.offset = t.start.offset + w.base := by rw [hb]; rfl
  have he' : b.token.stop.offset = t.stop.offset + w.base := by rw [hb]; rfl
  exact
    { kind := by rw [ha, hb]; rfl
      value := by rw [ha, hb]; rfl
      raw := by rw [ha, hb]; rfl
      text := htext
      start := by omega
      stop := fun hk => by
        have hmoved := hstop hk
        omega
      length := by omega
      inside := fun k hk hlt => by
        have hmoved := hinside (a.token.start.offset + k) (Nat.lt_add_of_pos_right hk) hlt
        omega
      invalidEscape := by rw [ha, hb]; rfl
      unterminated := by rw [ha, hb]; rfl }

end Window.Both

/-- A text in two pieces, and a character that can be put between them. -/
structure Seam where
  /-- The characters of the first piece. -/
  front : List Char
  /-- The character that is put between the pieces. -/
  filling : Char
  /-- The characters of the second piece. -/
  behind : List Char
  separates : Separates filling

namespace Seam

/-- The text of the two pieces. -/
def text (j : Seam) : String := .ofList (j.front ++ j.behind)

/-- The text with one character more between the two pieces. -/
def filled (j : Seam) : String := .ofList (j.front ++ j.filling :: j.behind)

/-- The offset at which the second piece starts. -/
def offset (j : Seam) : Nat := byteLength j.front

/-- Between two characters of a text there is a seam. -/
theorem exists_of_isBoundary {text : String} {offset : Nat} (ch : Char) (hch : Separates ch)
    (h : IsBoundary text offset) :
    ∃ j : Seam, j.filling = ch ∧ j.text = text ∧ j.offset = offset := by
  obtain ⟨front, behind, htext, hoffset⟩ := h
  refine ⟨⟨front, ch, behind, hch⟩, rfl, ?_, hoffset⟩
  rw [Seam.text, ← htext, String.ofList_toList]

/-- The first piece, in the text. -/
def left (j : Seam) : Window := ⟨[], j.front, j.behind⟩

/-- The first piece, in the text with one character more. -/
def leftFilled (j : Seam) : Window := ⟨[], j.front, j.filling :: j.behind⟩

/-- The second piece, in the text. -/
def right (j : Seam) : Window := ⟨j.front, j.behind, []⟩

/-- The second piece, in the text with one character more. -/
def rightFilled (j : Seam) : Window := ⟨j.front ++ [j.filling], j.behind, []⟩

variable (j : Seam)

/-- The text ends with the second piece. -/
theorem text_right : j.right.text = j.text := by
  rw [Window.text, text, right, List.append_nil]

/-- The front ends at the seam. -/
theorem cut_left : j.left.cut = j.offset := Nat.zero_add _

/-- With the character the rest starts one byte further. -/
theorem base_rightFilled : j.rightFilled.base = j.offset + 1 := by
  rw [rightFilled, Window.base, byteLength_append, byteLength_cons, j.separates.utf8Size]
  rfl

/-- The character closes the front: no token can grow over it. -/
theorem isClosed_leftFilled : j.leftFilled.IsClosed := by
  rintro ch ⟨⟩
  exact j.separates

/-- The rest is closed by the end of the text. -/
theorem isClosed_rightFilled : j.rightFilled.IsClosed := fun _ h => by cases h

/-- The character is one byte. -/
theorem utf8ByteSize_filled : j.filled.utf8ByteSize = j.text.utf8ByteSize + 1 := by
  rw [text, filled, ← byteLength_eq_utf8ByteSize, ← byteLength_eq_utf8ByteSize, byteLength_append,
    byteLength_append, byteLength_cons, j.separates.utf8Size]
  omega

open Window Cursor

variable {j : Seam} {a b : Lexer}

/-- A text that starts with a hash and an exclamation mark is read from behind its first line. -/
theorem skipHashbang_of_hashbang {text : String} {cs : List Char}
    (h : Cursor.ofString text = ⟨0, '#' :: '!' :: cs⟩) :
    (Lexer.ofString text).skipHashbang =
      { Lexer.ofString text with
        token.stop := Cursor.skipWhile (!Character.isLineBreak ·) ⟨2, cs⟩ } := by
  rw [Lexer.ofString, h]
  rfl

/-- Another text is read from its start. -/
theorem skipHashbang_of_ne {text : String}
    (h : ∀ cs, Cursor.ofString text ≠ ⟨0, '#' :: '!' :: cs⟩) :
    (Lexer.ofString text).skipHashbang = Lexer.ofString text := by
  unfold skipHashbang
  split
  · rename_i cs hc
    exact absurd hc (h cs)
  · rfl

/-- The first line is left out without a fault. -/
theorem faults_skipHashbang (lexer : Lexer) : lexer.skipHashbang.faults = lexer.faults := by
  unfold Lexer.skipHashbang
  split <;> rfl

/-- A hashbang that is not in the first piece has its last character in the second one. -/
theorem hashbang_behind {front behind cs : List Char} (h : front ++ behind = '#' :: '!' :: cs)
    (hno : ¬∃ cs, front = '#' :: '!' :: cs) :
    behind = '#' :: '!' :: cs ∨ behind = '!' :: cs := by
  rcases List.append_eq_cons_iff.mp h with ⟨-, hb⟩ | ⟨xs, rfl, hxs⟩
  · exact Or.inl hb
  · rcases List.append_eq_cons_iff.mp hxs.symm with ⟨-, hb⟩ | ⟨ys, rfl, -⟩
    · exact Or.inr hb
    · exact absurd ⟨ys, rfl⟩ hno

/-- Before the first token of the first piece, behind a first line that names an interpreter. -/
theorem first
    (hin : j.behind.length < (Lexer.ofString j.text).skipHashbang.token.stop.rest.length) :
    Both j.left j.leftFilled (Lexer.ofString j.text).skipHashbang
      (Lexer.ofString j.filled).skipHashbang := by
  have htext : Cursor.ofString j.text = ⟨0, j.front ++ j.behind⟩ := by
    rw [Cursor.ofString, text, String.toList_ofList]
  have hfilled : Cursor.ofString j.filled = ⟨0, j.front ++ j.filling :: j.behind⟩ := by
    rw [Cursor.ofString, filled, String.toList_ofList]
  by_cases hbang : ∃ cs, j.front = '#' :: '!' :: cs
  · obtain ⟨cs, hfront⟩ := hbang
    have hleft : Cursor.ofString j.text = ⟨0, '#' :: '!' :: (cs ++ j.behind)⟩ := by
      rw [htext, hfront]
      rfl
    have hright : Cursor.ofString j.filled = ⟨0, '#' :: '!' :: (cs ++ j.filling :: j.behind)⟩ := by
      rw [hfilled, hfront]
      rfl
    rw [skipHashbang_of_hashbang hleft] at hin
    have hrest : (Cursor.skipWhile (!Character.isLineBreak ·) ⟨2, cs⟩).rest ≠ [] := by
      intro hnil
      rw [skipWhile_eq] at hnil hin
      change _ < ((cs ++ j.behind).dropWhile _).length at hin
      rw [List.dropWhile_append, if_pos (List.isEmpty_iff.mpr hnil)] at hin
      exact absurd hin (Nat.not_lt.mpr (List.dropWhile_suffix _).length_le)
    have hwide : ∀ w : Window, (w.widen ⟨2, cs⟩).skipWhile (!Character.isLineBreak ·) =
        w.widen (Cursor.skipWhile (!Character.isLineBreak ·) ⟨2, cs⟩) := fun w =>
      widen_skipWhile_of_rest fun h => absurd h hrest
    rw [skipHashbang_of_hashbang hleft, skipHashbang_of_hashbang hright]
    refine ⟨⟨⟨.unknown, "", "", {}, ⟨0, j.front⟩, Cursor.skipWhile
      (!Character.isLineBreak ·) ⟨2, cs⟩⟩,
      ?_, ?_⟩, fun _ => rfl⟩
    · rw [Lexer.ofString, htext, Token.widen, ← hwide]
      rfl
    · rw [Lexer.ofString, hfilled, Token.widen, ← hwide]
      rfl
  · rw [skipHashbang_of_ne, skipHashbang_of_ne]
    · refine ⟨⟨⟨.unknown, "", "", {}, ⟨0, j.front⟩, ⟨0, j.front⟩⟩, ?_, ?_⟩, fun _ => rfl⟩
      · rw [Lexer.ofString, htext]
        rfl
      · rw [Lexer.ofString, hfilled]
        rfl
    · intro cs hc
      have hcs := (congrArg Cursor.rest hfilled).symm.trans (congrArg Cursor.rest hc)
      rcases hashbang_behind hcs hbang with hb | hb
      · exact j.separates.ne (by decide) (List.cons.inj hb).1
      · exact j.separates.ne (by decide) (List.cons.inj hb).1
    · intro cs hc
      have hcs := (congrArg Cursor.rest htext).symm.trans (congrArg Cursor.rest hc)
      rw [skipHashbang_of_hashbang hc] at hin
      have hlt : j.behind.length < cs.length :=
        Nat.lt_of_lt_of_le hin (length_skipWhile_le (!Character.isLineBreak ·) ⟨2, cs⟩)
      rcases hashbang_behind hcs hbang with hb | hb
      · rw [hb, List.length_cons, List.length_cons] at hlt
        omega
      · rw [hb, List.length_cons] at hlt
        omega

end Seam

end EcmaScript
