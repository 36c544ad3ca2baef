import EcmaScript.Proofs.Lexer.Trace
import Mathlib.Data.List.Forall2

/-!
# Line breaks before tokens

The flag of a token that says whether a line break lies before it is right: between the end of the
token before it and its start there is a line break, in a comment or outside, exactly if the flag is
set. For the first token the text in question starts behind the line that names an interpreter.
Reading a token again leaves its flag as it is.
-/

namespace EcmaScript

namespace Lexer

open Character Cursor

/-- Between the two cursors there is a line break, or there was one before, exactly as `told`. -/
def Tells (before told : Bool) (c d : Cursor) : Prop :=
  ∃ gap, c.rest = gap ++ d.rest ∧ d.offset = c.offset + byteLength gap ∧
    told = (before || gap.any isLineBreak)

namespace Tells

variable {before middle told : Bool} {c d e : Cursor}

/-- Over no text nothing is told. -/
theorem refl (before : Bool) (c : Cursor) : Tells before before c c := ⟨[], rfl, rfl, by simp⟩

/-- What is told over two stretches one behind the other. -/
theorem trans (h : Tells before middle c d) (k : Tells middle told d e) :
    Tells before told c e := by
  obtain ⟨xs, hr, ho, hm⟩ := h
  obtain ⟨ys, kr, ko, kt⟩ := k
  refine ⟨xs ++ ys, by rw [hr, kr, List.append_assoc], ?_, ?_⟩
  · rw [ko, ho, byteLength_append, Nat.add_assoc]
  · rw [kt, hm, List.any_append, Bool.or_assoc]

/-- A character by itself. -/
theorem cons (before : Bool) {ch : Char} {cs : List Char} (h : c.rest = ch :: cs) :
    Tells before (before || isLineBreak ch) c ⟨c.offset + ch.utf8Size, cs⟩ :=
  ⟨[ch], h, rfl, by simp⟩

/-- A character that is no line break. -/
theorem skip (before : Bool) {ch : Char} {cs : List Char} (h : c.rest = ch :: cs)
    (hb : isLineBreak ch = false) : Tells before before c ⟨c.offset + ch.utf8Size, cs⟩ := by
  have hc := cons before h
  rwa [hb, Bool.or_false] at hc

/-- The slash and the character behind it that open a comment. -/
theorem opening (before : Bool) {ch : Char} {cs : List Char} (h : c.rest = '/' :: ch :: cs)
    (hsize : ch.utf8Size = 1) (hb : isLineBreak ch = false) :
    Tells before before c ⟨c.offset + 2, cs⟩ := by
  have hslash : isLineBreak '/' = false := by decide
  have ho := (skip before h hslash).trans (skip before rfl hb)
  rwa [hsize, Nat.add_assoc] at ho

/-- The rest of a line. -/
theorem line (before : Bool) (c : Cursor) :
    Tells before before c (c.skipWhile (!isLineBreak ·)) := by
  refine ⟨c.rest.takeWhile (!isLineBreak ·), ?_, ?_, ?_⟩
  · rw [skipWhile_eq, List.takeWhile_append_dropWhile]
  · rw [skipWhile_eq]
  · have hno : (c.rest.takeWhile (!isLineBreak ·)).any isLineBreak = false := by
      rw [List.any_eq_false]
      intro ch hch
      simpa using List.all_eq_true.mp List.all_takeWhile ch hch
    rw [hno, Bool.or_false]

end Tells

/-- A block comment tells the line breaks in it. -/
theorem tells_blockComment (lineBreak : Bool) (offset : Nat) (cs : List Char) :
    Tells lineBreak (blockComment lineBreak offset cs).lineBreak ⟨offset, cs⟩
      (blockComment lineBreak offset cs).stop := by
  fun_induction blockComment lineBreak offset cs with
  | case1 => exact .refl _ _
  | case2 lineBreak offset cs =>
    have hstar : (⟨offset, '*' :: '/' :: cs⟩ : Cursor).rest = '*' :: ('/' :: cs) := rfl
    have hslash : (⟨offset + 1, '/' :: cs⟩ : Cursor).rest = '/' :: cs := rfl
    exact (Tells.skip lineBreak hstar (by decide)).trans (.skip lineBreak hslash (by decide))
  | case3 lineBreak offset c cs _ ih => exact (Tells.cons lineBreak rfl).trans ih

/-- What is skipped before a token holds a line break exactly as is told. -/
theorem tells_trivia (lineBreak : Bool) (c : Cursor) :
    Tells lineBreak (trivia lineBreak c).lineBreak c (trivia lineBreak c).stop := by
  -- What a comment tells is put together with what was told before it.
  have hcomment : ∀ (lineBreak : Bool) {c : Cursor} {cs : List Char}, c.rest = '/' :: '*' :: cs →
      Tells lineBreak (lineBreak || (blockComment false (c.offset + 2) cs).lineBreak) c
        (blockComment false (c.offset + 2) cs).stop := by
    intro lineBreak c cs h
    obtain ⟨body, hr, ho, hl⟩ := tells_blockComment false (c.offset + 2) cs
    refine (Tells.opening lineBreak h rfl (by decide)).trans ⟨body, hr, ho, ?_⟩
    rw [hl, Bool.false_or]
  fun_induction trivia lineBreak c with
  | case1 => exact .refl _ _
  | case2 lineBreak c cs h ih =>
    exact ((Tells.opening lineBreak h rfl (by decide)).trans (.line lineBreak _)).trans ih
  | case3 lineBreak c cs h comment hclosed ih => exact (hcomment lineBreak h).trans ih
  | case4 lineBreak c cs h comment hopen => exact hcomment lineBreak h
  | case5 lineBreak c ch cs _ _ h hl ih =>
    have hc := Tells.cons lineBreak h
    rw [hl, Bool.or_true] at hc
    exact hc.trans ih
  | case6 lineBreak c ch cs _ _ h hl hb ih =>
    exact (Tells.skip lineBreak h (eq_false_of_ne_true hl)).trans ih
  | case7 => exact .refl _ _

/-- The four characters that break a line. -/
theorem isLineBreak_iff {ch : Char} :
    isLineBreak ch = true ↔ ch ∈ ['\n', '\r', '\u2028', '\u2029'] := by
  simp [isLineBreak, or_assoc]

/-- The line with which a text names an interpreter; empty if it names none. -/
def hashbangLine : List Char → List Char
  | '#' :: '!' :: cs => '#' :: '!' :: cs.takeWhile (!isLineBreak ·)
  | _ => []

/-- The first line is left out when it names an interpreter. -/
theorem offset_skipHashbang (text : String) :
    (ofString text).skipHashbang.token.stop.offset = byteLength (hashbangLine text.toList) := by
  by_cases h : ∃ cs, text.toList = '#' :: '!' :: cs
  · obtain ⟨cs, hc⟩ := h
    have hstop : (ofString text).token.stop = ⟨0, '#' :: '!' :: cs⟩ := congrArg (Cursor.mk 0) hc
    rw [skipHashbang, hstop, hc]
    simp only [skipWhile_eq, hashbangLine]
    show 2 + byteLength _ = 1 + (1 + byteLength _)
    omega
  · have hline : hashbangLine text.toList = [] := by
      unfold hashbangLine
      split
      · rename_i cs hc
        exact absurd ⟨cs, hc⟩ h
      · rfl
    rw [hline, skipHashbang]
    split
    · rename_i cs hc
      exact absurd ⟨cs, congrArg Cursor.rest hc⟩ h
    · rfl

end Lexer

/-- The flag of the token is set exactly if the text has a line feed, a carriage return, or a line
or paragraph separator between the offset and the start of the token. -/
def Token.TellsBreak (text : String) (offset : Nat) (t : Token) : Prop :=
  ∃ gap, (Span.ofOffsets offset t.start.offset).slice? text = some gap ∧
    (t.flags.afterLineBreak = true ↔ ∃ ch ∈ gap.toList, ch ∈ ['\n', '\r', '\u2028', '\u2029'])

namespace Lexer

open Character Cursor

/-- The next token tells whether there is a line break behind the current one. -/
theorem scan_tellsBreak {text : String} {lexer : Lexer} (h : lexer.token.stop.IsIn text) :
    lexer.scan.token.TellsBreak text lexer.token.stop.offset := by
  obtain ⟨before, hr, ho⟩ := h
  obtain ⟨gap, kr, ko, ht⟩ := tells_trivia false lexer.token.stop
  have hflag : lexer.scan.token.flags.afterLineBreak =
      (trivia false lexer.token.stop).lineBreak := by
    unfold scan
    simp only
    split
    · rfl
    · rfl
  have hoffset : lexer.token.stop.offset = byteLength before := by
    rw [ho]
    exact Nat.zero_add _
  have htext : text.toList = before ++ (gap ++ (trivia false lexer.token.stop).stop.rest) := by
    rw [← kr]
    exact hr
  refine ⟨String.ofList gap, ?_, ?_⟩
  · rw [start_scan, ko, hoffset]
    exact Span.slice?_ofOffsets htext
  · rw [hflag, ht, Bool.false_or, String.toList_ofList, List.any_eq_true]
    exact ⟨fun ⟨ch, hch, hb⟩ => ⟨ch, hch, isLineBreak_iff.mp hb⟩,
      fun ⟨ch, hch, hb⟩ => ⟨ch, hch, isLineBreak_iff.mpr hb⟩⟩

/-- Reading a brace again does not change what comes before it. -/
theorem afterLineBreak_rescanTemplate (lexer : Lexer) :
    lexer.rescanTemplate.token.flags.afterLineBreak = lexer.token.flags.afterLineBreak := rfl

/-- Reading a slash again does not change what comes before it. -/
theorem afterLineBreak_rescanSlash (lexer : Lexer) :
    lexer.rescanSlash.token.flags.afterLineBreak = lexer.token.flags.afterLineBreak := by
  unfold rescanSlash
  split
  · rfl
  · rfl

/-- Resuming a template keeps where a token starts and what it tells of line breaks. -/
theorem track_tellsBreak {text : String} {offset : Nat} {lexer : Lexer}
    (h : lexer.token.TellsBreak text offset) (depths : List Nat) :
    (lexer.track depths).1.token.TellsBreak text offset := by
  unfold track
  split
  · exact h
  · exact h
  · exact h
  · exact h
  · exact h

/-- The tokens go on to the end of the text. -/
theorem kind_remaining (lexer : Lexer) (depths : List Nat) :
    (lexer.remaining depths).2.token.kind = .endOfFile := by
  fun_induction remaining lexer depths with
  | case1 lexer depths next hk => exact hk
  | case2 lexer depths next hk current tokens last hrec ih =>
    rw [hrec] at ih
    exact ih

/-- Each of the tokens that are left, and the end of the text, tells whether there is a line break
behind the one before it. -/
theorem remaining_tellsBreak {text : String} (lexer : Lexer) (depths : List Nat)
    (h : lexer.token.stop.IsIn text) :
    List.Forall₂ (fun offset t => t.TellsBreak text offset)
      (lexer.token.stop.offset :: (lexer.remaining depths).1.map (·.stop.offset))
      ((lexer.remaining depths).1 ++ [(lexer.remaining depths).2.token]) := by
  fun_induction remaining lexer depths with
  | case1 lexer depths next hk => exact .cons (scan_tellsBreak h) .nil
  | case2 lexer depths next hk current tokens last hrec ih =>
    obtain ⟨hstart, hreach, -⟩ := track_advances hk depths
    have hin : current.1.token.stop.IsIn text := by
      refine .trans h (.trans ?_ hreach)
      rw [start_scan]
      exact reaches_trivia false _
    rw [hrec] at ih
    exact .cons (track_tellsBreak (scan_tellsBreak h) depths) (ih hin)

end Lexer

/-- Every token of a text, and the end of the text, tells exactly whether there is a line break
between it and the token before it, or the line for an interpreter. Reading a slash or a closing
brace again does not change that. -/
theorem tokenize_tells_lineBreaks (text : String) :
    (∃ last, (Lexer.ofString text).skipHashbang.remaining [] = ((tokenize text).1, last) ∧
      last.token.kind = .endOfFile ∧
      List.Forall₂ (fun offset t => t.TellsBreak text offset)
        (byteLength (Lexer.hashbangLine text.toList) ::
          (tokenize text).1.map (·.stop.offset))
        ((tokenize text).1 ++ [last.token])) ∧
    ∀ lexer : Lexer,
      lexer.rescanTemplate.token.flags.afterLineBreak = lexer.token.flags.afterLineBreak ∧
      lexer.rescanSlash.token.flags.afterLineBreak = lexer.token.flags.afterLineBreak := by
  refine ⟨⟨_, rfl, Lexer.kind_remaining _ _, ?_⟩, fun lexer =>
    ⟨lexer.afterLineBreak_rescanTemplate, lexer.afterLineBreak_rescanSlash⟩⟩
  obtain ⟨line, hr, ho, -⟩ := Lexer.skipHashbang_spec text
  have hin : (Lexer.ofString text).skipHashbang.token.stop.IsIn text :=
    ⟨line, hr, by rw [ho]; exact (Nat.zero_add _).symm⟩
  rw [← Lexer.offset_skipHashbang]
  exact Lexer.remaining_tellsBreak _ [] hin

end EcmaScript
