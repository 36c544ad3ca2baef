import EcmaScript.Proofs.Slice.Literal

/-!
# Tokens in a window

Strings, templates and regular expressions, the gaps between tokens, and with them all
tokens. One more character may decide about a token: a question mark before a dot is
followed by a digit or not. So a token that ends at the end of the window is the same in the
stretch alone, unless such a digit is cut off.
-/

namespace EcmaScript

namespace Lexer

open Window Character Cursor

section

variable {w : Window} {d : Cursor}

/-- The place so many bytes further on, behind which the same characters follow. -/
theorem widen_step (n : Nat) (cs : List Char) :
    (⟨(w.widen d).offset + n, cs ++ w.behind⟩ : Cursor) = w.widen ⟨d.offset + n, cs⟩ := by
  rw [widen_offset, Nat.add_right_comm]
  rfl

/-- The content of a string with its stop and its faults as those of the whole text. -/
def StringBody.widen (w : Window) (body : StringBody) : StringBody :=
  { body with faults := body.faults.map w.fault, stop := w.widen body.stop }

theorem stringBody_nil {quote : Char} {value : List Char} {faults : List Fault} {c : Cursor}
    (h : c.rest = []) :
    stringBody quote value faults c = ⟨value.reverse, faults.reverse, false, c⟩ := by
  rw [stringBody]
  split <;> simp_all

/-- The content of a string, one step. -/
theorem stringBody_cons {quote : Char} {value : List Char} {faults : List Fault} {c : Cursor}
    {ch : Char} {cs : List Char} (h : c.rest = ch :: cs) :
    stringBody quote value faults c =
      if ch == quote then ⟨value.reverse, faults.reverse, true, ⟨c.offset + ch.utf8Size, cs⟩⟩
      else if ch == '\\' then
        match (escape false ⟨c.offset + 1, cs⟩).meaning with
        | .ok chars =>
          stringBody quote (chars.reverse ++ value) faults (escape false ⟨c.offset + 1, cs⟩).stop
        | .error problem =>
          stringBody quote value (⟨problem, c.offset⟩ :: faults)
            (escape false ⟨c.offset + 1, cs⟩).stop
      else if ch == '\n' || ch == '\r' then ⟨value.reverse, faults.reverse, false, c⟩
      else stringBody quote (ch :: value) faults ⟨c.offset + ch.utf8Size, cs⟩ := by
  rw [stringBody]
  split
  · simp_all
  · rename_i x xs hx
    obtain ⟨rfl, rfl⟩ := List.cons.inj (h.symm.trans hx)
    rfl

/-- A string without faults has had none before. -/
theorem stringBody_faults {quote : Char} {value : List Char} {faults : List Fault} {c : Cursor}
    (h : (stringBody quote value faults c).faults = []) : faults = [] := by
  fun_induction stringBody quote value faults c with
  | case1 => exact List.reverse_eq_nil_iff.mp h
  | case2 => exact List.reverse_eq_nil_iff.mp h
  | case3 value faults c ch cs hc hq hb esc chars hm ih => exact ih h
  | case4 value faults c ch cs hc hq hb esc problem hm ih => cases ih h
  | case5 => exact List.reverse_eq_nil_iff.mp h
  | case6 value faults c ch cs hc hq hb hl ih => exact ih h

/-- The closing quote is part of a string. -/
theorem length_stringBody_closed {quote : Char} {value : List Char} {faults : List Fault}
    {c : Cursor} (h : (stringBody quote value faults c).closed = true) :
    (stringBody quote value faults c).stop.rest.length < c.rest.length := by
  cases hc : c.rest with
  | nil =>
    rw [stringBody_nil hc] at h
    exact nomatch h
  | cons ch cs =>
    rw [stringBody_cons hc] at h ⊢
    have hesc := length_escape_le false ⟨c.offset + 1, cs⟩
    have hrest := fun v f => length_stringBody_le quote v f (escape false ⟨c.offset + 1, cs⟩).stop
    have hplain := length_stringBody_le quote (ch :: value) faults ⟨c.offset + ch.utf8Size, cs⟩
    grind

/-- A string that takes nothing away is at the end of a line or of the text. -/
theorem stringBody_of_length_le {quote : Char} {value : List Char} {faults : List Fault}
    {c : Cursor}
    (h : c.rest.length ≤ (stringBody quote value faults c).stop.rest.length) :
    stringBody quote value faults c = ⟨value.reverse, faults.reverse, false, c⟩ ∧
      c.rest.head?.any isDigit = false := by
  cases hc : c.rest with
  | nil => exact ⟨stringBody_nil hc, rfl⟩
  | cons ch cs =>
    have hesc := length_escape_le false ⟨c.offset + 1, cs⟩
    have hrest := fun v f => length_stringBody_le quote v f (escape false ⟨c.offset + 1, cs⟩).stop
    have hplain := length_stringBody_le quote (ch :: value) faults ⟨c.offset + ch.utf8Size, cs⟩
    rw [stringBody_cons hc] at h ⊢
    by_cases hline : ch = '\n' ∨ ch = '\r'
    · rcases hline with rfl | rfl <;> grind [isDigit]
    · grind

/-- Behind an escape in a string the window goes on, or a line ends. -/
theorem digit_behind_escape {quote : Char} {value : List Char} {faults : List Fault} {e : Cursor}
    (hr : (w.widen d).Reaches e) (hs : w.Holds (stringBody quote value faults e).stop)
    (hdigit : w.behind.head?.any isDigit = true) : w.behind.length < e.rest.length := by
  have hle := length_stringBody_le quote value faults e
  refine Nat.lt_of_not_le fun hlen => ?_
  obtain ⟨-, hline⟩ := stringBody_of_length_le (Nat.le_trans hlen hs)
  obtain ⟨front, hf, -⟩ := hr
  have hsame : e.rest = w.behind :=
    ((List.append_inj' hf (Nat.le_antisymm (Nat.le_trans hs hle) hlen)).2).symm
  rw [hsame, hdigit] at hline
  exact nomatch hline

/-- The content of a string that ends in the window. -/
theorem widen_stringBody {quote : Char} {value : List Char} {faults : List Fault}
    (hs : w.Holds (stringBody quote value (faults.map w.fault) (w.widen d)).stop) :
    stringBody quote value (faults.map w.fault) (w.widen d) =
      (stringBody quote value faults d).widen w := by
  induction hn : d.rest.length using Nat.strongRecOn generalizing value faults d with
  | _ n ih =>
    cases hd : d.rest with
    | nil =>
      have hrest : (w.widen d).rest = w.behind := by rw [widen_rest, hd, List.nil_append]
      rw [stringBody_nil hd, (stringBody_of_length_le (by rw [hrest]; exact hs)).1,
        StringBody.widen, List.map_reverse]
    | cons ch cs =>
      have hw : (w.widen d).rest =
        ch :: (cs ++ w.behind) := by rw [widen_rest, hd, List.cons_append]
      rw [stringBody_cons hw, widen_step, widen_step] at hs ⊢
      rw [stringBody_cons hd]
      split
      · simp only [StringBody.widen, List.map_reverse]
      · rename_i hq
        rw [if_neg hq] at hs
        split
        · rename_i hb
          rw [if_pos hb] at hs
          have hreach := reaches_escape false (w.widen ⟨d.offset + 1, cs⟩)
          have hstop : w.Holds (escape false (w.widen ⟨d.offset + 1, cs⟩)).stop ∧
              (w.behind.head?.any isDigit = true → w.behind.length <
                (escape false (w.widen ⟨d.offset + 1, cs⟩)).stop.rest.length) := by
            split at hs
            · exact ⟨hs.of_reaches (reaches_stringBody ..), digit_behind_escape hreach hs⟩
            · exact ⟨hs.of_reaches (reaches_stringBody ..), digit_behind_escape hreach hs⟩
          rw [widen_escape hstop.1 hstop.2] at hs ⊢
          have hlt : (escape false ⟨d.offset + 1, cs⟩).stop.rest.length < n := by
            rw [← hn, hd]
            exact Nat.lt_succ_of_le (length_escape_le false ⟨d.offset + 1, cs⟩)
          cases hm : (escape false ⟨d.offset + 1, cs⟩).meaning with
          | ok chars =>
            simp only [hm] at hs ⊢
            exact ih _ hlt hs rfl
          | error problem =>
            have hfault : ⟨problem, (w.widen d).offset⟩ :: faults.map w.fault =
                (⟨problem, d.offset⟩ :: faults).map w.fault := rfl
            simp only [hm, hfault] at hs ⊢
            exact ih _ hlt hs rfl
        · rename_i hb
          rw [if_neg hb] at hs
          split
          · simp only [StringBody.widen, List.map_reverse]
          · rename_i hline
            rw [if_neg hline] at hs
            exact ih cs.length (by rw [← hn, hd]; exact Nat.lt_succ_self _) hs rfl

/-- The literal that the content of a string makes, with its opening quote at `start`. -/
def StringBody.toLexeme (body : StringBody) (start : Nat) : Lexeme :=
  { kind := .string
    value := String.ofList body.value
    flags := { unterminated := !body.closed }
    faults := if body.closed then body.faults else body.faults ++ [⟨.unterminatedString, start⟩]
    stop := body.stop }

/-- A string is its content between the quotes. -/
theorem stringLiteral_eq (quote : Char) (c : Cursor) :
    stringLiteral quote c = (stringBody quote [] [] c.next).toLexeme c.offset := rfl

/-- A string without faults is closed. -/
theorem StringBody.closed_of_faults {body : StringBody} {start : Nat}
    (h : (body.toLexeme start).faults = []) : body.closed = true ∧ body.faults = [] := by
  unfold toLexeme at h
  cases hc : body.closed with
  | true =>
    simp only [hc, if_true] at h
    exact ⟨rfl, h⟩
  | false => simp [hc] at h

/-- The literal of a moved content is the moved literal. -/
theorem StringBody.widen_toLexeme (body : StringBody) (start : Nat) :
    (body.widen w).toLexeme (start + w.base) = (body.toLexeme start).widen w := by
  unfold toLexeme Lexeme.widen StringBody.widen
  cases hc : body.closed with
  | true => rfl
  | false =>
    simp only [Bool.false_eq_true, if_false, List.map_append]
    rfl

/-- A string that ends in the window. -/
theorem widen_stringLiteral {quote ch : Char} {cs : List Char} (hd : d.rest = ch :: cs)
    (hs : w.Holds (stringLiteral quote (w.widen d)).stop) :
    stringLiteral quote (w.widen d) = (stringLiteral quote d).widen w := by
  have hnone : ([] : List Fault).map w.fault = [] := rfl
  rw [stringLiteral_eq, widen_next hd, ← hnone] at hs ⊢
  rw [widen_stringBody hs]
  exact StringBody.widen_toLexeme _ _

/-- The content of a chunk with its stop as a cursor of the whole text. -/
def TemplateChunk.widen (w : Window) (chunk : TemplateChunk) : TemplateChunk :=
  { chunk with stop := w.widen chunk.stop }

section

variable {cooked raw : List Char} {valid : Bool} {c : Cursor} {cs : List Char}

/-- A template that the end of the text leaves open. -/
theorem templateChunk_nil (h : c.rest = []) :
    templateChunk cooked raw valid c = ⟨cooked.reverse, raw.reverse, valid, .missing, c⟩ := by
  rw [templateChunk]
  split <;> simp_all

/-- A template that is closed. -/
theorem templateChunk_quote (h : c.rest = '\x60' :: cs) :
    templateChunk cooked raw valid c =
      ⟨cooked.reverse, raw.reverse, valid, .closed, ⟨c.offset + 1, cs⟩⟩ := by
  rw [templateChunk]
  split <;> simp_all

/-- A template up to a substitution. -/
theorem templateChunk_substitution (h : c.rest = '$' :: '\x7b' :: cs) :
    templateChunk cooked raw valid c =
      ⟨cooked.reverse, raw.reverse, valid, .substitution, ⟨c.offset + 2, cs⟩⟩ := by
  rw [templateChunk]
  split <;> simp_all

/-- The chunk behind an escape. -/
def behindEscape (cooked raw : List Char) (valid : Bool) (c : Cursor) (esc : Escape) :
    TemplateChunk :=
  match esc.meaning with
  | .ok chars =>
    templateChunk (chars.reverse ++ cooked)
      ((uniformLineEnds (c.charsUntil esc.stop)).reverse ++ raw) valid esc.stop
  | .error _ =>
    templateChunk cooked ((uniformLineEnds (c.charsUntil esc.stop)).reverse ++ raw) false esc.stop

/-- A template with an escape. -/
theorem templateChunk_escape (h : c.rest = '\\' :: cs) :
    templateChunk cooked raw valid c =
      behindEscape cooked raw valid c (escape true ⟨c.offset + 1, cs⟩) := by
  rw [templateChunk]
  split
  case h_4 xs hx =>
    obtain rfl := (List.cons.inj (h.symm.trans hx)).2
    rfl
  all_goals simp_all

/-- A carriage return and a line feed are one line feed. -/
theorem templateChunk_lineEnd (h : c.rest = '\r' :: '\n' :: cs) :
    templateChunk cooked raw valid c =
      templateChunk ('\n' :: cooked) ('\n' :: raw) valid ⟨c.offset + 2, cs⟩ := by
  rw [templateChunk]
  split <;> simp_all

/-- A carriage return alone is a line feed as well. -/
theorem templateChunk_return (h : c.rest = '\r' :: cs) (hn : ∀ ds, cs ≠ '\n' :: ds) :
    templateChunk cooked raw valid c =
      templateChunk ('\n' :: cooked) ('\n' :: raw) valid ⟨c.offset + 1, cs⟩ := by
  rw [templateChunk]
  split
  case h_6 xs _ hx =>
    obtain rfl := (List.cons.inj (h.symm.trans hx)).2
    rfl
  all_goals grind

/-- Any other character stands for itself. -/
theorem templateChunk_char {ch : Char} (h : c.rest = ch :: cs) (hq : ch ≠ '\x60')
    (hs : ∀ ds, ch = '$' → cs ≠ '\x7b' :: ds) (hb : ch ≠ '\\') (hr : ch ≠ '\r') :
    templateChunk cooked raw valid c =
      templateChunk (ch :: cooked) (ch :: raw) valid ⟨c.offset + ch.utf8Size, cs⟩ := by
  rw [templateChunk]
  split <;> grind

end

/-- What ends a chunk is part of it. -/
theorem length_templateChunk_ended {cooked raw : List Char} {valid : Bool} {c : Cursor}
    (h : (templateChunk cooked raw valid c).ending ≠ .missing) :
    (templateChunk cooked raw valid c).stop.rest.length < c.rest.length := by
  fun_induction templateChunk cooked raw valid c with
  | case1 => exact absurd rfl h
  | case2 => simp_all
  | case3 => grind
  | case4 cooked raw valid c cs hc esc spelling chars hm ih =>
    have := length_escape_le true ⟨c.offset + 1, cs⟩
    grind
  | case5 cooked raw valid c cs hc esc spelling problem hm ih =>
    have := length_escape_le true ⟨c.offset + 1, cs⟩
    grind
  | case6 => grind
  | case7 => grind
  | case8 => grind

/-- A chunk that does not come to its end goes on to the end of the text. -/
theorem templateChunk_missing {cooked raw : List Char} {valid : Bool} {c : Cursor}
    (h : (templateChunk cooked raw valid c).ending = .missing) :
    (templateChunk cooked raw valid c).stop.rest = [] := by
  fun_induction templateChunk cooked raw valid c with
  | case1 cooked raw valid c hc => exact hc
  | case2 => cases h
  | case3 => cases h
  | case4 cooked raw valid c cs hc esc spelling chars hm ih => exact ih h
  | case5 cooked raw valid c cs hc esc spelling problem hm ih => exact ih h
  | case6 cooked raw valid c cs hc ih => exact ih h
  | case7 cooked raw valid c cs hn hc ih => exact ih h
  | case8 cooked raw valid c ch cs hq hs hb hl hr hc ih => exact ih h

/-- A chunk that ends in the window goes on there, or the window ends with the text. -/
theorem behind_of_templateChunk {cooked raw : List Char} {valid : Bool} {e : Cursor}
    (hs : w.Holds (templateChunk cooked raw valid e).stop) :
    w.behind.length < e.rest.length ∨ w.behind = [] := by
  by_cases he : (templateChunk cooked raw valid e).ending = .missing
  · right
    rw [Holds, templateChunk_missing he] at hs
    exact List.eq_nil_of_length_eq_zero (Nat.le_zero.mp hs)
  · exact Or.inl (Nat.lt_of_le_of_lt hs (length_templateChunk_ended he))

/-- The rest of a chunk behind an escape that ends in the window. -/
theorem widen_behindEscape {cooked raw : List Char} {valid : Bool} {esc : Escape}
    (hr : d.Reaches esc.stop)
    (ih : ∀ cooked raw valid,
      w.Holds (templateChunk cooked raw valid (w.widen esc.stop)).stop →
      templateChunk cooked raw valid (w.widen esc.stop) =
        (templateChunk cooked raw valid esc.stop).widen w)
    (hs : w.Holds (behindEscape cooked raw valid (w.widen d) ⟨esc.meaning,
    w.widen esc.stop⟩).stop) :
    behindEscape cooked raw valid (w.widen d) ⟨esc.meaning, w.widen esc.stop⟩ =
      (behindEscape cooked raw valid d esc).widen w := by
  unfold behindEscape at hs ⊢
  rw [widen_charsUntil hr] at hs ⊢
  cases hm : esc.meaning with
  | ok chars =>
    simp only [hm] at hs ⊢
    exact ih _ _ _ hs
  | error problem =>
    simp only [hm] at hs ⊢
    exact ih _ _ _ hs

/-- A chunk that ends in the window. -/
theorem widen_templateChunk {cooked raw : List Char} {valid : Bool}
    (hs : w.Holds (templateChunk cooked raw valid (w.widen d)).stop) :
    templateChunk cooked raw valid (w.widen d) = (templateChunk cooked raw valid d).widen w := by
  induction hn : d.rest.length using Nat.strongRecOn generalizing cooked raw valid d with
  | _ n ih =>
    cases hd : d.rest with
    | nil =>
      have hrest : (w.widen d).rest = w.behind := by rw [widen_rest, hd, List.nil_append]
      rcases behind_of_templateChunk hs with hlt | hb
      · rw [hrest] at hlt
        exact absurd hlt (Nat.lt_irrefl _)
      · rw [templateChunk_nil (hrest.trans hb), templateChunk_nil hd]
        rfl
    | cons ch cs =>
      have hw : (w.widen d).rest =
        ch :: (cs ++ w.behind) := by rw [widen_rest, hd, List.cons_append]
      have hlt : cs.length < n := by
        rw [← hn, hd]
        exact Nat.lt_succ_self _
      by_cases hquote : ch = '\x60'
      · subst hquote
        rw [templateChunk_quote hw, templateChunk_quote hd, widen_step]
        rfl
      by_cases hescape : ch = '\\'
      · subst hescape
        rw [templateChunk_escape hw, widen_step] at hs ⊢
        rw [templateChunk_escape hd]
        have hesc : w.behind.length <
            (escape true (w.widen ⟨d.offset + 1, cs⟩)).stop.rest.length ∨ w.behind = [] := by
          unfold behindEscape at hs
          split at hs
          · exact behind_of_templateChunk hs
          · exact behind_of_templateChunk hs
        have hholds : w.Holds (escape true (w.widen ⟨d.offset + 1, cs⟩)).stop := by
          rcases hesc with hlt | hb
          · exact Nat.le_of_lt hlt
          · rw [Holds, hb]
            exact Nat.zero_le _
        have hdigit : w.behind.head?.any isDigit = true → w.behind.length <
            (escape true (w.widen ⟨d.offset + 1, cs⟩)).stop.rest.length := fun h =>
          hesc.resolve_right fun hb => by
            rw [hb] at h
            exact nomatch h
        rw [widen_escape hholds hdigit] at hs ⊢
        refine widen_behindEscape ?_ (fun cooked raw valid hs => ?_) hs
        · exact (reaches_cons hd).trans (reaches_escape true ⟨d.offset + 1, cs⟩)
        · exact ih _ (Nat.lt_of_le_of_lt (length_escape_le true ⟨d.offset + 1, cs⟩) hlt) hs rfl
      by_cases hreturn : ch = '\r'
      · subst hreturn
        by_cases hline : ∃ ds, cs ++ w.behind = '\n' :: ds
        · obtain ⟨ds, hline⟩ := hline
          rw [templateChunk_lineEnd (hw.trans (congrArg _ hline))] at hs ⊢
          rcases List.append_eq_cons_iff.mp hline with ⟨-, hb⟩ | ⟨es, rfl, rfl⟩
          · have hl := length_templateChunk_le ('\n' :: cooked) ('\n' :: raw) valid
              ⟨(w.widen d).offset + 2, ds⟩
            rw [Holds, hb, List.length_cons] at hs
            exact absurd (Nat.le_trans hs hl) (Nat.not_succ_le_self _)
          · rw [widen_step] at hs ⊢
            rw [templateChunk_lineEnd hd]
            exact ih es.length (Nat.lt_trans (Nat.lt_succ_self _) hlt) hs rfl
        · rw [templateChunk_return hw fun ds h => hline ⟨ds, h⟩, widen_step] at hs ⊢
          rw [templateChunk_return hd fun ds h => hline ⟨ds ++ w.behind, by rw [h]; rfl⟩]
          exact ih cs.length hlt hs rfl
      by_cases hsub : ch = '$' ∧ ∃ ds, cs ++ w.behind = '\x7b' :: ds
      · obtain ⟨rfl, ds, hsub⟩ := hsub
        rw [templateChunk_substitution (hw.trans (congrArg _ hsub))] at hs ⊢
        rcases List.append_eq_cons_iff.mp hsub with ⟨-, hb⟩ | ⟨es, rfl, rfl⟩
        · rw [Holds, hb, List.length_cons] at hs
          exact absurd hs (Nat.not_succ_le_self _)
        · rw [widen_step, templateChunk_substitution hd]
          rfl
      · have hwide : ∀ ds, ch = '$' → cs ++ w.behind ≠ '\x7b' :: ds := fun ds h hc =>
          hsub ⟨h, ds, hc⟩
        have hslice : ∀ ds, ch = '$' → cs ≠ '\x7b' :: ds := fun ds h hc =>
          hwide (ds ++ w.behind) h (by rw [hc]; rfl)
        rw [templateChunk_char hw hquote hwide hescape hreturn, widen_step] at hs ⊢
        rw [templateChunk_char hd hquote hslice hescape hreturn]
        exact ih cs.length hlt hs rfl

/-- The token of a moved chunk is the moved token. -/
theorem TemplateChunk.widen_toLexeme (chunk : TemplateChunk) (whole opening : TokenKind)
    (start : Nat) :
    (chunk.widen w).toLexeme whole opening (start + w.base) =
      (chunk.toLexeme whole opening start).widen w := by
  unfold toLexeme Lexeme.widen TemplateChunk.widen
  cases chunk.ending <;> rfl

/-- A template up to its first substitution that ends in the window. -/
theorem widen_templateStart {ch : Char} {cs : List Char} (hd : d.rest = ch :: cs)
    (hs : w.Holds (templateStart (w.widen d)).stop) :
    templateStart (w.widen d) = (templateStart d).widen w := by
  unfold templateStart at hs ⊢
  rw [widen_next hd] at hs ⊢
  rw [widen_templateChunk hs]
  exact TemplateChunk.widen_toLexeme ..

/-- A template from one substitution on that ends in the window. -/
theorem widen_templateContinuation {ch : Char} {cs : List Char} (hd : d.rest = ch :: cs)
    (hs : w.Holds (templateContinuation (w.widen d)).stop) :
    templateContinuation (w.widen d) = (templateContinuation d).widen w := by
  unfold templateContinuation at hs ⊢
  rw [widen_next hd] at hs ⊢
  rw [widen_templateChunk hs]
  exact TemplateChunk.widen_toLexeme ..

section

variable {inClass : Bool} {offset : Nat} {c : Char} {cs : List Char}

/-- In the body of a regular expression a backslash takes the next character with it. -/
theorem regexBody_escape :
    regexBody inClass offset ('\\' :: c :: cs) =
      if isLineBreak c then ⟨offset + 1, c :: cs⟩
      else regexBody inClass (offset + 1 + c.utf8Size) cs := by
  rw [regexBody]

/-- Any other character ends the body, opens or closes a class, or is passed over. -/
theorem regexBody_char (h : ∀ x xs, c = '\\' → cs ≠ x :: xs) :
    regexBody inClass offset (c :: cs) =
      if isLineBreak c || (c == '/' && !inClass) then ⟨offset, c :: cs⟩
      else regexBody (if c == '[' then true else if c == ']' then false else inClass)
        (offset + c.utf8Size) cs := by
  rw [regexBody]
  intro x xs hc hcs
  exact h x xs hc hcs

end

/-- A regular expression goes on behind its first character, or stops before it. -/
theorem length_regexBody_cons (inClass : Bool) (offset : Nat) (c : Char) (cs : List Char) :
    regexBody inClass offset (c :: cs) = ⟨offset, c :: cs⟩ ∧
        (isLineBreak c || (c == '/' && !inClass)) = true ∨
      (regexBody inClass offset (c :: cs)).rest.length ≤ cs.length := by
  by_cases h : c = '\\' ∧ ∃ x xs, cs = x :: xs
  · obtain ⟨rfl, x, xs, rfl⟩ := h
    rw [regexBody_escape]
    split
    · exact Or.inr (Nat.le_refl _)
    · exact Or.inr (Nat.le_succ_of_le (length_regexBody_le ..))
  · rw [regexBody_char fun x xs hc hcs => h ⟨hc, x, xs, hcs⟩]
    split
    · rename_i hstop
      exact Or.inl ⟨rfl, hstop⟩
    · exact Or.inr (length_regexBody_le ..)

/-- The body of a regular expression that ends in the window. -/
theorem widen_regexBody {inClass : Bool} {offset : Nat} {cs : List Char}
    (hs : w.Holds (regexBody inClass (offset + w.base) (cs ++ w.behind))) :
    regexBody inClass (offset + w.base) (cs ++ w.behind) =
      w.widen (regexBody inClass offset cs) := by
  induction hn : cs.length using Nat.strongRecOn generalizing inClass offset cs with
  | _ n ih =>
    cases cs with
    | nil =>
      cases hb : w.behind with
      | nil => simp [regexBody, widen_mk, hb]
      | cons c behind =>
        rw [List.nil_append, hb] at hs
        rcases length_regexBody_cons inClass (offset + w.base) c behind with ⟨heq, -⟩ | hl
        · rw [List.nil_append, heq, regexBody, widen_mk, hb]
          rfl
        · rw [Holds, hb, List.length_cons] at hs
          omega
    | cons c cs =>
      by_cases hb : c = '\\'
      · subst hb
        cases cs with
        | nil =>
          have hslice : regexBody inClass offset ['\\'] = ⟨offset + 1, []⟩ := by
            rw [regexBody_char (by simp), if_neg (by simp [isLineBreak]), regexBody]
            rfl
          cases hbehind : w.behind with
          | nil =>
            rw [List.append_nil, hslice, regexBody_char (by simp), if_neg (by simp [isLineBreak]),
              regexBody, widen_mk, hbehind, Nat.add_right_comm]
            rfl
          | cons x behind =>
            rw [hbehind, List.cons_append, List.nil_append, regexBody_escape] at hs
            rw [List.cons_append, List.nil_append, regexBody_escape, hslice, widen_mk, hbehind]
            split
            · rw [Nat.add_right_comm]
              rfl
            · rename_i hx
              rw [if_neg hx, Holds, hbehind, List.length_cons] at hs
              exact absurd (Nat.le_trans hs (length_regexBody_le ..)) (Nat.not_succ_le_self _)
        | cons x xs =>
          rw [List.cons_append, List.cons_append, regexBody_escape, Nat.add_right_comm offset,
            Nat.add_right_comm (offset + 1)] at hs ⊢
          rw [regexBody_escape]
          split
          · rfl
          · rename_i hx
            rw [if_neg hx] at hs
            exact ih xs.length (by rw [← hn]; simp only [List.length_cons]; omega) hs rfl
      · have hne : ∀ (ds : List Char) x xs, c = '\\' → ds ≠ x :: xs := fun _ _ _ hc => absurd hc hb
        rw [List.cons_append, regexBody_char (hne _), Nat.add_right_comm offset] at hs ⊢
        rw [regexBody_char (hne _)]
        split
        · rfl
        · rename_i hstop
          rw [if_neg hstop] at hs
          exact ih cs.length (by rw [← hn]; exact Nat.lt_succ_self _) hs rfl

/-- The literal that the body of a regular expression makes. -/
def regexFrom (start body : Cursor) (opening : Nat) : Lexeme :=
  match body.rest with
  | '/' :: _ =>
    { kind := .regex
      value := start.textUntil body
      raw := String.ofList (body.next.charsUntil (body.next.skipWhile isNamePart))
      faults :=
        if validRegexFlags (body.next.charsUntil (body.next.skipWhile isNamePart)) then []
        else [⟨.regexFlags, body.next.offset⟩]
      stop := body.next.skipWhile isNamePart }
  | _ =>
    { kind := .regex
      value := start.textUntil body
      flags := { unterminated := true }
      faults := [⟨.unterminatedRegex, opening⟩]
      stop := body }

/-- A regular expression is read from its body on. -/
theorem regexLiteral_eq (c : Cursor) :
    regexLiteral c =
      regexFrom c.next (regexBody false c.next.offset c.next.rest) c.offset := rfl

/-- A regular expression without faults is closed by a slash. -/
theorem regexFrom_closed {start body : Cursor} {opening : Nat}
    (h : (regexFrom start body opening).faults = []) : ∃ cs, body.rest = '/' :: cs := by
  unfold regexFrom at h
  split at h
  · rename_i cs hc
    exact ⟨cs, hc⟩
  · exact nomatch h

/-- A body that ends at a slash has its flags behind it. -/
theorem regexFrom_slash {start body : Cursor} {opening : Nat} {cs : List Char}
    (h : body.rest = '/' :: cs) :
    regexFrom start body opening =
      { kind := .regex
        value := start.textUntil body
        raw := String.ofList (body.next.charsUntil (body.next.skipWhile isNamePart))
        faults :=
          if validRegexFlags (body.next.charsUntil (body.next.skipWhile isNamePart)) then []
          else [⟨.regexFlags, body.next.offset⟩]
        stop := body.next.skipWhile isNamePart } := by
  simp only [regexFrom, h]

/-- A body that does not end at a slash is not closed. -/
theorem regexFrom_open {start body : Cursor} {opening : Nat}
    (h : ∀ cs, body.rest ≠ '/' :: cs) :
    regexFrom start body opening =
      { kind := .regex
        value := start.textUntil body
        flags := { unterminated := true }
        faults := [⟨.unterminatedRegex, opening⟩]
        stop := body } := by
  unfold regexFrom
  split
  · rename_i cs hc
    exact absurd hc (h cs)
  · rfl

/-- The literal ends behind its body. -/
theorem reaches_regexFrom (start body : Cursor) (opening : Nat) :
    body.Reaches (regexFrom start body opening).stop := by
  unfold regexFrom
  split
  · exact (reaches_next body).trans (reaches_skipWhile isNamePart _)
  · exact .refl body

/-- A regular expression that ends in the window. -/
theorem widen_regexLiteral {ch : Char} {cs : List Char} (hd : d.rest = ch :: cs)
    (hs : w.Holds (regexLiteral (w.widen d)).stop) :
    regexLiteral (w.widen d) = (regexLiteral d).widen w := by
  rw [regexLiteral_eq, widen_next hd, widen_offset, widen_rest] at hs ⊢
  have hwide := widen_regexBody (hs.of_reaches (reaches_regexFrom ..))
  rw [hwide] at hs ⊢
  rw [regexLiteral_eq]
  have hreach : d.next.Reaches (regexBody false d.next.offset d.next.rest) :=
    reaches_regexBody false d.next.offset d.next.rest
  generalize regexBody false d.next.offset d.next.rest = body at hs hreach ⊢
  by_cases hslash : ∃ ds, (w.widen body).rest = '/' :: ds
  · obtain ⟨ds, hbody⟩ := hslash
    rw [regexFrom_slash hbody] at hs ⊢
    cases hr : body.rest with
    | nil =>
      refine absurd (hs.of_reaches (reaches_skipWhile isNamePart _)) (not_holds hr hbody ?_)
      exact Nat.le_of_eq (by rw [next_eq hbody])
    | cons x xs =>
      have hx := hbody
      rw [widen_rest, hr, List.cons_append] at hx
      obtain ⟨rfl, -⟩ := List.cons.inj hx
      rw [widen_next hr] at hs ⊢
      have hskip := widen_skipWhile hs
      rw [hskip, widen_charsUntil (reaches_skipWhile isNamePart body.next), regexFrom_slash hr,
        widen_textUntil hreach, Lexeme.widen]
      split <;> rfl
  · have hopen : ∀ ds, body.rest ≠ '/' :: ds := fun ds hr =>
      hslash ⟨ds ++ w.behind, by rw [widen_rest, hr, List.cons_append]⟩
    rw [regexFrom_open fun ds hr => hslash ⟨ds, hr⟩, regexFrom_open hopen, widen_textUntil hreach]
    rfl

section

variable {lineBreak : Bool} {c : Cursor} {cs : List Char}

/-- The gap at the end of the text. -/
theorem trivia_nil (h : c.rest = []) : trivia lineBreak c = ⟨lineBreak, [], c⟩ := by
  rw [trivia]
  split <;> simp_all

/-- A gap with a line comment. -/
theorem trivia_line (h : c.rest = '/' :: '/' :: cs) :
    trivia lineBreak c = trivia lineBreak
    (Cursor.skipWhile (!isLineBreak ·) ⟨c.offset + 2, cs⟩) := by
  rw [trivia]
  split <;> simp_all

/-- A gap with a block comment, closed or not. -/
theorem trivia_block (h : c.rest = '/' :: '*' :: cs) :
    trivia lineBreak c =
      if (blockComment false (c.offset + 2) cs).closed then
        trivia (lineBreak || (blockComment false (c.offset + 2) cs).lineBreak)
          (blockComment false (c.offset + 2) cs).stop
      else
        ⟨lineBreak || (blockComment false (c.offset + 2) cs).lineBreak,
          [⟨.unterminatedComment, c.offset⟩], (blockComment false (c.offset + 2) cs).stop⟩ := by
  rw [trivia]
  split <;> simp_all

/-- A gap at any other character. -/
theorem trivia_char {ch : Char} (h : c.rest = ch :: cs)
    (hc : ∀ x ds, ch = '/' → cs = x :: ds → x ≠ '/' ∧ x ≠ '*') :
    trivia lineBreak c =
      if isLineBreak ch then trivia true ⟨c.offset + ch.utf8Size, cs⟩
      else if isBlank ch then trivia lineBreak ⟨c.offset + ch.utf8Size, cs⟩
      else ⟨lineBreak, [], c⟩ := by
  rw [trivia]
  split
  · simp_all
  · rename_i ds hd
    obtain ⟨rfl, hds⟩ := List.cons.inj (h.symm.trans hd)
    exact absurd rfl (hc _ _ rfl hds).1
  · rename_i ds hd
    obtain ⟨rfl, hds⟩ := List.cons.inj (h.symm.trans hd)
    exact absurd rfl (hc _ _ rfl hds).2
  · rename_i x ds _ _ hd
    obtain ⟨rfl, rfl⟩ := List.cons.inj (h.symm.trans hd)
    rfl

/-- A blank belongs to the gap before a token. -/
theorem trivia_blank (h : c.rest = ' ' :: cs) :
    trivia lineBreak c = trivia lineBreak ⟨c.offset + 1, cs⟩ := by
  rw [trivia_char h (by simp), if_neg (by decide), if_pos (by decide)]
  rfl

/-- One more character of a block comment. -/
theorem blockComment_cons {ch : Char} {offset : Nat}
    (h : ∀ ds, ch = '*' → cs ≠ '/' :: ds) :
    blockComment lineBreak offset (ch :: cs) =
      blockComment (lineBreak || isLineBreak ch) (offset + ch.utf8Size) cs := by
  rw [blockComment]
  intro ds hch hcs
  exact h ds hch hcs

/-- The closing of a comment is part of it. -/
theorem length_blockComment_closed {offset : Nat}
    (h : (blockComment lineBreak offset cs).closed = true) :
    (blockComment lineBreak offset cs).stop.rest.length < cs.length := by
  fun_induction blockComment lineBreak offset cs with
  | case1 => cases h
  | case2 => simp only [List.length_cons]; omega
  | case3 lineBreak offset ch cs _ ih => exact Nat.lt_succ_of_lt (ih h)

end

/-- A block comment that is closed in the window. -/
theorem widen_blockComment {lineBreak : Bool} {offset : Nat} {cs : List Char}
    (hc : (blockComment lineBreak (offset + w.base) (cs ++ w.behind)).closed = true)
    (hs : w.Holds (blockComment lineBreak (offset + w.base) (cs ++ w.behind)).stop) :
    blockComment lineBreak (offset + w.base) (cs ++ w.behind) =
      { blockComment lineBreak offset cs with
        stop := w.widen (blockComment lineBreak offset cs).stop } := by
  induction cs generalizing lineBreak offset with
  | nil => exact absurd (length_blockComment_closed hc) (Nat.not_lt_of_le hs)
  | cons ch cs ih =>
    by_cases hend : ch = '*' ∧ ∃ ds, cs ++ w.behind = '/' :: ds
    · obtain ⟨rfl, ds, hend⟩ := hend
      rcases List.append_eq_cons_iff.mp hend with ⟨rfl, hb⟩ | ⟨es, rfl, rfl⟩
      · rw [hb, List.cons_append, List.nil_append, blockComment, Holds, hb] at hs
        exact absurd hs (Nat.not_succ_le_self _)
      · simp only [List.cons_append, blockComment, widen_mk, Nat.add_right_comm offset]
    · have hwide : ∀ ds, ch = '*' → cs ++ w.behind ≠ '/' :: ds := fun ds h hd => hend ⟨h, ds, hd⟩
      have hslice : ∀ ds, ch = '*' → cs ≠ '/' :: ds := fun ds h hd =>
        hwide (ds ++ w.behind) h (by rw [hd]; rfl)
      rw [List.cons_append, blockComment_cons hwide, Nat.add_right_comm offset] at hc hs ⊢
      rw [blockComment_cons hslice]
      exact ih hc hs

/-- A gap with its stop as a cursor of the whole text. -/
def Trivia.widen (w : Window) (g : Trivia) : Trivia := { g with stop := w.widen g.stop }

/-- A gap that takes nothing away is empty. -/
theorem trivia_of_length_le {lineBreak : Bool} {c : Cursor}
    (h : c.rest.length ≤ (trivia lineBreak c).stop.rest.length) :
    trivia lineBreak c = ⟨lineBreak, [], c⟩ := by
  have hshort : ∀ {b : Bool} {d : Cursor}, d.rest.length < c.rest.length →
      trivia lineBreak c ≠ trivia b d := fun {b d} hd he =>
    absurd (Nat.le_trans (he ▸ h) (length_trivia_le b d)) (Nat.not_le_of_lt hd)
  cases hc : c.rest with
  | nil => exact trivia_nil hc
  | cons ch cs =>
    by_cases hline : ch = '/' ∧ ∃ ds, cs = '/' :: ds
    · obtain ⟨rfl, ds, rfl⟩ := hline
      refine absurd (trivia_line hc) (hshort ?_)
      have hl := length_skipWhile_le (!isLineBreak ·) ⟨c.offset + 2, ds⟩
      rw [hc, List.length_cons, List.length_cons]
      exact Nat.lt_succ_of_le (Nat.le_succ_of_le hl)
    by_cases hblock : ch = '/' ∧ ∃ ds, cs = '*' :: ds
    · obtain ⟨rfl, ds, rfl⟩ := hblock
      have hl := length_blockComment_le false (c.offset + 2) ds
      have hlt : (blockComment false (c.offset + 2) ds).stop.rest.length < c.rest.length := by
        rw [hc, List.length_cons, List.length_cons]
        omega
      have hgap : trivia lineBreak c = _ := trivia_block hc
      split at hgap
      · exact absurd hgap (hshort hlt)
      · rw [hgap] at h
        exact absurd h (Nat.not_le_of_lt hlt)
    · have hgap : trivia lineBreak c = _ := trivia_char hc fun x ds hch hx =>
        ⟨fun hs => hline ⟨hch, ds, by rw [hx, hs]⟩, fun hs => hblock ⟨hch, ds, by rw [hx, hs]⟩⟩
      have hlt : cs.length < c.rest.length := by
        rw [hc]
        exact Nat.lt_succ_self _
      split at hgap
      · exact absurd hgap (hshort hlt)
      · split at hgap
        · exact absurd hgap (hshort hlt)
        · exact hgap

/-- A gap that ends in the window is one of the stretch alone. -/
theorem widen_trivia {lineBreak : Bool} (hf : (trivia lineBreak (w.widen d)).faults = [])
    (hs : w.Holds (trivia lineBreak (w.widen d)).stop) :
    trivia lineBreak (w.widen d) = (trivia lineBreak d).widen w := by
  induction hn : d.rest.length using Nat.strongRecOn generalizing lineBreak d with
  | _ n ih =>
    cases hd : d.rest with
    | nil =>
      rw [trivia_nil hd]
      refine trivia_of_length_le ?_
      rw [widen_rest, hd, List.nil_append]
      exact hs
    | cons ch cs =>
      have hw : (w.widen d).rest =
        ch :: (cs ++ w.behind) := by rw [widen_rest, hd, List.cons_append]
      have hlt : cs.length < n := by
        rw [← hn, hd]
        exact Nat.lt_succ_self _
      by_cases hline : ch = '/' ∧ ∃ ds, cs ++ w.behind = '/' :: ds
      · obtain ⟨rfl, ds, hline⟩ := hline
        rw [trivia_line (hw.trans (congrArg _ hline))] at hf hs ⊢
        have hskip := Nat.le_trans hs (length_trivia_le lineBreak _)
        rcases List.append_eq_cons_iff.mp hline with ⟨-, hb⟩ | ⟨es, rfl, rfl⟩
        · have hl := length_skipWhile_le (!isLineBreak ·) ⟨(w.widen d).offset + 2, ds⟩
          rw [hb, List.length_cons] at hskip
          exact absurd (Nat.le_trans hskip hl) (Nat.not_succ_le_self _)
        · rw [widen_step] at hf hs hskip ⊢
          rw [widen_skipWhile hskip] at hf hs ⊢
          rw [trivia_line hd]
          refine ih _ ?_ hf hs rfl
          have hl := length_skipWhile_le (!isLineBreak ·) ⟨d.offset + 2, es⟩
          exact Nat.lt_of_le_of_lt hl (Nat.lt_trans (Nat.lt_succ_self _) hlt)
      by_cases hblock : ch = '/' ∧ ∃ ds, cs ++ w.behind = '*' :: ds
      · obtain ⟨rfl, ds, hblock⟩ := hblock
        rw [trivia_block (hw.trans (congrArg _ hblock))] at hf hs ⊢
        split at hf
        · rename_i hclosed
          rw [if_pos hclosed] at hs ⊢
          have hcomment := Nat.le_trans hs (length_trivia_le _ _)
          rcases List.append_eq_cons_iff.mp hblock with ⟨-, hb⟩ | ⟨es, rfl, rfl⟩
          · have hl := length_blockComment_le false ((w.widen d).offset + 2) ds
            rw [hb, List.length_cons] at hcomment
            exact absurd (Nat.le_trans hcomment hl) (Nat.not_succ_le_self _)
          · rw [widen_offset, Nat.add_right_comm] at hclosed hf hs hcomment ⊢
            have hwide := widen_blockComment hclosed hcomment
            rw [hwide] at hclosed hf hs ⊢
            rw [trivia_block hd, if_pos hclosed]
            refine ih _ ?_ hf hs rfl
            have hl := length_blockComment_le false (d.offset + 2) es
            exact Nat.lt_of_le_of_lt hl (Nat.lt_trans (Nat.lt_succ_self _) hlt)
        · exact nomatch hf
      have hwide : ∀ x ds, ch = '/' → cs ++ w.behind = x :: ds → x ≠ '/' ∧ x ≠ '*' := by
        intro x ds hch hx
        exact ⟨fun h => hline ⟨hch, ds, by rw [hx, h]⟩, fun h => hblock ⟨hch, ds, by rw [hx, h]⟩⟩
      have hslice : ∀ x ds, ch = '/' → cs = x :: ds → x ≠ '/' ∧ x ≠ '*' := fun x ds hch hx =>
        hwide x (ds ++ w.behind) hch (by rw [hx]; rfl)
      rw [trivia_char hw hwide, widen_step] at hf hs ⊢
      rw [trivia_char hd hslice]
      split
      · rename_i hl
        rw [if_pos hl] at hf hs
        exact ih cs.length hlt hf hs rfl
      · rename_i hl
        rw [if_neg hl] at hf hs
        split
        · rename_i hb
          rw [if_pos hb] at hf hs
          exact ih cs.length hlt hf hs rfl
        · rfl

/-- A punctuator of a text that lies in its front is one of the front. -/
theorem startOf_of_append {cs : List Char} (ds : List Char) {p : Punctuator}
    (h : Punctuator.startOf? (cs ++ ds) = some p) (hl : p.text.toList.length ≤ cs.length) :
    Punctuator.startOf? cs = some p := by
  unfold Punctuator.startOf? at h ⊢
  rw [List.find?_eq_some_iff_append] at h ⊢
  obtain ⟨hp, as, bs, heq, hnone⟩ := h
  refine ⟨?_, as, bs, heq, fun q hq => ?_⟩
  · rw [List.isPrefixOf_iff_prefix] at hp ⊢
    exact List.prefix_of_prefix_length_le hp (List.prefix_append cs ds) hl
  · have hq := hnone q hq
    rw [Bool.not_eq_true', Bool.eq_false_iff] at hq ⊢
    intro hpre
    rw [List.isPrefixOf_iff_prefix] at hpre
    exact hq (List.isPrefixOf_iff_prefix.mpr (hpre.trans (List.prefix_append cs ds)))

/-- Where no mark starts, none starts with less text behind. -/
theorem startOf_none_of_append {cs ds : List Char} (h : Punctuator.startOf? (cs ++ ds) = none) :
    Punctuator.startOf? cs = none := by
  unfold Punctuator.startOf? at h ⊢
  rw [List.find?_eq_none] at h ⊢
  intro p hp hpre
  rw [List.isPrefixOf_iff_prefix] at hpre
  exact h p hp (List.isPrefixOf_iff_prefix.mpr (hpre.trans (List.prefix_append cs ds)))

/-- A mark is no longer than the text it stands in. -/
theorem length_of_startOf {cs : List Char} {p : Punctuator}
    (h : Punctuator.startOf? cs = some p) : p.text.toList.length ≤ cs.length := by
  unfold Punctuator.startOf? at h
  have hp := List.find?_some h
  exact (List.isPrefixOf_iff_prefix.mp hp).length_le

/-- A punctuator that ends in the window lies in it. -/
theorem widen_startOf {ch : Char} {cs : List Char} {p : Punctuator} (hd : d.rest = ch :: cs)
    (h : Punctuator.startOf? (ch :: (cs ++ w.behind)) = some p)
    (hs : w.Holds ((w.widen d).next.advance (p.text.length - 1))) :
    Punctuator.startOf? (ch :: cs) = some p ∧
      (w.widen d).next.advance (p.text.length - 1) =
        w.widen (d.next.advance (p.text.length - 1)) := by
  have hspelled := length_of_startOf h
  have hnext : d.next.rest.length = cs.length := by rw [next_eq hd]
  rw [widen_next hd] at hs ⊢
  rw [Holds, length_advance, widen_rest, List.length_append, hnext] at hs
  rw [List.length_cons, List.length_append, String.length_toList] at hspelled
  have hle : p.text.length - 1 ≤ cs.length := by omega
  refine ⟨startOf_of_append w.behind h ?_, widen_advance (by rw [hnext]; exact hle)⟩
  rw [String.length_toList, List.length_cons]
  omega

/-- A digit behind a dot is part of a number. -/
theorem length_numberLiteral_dot {c : Cursor} {ch : Char} {cs : List Char}
    (hc : c.rest = '.' :: ch :: cs) (hd : isDigit ch = true) :
    (numberLiteral c).stop.rest.length ≤ cs.length := by
  have hp : (c.peek? == some '.') = true := by
    rw [Cursor.peek?, hc]
    rfl
  rw [numberLiteral_plain (by simp [hc]), decimalNumber_dot hp]
  have hlen : (NumberScan.fraction { stop := c }).stop.rest.length ≤ cs.length :=
    NumberScan.length_fraction_digit hc (by rw [hd]; rfl)
  exact Nat.le_trans (NumberScan.length_finish_le _ _ _)
    (Nat.le_trans (NumberScan.length_exponent_le _) hlen)

/-- A number of the whole text that starts with a dot has its first digit in the window. -/
theorem startsNumber_of_widen {ch : Char} {cs : List Char} (hd : d.rest = ch :: cs)
    (h : (isDigit ch || (ch == '.' && (cs ++ w.behind).head?.any isDigit)) = true)
    (hs : w.Holds (numberLiteral (w.widen d)).stop) :
    (isDigit ch || (ch == '.' && cs.head?.any isDigit)) = true := by
  cases cs with
  | cons x xs => exact h
  | nil =>
    have hw : (w.widen d).rest = ch :: w.behind := by rw [widen_rest, hd, List.cons_append]; rfl
    by_cases hdigit : isDigit ch = true
    · rw [hdigit]
      rfl
    cases hb : w.behind with
    | nil => simpa [hb] using h
    | cons x xs =>
      simp only [hb, List.nil_append, List.head?_cons, Option.any_some, Bool.or_eq_true, hdigit,
        Bool.and_eq_true, beq_iff_eq, Bool.false_eq_true, false_or] at h
      rw [h.1, hb] at hw
      have hl := length_numberLiteral_dot hw h.2
      rw [Holds, hb, List.length_cons] at hs
      exact absurd (Nat.le_trans hs hl) (Nat.not_succ_le_self _)

/-- A dot with a digit behind a question mark, which then stands alone. -/
def startsFraction (cs : List Char) : Bool := cs.head? == some '.' && cs.tail.head?.any isDigit

/-- More text behind does not undo a fraction. -/
theorem startsFraction_append {cs : List Char} (ds : List Char) (h : startsFraction cs = true) :
    startsFraction (cs ++ ds) = true := by
  cases cs with
  | nil => exact nomatch h
  | cons x xs =>
    cases xs with
    | nil => simp [startsFraction] at h
    | cons y ys => exact h

/-- A dot with a digit begins in the window if it is there at all, unless the window ends
between them. -/
theorem startsFraction_of_append {cs ds : List Char} (h : startsFraction (cs ++ ds) = true)
    (hcut : cs = ['.'] → ds.head?.any isDigit = false) : cs = [] ∨ startsFraction cs = true := by
  cases cs with
  | nil => exact Or.inl rfl
  | cons x xs =>
    right
    cases xs with
    | cons y ys => exact h
    | nil =>
      simp only [startsFraction, List.cons_append, List.nil_append, List.head?_cons,
        List.tail_cons, Bool.and_eq_true, beq_iff_eq, Option.some.injEq] at h
      obtain ⟨rfl, hdigit⟩ := h
      exact absurd hdigit (by rw [hcut rfl]; exact Bool.false_ne_true)

/-- A token that ends in the window is one of the stretch alone, unless the stretch ends in `?.` and
a digit follows. -/
theorem widen_lexeme {regexAllowed : Bool} {l : Lexeme}
    (h : lexeme? regexAllowed (w.widen d) = some l) (hs : w.Holds l.stop)
    (hcut : d.rest = ['?', '.'] → w.behind.head?.any isDigit = false) :
    ∃ l', lexeme? regexAllowed d = some l' ∧ l = l'.widen w := by
  cases hd : d.rest with
  | nil =>
    have hl := length_lexeme_lt h
    rw [widen_rest, hd, List.nil_append] at hl
    exact absurd hl (Nat.not_lt_of_le hs)
  | cons ch cs =>
    have hw : (w.widen d).rest = ch :: (cs ++ w.behind) := by rw [widen_rest, hd, List.cons_append]
    simp only [lexeme?, hw, Option.some.injEq, Bool.and_assoc] at h
    simp only [lexeme?, hd, Option.some.injEq, exists_eq_left', Bool.and_assoc]
    subst h
    by_cases hquote : (ch == '"' || ch == '\'') = true
    · rw [if_pos hquote] at hs ⊢
      rw [if_pos hquote]
      exact widen_stringLiteral hd hs
    rw [if_neg hquote] at hs ⊢
    rw [if_neg hquote]
    by_cases htemplate : (ch == '\x60') = true
    · rw [if_pos htemplate] at hs ⊢
      rw [if_pos htemplate]
      exact widen_templateStart hd hs
    rw [if_neg htemplate] at hs ⊢
    rw [if_neg htemplate]
    by_cases hnumber : (isDigit ch || (ch == '.' && (cs ++ w.behind).head?.any isDigit)) = true
    · rw [if_pos hnumber] at hs ⊢
      rw [if_pos (startsNumber_of_widen hd hnumber hs)]
      exact widen_numberLiteral hd hs
    have hslice : ¬ (isDigit ch || (ch == '.' && cs.head?.any isDigit)) = true := by
      intro h
      refine hnumber ?_
      cases cs with
      | nil => simp_all
      | cons x xs => exact h
    rw [if_neg hnumber] at hs ⊢
    rw [if_neg hslice]
    by_cases hprivate : (ch == '#') = true
    · rw [if_pos hprivate] at hs ⊢
      rw [if_pos hprivate]
      exact widen_privateWord hd hs
    rw [if_neg hprivate] at hs ⊢
    rw [if_neg hprivate]
    by_cases hname : (isNameStart ch || ch == '\\') = true
    · rw [if_pos hname] at hs ⊢
      rw [if_pos hname]
      exact widen_word hs
    rw [if_neg hname] at hs ⊢
    rw [if_neg hname]
    by_cases hregex : (ch == '/' && regexAllowed) = true
    · rw [if_pos hregex] at hs ⊢
      rw [if_pos hregex]
      exact widen_regexLiteral hd hs
    rw [if_neg hregex] at hs ⊢
    rw [if_neg hregex]
    by_cases hquestion : (ch == '?' && startsFraction (cs ++ w.behind)) = true
    · obtain ⟨hch, hfraction⟩ := Bool.and_eq_true_iff.mp hquestion
      obtain rfl := eq_of_beq hch
      rw [startsFraction] at hquestion
      rw [if_pos hquestion, widen_next hd]
      rcases startsFraction_of_append hfraction fun h => hcut (by rw [hd, h]) with rfl | hslice
      · rw [show Punctuator.startOf? ['?'] = some .question by decide]
        rfl
      · rw [startsFraction] at hslice
        rw [if_pos (by rw [hslice]; rfl)]
        rfl
    have hslice : ¬ (ch == '?' && startsFraction cs) = true := by
      rw [Bool.and_eq_true] at hquestion ⊢
      exact fun h => hquestion ⟨h.1, startsFraction_append _ h.2⟩
    rw [startsFraction] at hquestion hslice
    rw [if_neg hquestion] at hs ⊢
    rw [if_neg hslice]
    cases hmark : Punctuator.startOf? (ch :: (cs ++ w.behind)) with
    | none =>
      rw [startOf_none_of_append hmark, widen_next hd]
      rfl
    | some p =>
      rw [hmark] at hs
      obtain ⟨hin, hstop⟩ := widen_startOf hd hmark hs
      rw [hin]
      simp only [Lexeme.widen, hstop, List.map_nil]

end

end Lexer

end EcmaScript
