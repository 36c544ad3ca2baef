import EcmaScript.Proofs.Slice.Escape

/-!
# Words, numbers and quoted text in a window

The readers of the longer tokens. A token without faults that ends in the window is the same
token of the stretch alone.
-/

namespace EcmaScript

namespace Lexer

open Window Character Cursor

/-- The lexeme with its stop and its faults as those of the whole text. -/
def Lexeme.widen (w : Window) (l : Lexeme) : Lexeme :=
  { l with faults := l.faults.map w.fault, stop := w.widen l.stop }

section

variable {w : Window} {d : Cursor}

/-- A name that the text ends. -/
theorem escapedName_nil [NameClasses] {name : List Char} {c : Cursor} (h : c.rest = []) :
    escapedName name c = (.ok name.reverse, c) := by
  rw [escapedName]
  split <;> simp_all

/-- A name goes on with an escape of a character that may stand in it. -/
theorem escapedName_unicode [NameClasses] {name : List Char} {c : Cursor} {cs : List Char}
    (h : c.rest = '\\' :: 'u' :: cs) :
    escapedName name c =
      match codePoint ⟨c.offset + 2, cs⟩ with
      | (.ok code, stop) =>
        if code.isValidChar && continuesName name (Char.ofNat code) then
          escapedName (Char.ofNat code :: name) stop
        else (.error ⟨.unicodeEscape, c.offset⟩, stop)
      | (.error problem, stop) => (.error ⟨problem, c.offset⟩, stop) := by
  rw [escapedName]
  split <;> simp_all
  split <;> simp_all

/-- A backslash that starts no escape of a character. -/
theorem escapedName_backslash {name : List Char} {c : Cursor} {cs : List Char}
    (h : c.rest = '\\' :: cs) (hu : ∀ ds, cs ≠ 'u' :: ds) :
    escapedName name c = (.error ⟨.unicodeEscape, c.offset⟩, ⟨c.offset + 1, cs⟩) := by
  rw [escapedName]
  split
  · simp_all
  · rename_i ds hc
    exact absurd (List.cons.inj (h.symm.trans hc)).2 (hu ds)
  · simp_all
  · simp_all

/-- A name goes on with a character that may stand in it, and ends in front of another. -/
theorem escapedName_char [NameClasses] {name : List Char} {c : Cursor} {ch : Char} {cs : List Char}
    (h : c.rest = ch :: cs) (hb : ch ≠ '\\') :
    escapedName name c =
      if isNamePart ch then escapedName (ch :: name) ⟨c.offset + ch.utf8Size, cs⟩
      else (.ok name.reverse, c) := by
  rw [escapedName]
  split
  · simp_all
  · rename_i ds hc
    exact absurd (List.cons.inj (h.symm.trans hc)).1 hb
  · rename_i ds _ hc
    exact absurd (List.cons.inj (h.symm.trans hc)).1 hb
  · simp_all

/-- A name that does not end in front of the next character takes that character. -/
theorem length_escapedName_cons (name : List Char) {c : Cursor} {ch : Char} {cs : List Char}
    (hc : c.rest = ch :: cs) :
    (escapedName name c = (.ok name.reverse, c) ∧ isNamePart ch = false ∧ ch ≠ '\\') ∨
      (escapedName name c).2.rest.length ≤ cs.length := by
  by_cases hb : ch = '\\'
  · subst hb
    right
    by_cases hu : ∃ ds, cs = 'u' :: ds
    · obtain ⟨ds, rfl⟩ := hu
      rw [escapedName_unicode hc, List.length_cons]
      have hp := length_codePoint_le ⟨c.offset + 2, ds⟩
      have hl := length_escapedName_le
      grind
    · exact Nat.le_of_eq (congrArg (fun r => r.2.rest.length)
        (escapedName_backslash hc fun ds hd => hu ⟨ds, hd⟩))
  · rw [escapedName_char hc hb]
    split
    · exact Or.inr (length_escapedName_le (ch :: name) ⟨c.offset + ch.utf8Size, cs⟩)
    · rename_i hn
      exact Or.inl ⟨rfl, by simpa using hn, hb⟩

/-- The rest of a name with escapes that ends in the window. -/
theorem widen_escapedName {name : List Char} (hs : w.Holds (escapedName name (w.widen d)).2) :
    escapedName name (w.widen d) =
      ((escapedName name d).1.mapError w.fault, w.widen (escapedName name d).2) := by
  induction hn : d.rest.length using Nat.strongRecOn generalizing name d with
  | _ n ih =>
    cases hd : d.rest with
    | nil =>
      rw [escapedName_nil hd]
      cases hb : w.behind with
      | nil => exact escapedName_nil (by rw [widen_rest, hd, hb]; rfl)
      | cons ch behind =>
        have hw : (w.widen d).rest = ch :: behind := by rw [widen_rest, hd, hb]; rfl
        rcases length_escapedName_cons name hw with ⟨heq, -⟩ | hl
        · exact heq
        · exact absurd hs (not_holds hd hw hl)
    | cons ch cs =>
      have hw : (w.widen d).rest =
        ch :: (cs ++ w.behind) := by rw [widen_rest, hd, List.cons_append]
      by_cases hb : ch = '\\'
      · subst hb
        by_cases hu : ∃ ds, cs ++ w.behind = 'u' :: ds
        · obtain ⟨ds, hu⟩ := hu
          rw [escapedName_unicode (hw.trans (congrArg _ hu))] at hs ⊢
          have hp : w.Holds (codePoint ⟨(w.widen d).offset + 2, ds⟩).2 := by
            refine hs.of_reaches ?_
            split
            · rename_i code place hp
              rw [hp]
              split
              · exact reaches_escapedName (Char.ofNat code :: name) place
              · exact .refl _
            · rename_i problem place hp
              rw [hp]
              exact .refl _
          rcases List.append_eq_cons_iff.mp hu with ⟨-, hb⟩ | ⟨es, rfl, rfl⟩
          · have hl := length_codePoint_le ⟨(w.widen d).offset + 2, ds⟩
            rw [Holds, hb, List.length_cons] at hp
            simp only at hl
            omega
          · rw [widen_offset, Nat.add_right_comm, ← widen_mk] at hs hp ⊢
            rw [widen_codePoint hp] at hs ⊢
            rw [escapedName_unicode hd]
            have hl := length_codePoint_le ⟨d.offset + 2, es⟩
            generalize codePoint ⟨d.offset + 2, es⟩ = read at hs hl ⊢
            obtain ⟨r, place⟩ := read
            cases r with
            | error problem => rfl
            | ok code =>
              simp only at hs hl ⊢
              split
              · rename_i hv
                rw [if_pos hv] at hs
                refine ih place.rest.length ?_ hs rfl
                rw [← hn, hd, List.length_cons, List.length_cons]
                omega
              · rfl
        · rw [escapedName_backslash hw fun ds hd => hu ⟨ds, hd⟩,
            escapedName_backslash hd fun ds hd => hu ⟨ds ++ w.behind, by rw [hd]; rfl⟩]
          rw [widen_offset, Nat.add_right_comm, ← widen_mk]
          rfl
      · rw [escapedName_char hw hb, widen_offset, Nat.add_right_comm, ← widen_mk] at hs ⊢
        rw [escapedName_char hd hb]
        split
        · rename_i hp
          rw [if_pos hp] at hs
          exact ih cs.length (by rw [← hn, hd]; exact Nat.lt_succ_self _) hs rfl
        · rfl

/-- The word that a name with escapes is. -/
def escapedWord : Except Fault (List Char) × Cursor → Lexeme
  | (.ok name, stop) =>
    { kind := escapedWordKind (String.ofList name), value := String.ofList name
      flags := { escaped := true }, stop }
  | (.error fault, stop) => { kind := .illegal, faults := [fault], stop }

/-- A word with an escape. -/
theorem word_escaped [NameClasses] {c : Cursor} {cs : List Char}
    (h : (c.skipWhile isNamePart).rest = '\\' :: cs) :
    word c = escapedWord
      (escapedName (c.charsUntil (c.skipWhile isNamePart)).reverse (c.skipWhile isNamePart)) := by
  simp only [word, h]
  rfl

/-- A word without an escape. -/
theorem word_plain [NameClasses] {c : Cursor}
    (h : ∀ cs, (c.skipWhile isNamePart).rest ≠ '\\' :: cs) :
    word c =
      { kind := plainWordKind (c.textUntil (c.skipWhile isNamePart))
        value := c.textUntil (c.skipWhile isNamePart)
        stop := c.skipWhile isNamePart } := by
  unfold word
  extract_lets plain
  split
  · rename_i cs hc
    exact absurd hc (h cs)
  · rfl

/-- A word that ends in the window. -/
theorem widen_word (hs : w.Holds (word (w.widen d)).stop) :
    word (w.widen d) = (word d).widen w := by
  by_cases hb : ∃ cs, ((w.widen d).skipWhile isNamePart).rest = '\\' :: cs
  · obtain ⟨cs, hb⟩ := hb
    rw [word_escaped hb] at hs ⊢
    have hstop : ∀ r, (escapedWord r).stop = r.2 := by
      rintro ⟨_ | _, _⟩ <;> rfl
    rw [hstop] at hs
    have hskip := widen_skipWhile (hs.of_reaches (reaches_escapedName _ _))
    rw [hskip, widen_charsUntil (reaches_skipWhile isNamePart d)] at hs ⊢
    rw [hskip] at hb
    cases hd : (d.skipWhile isNamePart).rest with
    | nil =>
      rcases length_escapedName_cons _ hb with ⟨-, -, hne⟩ | hl
      · exact absurd rfl hne
      · exact absurd hs (not_holds hd hb hl)
    | cons ch ds =>
      rw [widen_rest, hd, List.cons_append] at hb
      obtain ⟨rfl, -⟩ := List.cons.inj hb
      rw [word_escaped hd, widen_escapedName hs]
      generalize escapedName _ (d.skipWhile isNamePart) = read
      obtain ⟨_ | _, _⟩ := read <;> rfl
  · have hb' : ∀ cs, ((w.widen d).skipWhile isNamePart).rest ≠ '\\' :: cs :=
      fun cs hc => hb ⟨cs, hc⟩
    rw [word_plain hb'] at hs ⊢
    have hskip := widen_skipWhile hs
    rw [hskip] at hb' ⊢
    have hd : ∀ cs, (d.skipWhile isNamePart).rest ≠ '\\' :: cs := by
      intro cs hc
      exact hb' (cs ++ w.behind) (by rw [widen_rest, hc, List.cons_append])
    rw [word_plain hd, widen_textUntil (reaches_skipWhile isNamePart d)]
    rfl

/-- A private name is a word behind a hash. -/
theorem privateWord_of [NameClasses] {c : Cursor} {ch : Char} {cs : List Char}
    (hc : c.next.rest = ch :: cs)
    (h : isNameStart ch = true ∨ ch = '\\') :
    privateWord c =
      { word c.next with
        kind := if (word c.next).kind = .illegal then .illegal else .privateName } := by
  have hb : (isNameStart ch || ch == '\\') = true := by
    rw [Bool.or_eq_true, beq_iff_eq]
    exact h
  simp only [privateWord, hc, hb, if_true]

/-- A private name without faults has a name behind its first character. -/
theorem privateWord_cases {c : Cursor} (hf : (privateWord c).faults = []) :
    ∃ ch cs, c.next.rest = ch :: cs ∧ (isNameStart ch = true ∨ ch = '\\') := by
  unfold privateWord at hf
  extract_lets behind at hf
  split at hf
  · rename_i ch cs hc
    split at hf
    · rename_i hb
      rw [Bool.or_eq_true, beq_iff_eq] at hb
      exact ⟨ch, cs, hc, hb⟩
    · exact nomatch hf
  · exact nomatch hf

/-- A number sign with no name behind it. -/
theorem privateWord_alone {c : Cursor}
    (h : ∀ ch cs, c.next.rest = ch :: cs → ¬ (isNameStart ch = true ∨ ch = '\\')) :
    privateWord c =
      { kind := .illegal, faults := [⟨.illegalToken, c.offset⟩], stop := c.next } := by
  unfold privateWord
  extract_lets behind
  split
  · rename_i ch cs hc
    rw [if_neg]
    rw [Bool.or_eq_true, beq_iff_eq]
    exact h ch cs hc
  · rfl

/-- A private name that ends in the window. -/
theorem widen_privateWord {x : Char} {xs : List Char} (hd : d.rest = x :: xs)
    (hs : w.Holds (privateWord (w.widen d)).stop) :
    privateWord (w.widen d) = (privateWord d).widen w := by
  by_cases hname : ∃ ch cs, (w.widen d).next.rest = ch :: cs ∧ (isNameStart ch = true ∨ ch = '\\')
  · obtain ⟨ch, cs, hc, h⟩ := hname
    rw [privateWord_of hc h] at hs ⊢
    rw [widen_next hd] at hc hs ⊢
    cases hn : d.next.rest with
    | nil => exact absurd hs (not_holds hn hc (Nat.le_of_lt_succ (by
        have := length_word_lt hc h
        rwa [hc] at this)))
    | cons y ys =>
      rw [widen_rest, hn, List.cons_append] at hc
      obtain ⟨rfl, -⟩ := List.cons.inj hc
      rw [privateWord_of hn h, widen_word hs]
      rfl
  · have hwide : ∀ ch cs, (w.widen d).next.rest = ch :: cs →
        ¬ (isNameStart ch = true ∨ ch = '\\') := fun ch cs hc h => hname ⟨ch, cs, hc, h⟩
    rw [privateWord_alone hwide, privateWord_alone, widen_next hd]
    · rfl
    · intro ch cs hc
      refine hwide ch (cs ++ w.behind) ?_
      rw [widen_next hd, widen_rest, hc, List.cons_append]

/-- The run with its stop and its faults as those of the whole text. -/
def DigitRun.widen (w : Window) (run : DigitRun) : DigitRun :=
  { run with faults := run.faults.map w.fault, stop := w.widen run.stop }

/-- The number read so far with its stop and its faults as those of the whole text. -/
def NumberScan.widen (w : Window) (scan : NumberScan) : NumberScan :=
  { scan with faults := scan.faults.map w.fault, stop := w.widen scan.stop }

/-- A run without faults has had none before. -/
theorem digitRun_faults {valid : Char → Bool} {count : Nat} {separated dangling : Bool}
    {faults : List Fault} {offset : Nat} {cs : List Char}
    (h : (digitRun valid count separated dangling faults offset cs).faults = []) : faults = [] := by
  induction cs generalizing count separated dangling faults offset with
  | nil =>
    simp only [digitRun, digitRun.finish, List.reverse_eq_nil_iff] at h
    split at h
    · cases h
    · exact h
  | cons ch cs ih =>
    rw [digitRun] at h
    split at h
    · have hi := ih h
      split at hi
      · cases hi
      · exact hi
    · split at h
      · exact ih h
      · simp only [digitRun.finish, List.reverse_eq_nil_iff] at h
        split at h
        · cases h
        · exact h

/-- A run ends in the same way in the stretch alone. A separator that it ends with has been
read before. -/
theorem widen_finish_digitRun {count : Nat} {separated dangling : Bool} {faults : List Fault}
    {offset : Nat} (cs : List Char) (hd : dangling = true → 0 < offset) :
    digitRun.finish count separated dangling (faults.map w.fault) (offset + w.base)
        (cs ++ w.behind) =
      (digitRun.finish count separated dangling faults offset cs).widen w := by
  cases dangling with
  | true =>
    have hplace : offset + w.base - 1 = offset - 1 + w.base := Nat.sub_add_comm (hd rfl)
    simp only [digitRun.finish, if_true, DigitRun.widen, List.map_reverse, List.map_cons, hplace]
    rfl
  | false =>
    simp only [digitRun.finish, Bool.false_eq_true, if_false, DigitRun.widen, List.map_reverse]
    rfl

/-- A run of digits that ends in the window, from any place in it. -/
theorem widen_digitRun {valid : Char → Bool} {count : Nat} {separated dangling : Bool}
    {faults : List Fault} {offset : Nat} {cs : List Char} (hd : dangling = true → 0 < offset)
    (hs : w.Holds (digitRun valid count separated dangling (faults.map w.fault) (offset + w.base)
      (cs ++ w.behind)).stop) :
    digitRun valid count separated dangling (faults.map w.fault) (offset + w.base)
        (cs ++ w.behind) =
      (digitRun valid count separated dangling faults offset cs).widen w := by
  induction cs generalizing count separated dangling faults offset with
  | nil =>
    have hfinish : digitRun.finish count separated dangling (faults.map w.fault)
        (offset + w.base) ([] ++ w.behind) = _ := widen_finish_digitRun [] hd
    cases hb : w.behind with
    | nil =>
      rw [hb] at hfinish
      exact hfinish
    | cons ch behind =>
      have hl := fun n s b f o => length_digitRun_le valid n s b f o behind
      have hlong : ¬ (ch :: behind).length ≤ behind.length := Nat.not_succ_le_self _
      rw [List.nil_append, hb] at hs
      by_cases hu : (ch == '_') = true
      · simp only [digitRun, if_pos hu] at hs
        rw [Holds, hb] at hs
        exact absurd (Nat.le_trans hs (hl ..)) hlong
      · by_cases hv : valid ch = true
        · simp only [digitRun, if_neg hu, if_pos hv] at hs
          rw [Holds, hb] at hs
          exact absurd (Nat.le_trans hs (hl ..)) hlong
        · rw [hb] at hfinish
          simp only [digitRun, List.nil_append, if_neg hu, if_neg hv]
          exact hfinish
  | cons ch cs ih =>
    by_cases hu : (ch == '_') = true
    · simp only [List.cons_append, digitRun, if_pos hu, Nat.add_right_comm offset] at hs ⊢
      have hfaults : (if (count == 0 || dangling) = true then
          ⟨.misplacedSeparator, offset + w.base⟩ :: faults.map w.fault else faults.map w.fault) =
          (if (count == 0 || dangling) = true then
            ⟨.misplacedSeparator, offset⟩ :: faults else faults).map w.fault := by
        split <;> rfl
      rw [hfaults] at hs ⊢
      exact ih (fun _ => Nat.succ_pos offset) hs
    · by_cases hv : valid ch = true
      · simp only [List.cons_append, digitRun, if_neg hu, if_pos hv, Nat.add_right_comm offset]
          at hs ⊢
        exact ih (by simp) hs
      · simp only [List.cons_append, digitRun, if_neg hu, if_neg hv]
        exact widen_finish_digitRun (ch :: cs) hd

/-- A run of digits that ends in the window. -/
theorem widen_digits {valid : Char → Bool} (hs : w.Holds (digits valid (w.widen d)).stop) :
    digits valid (w.widen d) = (digits valid d).widen w := by
  have hnone : ([] : List Fault).map w.fault = [] := rfl
  rw [digits, ← hnone] at hs ⊢
  exact widen_digitRun (fun h => nomatch h) hs

/-- What can begin a run of digits is part of it. -/
theorem length_digits_cons {valid : Char → Bool} {c : Cursor} {ch : Char} {cs : List Char}
    (hc : c.rest = ch :: cs) (hv : valid ch = true ∨ ch = '_') :
    (digits valid c).stop.rest.length ≤ cs.length := by
  rw [digits, hc]
  by_cases hu : (ch == '_') = true
  · simp only [digitRun, if_pos hu]
    exact length_digitRun_le ..
  · have hv : valid ch = true := hv.resolve_right fun h => hu (beq_iff_eq.mpr h)
    simp only [digitRun, if_neg hu, if_pos hv]
    exact length_digitRun_le ..

namespace NumberScan

/-- A number with a dot behind its digits. -/
theorem fraction_dot {scan : NumberScan} {cs : List Char} (h : scan.stop.rest = '.' :: cs) :
    scan.fraction =
      if cs.head?.any (fun ch => isDigit ch || ch == '_') then
        { scan with integer := false, stop := scan.stop.next }.withDigits
          (digits isDigit scan.stop.next)
      else { scan with integer := false, stop := scan.stop.next } := by
  simp only [fraction, h]

/-- A number without a dot behind its digits. -/
theorem fraction_plain {scan : NumberScan} (h : ∀ cs, scan.stop.rest ≠ '.' :: cs) :
    scan.fraction = scan := by
  unfold fraction
  split
  · rename_i cs hc
    exact absurd hc (h cs)
  · rfl

/-- Digits are taken over with their faults. -/
theorem widen_withDigits (scan : NumberScan) (run : DigitRun) :
    (scan.widen w).withDigits (run.widen w) = (scan.withDigits run).widen w := by
  simp only [withDigits, NumberScan.widen, List.map_append]
  rfl

/-- A digit or a separator behind the dot is part of the fraction. -/
theorem length_fraction_digit {scan : NumberScan} {ch : Char} {cs : List Char}
    (h : scan.stop.rest = '.' :: ch :: cs) (hd : (isDigit ch || ch == '_') = true) :
    scan.fraction.stop.rest.length ≤ cs.length := by
  rw [fraction_dot h, List.head?_cons, Option.any_some, if_pos hd]
  have hn : scan.stop.next.rest = ch :: cs := by rw [next_eq h]
  rw [Bool.or_eq_true, beq_iff_eq] at hd
  exact length_digits_cons hn hd

/-- A number whose fraction ends in the window. -/
theorem widen_fraction {scan : NumberScan} (hs : w.Holds (scan.widen w).fraction.stop) :
    (scan.widen w).fraction = scan.fraction.widen w := by
  by_cases hdot : ∃ cs, (scan.widen w).stop.rest = '.' :: cs
  · obtain ⟨cs, hc⟩ := hdot
    have hreach : (scan.widen w).stop.next.Reaches (scan.widen w).fraction.stop := by
      rw [fraction_dot hc]
      split
      · exact reaches_digits isDigit _
      · exact .refl _
    cases hd : scan.stop.rest with
    | nil =>
      refine absurd (hs.of_reaches hreach) (not_holds hd hc ?_)
      exact Nat.le_of_eq (by rw [next_eq hc])
    | cons ch ds =>
      have hw := hc
      rw [NumberScan.widen, widen_rest, hd, List.cons_append] at hc
      obtain ⟨rfl, rfl⟩ := List.cons.inj hc
      have hn : (scan.widen w).stop.next = w.widen scan.stop.next := widen_next hd
      cases ds with
      | nil =>
        rw [fraction_dot hd, List.head?_nil, Option.any_none]
        have hnone : (w.behind.head?.any fun ch => isDigit ch || ch == '_') = false := by
          cases hb : w.behind with
          | nil => rfl
          | cons x behind =>
            cases hx : (isDigit x || x == '_') with
            | false => rw [List.head?_cons, Option.any_some, hx]
            | true =>
              rw [List.nil_append, hb] at hw
              have hl := length_fraction_digit hw hx
              rw [Holds, hb, List.length_cons] at hs
              omega
        rw [fraction_dot hw, List.nil_append, hnone, hn]
        rfl
      | cons x xs =>
        rw [fraction_dot hw] at hs ⊢
        rw [fraction_dot hd]
        rw [List.cons_append, List.head?_cons] at hs ⊢
        rw [List.head?_cons]
        split
        · rename_i hx
          rw [if_pos hx, hn] at hs
          rw [hn, widen_digits hs]
          exact widen_withDigits { scan with integer := false, stop := scan.stop.next } _
        · rw [hn]
          rfl
  · rw [fraction_plain fun cs hc => hdot ⟨cs, hc⟩, fraction_plain]
    intro cs hc
    exact hdot ⟨cs ++ w.behind, by rw [NumberScan.widen, widen_rest, hc, List.cons_append]⟩

/-- An exponent of the stretch is one of the whole text. -/
theorem exponentStart_widen {e : Cursor} (h : exponentStart? d = some e) :
    exponentStart? (w.widen d) = some (w.widen e) := by
  cases hd : d.rest with
  | nil => simp [exponentStart?, hd] at h
  | cons ch cs =>
    have hw : (w.widen d).rest = ch :: (cs ++ w.behind) := by rw [widen_rest, hd, List.cons_append]
    simp only [exponentStart?, hd] at h
    simp only [exponentStart?, hw, widen_next hd]
    split at h
    · rename_i he
      rw [if_pos he]
      have hn : d.next.rest = cs := by rw [next_eq hd]
      rw [widen_rest]
      cases hcs : cs with
      | nil => simp [hn, hcs] at h
      | cons s rest =>
        rw [hcs] at hn
        simp only [hn, List.cons_append, List.head?_cons, Option.any_some] at h ⊢
        split at h
        · rename_i hsign
          simp only [hsign, if_true, widen_next hn, widen_rest]
          have hnn : d.next.next.rest = rest := by rw [next_eq hn]
          cases hr : rest with
          | nil => simp [hnn, hr] at h
          | cons x xs =>
            rw [hr] at hnn
            simp only [hnn, List.cons_append, List.head?_cons, Option.any_some] at h ⊢
            simp_all
        · simp_all
    · exact nomatch h

/-- The digits of an exponent are where it starts. -/
theorem exponentStart_digit {c start : Cursor} (h : exponentStart? c = some start) :
    ∃ ch cs, start.rest = ch :: cs ∧ isDigit ch = true := by
  unfold exponentStart? at h
  split at h
  · split at h
    · extract_lets behind far at h
      split at h
      · rename_i hd
        rw [← Option.some.inj h]
        cases hr : far.rest with
        | nil => simp [hr] at hd
        | cons ch cs => exact ⟨ch, cs, rfl, by simpa [hr] using hd⟩
      · exact nomatch h
    · exact nomatch h
  · exact nomatch h

/-- The letter comes before the start of an exponent. -/
theorem length_exponentStart_cons {c start : Cursor} {ch : Char} {cs : List Char}
    (hc : c.rest = ch :: cs) (h : exponentStart? c = some start) :
    start.rest.length ≤ cs.length := by
  have hn : c.next.rest = cs := by rw [next_eq hc]
  have hnn := c.next.length_next_le
  rw [hn] at hnn
  unfold exponentStart? at h
  grind

/-- An exponent of the whole text whose first digit lies in the window is one of the
stretch. -/
theorem exponentStart_of_widen {start : Cursor} (h : exponentStart? (w.widen d) = some start)
    (hs : w.behind.length < start.rest.length) :
    ∃ e, exponentStart? d = some e ∧ start = w.widen e := by
  cases hd : d.rest with
  | nil =>
    obtain ⟨front, hf, -⟩ := reaches_exponentStart h
    have hl := congrArg List.length hf
    rw [widen_rest, hd, List.nil_append, List.length_append] at hl
    omega
  | cons ch cs =>
    have hw : (w.widen d).rest = ch :: (cs ++ w.behind) := by rw [widen_rest, hd, List.cons_append]
    have hn : d.next.rest = cs := by rw [next_eq hd]
    have hlt := length_exponentStart_cons hw h
    simp only [exponentStart?, hw, widen_next hd] at h
    simp only [exponentStart?, hd]
    split at h
    · rename_i he
      simp only [he, if_true]
      cases hcs : cs with
      | nil =>
        rw [hcs] at hn
        rw [hcs, List.nil_append] at hlt
        omega
      | cons s rest =>
        rw [hcs] at hn
        simp only [widen_rest, hn, List.cons_append, List.head?_cons, Option.any_some] at h ⊢
        by_cases hsign : (s == '+' || s == '-') = true
        · simp only [hsign, if_true, widen_next hn, widen_rest] at h ⊢
          have hnn : d.next.next.rest = rest := by rw [next_eq hn]
          cases hr : rest with
          | nil =>
            split at h
            · rw [← Option.some.inj h, widen_rest, hnn, hr, List.nil_append] at hs
              exact absurd hs (Nat.lt_irrefl _)
            · exact nomatch h
          | cons x xs =>
            rw [hr] at hnn
            simp only [hnn, List.cons_append, List.head?_cons, Option.any_some] at h ⊢
            split at h
            · rename_i hx
              exact ⟨d.next.next, by simp [hx], (Option.some.inj h).symm⟩
            · exact nomatch h
        · simp only [hsign, Bool.false_eq_true, if_false, widen_rest, hn, List.cons_append,
            List.head?_cons,
            Option.any_some] at h ⊢
          split at h
          · rename_i hx
            exact ⟨d.next, by simp [hx], (Option.some.inj h).symm⟩
          · exact nomatch h
    · exact nomatch h

/-- A number whose exponent ends in the window. -/
theorem widen_exponent {scan : NumberScan} (hs : w.Holds (scan.widen w).exponent.stop) :
    (scan.widen w).exponent = scan.exponent.widen w := by
  unfold exponent at hs ⊢
  cases hw : exponentStart? (scan.widen w).stop with
  | none =>
    cases hd : exponentStart? scan.stop with
    | none => rfl
    | some e => exact nomatch hw.symm.trans (exponentStart_widen hd)
  | some start =>
    rw [hw] at hs
    simp only at hs ⊢
    have hrun : w.Holds (digits isDigit start).stop := hs
    obtain ⟨ch, cs, hc, hdigit⟩ := exponentStart_digit hw
    have hl := length_digits_cons hc (Or.inl hdigit)
    obtain ⟨e, he, rfl⟩ := exponentStart_of_widen hw (by
      rw [Holds] at hrun
      rw [hc, List.length_cons]
      omega)
    rw [he, widen_digits hrun, widen_withDigits]
    rfl

/-- A number that is not to be followed by what follows it. -/
theorem widen_illegal (scan : NumberScan) {start : Cursor}
    (hs : w.Holds ((scan.widen w).illegal (w.widen start)).stop) :
    (scan.widen w).illegal (w.widen start) = (scan.illegal start).widen w := by
  have hskip : (w.widen scan.stop).skipWhile _ = w.widen _ := widen_skipWhile hs
  simp only [illegal, NumberScan.widen, Lexeme.widen, List.map_append, hskip]
  rfl

/-- The token of a number whose suffix, if it has one, has been read. -/
def close (isBig : Bool) (scan : NumberScan) (start : Cursor) : Lexeme :=
  if scan.stop.peek?.any fun ch => isNameStart ch || isDigit ch || ch == '\\' then
    scan.illegal start
  else
    { kind := if isBig then .bigInt else .number
      value := start.textUntil scan.stop
      flags := scan.flags
      faults := scan.faults
      stop := scan.stop }

/-- A number ends with its suffix or without. -/
theorem finish_eq (scan : NumberScan) (start : Cursor) (bigIntAllowed : Bool) :
    scan.finish start bigIntAllowed =
      if bigIntAllowed && scan.stop.peek? == some 'n' then
        close true { scan with stop := scan.stop.next } start
      else close false scan start := by
  unfold finish
  cases bigIntAllowed && scan.stop.peek? == some 'n' <;> rfl

/-- Behind a number without a fault comes no name and no digit. -/
theorem close_of_faults {isBig : Bool} {scan : NumberScan} {start : Cursor}
    (hf : (close isBig scan start).faults = []) :
    (scan.stop.peek?.any fun ch => isNameStart ch || isDigit ch || ch == '\\') = false := by
  unfold close at hf
  split at hf
  · exact absurd (List.append_eq_nil_iff.mp hf).2 (by simp)
  · rename_i h
    exact Bool.eq_false_iff.mpr h

/-- The token of a number goes at least as far as the number. -/
theorem reaches_close (isBig : Bool) (scan : NumberScan) (start : Cursor) :
    scan.stop.Reaches (close isBig scan start).stop := by
  unfold close
  split
  · exact reaches_illegal scan start
  · exact .refl _

/-- A digit may stand in a name. -/
theorem isNamePart_of_isDigit {ch : Char} (h : isDigit ch = true) : isNamePart ch = true := by
  simp only [isNamePart, h, Bool.or_true, Bool.true_or]

/-- What clings to a number is part of what no token can be made of. -/
theorem length_illegal_cons {scan : NumberScan} (start : Cursor) {ch : Char} {cs : List Char}
    (hc : scan.stop.rest = ch :: cs)
    (h : (isNameStart ch || isDigit ch || ch == '\\') = true) :
    (scan.illegal start).stop.rest.length ≤ cs.length := by
  have hpart : (isNamePart ch || ch == '\\') = true := by
    simp only [Bool.or_eq_true] at h ⊢
    exact h.imp_left fun h => h.elim isNamePart_of_isNameStart isNamePart_of_isDigit
  have hlt := length_skipWhile_lt (p := fun ch => isNamePart ch || ch == '\\') hc hpart
  rw [hc] at hlt
  exact Nat.le_of_lt_succ hlt

/-- A number that ends in the window, its suffix read. -/
theorem widen_close {isBig : Bool} {scan : NumberScan} {start : Cursor}
    (hr : start.Reaches scan.stop)
    (hs : w.Holds (close isBig (scan.widen w) (w.widen start)).stop) :
    close isBig (scan.widen w) (w.widen start) = (close isBig scan start).widen w := by
  have hsame : ((scan.widen w).stop.peek?.any fun ch =>
        isNameStart ch || isDigit ch || ch == '\\') =
      scan.stop.peek?.any fun ch => isNameStart ch || isDigit ch || ch == '\\' := by
    cases hd : scan.stop.rest with
    | cons ch cs => rw [Cursor.peek?, Cursor.peek?, NumberScan.widen, widen_rest, hd]; rfl
    | nil =>
      rw [Cursor.peek?, Cursor.peek?, hd]
      cases hb : (scan.widen w).stop.rest with
      | nil => rfl
      | cons ch cs =>
        rw [List.head?_cons, Option.any_some, List.head?_nil, Option.any_none]
        refine Bool.eq_false_iff.mpr fun hcling => not_holds hd hb ?_ hs
        rw [close, Cursor.peek?, hb, List.head?_cons, Option.any_some, if_pos hcling]
        exact length_illegal_cons _ hb hcling
  unfold close at hs ⊢
  rw [hsame] at hs ⊢
  split
  · rename_i hcling
    rw [if_pos hcling] at hs
    exact widen_illegal scan hs
  · rw [NumberScan.widen, widen_textUntil hr]
    rfl

/-- A number that ends in the window. -/
theorem widen_finish (scan : NumberScan) {start : Cursor} {bigIntAllowed : Bool}
    (hr : start.Reaches scan.stop)
    (hs : w.Holds ((scan.widen w).finish (w.widen start) bigIntAllowed).stop) :
    (scan.widen w).finish (w.widen start) bigIntAllowed =
      (scan.finish start bigIntAllowed).widen w := by
  rw [finish_eq] at hs ⊢
  rw [finish_eq]
  cases hd : scan.stop.rest with
  | nil =>
    have hp : scan.stop.peek? = none := by rw [Cursor.peek?, hd, List.head?_nil]
    rw [hp, show (none == some 'n') = false from rfl, Bool.and_false, if_neg Bool.false_ne_true]
    split
    · rename_i hb
      rw [if_pos hb] at hs
      obtain ⟨ch, cs, hc⟩ : ∃ ch cs, (scan.widen w).stop.rest = ch :: cs := by
        cases hc : (scan.widen w).stop.rest with
        | nil => simp [Cursor.peek?, hc] at hb
        | cons ch cs => exact ⟨ch, cs, rfl⟩
      refine absurd (hs.of_reaches (reaches_close _ _ _)) (not_holds hd hc ?_)
      exact Nat.le_of_eq (by rw [next_eq hc])
    · rename_i hb
      rw [if_neg hb] at hs
      exact widen_close hr hs
  | cons ch cs =>
    have hp : (scan.widen w).stop.peek? = scan.stop.peek? := by
      rw [Cursor.peek?, Cursor.peek?, NumberScan.widen, widen_rest, hd]
      rfl
    have hn : ({ scan.widen w with stop := (scan.widen w).stop.next } : NumberScan) =
        NumberScan.widen w { scan with stop := scan.stop.next } := by
      rw [NumberScan.widen, NumberScan.widen, widen_next hd]
    rw [hp, hn] at hs ⊢
    split
    · rename_i hb
      rw [if_pos hb] at hs
      exact widen_close (hr.trans (reaches_next _)) hs
    · rename_i hb
      rw [if_neg hb] at hs
      exact widen_close hr hs

end NumberScan

namespace NumberScan

/-- A number without a fault had none before its end. -/
theorem faults_of_finish {scan : NumberScan} {start : Cursor} {bigIntAllowed : Bool}
    (h : (scan.finish start bigIntAllowed).faults = []) : scan.faults = [] := by
  have hclose : ∀ isBig (scan : NumberScan), (close isBig scan start).faults = [] →
      scan.faults = [] := by
    intro isBig scan h
    unfold close at h
    split at h
    · exact (List.append_eq_nil_iff.mp h).1
    · exact h
  rw [finish_eq] at h
  split at h
  · exact hclose true { scan with stop := scan.stop.next } h
  · exact hclose false scan h

/-- A number without a fault had none before its exponent. -/
theorem faults_of_exponent {scan : NumberScan} (h : scan.exponent.faults = []) :
    scan.faults = [] := by
  unfold exponent at h
  split at h
  · exact (List.append_eq_nil_iff.mp h).1
  · exact h

/-- A number without a fault had none before its fraction. -/
theorem faults_of_fraction {scan : NumberScan} (h : scan.fraction.faults = []) :
    scan.faults = [] := by
  unfold fraction at h
  split at h
  · extract_lets behind at h
    split at h
    · exact (List.append_eq_nil_iff.mp h).1
    · exact h
  · exact h

/-- A fraction and an exponent, and the end of the number. -/
theorem widen_decimals (scan : NumberScan) {start : Cursor} (bigIntAllowed : NumberScan → Bool)
    (hi : ∀ scan : NumberScan, bigIntAllowed (scan.widen w) = bigIntAllowed scan)
    (hr : start.Reaches scan.stop)
    (hs : w.Holds ((scan.widen w).fraction.exponent.finish (w.widen start)
      (bigIntAllowed (scan.widen w).fraction.exponent)).stop) :
    (scan.widen w).fraction.exponent.finish (w.widen start)
        (bigIntAllowed (scan.widen w).fraction.exponent) =
      (scan.fraction.exponent.finish start (bigIntAllowed scan.fraction.exponent)).widen w := by
  have he := hs.of_reaches (reaches_finish _ _ _)
  have hfraction := widen_fraction (he.of_reaches (reaches_exponent _))
  rw [hfraction] at hs he ⊢
  rw [widen_exponent he, hi] at hs ⊢
  exact widen_finish _ (hr.trans ((reaches_fraction _).trans (reaches_exponent _))) hs

end NumberScan

/-- The cursor some characters further on, if these lie in the window. -/
theorem widen_advance_of_holds {n : Nat} (h : w.Holds ((w.widen d).advance n))
    (hn : n ≤ (w.widen d).rest.length) : (w.widen d).advance n = w.widen (d.advance n) := by
  refine widen_advance ?_
  rw [Holds, length_advance] at h
  rw [widen_rest, List.length_append] at h hn
  omega

/-- The number whose digits behind a radix marker have been read. -/
def radix (run : DigitRun) (flags : TokenFlags) (start : Cursor) : Lexeme :=
  if run.count == 0 then (NumberScan.withDigits { flags, stop := run.stop } run).illegal start
  else (NumberScan.withDigits { flags, stop := run.stop } run).finish start true

/-- A number with a radix is read from its digits on. -/
theorem radixNumber_eq (start : Cursor) (valid : Char → Bool) (flags : TokenFlags) :
    radixNumber start valid flags = radix (digits valid (start.advance 2)) flags start := rfl

/-- The token goes at least as far as the digits. -/
theorem reaches_radix (run : DigitRun) (flags : TokenFlags) (start : Cursor) :
    run.stop.Reaches (radix run flags start).stop := by
  unfold radix
  split
  · exact (NumberScan.withDigits { flags, stop := run.stop } run).reaches_illegal start
  · exact (NumberScan.withDigits { flags, stop := run.stop } run).reaches_finish start true

/-- A number with a radix that ends in the window, its digits read. -/
theorem widen_radix {run : DigitRun} {flags : TokenFlags} {start : Cursor}
    (hr : start.Reaches run.stop) (hs : w.Holds (radix (run.widen w) flags (w.widen start)).stop) :
    radix (run.widen w) flags (w.widen start) = (radix run flags start).widen w := by
  have hscan : NumberScan.withDigits { flags, stop := (run.widen w).stop } (run.widen w) =
      (NumberScan.withDigits { flags, stop := run.stop } run).widen w :=
    NumberScan.widen_withDigits { flags, stop := run.stop } run
  have hcount : (run.widen w).count = run.count := rfl
  unfold radix at hs ⊢
  rw [hscan, hcount] at hs ⊢
  split
  · rename_i hz
    rw [if_pos hz] at hs
    exact NumberScan.widen_illegal _ hs
  · rename_i hz
    rw [if_neg hz] at hs
    exact NumberScan.widen_finish _ hr hs

/-- A number with a radix that ends in the window. -/
theorem widen_radixNumber {valid : Char → Bool} {flags : TokenFlags} {a b : Char} {cs : List Char}
    (hc : (w.widen d).rest = a :: b :: cs)
    (hs : w.Holds (radixNumber (w.widen d) valid flags).stop) :
    radixNumber (w.widen d) valid flags = (radixNumber d valid flags).widen w := by
  rw [radixNumber_eq] at hs ⊢
  have hrun := hs.of_reaches (reaches_radix _ _ _)
  have hmark := widen_advance_of_holds (hrun.of_reaches (reaches_digits valid _))
    (by rw [hc, List.length_cons, List.length_cons]; omega)
  rw [hmark] at hrun hs ⊢
  rw [widen_digits hrun] at hs ⊢
  exact widen_radix ((reaches_advance 2 d).trans (reaches_digits valid _)) hs

/-- A number with a leading zero is octal when all of its digits are. -/
theorem leadingZeroNumber_eq (start : Cursor) :
    leadingZeroNumber start =
      if (start.charsUntil (start.skipWhile isDigit)).all isOctalDigit then
        NumberScan.finish { flags := { legacyOctal := true }, stop := start.skipWhile isDigit }
          start false
      else
        (NumberScan.fraction { stop := start.skipWhile isDigit }).exponent.finish start false := rfl

/-- The token goes at least as far as the digits. -/
theorem reaches_leadingZeroNumber_skip (start : Cursor) :
    (start.skipWhile isDigit).Reaches (leadingZeroNumber start).stop := by
  rw [leadingZeroNumber_eq]
  split
  · exact NumberScan.reaches_finish
      { flags := { legacyOctal := true }, stop := start.skipWhile isDigit } start false
  · refine .trans ?_ (NumberScan.reaches_finish _ _ _)
    exact .trans (NumberScan.reaches_fraction { stop := start.skipWhile isDigit })
      (NumberScan.reaches_exponent _)

/-- A number with a leading zero that ends in the window. -/
theorem widen_leadingZeroNumber (hs : w.Holds (leadingZeroNumber (w.widen d)).stop) :
    leadingZeroNumber (w.widen d) = (leadingZeroNumber d).widen w := by
  have hskip := widen_skipWhile (hs.of_reaches (reaches_leadingZeroNumber_skip _))
  have hr := reaches_skipWhile isDigit d
  rw [leadingZeroNumber_eq, hskip, widen_charsUntil hr] at hs ⊢
  rw [leadingZeroNumber_eq]
  split
  · rename_i ho
    rw [if_pos ho] at hs
    exact NumberScan.widen_finish { flags := { legacyOctal := true }, stop := d.skipWhile isDigit }
      hr hs
  · rename_i ho
    rw [if_neg ho] at hs
    exact NumberScan.widen_decimals { stop := d.skipWhile isDigit } (fun _ => false) (fun _ => rfl)
      hr hs

/-- A decimal number that starts with its dot. -/
theorem decimalNumber_dot {start : Cursor} (h : (start.peek? == some '.') = true) :
    decimalNumber start =
      (NumberScan.fraction { stop := start }).exponent.finish start
        (NumberScan.fraction { stop := start }).exponent.integer := by
  simp only [decimalNumber, if_pos h]

/-- A decimal number that starts with a digit. -/
theorem decimalNumber_digit {start : Cursor} (h : ¬ (start.peek? == some '.') = true) :
    decimalNumber start =
      (NumberScan.withDigits { stop := start } (digits isDigit start)).fraction.exponent.finish
      start
        (NumberScan.withDigits { stop := start }
          (digits isDigit start)).fraction.exponent.integer := by
  simp only [decimalNumber, if_neg h]

/-- A decimal number that ends in the window. -/
theorem widen_decimalNumber {ch : Char} {cs : List Char} (hd : d.rest = ch :: cs)
    (hs : w.Holds (decimalNumber (w.widen d)).stop) :
    decimalNumber (w.widen d) = (decimalNumber d).widen w := by
  have hp : (w.widen d).peek? = d.peek? := by
    rw [Cursor.peek?, Cursor.peek?, widen_rest, hd]
    rfl
  by_cases hdot : (d.peek? == some '.') = true
  · rw [decimalNumber_dot (by rw [hp]; exact hdot)] at hs ⊢
    rw [decimalNumber_dot hdot]
    exact NumberScan.widen_decimals { stop := d } NumberScan.integer (fun _ => rfl) (.refl d) hs
  · rw [decimalNumber_digit (by rw [hp]; exact hdot)] at hs ⊢
    rw [decimalNumber_digit hdot]
    have hreach := (NumberScan.reaches_fraction
      (.withDigits { stop := w.widen d } (digits isDigit (w.widen d)))).trans
        ((NumberScan.reaches_exponent _).trans (NumberScan.reaches_finish _ (w.widen d)
          (NumberScan.withDigits { stop := w.widen d }
            (digits isDigit (w.widen d))).fraction.exponent.integer))
    have hdigits := widen_digits (hs.of_reaches hreach)
    have hscan : NumberScan.withDigits { stop := w.widen d } (digits isDigit (w.widen d)) =
        (NumberScan.withDigits { stop := d } (digits isDigit d)).widen w := by
      rw [hdigits]
      exact NumberScan.widen_withDigits { stop := d } (digits isDigit d)
    rw [hscan] at hs ⊢
    exact NumberScan.widen_decimals (.withDigits { stop := d } (digits isDigit d))
      NumberScan.integer (fun _ => rfl) (reaches_digits isDigit d) hs

/-- What comes behind a zero tells the form of the number. -/
theorem numberLiteral_zero {c : Cursor} {ch : Char} {cs : List Char}
    (h : c.rest = '0' :: ch :: cs) :
    numberLiteral c =
      if ch == 'x' || ch == 'X' then radixNumber c isHexDigit { hexadecimal := true }
      else if ch == 'o' || ch == 'O' then radixNumber c isOctalDigit { octal := true }
      else if ch == 'b' || ch == 'B' then radixNumber c isBinaryDigit { binary := true }
      else if isDigit ch then leadingZeroNumber c
      else decimalNumber c := by
  simp only [numberLiteral, h]

/-- Without a zero in front the number is decimal. -/
theorem numberLiteral_plain {c : Cursor} (h : ∀ ch cs, c.rest ≠ '0' :: ch :: cs) :
    numberLiteral c = decimalNumber c := by
  unfold numberLiteral
  split
  · rename_i ch cs hc
    exact absurd hc (h ch cs)
  · rfl

/-- A radix marker and the digit behind a leading zero lie in the window. -/
theorem numberLiteral_short {ch : Char} {cs : List Char} (hc : (w.widen d).rest = '0' :: ch :: cs)
    (hd : d.rest = ['0']) (hs : w.Holds (numberLiteral (w.widen d)).stop) :
    numberLiteral (w.widen d) = decimalNumber (w.widen d) := by
  have hb : w.behind = ch :: cs := by
    rw [widen_rest, hd] at hc
    exact (List.cons.inj hc).2
  have hradix : ∀ valid flags, ¬ w.Holds (radixNumber (w.widen d) valid flags).stop := by
    intro valid flags h
    rw [radixNumber_eq] at h
    have ha := (h.of_reaches (reaches_radix _ _ _)).of_reaches (reaches_digits valid _)
    rw [Holds, length_advance, hc, hb] at ha
    simp only [List.length_cons] at ha
    omega
  rw [numberLiteral_zero hc] at hs ⊢
  split
  · rename_i h
    rw [if_pos h] at hs
    exact absurd hs (hradix _ _)
  · rename_i hx
    rw [if_neg hx] at hs
    split
    · rename_i h
      rw [if_pos h] at hs
      exact absurd hs (hradix _ _)
    · rename_i ho
      rw [if_neg ho] at hs
      split
      · rename_i h
        rw [if_pos h] at hs
        exact absurd hs (hradix _ _)
      · rename_i hbin
        rw [if_neg hbin] at hs
        split
        · rename_i hdigit
          rw [if_pos hdigit] at hs
          have hskip := hs.of_reaches (reaches_leadingZeroNumber_skip _)
          rw [Holds, skipWhile_eq, hc, hb, List.dropWhile_cons, if_pos (by decide),
            List.dropWhile_cons, if_pos hdigit, List.length_cons] at hskip
          have := (List.dropWhile_suffix isDigit (l := cs)).length_le
          simp only at hskip
          omega
        · rfl

/-- A number that ends in the window. -/
theorem widen_numberLiteral {ch : Char} {cs : List Char} (hd : d.rest = ch :: cs)
    (hs : w.Holds (numberLiteral (w.widen d)).stop) :
    numberLiteral (w.widen d) = (numberLiteral d).widen w := by
  by_cases hz : ∃ x xs, d.rest = '0' :: x :: xs
  · obtain ⟨x, xs, hd'⟩ := hz
    have hw : (w.widen d).rest = '0' :: x :: (xs ++ w.behind) := by
      rw [widen_rest, hd']
      rfl
    rw [numberLiteral_zero hw] at hs ⊢
    rw [numberLiteral_zero hd']
    split
    · rename_i h
      rw [if_pos h] at hs
      exact widen_radixNumber hw hs
    · rename_i hx
      rw [if_neg hx] at hs
      split
      · rename_i h
        rw [if_pos h] at hs
        exact widen_radixNumber hw hs
      · rename_i ho
        rw [if_neg ho] at hs
        split
        · rename_i h
          rw [if_pos h] at hs
          exact widen_radixNumber hw hs
        · rename_i hbin
          rw [if_neg hbin] at hs
          split
          · rename_i h
            rw [if_pos h] at hs
            exact widen_leadingZeroNumber hs
          · rename_i h
            rw [if_neg h] at hs
            exact widen_decimalNumber hd' hs
  · have hslice := numberLiteral_plain (c := d) fun x xs h => hz ⟨x, xs, h⟩
    have hwide : numberLiteral (w.widen d) = decimalNumber (w.widen d) := by
      by_cases hw : ∃ x xs, (w.widen d).rest = '0' :: x :: xs
      · obtain ⟨x, xs, hw⟩ := hw
        have hw' := hw
        rw [widen_rest, hd, List.cons_append] at hw'
        obtain ⟨rfl, hw'⟩ := List.cons.inj hw'
        cases cs with
        | nil => exact numberLiteral_short hw hd hs
        | cons y ys => exact absurd ⟨y, ys, hd⟩ hz
      · exact numberLiteral_plain fun x xs h => hw ⟨x, xs, h⟩
    rw [hwide] at hs ⊢
    rw [hslice]
    exact widen_decimalNumber hd hs

end

end Lexer

end EcmaScript
