import EcmaScript.Proofs.Slice.Lexeme

/-!
# Reading in a closed window

What stands behind a window may go on with a token of it: a digit behind a number, say. A window
is closed when a character comes behind it that goes on with no token: a blank or a mark that is
no part of another one. What is read in the stretch alone without faults is then read in the
whole text too.
-/

namespace EcmaScript

open Character

/-- The character goes on with no token that it does not start. -/
def Separates (ch : Char) : Prop := ch ∈ [' ', ';', ':', ')']

instance : DecidablePred Separates := fun ch => inferInstanceAs
    (Decidable (ch ∈ [' ', ';', ':', ')']))

/-- Behind the window comes nothing, or what goes on with no token. -/
def Window.IsClosed (w : Window) : Prop := ∀ ch ∈ w.behind.head?, Separates ch

namespace Separates

variable {ch : Char}

/-- The characters that separate. -/
theorem cases (h : Separates ch) : ch = ' ' ∨ ch = ';' ∨ ch = ':' ∨ ch = ')' := by
  simpa [Separates] using h

/-- No name goes on with one of them. -/
theorem isNamePart_eq (h : Separates ch) : isNamePart ch = false := by
  rcases h.cases with rfl | rfl | rfl | rfl <;> decide +kernel

/-- No name starts with one of them. -/
theorem isNameStart_eq (h : Separates ch) : isNameStart ch = false := by
  rcases h.cases with rfl | rfl | rfl | rfl <;> decide +kernel

/-- None of them is a digit. -/
theorem isDigit_eq (h : Separates ch) : isDigit ch = false := by
  rcases h.cases with rfl | rfl | rfl | rfl <;> rfl

/-- None of them is a hexadecimal digit. -/
theorem hexValue_eq (h : Separates ch) : hexValue? ch = none := by
  rcases h.cases with rfl | rfl | rfl | rfl <;> rfl

/-- Each of them is one byte. -/
theorem utf8Size (h : Separates ch) : ch.utf8Size = 1 := by
  rcases h.cases with rfl | rfl | rfl | rfl <;> rfl

/-- They are not what does not separate. -/
theorem ne {x : Char} (h : Separates ch) (hx : ¬ Separates x) : ch ≠ x := by
  rintro rfl
  exact hx h

end Separates

namespace Window.IsClosed

variable {w : Window} {d : Cursor}

/-- Behind a closed window the text ends or a separating character comes. -/
theorem cases (h : w.IsClosed) :
    w.behind = [] ∨ ∃ ch cs, w.behind = ch :: cs ∧ Separates ch := by
  cases hb : w.behind with
  | nil => exact Or.inl rfl
  | cons ch cs => exact Or.inr ⟨ch, cs, rfl, h ch (by rw [hb]; rfl)⟩

/-- What is asked of the next character has the same answer, if what comes behind the window
would not do. -/
theorem any_head (h : w.IsClosed) {p : Char → Bool} (hp : ∀ ch, Separates ch → p ch = false)
    (cs : List Char) : (cs ++ w.behind).head?.any p = cs.head?.any p := by
  cases cs with
  | cons ch cs => rfl
  | nil =>
    rcases h.cases with hb | ⟨ch, cs, hb, hs⟩
    · rw [hb]
      rfl
    · rw [hb]
      exact hp ch hs

/-- A character that does not separate comes next in the whole text if it does in the window. -/
theorem cons_of_append (h : w.IsClosed) {x : Char} (hx : ¬ Separates x) {cs ds : List Char}
    (hc : cs ++ w.behind = x :: ds) : ∃ es, cs = x :: es ∧ ds = es ++ w.behind := by
  cases cs with
  | cons ch cs =>
    obtain ⟨rfl, rfl⟩ := List.cons.inj hc
    exact ⟨cs, rfl, rfl⟩
  | nil =>
    rcases h.cases with hb | ⟨ch, cs, hb, hs⟩
    · rw [hb] at hc
      exact nomatch hc
    · rw [hb] at hc
      exact absurd (List.cons.inj hc).1 (hs.ne hx)

/-- Whether a character that does not separate comes next is seen in the stretch alone. -/
theorem beq_head (h : w.IsClosed) {x : Char} (hx : ¬ Separates x) (cs : List Char) :
    ((cs ++ w.behind).head? == some x) = (cs.head? == some x) := by
  have hany := h.any_head (p := (· == x)) (fun ch hs => by simpa using hs.ne hx) cs
  cases hl : (cs ++ w.behind).head? <;> cases hr : cs.head? <;> rw [hl, hr] at hany <;>
    simpa using hany

/-- What no separating character belongs to ends in the window. -/
theorem skipWhile (h : w.IsClosed) {p : Char → Bool} (hp : ∀ ch, Separates ch → p ch = false)
    (d : Cursor) : (w.widen d).skipWhile p = w.widen (d.skipWhile p) := by
  refine widen_skipWhile ?_
  rw [Cursor.skipWhile_eq, Holds]
  show _ ≤ ((d.rest ++ w.behind).dropWhile p).length
  have hbehind : w.behind.dropWhile p = w.behind := by
    rcases h.cases with hb | ⟨ch, cs, hb, hs⟩
    · rw [hb]
      rfl
    · rw [hb, List.dropWhile_cons, if_neg (by rw [hp ch hs]; exact Bool.false_ne_true)]
  rw [List.dropWhile_append]
  split
  · exact Nat.le_of_eq (congrArg List.length hbehind.symm)
  · rw [List.length_append]
    omega

end Window.IsClosed

namespace Lexer

open Window

variable {w : Window} {d : Cursor} (hw : w.IsClosed)
include hw

/-- A run of hexadecimal digits ends in the window. -/
theorem closed_hexRun (value count offset : Nat) (cs : List Char) :
    hexRun value count (offset + w.base) (cs ++ w.behind) =
      ⟨(hexRun value count offset cs).value, (hexRun value count offset cs).count,
        w.widen (hexRun value count offset cs).stop⟩ := by
  refine widen_hexRun ?_
  induction cs generalizing value count offset with
  | nil =>
    rcases hw.cases with hb | ⟨ch, cs, hb, hs⟩
    · simp [Holds, hb]
    · simp [Holds, hb, hexRun, hs.hexValue_eq]
  | cons ch cs ih =>
    cases hv : hexValue? ch with
    | none =>
      simp only [hexRun, hv, List.cons_append, Holds, List.length_cons, List.length_append]
      omega
    | some v =>
      simp only [List.cons_append, hexRun, hv, Nat.add_right_comm offset]
      exact ih ..

/-- So does what stands between braces. -/
theorem closed_braced (run : HexRun) :
    braced ⟨run.value, run.count, w.widen run.stop⟩ = ((braced run).1, w.widen (braced run).2) := by
  refine widen_braced ?_
  unfold braced
  split
  · rename_i cs _ hr
    obtain ⟨es, he, -⟩ := hw.cons_of_append (by decide) hr
    show w.Holds (w.widen run.stop).next
    rw [widen_next he]
    exact holds_widen
  · exact holds_widen

/-- The hexadecimal digits of an escape are all in the window. -/
theorem le_of_hexDigits {value n r : Nat} {cs : List Char}
    (h : hexDigits? value n (cs ++ w.behind) = some r) : n ≤ cs.length := by
  induction n generalizing value cs with
  | zero => exact Nat.zero_le _
  | succ n ih =>
    cases cs with
    | nil =>
      rcases hw.cases with hb | ⟨ch, cs, hb, hs⟩
      · simp [hb, hexDigits?] at h
      · simp [hb, hexDigits?, hs.hexValue_eq] at h
    | cons ch cs =>
      cases hv : hexValue? ch with
      | none => simp [hexDigits?, hv] at h
      | some v =>
        simp only [List.cons_append, hexDigits?, hv] at h
        exact Nat.succ_le_succ (ih h)

/-- An escape finds its digits in the whole text when it finds them in the stretch. -/
theorem closed_hexDigits (value n : Nat) (cs : List Char) :
    hexDigits? value n (cs ++ w.behind) = hexDigits? value n cs := by
  cases hv : hexDigits? value n (cs ++ w.behind) with
  | some r => exact (hexDigits_of_append hv (le_of_hexDigits hw hv)).symm
  | none =>
    cases hn : hexDigits? value n cs with
    | none => rfl
    | some r =>
      rw [(hexDigits_append hn w.behind).1] at hv
      exact nomatch hv

/-- The code point of an escape is the same. -/
theorem closed_codePoint (d : Cursor) :
    codePoint (w.widen d) = ((codePoint d).1, w.widen (codePoint d).2) := by
  by_cases hb : ∃ cs, d.rest = '\x7b' :: cs
  · obtain ⟨cs, hd⟩ := hb
    have hc : (w.widen d).rest = '\x7b' :: (cs ++ w.behind) := by
      rw [widen_rest, hd, List.cons_append]
    rw [codePoint_brace hc, codePoint_brace hd, widen_offset, Nat.add_right_comm,
      closed_hexRun hw, closed_braced hw]
  · have hc : ∀ cs, (w.widen d).rest ≠ '\x7b' :: cs := by
      intro cs hc
      obtain ⟨es, he, -⟩ := hw.cons_of_append (by decide) hc
      exact hb ⟨es, he⟩
    rw [codePoint_plain hc, codePoint_plain fun cs hd => hb ⟨cs, hd⟩, widen_rest,
      closed_hexDigits hw]
    cases hv : hexDigits? 0 4 d.rest with
    | none => rfl
    | some v => simp only [widen_advance (hexDigits_append hv []).2]

/-- A second half of a surrogate pair is found in the window or nowhere. -/
theorem closed_joinedChar (code : Nat) (d : Cursor) :
    joinedChar code (w.widen d) = ((joinedChar code d).1, w.widen (joinedChar code d).2) := by
  refine widen_joinedChar ?_
  rw [joinedChar_eq]
  cases hj : joined? code (w.widen d) with
  | none => exact holds_widen
  | some r =>
    obtain ⟨cs, low, hc, -, hp, -, -⟩ := joined_eq_some hj
    obtain ⟨ds, -, hds⟩ := hw.cons_of_append (by decide) hc
    obtain ⟨es, -, rfl⟩ := hw.cons_of_append (by decide) hds.symm
    have hread := closed_codePoint hw ⟨d.offset + 2, es⟩
    rw [widen_mk, Nat.add_right_comm] at hread
    rw [widen_offset, hread] at hp
    rw [Option.getD_some, ← (Prod.mk.inj hp).2]
    exact holds_widen

/-- A run of octal digits ends in the window. -/
theorem closed_octalRun (value limit : Nat) (d : Cursor) :
    octalRun value limit (w.widen d) =
      ((octalRun value limit d).1, w.widen (octalRun value limit d).2) := by
  refine widen_octalRun ?_
  induction limit generalizing value d with
  | zero => exact holds_widen
  | succ limit ih =>
    rw [octalRun]
    split
    · rename_i ch cs hc
      split
      · rename_i ho
        obtain ⟨es, he, -⟩ := hw.cons_of_append (fun hs => by
          have := hs.isDigit_eq
          simp only [isDigit, isOctalDigit, Bool.and_eq_false_iff, Bool.and_eq_true,
            decide_eq_true_eq, decide_eq_false_iff_not] at this ho
          rcases hs.cases with rfl | rfl | rfl | rfl <;> revert ho <;> decide) hc
        rw [widen_next he]
        exact ih ..
      · exact holds_widen
    · exact holds_widen

/-- An escape is read in the window, unless its backslash is the last character there. -/
theorem closed_escape (inTemplate : Bool) {d : Cursor} (hd : d.rest ≠ []) :
    escape inTemplate (w.widen d) =
      ⟨(escape inTemplate d).meaning, w.widen (escape inTemplate d).stop⟩ := by
  obtain ⟨ch, cs, hd⟩ := List.exists_cons_of_ne_nil hd
  have hc : (w.widen d).rest = ch :: (cs ++ w.behind) := by rw [widen_rest, hd, List.cons_append]
  have hr : d.next.rest = cs := by rw [Cursor.next_eq hd]
  change Widened w (escape inTemplate (w.widen d)) (escape inTemplate d)
  simp only [escape, hc, hd, widen_next hd, hw.any_head (fun _ hs => hs.isDigit_eq) cs]
  generalize d.next = e at hr ⊢
  subst hr
  cases letterEscape? ch with
  | some plain => rfl
  | none =>
    refine ite_rel (fun _ => rfl) fun _ => ?_
    refine ite_rel (fun _ => ite_rel (fun _ => rfl) fun _ => ?_) fun _ => ?_
    · simp only [closed_octalRun hw]
      rfl
    refine ite_rel (fun _ => rfl) fun _ => ?_
    refine ite_rel (fun _ => ?_) fun _ => ?_
    · rw [closed_hexDigits hw]
      cases hv : hexDigits? 0 2 e.rest with
      | none => rfl
      | some v => exact congrArg (Escape.mk _) (widen_advance (hexDigits_append hv []).2)
    refine ite_rel (fun _ => ?_) fun _ => ?_
    · rw [closed_codePoint hw]
      generalize codePoint e = read
      obtain ⟨r, stop⟩ := read
      cases r with
      | error problem => rfl
      | ok code =>
        simp only [closed_joinedChar hw]
        rfl
    refine ite_rel (fun _ => ?_) fun _ => ite_rel (fun _ => rfl) fun _ => rfl
    refine congrArg (Escape.mk _) ?_
    rw [hw.beq_head (x := '\n') (by decide)]
    split
    · rename_i hn
      obtain ⟨xs, hx⟩ : ∃ xs, e.rest = '\n' :: xs := by
        cases hr : e.rest with
        | nil => simp [hr] at hn
        | cons x xs => exact ⟨xs, by simpa [hr] using hn⟩
      exact widen_next hx
    · rfl

/-- The rest of a name with escapes, if none of them is wrong. -/
theorem closed_escapedName {d : Cursor} {name chars : List Char} {stop : Cursor}
    (h : escapedName name d = (.ok chars, stop)) :
    escapedName name (w.widen d) = (.ok chars, w.widen stop) := by
  induction hn : d.rest.length using Nat.strongRecOn generalizing name d with
  | _ n ih =>
    cases hd : d.rest with
    | nil =>
      rw [escapedName_nil hd] at h
      cases h
      rcases hw.cases with hb | ⟨ch, cs, hb, hs⟩
      · rw [escapedName_nil (by rw [widen_rest, hd, hb]; rfl)]
      · have hc : (w.widen stop).rest = ch :: cs := by rw [widen_rest, hd, hb]; rfl
        rw [escapedName_char hc (hs.ne (by decide)), hs.isNamePart_eq,
          if_neg Bool.false_ne_true]
    | cons ch cs =>
      have hc : (w.widen d).rest = ch :: (cs ++ w.behind) := by
        rw [widen_rest, hd, List.cons_append]
      by_cases hb : ch = '\\'
      · subst hb
        by_cases hu : ∃ ds, cs = 'u' :: ds
        · obtain ⟨ds, rfl⟩ := hu
          have hread := closed_codePoint hw ⟨d.offset + 2, ds⟩
          rw [widen_mk, Nat.add_right_comm] at hread
          rw [escapedName_unicode hd] at h
          rw [List.cons_append] at hc
          rw [escapedName_unicode hc, widen_offset, hread]
          have hl := length_codePoint_le ⟨d.offset + 2, ds⟩
          generalize codePoint ⟨d.offset + 2, ds⟩ = read at h hl ⊢
          obtain ⟨r, place⟩ := read
          cases r with
          | error problem => exact nomatch h
          | ok code =>
            simp only at h hl ⊢
            split at h
            · rename_i hv
              rw [if_pos hv]
              refine ih place.rest.length ?_ h rfl
              rw [← hn, hd, List.length_cons, List.length_cons]
              omega
            · exact nomatch h
        · rw [escapedName_backslash hd fun ds hds => hu ⟨ds, hds⟩] at h
          exact nomatch h
      · rw [escapedName_char hd hb] at h
        rw [escapedName_char hc hb, widen_offset, Nat.add_right_comm, ← widen_mk]
        split at h
        · rename_i hp
          rw [if_pos hp]
          exact ih cs.length (by rw [← hn, hd]; exact Nat.lt_succ_self _) h rfl
        · rename_i hp
          rw [if_neg hp]
          cases h
          rfl

/-- A word without a fault. -/
theorem closed_word (hf : (word d).faults = []) : word (w.widen d) = (word d).widen w := by
  have hskip := hw.skipWhile (fun _ hs => hs.isNamePart_eq) d
  by_cases hb : ∃ cs, (d.skipWhile isNamePart).rest = '\\' :: cs
  · obtain ⟨cs, hb⟩ := hb
    have hc : ((w.widen d).skipWhile isNamePart).rest = '\\' :: (cs ++ w.behind) := by
      rw [hskip, widen_rest, hb, List.cons_append]
    rw [word_escaped hb] at hf ⊢
    rw [word_escaped hc, hskip, widen_charsUntil (Cursor.reaches_skipWhile _ _)]
    obtain ⟨name, stop, hn⟩ : ∃ name stop,
        escapedName (d.charsUntil (d.skipWhile isNamePart)).reverse (d.skipWhile isNamePart) =
          (.ok name, stop) := by
      unfold escapedWord at hf
      split at hf
      · rename_i name stop hn
        exact ⟨name, stop, hn⟩
      · exact nomatch hf
    rw [hn, closed_escapedName hw hn]
    rfl
  · have hc : ∀ cs, ((w.widen d).skipWhile isNamePart).rest ≠ '\\' :: cs := by
      intro cs hc
      rw [hskip, widen_rest] at hc
      obtain ⟨es, he, -⟩ := hw.cons_of_append (by decide) hc
      exact hb ⟨es, he⟩
    rw [word_plain hc, word_plain fun cs hd => hb ⟨cs, hd⟩, hskip,
      widen_textUntil (Cursor.reaches_skipWhile _ _)]
    rfl

/-- A private name without a fault. -/
theorem closed_privateWord {x : Char} {xs : List Char} (hd : d.rest = x :: xs)
    (hf : (privateWord d).faults = []) : privateWord (w.widen d) = (privateWord d).widen w := by
  obtain ⟨ch, cs, hn, h⟩ := privateWord_cases hf
  have hc : (w.widen d).next.rest = ch :: (cs ++ w.behind) := by
    rw [widen_next hd, widen_rest, hn, List.cons_append]
  rw [privateWord_of hn h] at hf ⊢
  rw [privateWord_of hc h, widen_next hd, closed_word hw hf]
  rfl

/-- A run of digits without a fault, from any place in it. -/
theorem closed_digitRun {valid : Char → Bool} (hv : ∀ ch, Separates ch → valid ch = false)
    {count : Nat} {separated dangling : Bool} {offset : Nat} {cs : List Char}
    (hf : (digitRun valid count separated dangling [] offset cs).faults = []) :
    digitRun valid count separated dangling [] (offset + w.base) (cs ++ w.behind) =
      (digitRun valid count separated dangling [] offset cs).widen w := by
  induction cs generalizing count separated dangling offset with
  | nil =>
    have hd : dangling = false := by
      cases dangling with
      | true => cases hf
      | false => rfl
    subst hd
    rcases hw.cases with hb | ⟨ch, cs, hb, hs⟩
    · rw [hb]
      exact congrArg (DigitRun.mk count separated []) (by rw [widen_mk, hb]; rfl)
    · have hu : ¬ (ch == '_') = true := by simpa using hs.ne (by decide)
      simp only [hb, List.nil_append, digitRun, if_neg hu, hv ch hs, Bool.false_eq_true, if_false]
      exact congrArg (DigitRun.mk count separated []) (by rw [widen_mk, hb]; rfl)
  | cons ch cs ih =>
    rw [digitRun] at hf
    rw [List.cons_append, digitRun, digitRun]
    split
    · rename_i hu
      rw [if_pos hu] at hf
      have hc : ¬ (count == 0 || dangling) = true := by
        intro hc
        rw [if_pos hc] at hf
        cases digitRun_faults hf
      rw [if_neg hc] at hf
      rw [if_neg hc, if_neg hc, Nat.add_right_comm]
      exact ih hf
    · rename_i hu
      rw [if_neg hu] at hf
      split
      · rename_i hd
        rw [if_pos hd] at hf
        rw [Nat.add_right_comm]
        exact ih hf
      · rename_i hd
        rw [if_neg hd] at hf
        cases dangling with
        | true => cases hf
        | false => rfl

/-- A run of digits without a fault. -/
theorem closed_digits {valid : Char → Bool} (hv : ∀ ch, Separates ch → valid ch = false)
    (hf : (digits valid d).faults = []) :
    digits valid (w.widen d) = (digits valid d).widen w :=
  closed_digitRun hw hv hf

/-- A number's fraction without a fault. -/
theorem closed_fraction {scan : NumberScan} (hf : scan.fraction.faults = []) :
    (scan.widen w).fraction = scan.fraction.widen w := by
  by_cases hdot : ∃ cs, scan.stop.rest = '.' :: cs
  · obtain ⟨cs, hd⟩ := hdot
    have hc : (scan.widen w).stop.rest = '.' :: (cs ++ w.behind) := by
      rw [NumberScan.widen, widen_rest, hd, List.cons_append]
    have hn : (scan.widen w).stop.next = w.widen scan.stop.next := widen_next hd
    rw [NumberScan.fraction_dot hd] at hf ⊢
    rw [NumberScan.fraction_dot hc, hw.any_head (fun ch hs => by
      rw [hs.isDigit_eq, Bool.false_or]
      simpa using hs.ne (by decide))]
    split
    · rename_i hx
      rw [if_pos hx] at hf
      rw [hn, closed_digits hw (fun _ hs => hs.isDigit_eq) (List.append_eq_nil_iff.mp hf).2]
      exact NumberScan.widen_withDigits { scan with integer := false, stop := scan.stop.next } _
    · rw [hn]
      rfl
  · have hc : ∀ cs, (scan.widen w).stop.rest ≠ '.' :: cs := by
      intro cs hc
      obtain ⟨es, he, -⟩ := hw.cons_of_append (by decide) hc
      exact hdot ⟨es, he⟩
    rw [NumberScan.fraction_plain hc, NumberScan.fraction_plain fun cs hc => hdot ⟨cs, hc⟩]

/-- Whether an exponent comes is seen in the stretch alone. -/
theorem closed_exponentStart (d : Cursor) :
    NumberScan.exponentStart? (w.widen d) = (NumberScan.exponentStart? d).map w.widen := by
  cases hd : d.rest with
  | nil =>
    rcases hw.cases with hb | ⟨ch, cs, hb, hs⟩
    · simp [NumberScan.exponentStart?, hd, hb]
    · have he : ch ≠ 'e' := hs.ne (by decide)
      have hE : ch ≠ 'E' := hs.ne (by decide)
      simp [NumberScan.exponentStart?, hd, hb, he, hE]
  | cons ch cs =>
    have hc : (w.widen d).rest = ch :: (cs ++ w.behind) := by rw [widen_rest, hd, List.cons_append]
    have hany : ∀ e : Cursor, (w.widen e).rest.head?.any isDigit = e.rest.head?.any isDigit :=
      fun e => hw.any_head (fun _ hs => hs.isDigit_eq) e.rest
    have hsign : ∀ e : Cursor, (w.widen e).rest.head?.any (fun s => s == '+' || s == '-') =
        e.rest.head?.any fun s => s == '+' || s == '-' := fun e => hw.any_head (fun ch hs => by
      have hplus : ch ≠ '+' := hs.ne (by decide)
      have hminus : ch ≠ '-' := hs.ne (by decide)
      simp [hplus, hminus]) e.rest
    simp only [NumberScan.exponentStart?, hc, hd, widen_next hd, hsign]
    split
    · split
      · rename_i hs
        obtain ⟨x, xs, hx⟩ : ∃ x xs, d.next.rest = x :: xs := by
          cases hr : d.next.rest with
          | nil => simp [hr] at hs
          | cons x xs => exact ⟨x, xs, rfl⟩
        rw [widen_next hx, hany]
        split <;> rfl
      · rw [hany]
        split <;> rfl
    · rfl

/-- A number's exponent without a fault. -/
theorem closed_exponent {scan : NumberScan} (hf : scan.exponent.faults = []) :
    (scan.widen w).exponent = scan.exponent.widen w := by
  unfold NumberScan.exponent at hf ⊢
  rw [NumberScan.widen, closed_exponentStart hw]
  cases he : NumberScan.exponentStart? scan.stop with
  | none => rfl
  | some start =>
    rw [he] at hf
    simp only [NumberScan.withDigits] at hf
    simp only [Option.map_some,
      closed_digits hw (fun _ hs => hs.isDigit_eq) (List.append_eq_nil_iff.mp hf).2]
    exact NumberScan.widen_withDigits
      { scan with integer := false, flags := { scan.flags with scientific := true } } _

/-- The end of a number whose suffix has been read. -/
theorem closed_close {isBig : Bool} {scan : NumberScan} {start : Cursor}
    (hr : start.Reaches scan.stop) (hf : (NumberScan.close isBig scan start).faults = []) :
    NumberScan.close isBig (scan.widen w) (w.widen start) =
      (NumberScan.close isBig scan start).widen w := by
  refine NumberScan.widen_close hr ?_
  have hnarrow := NumberScan.close_of_faults hf
  have hwide : ((scan.widen w).stop.peek?.any fun ch =>
      isNameStart ch || isDigit ch || ch == '\\') = false := by
    rw [← hnarrow]
    refine hw.any_head (fun ch hs => ?_) scan.stop.rest
    rw [hs.isNameStart_eq, hs.isDigit_eq]
    simpa using hs.ne (by decide)
  rw [NumberScan.close, hwide, if_neg Bool.false_ne_true]
  exact holds_widen

/-- The end of a number, with its suffix if it has one. -/
theorem closed_finish (scan : NumberScan) {start : Cursor} {bigIntAllowed : Bool}
    (hr : start.Reaches scan.stop) (hf : (scan.finish start bigIntAllowed).faults = []) :
    (scan.widen w).finish (w.widen start) bigIntAllowed =
      (scan.finish start bigIntAllowed).widen w := by
  rw [NumberScan.finish_eq] at hf ⊢
  rw [NumberScan.finish_eq]
  have hp : ((scan.widen w).stop.peek? == some 'n') = (scan.stop.peek? == some 'n') :=
    hw.beq_head (by decide) scan.stop.rest
  rw [hp]
  split
  · rename_i hb
    rw [if_pos hb] at hf
    obtain ⟨xs, hx⟩ : ∃ xs, scan.stop.rest = 'n' :: xs := by
      cases hr : scan.stop.rest with
      | nil => simp [Cursor.peek?, hr] at hb
      | cons x xs =>
        simp only [Cursor.peek?, hr, List.head?_cons, Bool.and_eq_true, beq_iff_eq,
          Option.some.injEq] at hb
        exact ⟨xs, by rw [hb.2]⟩
    have hn : ({ scan.widen w with stop := (scan.widen w).stop.next } : NumberScan) =
        NumberScan.widen w { scan with stop := scan.stop.next } := by
      rw [NumberScan.widen, NumberScan.widen, widen_next hx]
    rw [hn]
    exact closed_close hw (hr.trans (Cursor.reaches_next _)) hf
  · rename_i hb
    rw [if_neg hb] at hf
    exact closed_close hw hr hf

/-- The fraction, the exponent and the end of a number. -/
theorem closed_decimals (scan : NumberScan) {start : Cursor} (bigIntAllowed : NumberScan → Bool)
    (hi : ∀ scan : NumberScan, bigIntAllowed (scan.widen w) = bigIntAllowed scan)
    (hr : start.Reaches scan.stop)
    (hf : (scan.fraction.exponent.finish start
      (bigIntAllowed scan.fraction.exponent)).faults = []) :
    (scan.widen w).fraction.exponent.finish (w.widen start)
        (bigIntAllowed (scan.widen w).fraction.exponent) =
      (scan.fraction.exponent.finish start (bigIntAllowed scan.fraction.exponent)).widen w := by
  have he := NumberScan.faults_of_finish hf
  rw [closed_fraction hw (NumberScan.faults_of_exponent he), closed_exponent hw he, hi]
  exact closed_finish hw _
    (hr.trans ((NumberScan.reaches_fraction _).trans (NumberScan.reaches_exponent _))) hf

/-- A number with a radix. -/
theorem closed_radixNumber {valid : Char → Bool} (hv : ∀ ch, Separates ch → valid ch = false)
    {flags : TokenFlags} {a b : Char} {cs : List Char} (hd : d.rest = a :: b :: cs)
    (hf : (radixNumber d valid flags).faults = []) :
    radixNumber (w.widen d) valid flags = (radixNumber d valid flags).widen w := by
  have hmark : (w.widen d).advance 2 = w.widen (d.advance 2) :=
    widen_advance (by rw [hd, List.length_cons, List.length_cons]; omega)
  rw [radixNumber_eq] at hf ⊢
  rw [radixNumber_eq, hmark]
  have hcount : ¬ ((digits valid (d.advance 2)).count == 0) = true := by
    intro hz
    rw [radix, if_pos hz] at hf
    exact absurd (List.append_eq_nil_iff.mp hf).2 (by simp)
  rw [radix, if_neg hcount] at hf
  have hnone : (digits valid (d.advance 2)).faults = [] :=
    (List.append_eq_nil_iff.mp (NumberScan.faults_of_finish hf)).2
  have hwide : ¬ (((digits valid (d.advance 2)).widen w).count == 0) = true := hcount
  rw [closed_digits hw hv hnone, radix, if_neg hwide, radix, if_neg hcount]
  exact closed_finish hw (.withDigits { flags, stop := d } (digits valid (d.advance 2)))
    ((Cursor.reaches_advance 2 d).trans (reaches_digits valid _)) hf

/-- A number with a leading zero. -/
theorem closed_leadingZeroNumber (hf : (leadingZeroNumber d).faults = []) :
    leadingZeroNumber (w.widen d) = (leadingZeroNumber d).widen w := by
  have hr := Cursor.reaches_skipWhile isDigit d
  rw [leadingZeroNumber_eq] at hf ⊢
  rw [leadingZeroNumber_eq, hw.skipWhile (fun _ hs => hs.isDigit_eq), widen_charsUntil hr]
  split
  · rename_i ho
    rw [if_pos ho] at hf
    exact closed_finish hw { flags := { legacyOctal := true }, stop := d.skipWhile isDigit } hr hf
  · rename_i ho
    rw [if_neg ho] at hf
    exact closed_decimals hw { stop := d.skipWhile isDigit } (fun _ => false) (fun _ => rfl) hr hf

/-- A decimal number. -/
theorem closed_decimalNumber {ch : Char} {cs : List Char} (hd : d.rest = ch :: cs)
    (hf : (decimalNumber d).faults = []) :
    decimalNumber (w.widen d) = (decimalNumber d).widen w := by
  have hp : (w.widen d).peek? = d.peek? := by
    rw [Cursor.peek?, Cursor.peek?, widen_rest, hd]
    rfl
  by_cases hdot : (d.peek? == some '.') = true
  · rw [decimalNumber_dot hdot] at hf ⊢
    rw [decimalNumber_dot (by rw [hp]; exact hdot)]
    exact closed_decimals hw { stop := d } NumberScan.integer (fun _ => rfl) (.refl d) hf
  · rw [decimalNumber_digit hdot] at hf ⊢
    rw [decimalNumber_digit (by rw [hp]; exact hdot)]
    have hfraction := NumberScan.faults_of_fraction
      (NumberScan.faults_of_exponent (NumberScan.faults_of_finish hf))
    rw [closed_digits hw (fun _ hs => hs.isDigit_eq) (List.append_eq_nil_iff.mp hfraction).2]
    exact closed_decimals hw (.withDigits { stop := d } (digits isDigit d))
      NumberScan.integer (fun _ => rfl) (reaches_digits isDigit d) hf

/-- A number of any form. -/
theorem closed_numberLiteral {ch : Char} {cs : List Char} (hd : d.rest = ch :: cs)
    (hf : (numberLiteral d).faults = []) :
    numberLiteral (w.widen d) = (numberLiteral d).widen w := by
  have hhex : ∀ ch, Separates ch → isHexDigit ch = false := by
    intro ch hs
    rw [isHexDigit, hs.hexValue_eq]
    rfl
  have hoctal : ∀ ch, Separates ch → isOctalDigit ch = false := by
    intro ch hs
    rcases hs.cases with rfl | rfl | rfl | rfl <;> rfl
  have hbinary : ∀ ch, Separates ch → isBinaryDigit ch = false := by
    intro ch hs
    rcases hs.cases with rfl | rfl | rfl | rfl <;> rfl
  by_cases hz : ∃ x xs, d.rest = '0' :: x :: xs
  · obtain ⟨x, xs, hd'⟩ := hz
    have hc : (w.widen d).rest = '0' :: x :: (xs ++ w.behind) := by
      rw [widen_rest, hd']
      rfl
    rw [numberLiteral_zero hd'] at hf ⊢
    rw [numberLiteral_zero hc]
    split
    · rename_i h
      rw [if_pos h] at hf
      exact closed_radixNumber hw hhex hd' hf
    rename_i hx
    rw [if_neg hx] at hf
    split
    · rename_i h
      rw [if_pos h] at hf
      exact closed_radixNumber hw hoctal hd' hf
    rename_i ho
    rw [if_neg ho] at hf
    split
    · rename_i h
      rw [if_pos h] at hf
      exact closed_radixNumber hw hbinary hd' hf
    rename_i hbin
    rw [if_neg hbin] at hf
    split
    · rename_i h
      rw [if_pos h] at hf
      exact closed_leadingZeroNumber hw hf
    · rename_i h
      rw [if_neg h] at hf
      exact closed_decimalNumber hw hd' hf
  · have hnarrow := numberLiteral_plain (c := d) fun x xs h => hz ⟨x, xs, h⟩
    rw [hnarrow] at hf ⊢
    rw [← closed_decimalNumber hw hd hf]
    by_cases hwide : ∃ x xs, (w.widen d).rest = '0' :: x :: xs
    · obtain ⟨x, xs, hc⟩ := hwide
      have hc' := hc
      rw [widen_rest, hd, List.cons_append] at hc'
      obtain ⟨rfl, hbehind⟩ := List.cons.inj hc'
      cases cs with
      | cons y ys => exact absurd ⟨y, ys, hd⟩ hz
      | nil =>
        -- Behind a zero at the end of the window comes no marker of a radix and no digit.
        rcases hw.cases with hb | ⟨y, ys, hb, hs⟩
        · rw [hb] at hbehind
          exact nomatch hbehind
        · rw [hb] at hbehind
          obtain ⟨rfl, -⟩ := List.cons.inj hbehind
          rw [numberLiteral_zero hc]
          rcases hs.cases with rfl | rfl | rfl | rfl <;> rfl
    · exact numberLiteral_plain fun x xs h => hwide ⟨x, xs, h⟩

/-- The content of a string that is closed in the stretch. -/
theorem closed_stringBody {quote : Char} {value : List Char}
    (hclosed : (stringBody quote value [] d).closed = true)
    (hf : (stringBody quote value [] d).faults = []) :
    stringBody quote value [] (w.widen d) = (stringBody quote value [] d).widen w := by
  induction hn : d.rest.length using Nat.strongRecOn generalizing value d with
  | _ n ih =>
    cases hd : d.rest with
    | nil =>
      rw [stringBody_nil hd] at hclosed
      exact nomatch hclosed
    | cons ch cs =>
      have hc : (w.widen d).rest = ch :: (cs ++ w.behind) := by
        rw [widen_rest, hd, List.cons_append]
      rw [stringBody_cons hd] at hclosed hf ⊢
      rw [stringBody_cons hc, widen_step, widen_step]
      split
      · rfl
      rename_i hq
      rw [if_neg hq] at hclosed hf
      split
      · rename_i hb
        rw [if_pos hb] at hclosed hf
        have hl := length_escape_le false ⟨d.offset + 1, cs⟩
        have hlt : (escape false ⟨d.offset + 1, cs⟩).stop.rest.length < n := by
          rw [← hn, hd]
          exact Nat.lt_succ_of_le hl
        cases hm : (escape false ⟨d.offset + 1, cs⟩).meaning with
        | error problem =>
          simp only [hm] at hf
          cases stringBody_faults hf
        | ok chars =>
          simp only [hm] at hclosed hf
          have hne : cs ≠ [] := by
            rintro rfl
            have hlong := length_stringBody_closed hclosed
            rw [List.length_eq_zero_iff.mp (Nat.le_zero.mp hl)] at hlong
            exact absurd hlong (Nat.not_lt_zero _)
          rw [closed_escape hw false (d := ⟨d.offset + 1, cs⟩) hne]
          simp only [hm]
          exact ih _ hlt hclosed hf rfl
      · rename_i hb
        rw [if_neg hb] at hclosed hf
        split
        · rename_i hline
          rw [if_pos hline] at hclosed
          exact nomatch hclosed
        · rename_i hline
          rw [if_neg hline] at hclosed hf
          exact ih cs.length (by rw [← hn, hd]; exact Nat.lt_succ_self _) hclosed hf rfl

/-- A string without a fault. -/
theorem closed_stringLiteral {quote ch : Char} {cs : List Char} (hd : d.rest = ch :: cs)
    (hf : (stringLiteral quote d).faults = []) :
    stringLiteral quote (w.widen d) = (stringLiteral quote d).widen w := by
  rw [stringLiteral_eq] at hf ⊢
  obtain ⟨hclosed, hnone⟩ := StringBody.closed_of_faults hf
  rw [stringLiteral_eq, widen_next hd, closed_stringBody hw hclosed hnone]
  have hwide : ((stringBody quote [] [] d.next).widen w).closed = true := hclosed
  rw [StringBody.toLexeme, StringBody.toLexeme, if_pos hclosed, if_pos hwide]
  rfl

/-- A chunk of a template that ends in the stretch. -/
theorem closed_templateChunk {cooked raw : List Char} {valid : Bool}
    (he : (templateChunk cooked raw valid d).ending ≠ .missing) :
    templateChunk cooked raw valid (w.widen d) = (templateChunk cooked raw valid d).widen w := by
  induction hn : d.rest.length using Nat.strongRecOn generalizing cooked raw valid d with
  | _ n ih =>
    have hlong := length_templateChunk_ended he
    cases hd : d.rest with
    | nil =>
      rw [hd] at hlong
      exact absurd hlong (Nat.not_lt_zero _)
    | cons ch cs =>
      have hc : (w.widen d).rest = ch :: (cs ++ w.behind) := by
        rw [widen_rest, hd, List.cons_append]
      have hlt : cs.length < n := by
        rw [← hn, hd]
        exact Nat.lt_succ_self _
      by_cases hquote : ch = '\x60'
      · subst hquote
        rw [templateChunk_quote hc, templateChunk_quote hd, widen_step]
        rfl
      by_cases hescape : ch = '\\'
      · subst hescape
        rw [templateChunk_escape hd] at he ⊢
        rw [templateChunk_escape hc, widen_step]
        have hl := length_escape_le true ⟨d.offset + 1, cs⟩
        have hr : d.Reaches (escape true ⟨d.offset + 1, cs⟩).stop :=
          (Cursor.reaches_cons hd).trans (reaches_escape true ⟨d.offset + 1, cs⟩)
        have hended : ∀ {cooked raw valid},
            (templateChunk cooked raw valid (escape true ⟨d.offset + 1, cs⟩).stop).ending ≠
              .missing → cs ≠ [] := by
          rintro cooked raw valid he rfl
          have hlong := length_templateChunk_ended he
          rw [List.length_eq_zero_iff.mp (Nat.le_zero.mp hl)] at hlong
          exact absurd hlong (Nat.not_lt_zero _)
        unfold behindEscape at he
        cases hm : (escape true ⟨d.offset + 1, cs⟩).meaning with
        | ok chars =>
          simp only [hm] at he
          rw [closed_escape hw true (d := ⟨d.offset + 1, cs⟩) (hended he)]
          simp only [behindEscape, hm, widen_charsUntil hr]
          exact ih _ (Nat.lt_of_le_of_lt hl hlt) he rfl
        | error problem =>
          simp only [hm] at he
          rw [closed_escape hw true (d := ⟨d.offset + 1, cs⟩) (hended he)]
          simp only [behindEscape, hm, widen_charsUntil hr]
          exact ih _ (Nat.lt_of_le_of_lt hl hlt) he rfl
      by_cases hreturn : ch = '\r'
      · subst hreturn
        by_cases hline : ∃ ds, cs = '\n' :: ds
        · obtain ⟨ds, rfl⟩ := hline
          rw [templateChunk_lineEnd hd] at he ⊢
          rw [List.cons_append] at hc
          rw [templateChunk_lineEnd hc, widen_step]
          exact ih ds.length (Nat.lt_trans (Nat.lt_succ_self _) hlt) he rfl
        · have hwide : ∀ ds, cs ++ w.behind ≠ '\n' :: ds := by
            intro ds h
            obtain ⟨es, he, -⟩ := hw.cons_of_append (by decide) h
            exact hline ⟨es, he⟩
          rw [templateChunk_return hd fun ds h => hline ⟨ds, h⟩] at he ⊢
          rw [templateChunk_return hc hwide, widen_step]
          exact ih cs.length hlt he rfl
      by_cases hsub : ch = '$' ∧ ∃ ds, cs = '\x7b' :: ds
      · obtain ⟨rfl, ds, rfl⟩ := hsub
        rw [List.cons_append] at hc
        rw [templateChunk_substitution hd, templateChunk_substitution hc, widen_step]
        rfl
      · have hwide : ∀ ds, ch = '$' → cs ++ w.behind ≠ '\x7b' :: ds := by
          intro ds hch h
          obtain ⟨es, he, -⟩ := hw.cons_of_append (by decide) h
          exact hsub ⟨hch, es, he⟩
        rw [templateChunk_char hd hquote (fun ds h hc => hsub ⟨h, ds, hc⟩) hescape hreturn] at he ⊢
        rw [templateChunk_char hc hquote hwide hescape hreturn, widen_step]
        exact ih cs.length hlt he rfl

omit hw in
/-- A chunk without faults comes to its end. -/
theorem TemplateChunk.ended_of_faults {chunk : TemplateChunk} {whole opening : TokenKind}
    {start : Nat} (h : (chunk.toLexeme whole opening start).faults = []) :
    chunk.ending ≠ .missing := by
  intro hm
  simp [toLexeme, hm] at h

/-- A template up to its first substitution, without a fault. -/
theorem closed_templateStart {ch : Char} {cs : List Char} (hd : d.rest = ch :: cs)
    (hf : (templateStart d).faults = []) :
    templateStart (w.widen d) = (templateStart d).widen w := by
  have he := TemplateChunk.ended_of_faults hf
  unfold templateStart
  rw [widen_next hd, closed_templateChunk hw he]
  exact TemplateChunk.widen_toLexeme ..

omit hw in
/-- The body of a regular expression that is closed in the window ends there. -/
theorem closed_regexBody {inClass : Bool} {offset : Nat} {cs ds : List Char}
    (h : (regexBody inClass offset cs).rest = '/' :: ds) :
    regexBody inClass (offset + w.base) (cs ++ w.behind) =
      w.widen (regexBody inClass offset cs) := by
  induction hn : cs.length using Nat.strongRecOn generalizing inClass offset cs with
  | _ n ih =>
    cases cs with
    | nil => exact nomatch h
    | cons c cs =>
      by_cases hb : c = '\\'
      · subst hb
        cases cs with
        | nil => simp [regexBody, isLineBreak] at h
        | cons x xs =>
          rw [regexBody_escape] at h ⊢
          rw [List.cons_append, List.cons_append, regexBody_escape, Nat.add_right_comm offset,
            Nat.add_right_comm (offset + 1)]
          split
          · rfl
          · rename_i hx
            rw [if_neg hx] at h
            exact ih xs.length (by rw [← hn]; simp only [List.length_cons]; omega) h rfl
      · have hne : ∀ (ds : List Char) x xs, c = '\\' → ds ≠ x :: xs := fun _ _ _ hc => absurd hc hb
        rw [regexBody_char (hne _)] at h ⊢
        rw [List.cons_append, regexBody_char (hne _), Nat.add_right_comm offset]
        split
        · rfl
        · rename_i hstop
          rw [if_neg hstop] at h
          exact ih cs.length (by rw [← hn]; exact Nat.lt_succ_self _) h rfl

/-- A regular expression without a fault. -/
theorem closed_regexLiteral {ch : Char} {cs : List Char} (hd : d.rest = ch :: cs)
    (hf : (regexLiteral d).faults = []) :
    regexLiteral (w.widen d) = (regexLiteral d).widen w := by
  rw [regexLiteral_eq] at hf ⊢
  obtain ⟨ds, hbody⟩ := regexFrom_closed hf
  have hreach : d.next.Reaches (regexBody false d.next.offset d.next.rest) :=
    reaches_regexBody false d.next.offset d.next.rest
  rw [regexLiteral_eq, widen_next hd, widen_offset, widen_rest, closed_regexBody hbody]
  generalize regexBody false d.next.offset d.next.rest = body at hf hbody hreach ⊢
  have hwide : (w.widen body).rest = '/' :: (ds ++ w.behind) := by
    rw [widen_rest, hbody, List.cons_append]
  rw [regexFrom_slash hbody] at hf ⊢
  have hvalid : validRegexFlags (body.next.charsUntil (body.next.skipWhile isNamePart)) = true := by
    cases hv : validRegexFlags (body.next.charsUntil (body.next.skipWhile isNamePart)) with
    | true => rfl
    | false => simp [hv] at hf
  rw [regexFrom_slash hwide, widen_next hbody, hw.skipWhile (fun _ hs => hs.isNamePart_eq),
    widen_charsUntil (Cursor.reaches_skipWhile isNamePart body.next), if_pos hvalid,
    if_pos hvalid, widen_textUntil hreach]
  rfl

omit hw in
private theorem separates_tail (p : Punctuator) : ∀ ch ∈ p.text.toList.tail, ¬ Separates ch := by
  have h : p.text.toList.tail.all (fun ch => !decide (Separates ch)) = true := by cases p <;> decide
  exact fun ch hch => by simpa using List.all_eq_true.mp h ch hch

/-- A text whose first character is in the window starts with the same punctuator there. -/
theorem closed_startOf {cs : List Char} (hcs : cs ≠ []) :
    Punctuator.startOf? (cs ++ w.behind) = Punctuator.startOf? cs := by
  obtain ⟨ch, cs, rfl⟩ := List.exists_cons_of_ne_nil hcs
  refine congrArg (Punctuator.longestFirst.find? ·) (funext fun p => ?_)
  rw [Bool.eq_iff_iff, List.isPrefixOf_iff_prefix, List.isPrefixOf_iff_prefix]
  refine ⟨fun h => ?_, fun h => h.trans (List.prefix_append _ _)⟩
  refine List.prefix_of_prefix_length_le h (List.prefix_append _ _) (Nat.le_of_not_lt fun hlt => ?_)
  -- A punctuator that is cut off goes on with the character behind the window.
  obtain ⟨rest, h⟩ := h
  cases hp : p.text.toList with
  | nil => simp [hp] at hlt
  | cons x xs =>
    have hnone := separates_tail p
    rw [hp] at h hlt hnone
    obtain ⟨rfl, htail⟩ := List.cons.inj h
    replace htail : xs ++ rest = cs ++ w.behind := htail
    replace hlt : cs.length < xs.length := Nat.lt_of_succ_lt_succ hlt
    rcases hw.cases with hb | ⟨y, ys, hb, hs⟩
    · have hl := congrArg List.length htail
      rw [hb, List.append_nil, List.length_append] at hl
      omega
    · refine hnone y ?_ hs
      rw [hb] at htail
      rcases List.append_eq_append_iff.mp htail with ⟨as, rfl, hc⟩ | ⟨as, rfl, hc⟩
      · rw [List.length_append] at hlt
        omega
      · cases as with
        | nil => simp at hlt
        | cons a as =>
          rw [List.cons_append] at hc
          rw [(List.cons.inj hc).1]
          simp

/-- Whether a fraction comes is seen in the stretch alone. -/
theorem closed_startsFraction (cs : List Char) :
    startsFraction (cs ++ w.behind) = startsFraction cs := by
  unfold startsFraction
  rw [hw.beq_head (by decide)]
  cases cs with
  | nil => rfl
  | cons x xs =>
    rw [List.cons_append, List.tail_cons, List.tail_cons, hw.any_head fun _ hs => hs.isDigit_eq]

/-- A token without faults that starts in the window is read in the whole text too. -/
theorem closed_lexeme {regexAllowed : Bool} {l : Lexeme} (h : lexeme? regexAllowed d = some l)
    (hf : l.faults = []) : lexeme? regexAllowed (w.widen d) = some (l.widen w) := by
  cases hd : d.rest with
  | nil =>
    rw [lexeme?, hd] at h
    cases h
  | cons ch cs =>
    have hc : (w.widen d).rest = ch :: (cs ++ w.behind) := by
      rw [widen_rest, hd, List.cons_append]
    simp only [lexeme?, hd, Option.some.injEq, Bool.and_assoc] at h
    simp only [lexeme?, hc, Option.some.injEq, Bool.and_assoc, hw.any_head fun _ hs =>
      hs.isDigit_eq]
    subst h
    by_cases hquote : (ch == '"' || ch == '\'') = true
    · rw [if_pos hquote] at hf ⊢
      rw [if_pos hquote]
      exact closed_stringLiteral hw hd hf
    rw [if_neg hquote] at hf ⊢
    rw [if_neg hquote]
    by_cases htemplate : (ch == '\x60') = true
    · rw [if_pos htemplate] at hf ⊢
      rw [if_pos htemplate]
      exact closed_templateStart hw hd hf
    rw [if_neg htemplate] at hf ⊢
    rw [if_neg htemplate]
    by_cases hnumber : (isDigit ch || (ch == '.' && cs.head?.any isDigit)) = true
    · rw [if_pos hnumber] at hf ⊢
      rw [if_pos hnumber]
      exact closed_numberLiteral hw hd hf
    rw [if_neg hnumber] at hf ⊢
    rw [if_neg hnumber]
    by_cases hprivate : (ch == '#') = true
    · rw [if_pos hprivate] at hf ⊢
      rw [if_pos hprivate]
      exact closed_privateWord hw hd hf
    rw [if_neg hprivate] at hf ⊢
    rw [if_neg hprivate]
    by_cases hname : (isNameStart ch || ch == '\\') = true
    · rw [if_pos hname] at hf ⊢
      rw [if_pos hname]
      exact closed_word hw hf
    rw [if_neg hname] at hf ⊢
    rw [if_neg hname]
    by_cases hregex : (ch == '/' && regexAllowed) = true
    · rw [if_pos hregex] at hf ⊢
      rw [if_pos hregex]
      exact closed_regexLiteral hw hd hf
    rw [if_neg hregex] at hf ⊢
    rw [if_neg hregex]
    have hfraction : (ch == '?' && startsFraction (cs ++ w.behind)) =
        (ch == '?' && startsFraction cs) := by rw [closed_startsFraction hw]
    unfold startsFraction at hfraction
    rw [hfraction, widen_next hd, ← List.cons_append, closed_startOf hw (List.cons_ne_nil _ _)]
    split
    · rfl
    rename_i hquestion
    rw [if_neg hquestion] at hf
    cases hmark : Punctuator.startOf? (ch :: cs) with
    | none =>
      rw [hmark] at hf
      cases hf
    | some p =>
      have hspelled := length_of_startOf hmark
      have hstop : (w.widen d.next).advance (p.text.length - 1) =
          w.widen (d.next.advance (p.text.length - 1)) := by
        refine widen_advance ?_
        rw [Cursor.next_eq hd]
        rw [List.length_cons, String.length_toList] at hspelled
        show _ ≤ cs.length
        omega
      simp only [hstop, Lexeme.widen, List.map_nil]

omit hw in
/-- A comment that is closed in the window ends there. -/
theorem closed_blockComment {lineBreak : Bool} {offset : Nat} {cs : List Char}
    (h : (blockComment lineBreak offset cs).closed = true) :
    blockComment lineBreak (offset + w.base) (cs ++ w.behind) =
      { blockComment lineBreak offset cs with
        stop := w.widen (blockComment lineBreak offset cs).stop } := by
  induction cs generalizing lineBreak offset with
  | nil => cases h
  | cons ch cs ih =>
    by_cases hend : ch = '*' ∧ ∃ ds, cs = '/' :: ds
    · obtain ⟨rfl, ds, rfl⟩ := hend
      simp only [List.cons_append, blockComment, widen_mk, Nat.add_right_comm offset]
    · have hslice : ∀ ds, ch = '*' → cs ≠ '/' :: ds := fun ds h hd => hend ⟨h, ds, hd⟩
      rw [blockComment_cons hslice] at h ⊢
      have hwide : ∀ ds, ch = '*' → cs ++ w.behind ≠ '/' :: ds := by
        intro ds hch hd
        cases cs with
        | nil => cases h
        | cons x xs => exact hslice xs hch (by rw [(List.cons.inj hd).1])
      rw [List.cons_append, blockComment_cons hwide, Nat.add_right_comm offset]
      exact ih h

omit hw in
/-- A run of characters that ends in the window ends there in the whole text too. -/
theorem widen_skipWhile_of_rest {p : Char → Bool} (h : (d.skipWhile p).rest = [] → w.behind = []) :
    (w.widen d).skipWhile p = w.widen (d.skipWhile p) := by
  refine widen_skipWhile ?_
  by_cases hr : (d.skipWhile p).rest = []
  · rw [Holds, h hr]
    exact Nat.zero_le _
  · rw [Cursor.skipWhile_eq] at hr
    rw [Cursor.skipWhile_eq, Holds]
    show _ ≤ ((d.rest ++ w.behind).dropWhile p).length
    rw [List.dropWhile_append, if_neg (by simpa using hr), List.length_append]
    omega

/-- A gap with a token behind it in the window is the same in the whole text, and so is one up to
the end of the window if that is the end of the text. -/
theorem closed_trivia {lineBreak : Bool} (hf : (trivia lineBreak d).faults = [])
    (hs : (trivia lineBreak d).stop.rest = [] → w.behind = []) :
    trivia lineBreak (w.widen d) = (trivia lineBreak d).widen w := by
  induction hn : d.rest.length using Nat.strongRecOn generalizing lineBreak d with
  | _ n ih =>
    cases hd : d.rest with
    | nil =>
      rw [trivia_nil hd] at hs ⊢
      refine trivia_nil ?_
      rw [widen_rest, hd, hs hd]
      rfl
    | cons ch cs =>
      have hc : (w.widen d).rest = ch :: (cs ++ w.behind) := by
        rw [widen_rest, hd, List.cons_append]
      have hlt : cs.length < n := by
        rw [← hn, hd]
        exact Nat.lt_succ_self _
      by_cases hline : ch = '/' ∧ ∃ ds, cs = '/' :: ds
      · obtain ⟨rfl, ds, rfl⟩ := hline
        rw [trivia_line hd] at hf hs ⊢
        rw [List.cons_append] at hc
        rw [trivia_line hc, widen_step]
        rw [widen_skipWhile_of_rest fun h => hs (by rw [trivia_nil h]; exact h)]
        refine ih _ ?_ hf hs rfl
        have hl := Cursor.length_skipWhile_le (!isLineBreak ·) ⟨d.offset + 2, ds⟩
        exact Nat.lt_of_le_of_lt hl (Nat.lt_trans (Nat.lt_succ_self _) hlt)
      by_cases hblock : ch = '/' ∧ ∃ ds, cs = '*' :: ds
      · obtain ⟨rfl, ds, rfl⟩ := hblock
        rw [trivia_block hd] at hf hs ⊢
        split at hf
        · rename_i hclosed
          rw [if_pos hclosed] at hs ⊢
          have hwide := closed_blockComment (w := w) hclosed
          rw [List.cons_append] at hc
          rw [trivia_block hc, widen_offset, Nat.add_right_comm, hwide, if_pos hclosed]
          refine ih _ ?_ hf hs rfl
          have hl := length_blockComment_le false (d.offset + 2) ds
          exact Nat.lt_of_le_of_lt hl (Nat.lt_trans (Nat.lt_succ_self _) hlt)
        · exact nomatch hf
      have hslice : ∀ x ds, ch = '/' → cs = x :: ds → x ≠ '/' ∧ x ≠ '*' := by
        intro x ds hch hx
        exact ⟨fun h => hline ⟨hch, ds, by rw [hx, h]⟩, fun h => hblock ⟨hch, ds, by rw [hx, h]⟩⟩
      have hwide : ∀ x ds, ch = '/' → cs ++ w.behind = x :: ds → x ≠ '/' ∧ x ≠ '*' := by
        intro x ds hch hx
        refine ⟨?_, ?_⟩
        · rintro rfl
          obtain ⟨es, he, -⟩ := hw.cons_of_append (by decide) hx
          exact hline ⟨hch, es, he⟩
        · rintro rfl
          obtain ⟨es, he, -⟩ := hw.cons_of_append (by decide) hx
          exact hblock ⟨hch, es, he⟩
      rw [trivia_char hd hslice] at hf hs ⊢
      rw [trivia_char hc hwide, widen_step]
      split
      · rename_i hl
        rw [if_pos hl] at hf hs
        exact ih cs.length hlt hf hs rfl
      · rename_i hl
        rw [if_neg hl] at hf hs
        split
        · rename_i hb
          rw [if_pos hb] at hf hs
          exact ih cs.length hlt hf hs rfl
        · rfl

end Lexer

end EcmaScript
