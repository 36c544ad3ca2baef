import EcmaScript.Proofs.Lexer.Trace

/-!
# Reading in a window of a text

A window is a stretch of a text. A cursor of the stretch taken alone corresponds to one of
the whole text, which has the same characters before it up to the end of the window and
those behind the window after them. Whatever a reader of the lexer finds in the whole text
without leaving the window, it also finds in the stretch alone.

The rule for each reader is the same: if it stops inside the window, then it gives for the
wider cursor what it gives for the narrow one, with a wider cursor as its stop. Where the
stretch has come to its end, stopping inside the window means not to move at all.
-/

namespace EcmaScript

/-- A stretch of a text, with what comes before and behind it. -/
structure Window where
  /-- The characters before the stretch. -/
  before : List Char
  /-- The characters of the stretch. -/
  inside : List Char
  /-- The characters behind the stretch. -/
  behind : List Char

namespace Window

/-- The whole text. -/
def text (w : Window) : String := .ofList (w.before ++ (w.inside ++ w.behind))

/-- The stretch alone. -/
def part (w : Window) : String := .ofList w.inside

/-- The offset at which the stretch starts. -/
def base (w : Window) : Nat := byteLength w.before

/-- The offset at which the stretch ends. -/
def cut (w : Window) : Nat := w.base + byteLength w.inside

/-- The cursor of the whole text for one of the stretch alone. -/
def widen (w : Window) (c : Cursor) : Cursor := ⟨c.offset + w.base, c.rest ++ w.behind⟩

/-- The fault of the whole text for one of the stretch alone. -/
def fault (w : Window) (fault : Fault) : Fault := { fault with offset := fault.offset + w.base }

/-- A cursor of the whole text does not lie behind the window. -/
def Holds (w : Window) (c : Cursor) : Prop := w.behind.length ≤ c.rest.length

section

variable {w : Window} {c d e : Cursor}

@[simp] theorem widen_rest : (w.widen c).rest = c.rest ++ w.behind := rfl

@[simp] theorem widen_offset : (w.widen c).offset = c.offset + w.base := rfl

/-- The cursor of the whole text by its parts. -/
theorem widen_mk (offset : Nat) (cs : List Char) :
    w.widen ⟨offset, cs⟩ = ⟨offset + w.base, cs ++ w.behind⟩ := rfl

private theorem byteLength_blanks (n : Nat) : byteLength (List.replicate n ' ') = n := by
  induction n with
  | zero => rfl
  | succ n ih =>
    rw [List.replicate_succ, byteLength_cons, ih, Nat.add_comm]
    rfl

/-- A piece of a text that comes next is the stretch of a window. -/
theorem exists_widen {piece behind : List Char} (h : c.rest = piece ++ behind) :
    ∃ w : Window, w.inside = piece ∧ w.behind = behind ∧ c = w.widen ⟨0, piece⟩ := by
  obtain ⟨offset, rest⟩ := c
  refine ⟨⟨List.replicate offset ' ', piece, behind⟩, rfl, rfl, ?_⟩
  rw [widen_mk, Nat.zero_add, base, byteLength_blanks]
  exact congrArg _ h

/-- A cursor of the stretch does not lie behind the window. -/
theorem holds_widen : w.Holds (w.widen c) := by
  rw [Holds, widen_rest, List.length_append]
  omega

/-- What comes earlier does not lie behind the window either. -/
theorem Holds.of_reaches (h : w.Holds e) (hr : d.Reaches e) : w.Holds d := by
  obtain ⟨front, hf, -⟩ := hr
  unfold Holds at h ⊢
  rw [hf, List.length_append]
  omega

/-- Behind the end of the window nothing is held. -/
theorem not_holds (hd : d.rest = []) {ch : Char} {cs : List Char}
    (hc : (w.widen d).rest = ch :: cs) {e : Cursor} (he : e.rest.length ≤ cs.length) :
    ¬ w.Holds e := by
  rw [widen_rest, hd, List.nil_append] at hc
  rw [Holds, hc, List.length_cons]
  omega

/-- One character further in both. -/
theorem widen_next {ch : Char} {cs : List Char} (h : d.rest = ch :: cs) :
    (w.widen d).next = w.widen d.next := by
  have hw : (w.widen d).rest = ch :: (cs ++ w.behind) := by rw [widen_rest, h, List.cons_append]
  rw [Cursor.next_eq h, Cursor.next_eq hw, widen_offset, Nat.add_right_comm]
  rfl

/-- Some characters further in both, as long as the stretch has them. -/
theorem widen_advance {n : Nat} (h : n ≤ d.rest.length) :
    (w.widen d).advance n = w.widen (d.advance n) := by
  induction n generalizing d with
  | zero => rfl
  | succ n ih =>
    cases hd : d.rest with
    | nil => simp [hd] at h
    | cons ch cs =>
      rw [Cursor.advance, Cursor.advance, widen_next hd]
      refine ih ?_
      rw [Cursor.next_eq hd]
      simpa [hd] using h

/-- What is passed over in the window is passed over in the stretch. -/
theorem widen_skipWhile {p : Char → Bool} (h : w.Holds ((w.widen d).skipWhile p)) :
    (w.widen d).skipWhile p = w.widen (d.skipWhile p) := by
  obtain ⟨offset, cs⟩ := d
  simp only [Cursor.skipWhile_eq, widen_mk] at h ⊢
  have hlen : w.behind.length ≤ ((cs ++ w.behind).dropWhile p).length := h
  clear h
  induction cs generalizing offset with
  | nil =>
    cases hb : w.behind with
    | nil => simp
    | cons ch behind =>
      cases hp : p ch with
      | false => simp [hp]
      | true =>
        rw [hb, List.nil_append, List.dropWhile_cons, if_pos hp, List.length_cons] at hlen
        have := (List.dropWhile_suffix p (l := behind)).length_le
        omega
  | cons ch cs ih =>
    rw [List.cons_append, List.dropWhile_cons] at hlen
    rw [List.cons_append, List.dropWhile_cons, List.takeWhile_cons, List.dropWhile_cons,
      List.takeWhile_cons]
    split
    · rename_i hp
      rw [if_pos hp] at hlen
      have hi := ih (offset + ch.utf8Size) hlen
      simp only [Cursor.mk.injEq, byteLength_cons] at hi ⊢
      exact ⟨by omega, hi.2⟩
    · simp

/-- What lies between two cursors of the stretch also lies between the wider ones. -/
theorem widen_charsUntil (h : d.Reaches e) :
    (w.widen d).charsUntil (w.widen e) = d.charsUntil e := by
  obtain ⟨front, hr, ho⟩ := h
  rw [Cursor.charsUntil_eq hr ho]
  refine Cursor.charsUntil_eq ?_ ?_
  · rw [widen_rest, widen_rest, hr, List.append_assoc]
  · rw [widen_offset, widen_offset, ho, Nat.add_right_comm]

/-- The text between two cursors of the stretch. -/
theorem widen_textUntil (h : d.Reaches e) :
    (w.widen d).textUntil (w.widen e) = d.textUntil e := by
  rw [Cursor.textUntil, Cursor.textUntil, widen_charsUntil h]

end

end Window

namespace Lexer

open Window Character

section

variable {w : Window} {d : Cursor}

/-- A run of hexadecimal digits that ends in the window. -/
theorem widen_hexRun {value count offset : Nat} {cs : List Char}
    (h : w.Holds (hexRun value count (offset + w.base) (cs ++ w.behind)).stop) :
    hexRun value count (offset + w.base) (cs ++ w.behind) =
      ⟨(hexRun value count offset cs).value, (hexRun value count offset cs).count,
        w.widen (hexRun value count offset cs).stop⟩ := by
  induction cs generalizing value count offset with
  | nil =>
    cases hb : w.behind with
    | nil => simp [hexRun, widen_mk, hb]
    | cons ch behind =>
      cases hv : hexValue? ch with
      | none => simp [hexRun, widen_mk, hb, hv]
      | some v =>
        rw [List.nil_append, hb] at h
        simp only [hexRun, hv] at h
        have hl := length_stop_hexRun_le (value * 16 + v) (count + 1)
          (offset + w.base + ch.utf8Size) behind
        rw [Holds, hb, List.length_cons] at h
        omega
  | cons ch cs ih =>
    cases hv : hexValue? ch with
    | none => simp [hexRun, widen_mk, hv]
    | some v =>
      simp only [List.cons_append, hexRun, hv, Nat.add_right_comm offset] at h ⊢
      exact ih h

/-- More text behind the digits of an escape changes nothing. -/
theorem hexDigits_append {value n r : Nat} {cs : List Char} (h : hexDigits? value n cs = some r)
    (ds : List Char) : hexDigits? value n (cs ++ ds) = some r ∧ n ≤ cs.length := by
  induction n generalizing value cs with
  | zero => exact ⟨by simpa [hexDigits?] using h, Nat.zero_le _⟩
  | succ n ih =>
    cases cs with
    | nil => simp [hexDigits?] at h
    | cons ch cs =>
      cases hv : hexValue? ch with
      | none => simp [hexDigits?, hv] at h
      | some v =>
        simp only [List.cons_append, hexDigits?, hv] at h ⊢
        exact ⟨(ih h).1, Nat.succ_le_succ (ih h).2⟩

/-- Digits that lie in the stretch are found there. -/
theorem hexDigits_of_append {value n r : Nat} {cs ds : List Char}
    (h : hexDigits? value n (cs ++ ds) = some r) (hn : n ≤ cs.length) :
    hexDigits? value n cs = some r := by
  induction n generalizing value cs with
  | zero => simpa [hexDigits?] using h
  | succ n ih =>
    cases cs with
    | nil => simp at hn
    | cons ch cs =>
      cases hv : hexValue? ch with
      | none => simp [hexDigits?, hv] at h
      | some v =>
        simp only [List.cons_append, hexDigits?, hv] at h ⊢
        exact ih h (Nat.le_of_succ_le_succ hn)

/-- The digits behind a cursor, if they are counted, lie in the window. -/
theorem length_advance (n : Nat) (c : Cursor) :
    (c.advance n).rest.length = c.rest.length - n := by
  induction n generalizing c with
  | zero => rfl
  | succ n ih =>
    rw [Cursor.advance, ih]
    cases hc : c.rest with
    | nil => simp [Cursor.next, hc]
    | cons ch cs => simp [Cursor.next, hc]

/-- A fixed number of digits is found in the window or not at all. -/
theorem widen_hexDigits {n : Nat} (cs : List Char) {c : Cursor} (hc : c.rest = cs ++ w.behind)
    (h : (hexDigits? 0 n c.rest).isSome = true → w.Holds (c.advance n)) :
    hexDigits? 0 n c.rest = hexDigits? 0 n cs ∧
      ((hexDigits? 0 n cs).isSome = true → n ≤ cs.length) := by
  rw [hc] at h ⊢
  cases hf : hexDigits? 0 n (cs ++ w.behind) with
  | none =>
    cases hs : hexDigits? 0 n cs with
    | none => simp
    | some r =>
      rw [(hexDigits_append hs w.behind).1] at hf
      exact absurd hf (by simp)
  | some r =>
    have hn : n ≤ cs.length := by
      have := h (by rw [hf]; rfl)
      have hl := (hexDigits_append hf []).2
      rw [Holds, length_advance, hc, List.length_append] at this
      rw [List.length_append] at hl
      omega
    exact ⟨(hexDigits_of_append hf hn).symm, fun _ => hn⟩

/-- The code point between braces, from the digits behind the first brace. -/
def braced (run : HexRun) : Except Problem Nat × Cursor :=
  match run.count, run.stop.rest with
  | _ + 1, '\x7d' :: _ =>
    (if run.value ≤ lastCodePoint then .ok run.value else .error .undefinedCodePoint,
      run.stop.next)
  | _, _ => (.error .unicodeEscape, run.stop)

/-- An escape with braces. -/
theorem codePoint_brace {c : Cursor} {cs : List Char} (h : c.rest = '\x7b' :: cs) :
    codePoint c = braced (hexRun 0 0 (c.offset + 1) cs) := by
  simp only [codePoint, h]
  rfl

/-- The end of the braces lies behind the digits. -/
theorem reaches_braced (run : HexRun) : run.stop.Reaches (braced run).2 := by
  unfold braced
  split
  · exact Cursor.reaches_next _
  · exact .refl _

/-- Braces that are not closed behind the digits. -/
theorem braced_of_ne {run : HexRun} (h : ∀ cs, run.stop.rest ≠ '\x7d' :: cs) :
    braced run = (.error .unicodeEscape, run.stop) := by
  unfold braced
  split
  · rename_i cs _ hr
    exact absurd hr (h cs)
  · rfl

/-- The brace behind some digits lies in the window, or is none. -/
theorem widen_braced {run : HexRun}
    (h : w.Holds (braced ⟨run.value, run.count, w.widen run.stop⟩).2) :
    braced ⟨run.value, run.count, w.widen run.stop⟩ =
      ((braced run).1, w.widen (braced run).2) := by
  obtain ⟨value, count, stop⟩ := run
  cases count with
  | zero => rfl
  | succ n =>
    cases hr : stop.rest with
    | nil =>
      by_cases hb : ∃ cs, (w.widen stop).rest = '\x7d' :: cs
      · obtain ⟨cs, hc⟩ := hb
        refine absurd h (not_holds hr hc ?_)
        simp only [braced, hc, Cursor.next]
        exact Nat.le_refl _
      · rw [braced_of_ne fun cs hc => hb ⟨cs, hc⟩, braced_of_ne (by simp [hr])]
    | cons ch cs =>
      by_cases hch : ch = '\x7d'
      · subst hch
        simp only [braced, widen_rest, hr, List.cons_append, widen_next hr]
      · rw [braced_of_ne, braced_of_ne]
        · intro ds hd
          exact hch (List.cons.inj (hr.symm.trans hd)).1
        · intro ds hd
          rw [widen_rest, hr, List.cons_append] at hd
          exact hch (List.cons.inj hd).1

/-- An escape of four digits. -/
theorem codePoint_plain {c : Cursor} (h : ∀ cs, c.rest ≠ '\x7b' :: cs) :
    codePoint c =
      match hexDigits? 0 4 c.rest with
      | some value => (.ok value, c.advance 4)
      | none => (.error .unicodeEscape, c) := by
  unfold codePoint
  split
  · rename_i cs hc
    exact absurd hc (h cs)
  · rfl

/-- A code point that is read in the window. -/
theorem widen_codePoint (h : w.Holds (codePoint (w.widen d)).2) :
    codePoint (w.widen d) = ((codePoint d).1, w.widen (codePoint d).2) := by
  by_cases hb : ∃ cs, (w.widen d).rest = '\x7b' :: cs
  · obtain ⟨cs, hc⟩ := hb
    cases hd : d.rest with
    | nil =>
      refine absurd h (not_holds hd hc ?_)
      rw [codePoint_brace hc]
      obtain ⟨front, hf, -⟩ := reaches_braced (hexRun 0 0 ((w.widen d).offset + 1) cs)
      have hl := length_stop_hexRun_le 0 0 ((w.widen d).offset + 1) cs
      rw [hf, List.length_append] at hl
      omega
    | cons ch ds =>
      rw [widen_rest, hd, List.cons_append] at hc
      obtain ⟨rfl, rfl⟩ := List.cons.inj hc
      have hw : (w.widen d).rest =
        '\x7b' :: (ds ++ w.behind) := by rw [widen_rest, hd, List.cons_append]
      rw [codePoint_brace hw, widen_offset, Nat.add_right_comm] at h ⊢
      rw [codePoint_brace hd]
      have heq := widen_hexRun (h.of_reaches (reaches_braced _))
      rw [heq] at h ⊢
      exact widen_braced h
  · have hb' : ∀ cs, d.rest ≠ '\x7b' :: cs := by
      intro cs hd
      exact hb ⟨cs ++ w.behind, by rw [widen_rest, hd, List.cons_append]⟩
    rw [codePoint_plain fun cs hc => hb ⟨cs, hc⟩] at h ⊢
    rw [codePoint_plain hb']
    have hx := widen_hexDigits (n := 4) (w := w) (c := w.widen d) d.rest rfl (by
      intro hsome
      obtain ⟨v, hv⟩ := Option.isSome_iff_exists.mp hsome
      rw [hv] at h
      exact h)
    rw [hx.1]
    cases hv : hexDigits? 0 4 d.rest with
    | none => rfl
    | some v => simp only [widen_advance (hx.2 (by rw [hv]; rfl))]

/-- Digits that end before the stretch does end there in the whole text. -/
theorem hexRun_of_ne_nil {value count offset : Nat} {cs : List Char}
    (h : (hexRun value count offset cs).stop.rest ≠ []) :
    w.Holds (hexRun value count (offset + w.base) (cs ++ w.behind)).stop := by
  induction cs generalizing value count offset with
  | nil => exact absurd rfl h
  | cons ch cs ih =>
    cases hv : hexValue? ch with
    | none =>
      simp only [hexRun, hv, List.cons_append, Holds, List.length_cons, List.length_append]
      omega
    | some v =>
      simp only [List.cons_append, hexRun, hv, Nat.add_right_comm offset] at h ⊢
      exact ih h

/-- A code point of the stretch is one of the whole text. -/
theorem codePoint_of_ok {code : Nat} (h : (codePoint d).1 = .ok code) :
    w.Holds (codePoint (w.widen d)).2 := by
  by_cases hb : ∃ cs, d.rest = '\x7b' :: cs
  · obtain ⟨cs, hd⟩ := hb
    have hw : (w.widen d).rest = '\x7b' :: (cs ++ w.behind) := by
      rw [widen_rest, hd, List.cons_append]
    rw [codePoint_brace hw, widen_offset, Nat.add_right_comm]
    rw [codePoint_brace hd] at h
    have hne : (hexRun 0 0 (d.offset + 1) cs).stop.rest ≠ [] := by
      intro hnil
      rw [braced_of_ne (by simp [hnil])] at h
      exact nomatch h
    rw [widen_hexRun (hexRun_of_ne_nil hne)]
    generalize hexRun 0 0 (d.offset + 1) cs = run at h hne
    unfold braced
    split
    · cases hr : run.stop.rest with
      | nil => exact absurd hr hne
      | cons ch ds =>
        rw [widen_next hr]
        exact holds_widen
    · exact holds_widen
  · rw [codePoint_plain fun cs hc => hb ⟨cs, hc⟩] at h
    cases hv : hexDigits? 0 4 d.rest with
    | none =>
      rw [hv] at h
      exact nomatch h
    | some v =>
      have ha := hexDigits_append hv w.behind
      have hb' : ∀ cs, (w.widen d).rest ≠ '\x7b' :: cs := by
        intro cs hc
        cases hd : d.rest with
        | nil => simp [hd] at ha
        | cons ch ds =>
          rw [widen_rest, hd, List.cons_append] at hc
          exact hb ⟨ds, by rw [hd, (List.cons.inj hc).1]⟩
      rw [codePoint_plain hb', widen_rest, ha.1]
      simp only [widen_advance ha.2]
      exact holds_widen

/-- The character that two halves of a surrogate pair are, and the place behind them. -/
def joined? (code : Nat) (c : Cursor) : Option (Char × Cursor) :=
  match c.rest with
  | '\\' :: 'u' :: cs =>
    if isHighSurrogate code then
      match codePoint ⟨c.offset + 2, cs⟩ with
      | (.ok low, stop) =>
        if isLowSurrogate low then some (charOfCode (joinSurrogates code low), stop) else none
      | _ => none
    else none
  | _ => none

/-- A surrogate is joined with the one behind it, if there is one. -/
theorem joinedChar_eq (code : Nat) (c : Cursor) :
    joinedChar code c = (joined? code c).getD (charOfCode code, c) := by
  unfold joinedChar joined?
  grind

/-- What has to come behind the first half of a pair. -/
theorem joined_eq_some {code : Nat} {c : Cursor} {r : Char × Cursor} (h : joined? code c = some r) :
    ∃ cs low, c.rest = '\\' :: 'u' :: cs ∧ isHighSurrogate code = true ∧
      codePoint ⟨c.offset + 2, cs⟩ = (.ok low, r.2) ∧ isLowSurrogate low = true ∧
      r = (charOfCode (joinSurrogates code low), r.2) := by
  unfold joined? at h
  split at h
  · rename_i cs hc
    split at h
    · rename_i hh
      split at h
      · rename_i low stop' hp
        split at h
        · rename_i hl
          obtain rfl := Option.some.inj h
          exact ⟨cs, low, hc, hh, hp, hl, rfl⟩
        · exact nomatch h
      · exact nomatch h
    · exact nomatch h
  · exact nomatch h

/-- What comes behind the first half of a pair is joined with it. -/
theorem joined_of {code low : Nat} {c stop : Cursor} {cs : List Char}
    (hc : c.rest = '\\' :: 'u' :: cs) (hh : isHighSurrogate code = true)
    (hp : codePoint ⟨c.offset + 2, cs⟩ = (.ok low, stop)) (hl : isLowSurrogate low = true) :
    joined? code c = some (charOfCode (joinSurrogates code low), stop) := by
  simp only [joined?, hc, hh, hp, hl, if_true]

/-- A surrogate that is joined, or not, in the window. -/
theorem widen_joinedChar {code : Nat} (h : w.Holds (joinedChar code (w.widen d)).2) :
    joinedChar code (w.widen d) =
      ((joinedChar code d).1, w.widen (joinedChar code d).2) := by
  rw [joinedChar_eq] at h ⊢
  rw [joinedChar_eq]
  have hwide : ∀ cs, w.widen ⟨d.offset + 2, cs⟩ = ⟨(w.widen d).offset + 2, cs ++ w.behind⟩ := by
    intro cs
    rw [widen_mk, widen_offset, Nat.add_right_comm]
  cases hs : joined? code d with
  | some r =>
    obtain ⟨cs, low, hc, hh, hp, hl, hr⟩ := joined_eq_some hs
    have hcode := widen_codePoint (w := w) (codePoint_of_ok (congrArg Prod.fst hp))
    rw [hp, hwide] at hcode
    have hw : (w.widen d).rest = '\\' :: 'u' :: (cs ++ w.behind) := by
      rw [widen_rest, hc]
      rfl
    rw [joined_of hw hh hcode hl, hr, Option.getD_some, Option.getD_some]
  | none =>
    cases hj : joined? code (w.widen d) with
    | none => rfl
    | some r =>
      obtain ⟨cs, low, hc, hh, hp, hl, hr⟩ := joined_eq_some hj
      rw [hj] at h
      have hstop : w.Holds r.2 := h
      have hlen : r.2.rest.length ≤ cs.length := by
        have := length_codePoint_le ⟨(w.widen d).offset + 2, cs⟩
        rw [hp] at this
        exact this
      rw [widen_rest] at hc
      -- Both characters that announce the second half lie in the window.
      rcases List.append_eq_cons_iff.mp hc with ⟨-, hb⟩ | ⟨ds, hd, hc⟩
      · rw [Holds, hb] at hstop
        simp at hstop
        omega
      · rcases List.append_eq_cons_iff.mp hc.symm with ⟨-, hb⟩ | ⟨es, rfl, rfl⟩
        · rw [Holds, hb] at hstop
          simp at hstop
          omega
        · rw [← hwide] at hp
          have hcode := widen_codePoint (w := w) (d := ⟨d.offset + 2, es⟩) (by rw [hp]; exact hstop)
          rw [hp] at hcode
          have hok := Prod.mk.inj hcode
          have hread : codePoint ⟨d.offset + 2, es⟩ = (.ok low, (codePoint ⟨d.offset + 2, es⟩).2) :=
            Prod.ext hok.1.symm rfl
          have hn := joined_of hd hh hread hl
          rw [hs] at hn
          exact nomatch hn

/-- A run of octal digits that ends in the window. -/
theorem widen_octalRun {value limit : Nat} (h : w.Holds (octalRun value limit (w.widen d)).2) :
    octalRun value limit (w.widen d) =
      ((octalRun value limit d).1, w.widen (octalRun value limit d).2) := by
  induction limit generalizing value d with
  | zero => rfl
  | succ limit ih =>
    cases hd : d.rest with
    | nil =>
      have hs : octalRun value (limit + 1) d = (value, d) := by simp only [octalRun, hd]
      rw [hs]
      cases hb : w.behind with
      | nil => simp only [octalRun, widen_rest, hd, hb, List.append_nil]
      | cons ch behind =>
        have hw : (w.widen d).rest = ch :: behind := by rw [widen_rest, hd, hb, List.nil_append]
        cases ho : isOctalDigit ch with
        | false => simp only [octalRun, hw, ho, Bool.false_eq_true, if_false]
        | true =>
          simp only [octalRun, hw, ho, if_true] at h
          refine absurd h (not_holds hd hw ?_)
          have hl := length_octalRun_le (value * 8 + (ch.toNat - '0'.toNat)) limit (w.widen d).next
          rwa [Cursor.next_eq hw] at hl ⊢
    | cons ch cs =>
      have hw : (w.widen d).rest =
        ch :: (cs ++ w.behind) := by rw [widen_rest, hd, List.cons_append]
      cases ho : isOctalDigit ch with
      | false => simp only [octalRun, hw, hd, ho, Bool.false_eq_true, if_false]
      | true =>
        simp only [octalRun, hw, hd, ho, if_true, widen_next hd] at h ⊢
        exact ih h

/-- An escape in the whole text is the one in the stretch, moved. -/
def Widened (w : Window) (a b : Escape) : Prop := a = ⟨b.meaning, w.widen b.stop⟩

/-- The same, if the stretch goes on behind the escape. -/
def WidenedWithin (w : Window) (a b : Escape) : Prop := w.Holds a.stop → Widened w a b

/-- An escape that ends in the window. Behind its end no digit may be cut off, since a zero before
a digit is read differently. -/
theorem widen_escape {inTemplate : Bool} (h : w.Holds (escape inTemplate (w.widen d)).stop)
    (hb : w.behind.head?.any isDigit = true →
      w.behind.length < (escape inTemplate (w.widen d)).stop.rest.length) :
    escape inTemplate (w.widen d) =
      ⟨(escape inTemplate d).meaning, w.widen (escape inTemplate d).stop⟩ := by
  cases hd : d.rest with
  | nil =>
    cases hbehind : w.behind with
    | nil =>
      have hw : (w.widen d).rest = [] := by rw [widen_rest, hd, hbehind]; rfl
      simp only [escape, hw, hd]
    | cons x xs =>
      have hw : (w.widen d).rest = x :: xs := by rw [widen_rest, hd, hbehind]; rfl
      obtain ⟨front, hf, -⟩ := reaches_escape_cons inTemplate hw
      rw [Cursor.next_eq hw] at hf
      have hl := congrArg List.length hf
      rw [List.length_append] at hl
      exact absurd h (not_holds hd hw (by simp only at hl; omega))
  | cons ch cs =>
    have hw : (w.widen d).rest = ch :: (cs ++ w.behind) := by rw [widen_rest, hd, List.cons_append]
    have hdigit : (cs ++ w.behind).head?.any isDigit = cs.head?.any isDigit := by
      cases cs with
      | cons x xs => rfl
      | nil =>
        refine Bool.eq_false_iff.mpr fun hany => ?_
        obtain ⟨front, hf, -⟩ := reaches_escape_cons inTemplate hw
        rw [Cursor.next_eq hw] at hf
        have hl := congrArg List.length hf
        have hlt := hb hany
        simp only [List.nil_append, List.length_append] at hl
        omega
    suffices hwidened : WidenedWithin w (escape inTemplate (w.widen d)) (escape inTemplate d) from
      hwidened h
    clear h
    simp only [escape, hw, hd, widen_next hd, hdigit]
    obtain ⟨e, he, hr⟩ : ∃ e, d.next = e ∧ e.rest = cs := ⟨_, Cursor.next_eq hd, rfl⟩
    rw [he]
    cases letterEscape? ch with
    | some plain => exact fun _ => rfl
    | none =>
      refine ite_rel (fun _ _ => rfl) fun _ => ?_
      refine ite_rel (fun _ => ite_rel (fun _ _ => rfl) fun _ h => ?_) fun _ => ?_
      · simp only [widen_octalRun h]
        rfl
      refine ite_rel (fun _ _ => rfl) fun _ => ?_
      refine ite_rel (fun _ h => ?_) fun _ => ?_
      · have hd := widen_hexDigits (w := w) (n := 2) (c := w.widen e) cs
          (by rw [widen_rest, hr]) (fun hs => by
            obtain ⟨v, hv⟩ := Option.isSome_iff_exists.mp hs
            rw [widen_rest, hr] at hv
            rw [hv] at h
            exact h)
        rw [widen_rest, hr] at hd
        rw [hd.1]
        cases hv : hexDigits? 0 2 cs with
        | none => rfl
        | some v =>
          have hl := hd.2 (by rw [hv]; rfl)
          exact congrArg (Escape.mk _) (widen_advance (by rw [hr]; exact hl))
      refine ite_rel (fun _ h => ?_) fun _ => ?_
      · have hc : w.Holds (codePoint (w.widen e)).2 := by
          split at h
          · rename_i code stop hp
            rw [hp]
            exact h.of_reaches (reaches_joinedChar code stop)
          · rename_i problem stop hp
            rw [hp]
            exact h
        rw [widen_codePoint hc] at h ⊢
        generalize codePoint e = read at h ⊢
        obtain ⟨r, stop⟩ := read
        cases r with
        | error problem => rfl
        | ok code =>
          simp only [widen_joinedChar h]
          rfl
      refine ite_rel (fun _ h => ?_) fun _ => ite_rel (fun _ _ => rfl) fun _ _ => rfl
      cases cs with
      | cons x xs =>
        rw [widen_next hr]
        exact congrArg (Escape.mk _) (apply_ite w.widen _ _ _).symm
      | nil =>
        rw [if_neg (show ¬ (([] : List Char).head? == some '\n') = true by decide)]
        split
        · rename_i hline
          rw [if_pos hline] at h
          obtain ⟨x, xs, hx⟩ : ∃ x xs, (w.widen e).rest = x :: xs := by
            cases hbehind : w.behind with
            | nil => simp [hbehind] at hline
            | cons x xs => exact ⟨x, xs, by rw [widen_rest, hr, hbehind]; rfl⟩
          exact absurd h (not_holds hr hx (Nat.le_of_eq (by rw [Cursor.next_eq hx])))
        · rfl

end

end Lexer

end EcmaScript
