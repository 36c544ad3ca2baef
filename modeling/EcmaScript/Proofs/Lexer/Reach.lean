import EcmaScript.Proofs.Text.Cursor
import EcmaScript.Token.Sequence

/-!
# Where readers stop

Every reader of the lexer stops at a cursor that its start reaches. So no reader leaves the
text, stops inside a character or goes back behind its start.
-/

namespace EcmaScript

namespace Lexer

open Character Cursor

/-- What holds of a choice in either case holds of the choice. -/
theorem ite_of {α : Type} {P : α → Prop} {p : Prop} [Decidable p] {a b : α}
    (hpos : p → P a) (hneg : ¬p → P b) : P (if p then a else b) := by
  by_cases h : p
  · rw [if_pos h]
    exact hpos h
  · rw [if_neg h]
    exact hneg h

/-- Where two choices are made alike, what they choose is related if it is in either case. -/
theorem ite_rel {α β : Type} {R : α → β → Prop} {p : Prop} [Decidable p] {a a' : α} {b b' : β}
    (hpos : p → R a b) (hneg : ¬p → R a' b') :
    R (if p then a else a') (if p then b else b') := by
  by_cases h : p
  · rw [if_pos h, if_pos h]
    exact hpos h
  · rw [if_neg h, if_neg h]
    exact hneg h

/-- A run of hexadecimal digits goes ahead in the text. -/
theorem reaches_hexRun (value count offset : Nat) (cs : List Char) :
    Reaches ⟨offset, cs⟩ (hexRun value count offset cs).stop := by
  induction cs generalizing value count offset with
  | nil => exact .refl _
  | cons c cs ih =>
    rw [hexRun]
    split
    · exact (reaches_mk _ _ _).trans (ih _ _ _)
    · exact .refl _

/-- The code point of an escape goes ahead. -/
theorem reaches_codePoint (c : Cursor) : c.Reaches (codePoint c).2 := by
  unfold codePoint
  split
  · rename_i cs h
    have hr := (reaches_cons h).trans (reaches_hexRun 0 0 (c.offset + 1) cs)
    simp only
    split
    · exact hr.trans (reaches_next _)
    · exact hr
  · split
    · exact reaches_advance 4 c
    · exact .refl c

/-- The second half of a surrogate pair goes ahead. -/
theorem reaches_joinedChar (code : Nat) (c : Cursor) : c.Reaches (joinedChar code c).2 := by
  unfold joinedChar
  split
  · rename_i cs h
    have hr := (reaches_cons_cons h).trans (reaches_codePoint ⟨c.offset + 2, cs⟩)
    split
    · split
      · rename_i low stop hc
        rw [hc] at hr
        split
        · exact hr
        · exact .refl c
      · exact .refl c
    · exact .refl c
  · exact .refl c

/-- A run of octal digits goes ahead. -/
theorem reaches_octalRun (value limit : Nat) (c : Cursor) :
    c.Reaches (octalRun value limit c).2 := by
  induction limit generalizing value c with
  | zero => exact .refl c
  | succ limit ih =>
    rw [octalRun]
    split
    · split
      · exact c.reaches_next.trans (ih _ _)
      · exact .refl c
    · exact .refl c

/-- What holds of every form that an escape can have behind its backslash holds of the
escape. -/
theorem escape_cases {P : Escape → Prop} {inTemplate : Bool} {c : Cursor} {ch : Char}
    {cs : List Char} (h : c.rest = ch :: cs)
    (plain : ∀ chars, P ⟨.ok chars, c.next⟩)
    (lineEnd : ch = '\r' →
      P ⟨.ok [], if cs.head? == some '\n' then c.next.next else c.next⟩)
    (octal : ∀ value limit, P ⟨.ok [Char.ofNat (octalRun value limit c.next).1],
      (octalRun value limit c.next).2⟩)
    (hex : ∀ value, hexDigits? 0 2 cs = some value →
      P ⟨.ok [Char.ofNat value], c.next.advance 2⟩)
    (unicode : ∀ code stop, codePoint c.next = (.ok code, stop) →
      P ⟨.ok [(joinedChar code stop).1], (joinedChar code stop).2⟩)
    (hexFault : P ⟨.error .hexEscape, c.next⟩)
    (unicodeFault : ∀ problem stop, codePoint c.next = (.error problem, stop) →
      P ⟨.error problem, stop⟩)
    (templateFault : inTemplate = true → P ⟨.error .templateEscape, c.next⟩) :
    P (escape inTemplate c) := by
  simp only [escape, h]
  cases letterEscape? ch with
  | some letter => exact plain _
  | none =>
    refine ite_of (fun _ => plain _) fun _ => ?_
    refine ite_of (fun _ => ite_of templateFault fun _ => octal _ _) fun _ => ?_
    refine ite_of (fun _ => ?_) fun _ => ?_
    · cases inTemplate with
      | true => exact templateFault rfl
      | false => exact plain _
    refine ite_of (fun _ => ?_) fun _ => ?_
    · cases hv : hexDigits? 0 2 cs with
      | none => exact hexFault
      | some value => exact hex value hv
    refine ite_of (fun _ => ?_) fun _ => ?_
    · cases hp : codePoint c.next with
      | mk code stop =>
        cases code with
        | error problem => exact unicodeFault problem stop hp
        | ok code => exact unicode code stop hp
    exact ite_of (fun hr => lineEnd (eq_of_beq hr)) fun _ => ite_of (fun _ => plain _)
      fun _ => plain _

/-- An escape takes the character behind the backslash. -/
theorem reaches_escape_cons (inTemplate : Bool) {c : Cursor} {ch : Char} {cs : List Char}
    (h : c.rest = ch :: cs) : c.next.Reaches (escape inTemplate c).stop := by
  have hn := Reaches.refl c.next
  have hc := reaches_codePoint c.next
  refine escape_cases (P := fun e => c.next.Reaches e.stop) h (fun _ => hn)
    (fun _ => ite_of (fun _ => reaches_next _) fun _ => hn) (fun _ _ => reaches_octalRun _ _ _)
    (fun _ _ => reaches_advance 2 _) (fun code stop hp => ?_) hn (fun problem stop hp => ?_)
    fun _ => hn
  · rw [hp] at hc
    exact hc.trans (reaches_joinedChar code stop)
  · rw [hp] at hc
    exact hc

/-- An escape goes ahead. -/
theorem reaches_escape (inTemplate : Bool) (c : Cursor) :
    c.Reaches (escape inTemplate c).stop := by
  cases h : c.rest with
  | nil =>
    simp only [escape, h]
    exact .refl c
  | cons ch cs => exact c.reaches_next.trans (reaches_escape_cons inTemplate h)

/-- The content of a string goes ahead. -/
theorem reaches_stringBody (quote : Char) (value : List Char) (faults : List Fault) (c : Cursor) :
    c.Reaches (stringBody quote value faults c).stop := by
  fun_induction stringBody quote value faults c with
  | case1 => exact .refl _
  | case2 value faults c ch cs h => exact reaches_cons h
  | case3 value faults c ch cs h hq hb esc chars hm ih =>
    obtain rfl := eq_of_beq hb
    exact ((reaches_cons h).trans (reaches_escape false ⟨c.offset + 1, cs⟩)).trans ih
  | case4 value faults c ch cs h hq hb esc problem hm ih =>
    obtain rfl := eq_of_beq hb
    exact ((reaches_cons h).trans (reaches_escape false ⟨c.offset + 1, cs⟩)).trans ih
  | case5 => exact .refl _
  | case6 value faults c ch cs h hq hb hl ih => exact (reaches_cons h).trans ih

theorem reaches_stringLiteral (quote : Char) (c : Cursor) :
    c.Reaches (stringLiteral quote c).stop :=
  c.reaches_next.trans (reaches_stringBody quote [] [] c.next)

/-- A chunk of a template goes ahead. -/
theorem reaches_templateChunk (cooked raw : List Char) (valid : Bool) (c : Cursor) :
    c.Reaches (templateChunk cooked raw valid c).stop := by
  fun_induction templateChunk cooked raw valid c with
  | case1 => exact .refl _
  | case2 cooked raw valid c cs h => exact reaches_cons h
  | case3 cooked raw valid c cs h => exact reaches_cons_cons h
  | case4 cooked raw valid c cs h esc spelling chars hm ih =>
    exact ((reaches_cons h).trans (reaches_escape true ⟨c.offset + 1, cs⟩)).trans ih
  | case5 cooked raw valid c cs h esc spelling problem hm ih =>
    exact ((reaches_cons h).trans (reaches_escape true ⟨c.offset + 1, cs⟩)).trans ih
  | case6 cooked raw valid c cs h ih => exact (reaches_cons_cons h).trans ih
  | case7 cooked raw valid c cs _ h ih => exact (reaches_cons h).trans ih
  | case8 cooked raw valid c ch cs _ _ _ _ _ h ih => exact (reaches_cons h).trans ih

/-- The number of bytes in what a chunk ends with. -/
def ChunkEnd.width : ChunkEnd → Nat
  | closed => 1
  | substitution => 2
  | missing => 0

theorem reaches_templateStart (c : Cursor) : c.Reaches (templateStart c).stop :=
  c.reaches_next.trans (reaches_templateChunk [] [] true c.next)

theorem reaches_templateContinuation (c : Cursor) : c.Reaches (templateContinuation c).stop :=
  c.reaches_next.trans (reaches_templateChunk [] [] true c.next)

/-- The body of a regular expression goes ahead. -/
theorem reaches_regexBody (inClass : Bool) (offset : Nat) (cs : List Char) :
    Reaches ⟨offset, cs⟩ (regexBody inClass offset cs) := by
  fun_induction regexBody inClass offset cs with
  | case1 => exact .refl _
  | case2 inClass offset c cs hl => exact reaches_mk offset '\\' (c :: cs)
  | case3 inClass offset c cs hl ih =>
    exact ((reaches_mk offset '\\' (c :: cs)).trans (reaches_mk (offset + 1) c cs)).trans ih
  | case4 => exact .refl _
  | case5 inClass offset c cs _ hs ih => exact (reaches_mk offset c cs).trans ih

theorem reaches_regexLiteral (c : Cursor) : c.Reaches (regexLiteral c).stop := by
  have hb := c.reaches_next.trans (reaches_regexBody false c.next.offset c.next.rest)
  unfold regexLiteral
  simp only
  split
  · exact (hb.trans (reaches_next _)).trans (reaches_skipWhile _ _)
  · exact hb

/-- A run of digits goes ahead, from any place in it. -/
theorem reaches_digitRun (valid : Char → Bool) (count : Nat) (separated dangling : Bool)
    (faults : List Fault) (offset : Nat) (cs : List Char) :
    Reaches ⟨offset, cs⟩ (digitRun valid count separated dangling faults offset cs).stop := by
  induction cs generalizing count separated dangling faults offset with
  | nil => exact .refl _
  | cons ch cs ih =>
    rw [digitRun]
    split
    · rename_i hu
      obtain rfl := eq_of_beq hu
      exact (reaches_mk offset '_' cs).trans (ih _ _ _ _ _)
    · split
      · exact (reaches_mk offset ch cs).trans (ih _ _ _ _ _)
      · exact .refl _

theorem reaches_digits (valid : Char → Bool) (c : Cursor) : c.Reaches (digits valid c).stop :=
  reaches_digitRun valid 0 false false [] c.offset c.rest

namespace NumberScan

/-- A number's fraction goes ahead. -/
theorem reaches_fraction (scan : NumberScan) : scan.stop.Reaches scan.fraction.stop := by
  unfold fraction
  split
  · have hn := scan.stop.reaches_next
    simp only
    split
    · exact hn.trans (reaches_digits isDigit _)
    · exact hn
  · exact .refl _

/-- The start of an exponent goes ahead. -/
theorem reaches_exponentStart {c start : Cursor} (h : exponentStart? c = some start) :
    c.Reaches start := by
  unfold exponentStart? at h
  split at h
  · split at h
    · simp only at h
      split at h
      · split at h
        · rw [← Option.some.inj h]
          exact c.reaches_next.trans (reaches_next _)
        · exact absurd h (by simp)
      · split at h
        · rw [← Option.some.inj h]
          exact c.reaches_next
        · exact absurd h (by simp)
    · exact absurd h (by simp)
  · exact absurd h (by simp)

/-- A number's exponent goes ahead. -/
theorem reaches_exponent (scan : NumberScan) : scan.stop.Reaches scan.exponent.stop := by
  unfold exponent
  split
  · rename_i start h
    exact (reaches_exponentStart h).trans (reaches_digits isDigit start)
  · exact .refl _

/-- What makes a number illegal lies behind it. -/
theorem reaches_illegal (scan : NumberScan) (start : Cursor) :
    scan.stop.Reaches (scan.illegal start).stop :=
  reaches_skipWhile _ _

/-- The end of a number goes ahead. -/
theorem reaches_finish (scan : NumberScan) (start : Cursor) (bigIntAllowed : Bool) :
    scan.stop.Reaches (scan.finish start bigIntAllowed).stop := by
  unfold finish
  cases bigIntAllowed && scan.stop.peek? == some 'n' with
  | false =>
    simp only [Bool.false_eq_true, ite_false]
    split
    · exact reaches_illegal scan start
    · exact .refl _
  | true =>
    simp only [ite_true]
    split
    · exact .trans (reaches_next scan.stop) (reaches_illegal { scan with stop := _ } start)
    · exact reaches_next _

end NumberScan

theorem reaches_radixNumber (start : Cursor) (valid : Char → Bool) (flags : TokenFlags) :
    start.Reaches (radixNumber start valid flags).stop := by
  have hd := (reaches_advance 2 start).trans (reaches_digits valid _)
  unfold radixNumber
  simp only
  split
  · refine .trans ?_ (NumberScan.reaches_illegal _ start)
    exact hd
  · refine .trans ?_ (NumberScan.reaches_finish _ start true)
    exact hd

theorem reaches_leadingZeroNumber (start : Cursor) :
    start.Reaches (leadingZeroNumber start).stop := by
  have hs := reaches_skipWhile isDigit start
  unfold leadingZeroNumber
  simp only
  split
  · refine .trans ?_ (NumberScan.reaches_finish _ start false)
    exact hs
  · exact ((hs.trans (NumberScan.reaches_fraction { stop := start.skipWhile isDigit })).trans
      (NumberScan.reaches_exponent _)).trans (NumberScan.reaches_finish _ start false)

theorem reaches_decimalNumber (start : Cursor) : start.Reaches (decimalNumber start).stop := by
  unfold decimalNumber
  simp only
  refine .trans ?_ (NumberScan.reaches_finish _ start _)
  refine .trans ?_ (NumberScan.reaches_exponent _)
  refine .trans ?_ (NumberScan.reaches_fraction _)
  split
  · exact .refl start
  · exact reaches_digits isDigit start

/-- A number goes ahead. -/
theorem reaches_numberLiteral (c : Cursor) : c.Reaches (numberLiteral c).stop := by
  unfold numberLiteral
  split
  · split
    · exact reaches_radixNumber c _ _
    · split
      · exact reaches_radixNumber c _ _
      · split
        · exact reaches_radixNumber c _ _
        · split
          · exact reaches_leadingZeroNumber c
          · exact reaches_decimalNumber c
  · exact reaches_decimalNumber c

/-- A name with escapes goes ahead. -/
theorem reaches_escapedName (name : List Char) (c : Cursor) :
    c.Reaches (escapedName name c).2 := by
  fun_induction escapedName name c with
  | case1 => exact .refl _
  | case2 name c cs h code stop hp hv ih =>
    have hr := (reaches_cons_cons h).trans (reaches_codePoint ⟨c.offset + 2, cs⟩)
    rw [hp] at hr
    exact hr.trans ih
  | case3 name c cs h code stop hp hv =>
    have hr := (reaches_cons_cons h).trans (reaches_codePoint ⟨c.offset + 2, cs⟩)
    rw [hp] at hr
    exact hr
  | case4 name c cs h problem stop hp =>
    have hr := (reaches_cons_cons h).trans (reaches_codePoint ⟨c.offset + 2, cs⟩)
    rw [hp] at hr
    exact hr
  | case5 name c cs _ h => exact reaches_cons h
  | case6 name c ch cs _ _ h hp ih => exact (reaches_cons h).trans ih
  | case7 => exact .refl _

/-- A word goes ahead. -/
theorem reaches_word (c : Cursor) : c.Reaches (word c).stop := by
  have hs := reaches_skipWhile isNamePart c
  unfold word
  simp only
  split
  · have he := reaches_escapedName (c.charsUntil (c.skipWhile isNamePart)).reverse
      (c.skipWhile isNamePart)
    split
    · rename_i name stop hn
      rw [hn] at he
      exact hs.trans he
    · rename_i fault stop hn
      rw [hn] at he
      exact hs.trans he
  · exact hs

theorem reaches_privateWord (c : Cursor) : c.Reaches (privateWord c).stop := by
  unfold privateWord
  simp only
  split
  · split
    · exact c.reaches_next.trans (reaches_word c.next)
    · exact c.reaches_next
  · exact c.reaches_next

/-- What holds of every kind of token, as its first characters choose it, holds of the token that
is read. -/
@[elab_as_elim]
theorem lexeme_induction {regexAllowed : Bool} {c : Cursor} {l : Lexeme} {motive : Lexeme → Prop}
    (h : lexeme? regexAllowed c = some l)
    (string : ∀ {ch cs}, c.rest = ch :: cs → motive (stringLiteral ch c))
    (template : ∀ {cs}, c.rest = '\x60' :: cs → motive (templateStart c))
    (number : ∀ {ch cs}, c.rest = ch :: cs →
      isDigit ch = true ∨ ch = '.' ∧ cs.head?.any isDigit = true → motive (numberLiteral c))
    (privateName : ∀ {cs}, c.rest = '#' :: cs → motive (privateWord c))
    (name : motive (word c))
    (regex : ∀ {cs}, c.rest = '/' :: cs → motive (regexLiteral c))
    (question : ∀ {cs}, c.rest = '?' :: cs → motive { kind := .mark .question, stop := c.next })
    (mark : ∀ {p}, Punctuator.startOf? c.rest = some p →
      motive { kind := .mark p, stop := c.next.advance (p.text.length - 1) })
    (illegal : ∀ {ch cs}, c.rest = ch :: cs →
      motive { kind := .illegal, faults := [⟨.illegalToken, c.offset⟩], stop := c.next }) :
    motive l := by
  unfold lexeme? at h
  cases hc : c.rest with
  | nil =>
    rw [hc] at h
    exact nomatch h
  | cons ch cs =>
    rw [hc] at h
    rw [← Option.some.inj h]
    refine ite_of (fun _ => string hc) fun _ => ?_
    refine ite_of (fun hq => template (by rw [hc, eq_of_beq hq])) fun _ => ?_
    refine ite_of (fun hd => number hc ?_) fun _ => ?_
    · rwa [Bool.or_eq_true, Bool.and_eq_true, beq_iff_eq] at hd
    refine ite_of (fun hp => privateName (by rw [hc, eq_of_beq hp])) fun _ => ?_
    refine ite_of (fun _ => name) fun _ => ?_
    refine ite_of (fun hr => ?_) fun _ => ?_
    · have hslash : ch = '/' := eq_of_beq (Bool.and_eq_true_iff.mp hr).1
      exact regex (hslash ▸ hc)
    refine ite_of (fun hq => ?_) fun _ => ?_
    · have hquestion : ch = '?' :=
        eq_of_beq (Bool.and_eq_true_iff.mp (Bool.and_eq_true_iff.mp hq).1).1
      exact question (hquestion ▸ hc)
    cases hm : Punctuator.startOf? (ch :: cs) with
    | some p => exact mark (by rw [hc, hm])
    | none => exact illegal hc

/-- A lexeme stops at a place that its start reaches. -/
theorem reaches_lexeme {regexAllowed : Bool} {c : Cursor} {l : Lexeme}
    (h : lexeme? regexAllowed c = some l) : c.Reaches l.stop :=
  lexeme_induction h (fun _ => reaches_stringLiteral _ c)
    (fun _ => reaches_templateStart c) (fun _ _ => reaches_numberLiteral c)
    (fun _ => reaches_privateWord c) (reaches_word c) (fun _ => reaches_regexLiteral c)
    (fun _ => c.reaches_next) (fun _ => c.reaches_next.trans (reaches_advance _ _))
    fun _ => c.reaches_next

end Lexer

end EcmaScript
