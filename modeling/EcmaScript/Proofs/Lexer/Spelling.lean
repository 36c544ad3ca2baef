import EcmaScript.Proofs.Lexer.Trace

/-!
# How tokens are spelled

What a token means against the characters between its ends. A name without escapes means
itself, a private name what stands behind its `#`, and a regular expression that is closed has
two slashes in its text, with the pattern between them and the flags behind. The raw text of a
piece of a template is what stands between its marks with uniform line ends; for this no escape
may end between the two characters of a line break.
-/

namespace EcmaScript

namespace Lexer

open Character Cursor

/-- The cut between the two texts is not in the middle of a line break. -/
def CutsNoBreak (front behind : List Char) : Prop :=
  front.getLast? = some '\r' → behind.head? ≠ some '\n'

/-- Line ends are made uniform on both sides of a cut that is not inside of one. -/
theorem uniformLineEnds_append {front behind : List Char} (h : CutsNoBreak front behind) :
    uniformLineEnds (front ++ behind) = uniformLineEnds front ++ uniformLineEnds behind := by
  fun_induction uniformLineEnds front with
  | case1 => rfl
  | case2 cs ih =>
    have hcs : CutsNoBreak cs behind := fun hl => h (by simp [List.getLast?_cons, hl])
    rw [List.cons_append, List.cons_append, uniformLineEnds, ih hcs, List.cons_append]
  | case3 cs hne ih =>
    cases cs with
    | nil =>
      cases behind with
      | nil => rfl
      | cons ch behind =>
        have hch : ch ≠ '\n' := fun hch => h rfl (by rw [hch]; rfl)
        rw [List.cons_append, List.nil_append, uniformLineEnds.eq_3 _ (by simpa using hch)]
        rfl
    | cons ch cs =>
      have hcs : CutsNoBreak (ch :: cs) behind := fun hl =>
        h (by simp [List.getLast?_cons] at hl ⊢; exact hl)
      have hch : ch ≠ '\n' := fun hch => hne cs (by rw [hch])
      rw [List.cons_append, List.cons_append, uniformLineEnds.eq_3 _ (by simpa using hch),
        ← List.cons_append, ih hcs]
      rfl
  | case4 ch cs h1 h2 ih =>
    have hch : ch ≠ '\r' := h2
    rw [List.cons_append, uniformLineEnds.eq_4 _ _ (fun _ h _ => hch h) hch]
    cases cs with
    | nil => rfl
    | cons d cs =>
      rw [ih fun hl => h (by rw [List.getLast?_cons_cons]; exact hl)]
      rfl

/-- The second cursor is the first one moved over some characters, and does not stand in the
middle of a line break. -/
def Clears (c d : Cursor) : Prop :=
  ∃ front, c.rest = front ++ d.rest ∧ d.offset = c.offset + byteLength front ∧
    CutsNoBreak front d.rest

/-- A cursor that does not move. -/
theorem Clears.refl (c : Cursor) : Clears c c := ⟨[], rfl, rfl, nofun⟩

/-- Cursors that move one behind the other. -/
theorem Clears.trans {c d e : Cursor} (h : Clears c d) (k : Clears d e) : Clears c e := by
  obtain ⟨xs, hr, ho, hc⟩ := h
  obtain ⟨ys, kr, ko, kc⟩ := k
  refine ⟨xs ++ ys, by rw [hr, kr, List.append_assoc], ?_, ?_⟩
  · rw [ko, ho, byteLength_append, Nat.add_assoc]
  · cases ys with
    | nil =>
      rw [List.append_nil]
      rw [kr] at hc
      exact hc
    | cons y ys =>
      intro hl
      rw [List.getLast?_append, List.getLast?_cons, Option.some_or] at hl
      exact kc (by rw [List.getLast?_cons]; exact hl)

/-- A character that does not start a line break is passed. -/
theorem clears_mk (offset : Nat) {ch : Char} (cs : List Char) (h : ch ≠ '\r') :
    Clears ⟨offset, ch :: cs⟩ ⟨offset + ch.utf8Size, cs⟩ :=
  ⟨[ch], rfl, rfl, fun hl => absurd (Option.some.inj hl) h⟩

/-- The same for a cursor that is known by what it has left. -/
theorem clears_cons {c : Cursor} {ch : Char} {cs : List Char} (hc : c.rest = ch :: cs)
    (h : ch ≠ '\r') : Clears c ⟨c.offset + ch.utf8Size, cs⟩ :=
  ⟨[ch], hc, rfl, fun hl => absurd (Option.some.inj hl) h⟩

/-- The same, one character further. -/
theorem clears_next {c : Cursor} {ch : Char} {cs : List Char} (hc : c.rest = ch :: cs)
    (h : ch ≠ '\r') : Clears c c.next := by
  rw [next_eq hc]
  exact clears_cons hc h

/-- A hexadecimal digit starts no line break. -/
theorem ne_carriageReturn_of_hexValue? {ch : Char} {d : Nat} (h : hexValue? ch = some d) :
    ch ≠ '\r' := by
  rintro rfl
  have hnone : hexValue? '\r' = none := by decide
  rw [hnone] at h
  exact absurd h (by simp)

/-- A run of hexadecimal digits ends in no line break. -/
theorem clears_hexRun (value count offset : Nat) (cs : List Char) :
    Clears ⟨offset, cs⟩ (hexRun value count offset cs).stop := by
  induction cs generalizing value count offset with
  | nil => exact .refl _
  | cons c cs ih =>
    rw [hexRun]
    split
    · rename_i d hd
      exact (clears_mk _ _ (ne_carriageReturn_of_hexValue? hd)).trans (ih _ _ _)
    · exact .refl _

/-- The digits of an escape end in no line break. -/
theorem clears_hexDigits {value n v : Nat} {c : Cursor} {cs : List Char} (hc : c.rest = cs)
    (h : hexDigits? value n cs = some v) : Clears c (c.advance n) := by
  induction n generalizing value c cs with
  | zero => exact .refl c
  | succ n ih =>
    cases cs with
    | nil => exact absurd h (by simp [hexDigits?])
    | cons ch cs =>
      rw [hexDigits?] at h
      split at h
      · rename_i d hd
        refine (clears_next hc (ne_carriageReturn_of_hexValue? hd)).trans (ih ?_ h)
        rw [next_eq hc]
      · exact absurd h (by simp)

/-- The code point of an escape ends in no line break. -/
theorem clears_codePoint (c : Cursor) : Clears c (codePoint c).2 := by
  unfold codePoint
  split
  · rename_i cs h
    have hr := (clears_cons h (by decide)).trans (clears_hexRun 0 0 (c.offset + 1) cs)
    simp only
    split
    · rename_i hclose
      exact hr.trans (clears_next hclose (by decide))
    · exact hr
  · split
    · rename_i hd
      exact clears_hexDigits rfl hd
    · exact .refl c

/-- The second half of a surrogate pair ends in no line break. -/
theorem clears_joinedChar (code : Nat) (c : Cursor) : Clears c (joinedChar code c).2 := by
  unfold joinedChar
  split
  · rename_i cs h
    have hr := ((clears_cons h (by decide)).trans (clears_mk _ _ (by decide))).trans
      (clears_codePoint ⟨c.offset + 2, cs⟩)
    split
    · split
      · rename_i low stop hc
        rw [hc] at hr
        split
        · exact hr
        · exact .refl c
      · exact .refl c
    · exact .refl c
  · exact .refl c

/-- A run of octal digits ends in no line break. -/
theorem clears_octalRun (value limit : Nat) (c : Cursor) :
    Clears c (octalRun value limit c).2 := by
  induction limit generalizing value c with
  | zero => exact .refl c
  | succ limit ih =>
    rw [octalRun]
    split
    · rename_i d _ hc
      split
      · rename_i hd
        refine (clears_next hc ?_).trans (ih _ _)
        rintro rfl
        exact absurd hd (by decide)
      · exact .refl c
    · exact .refl c

/-- An escape does not end in the middle of a line break. -/
theorem clears_escape (inTemplate : Bool) (c : Cursor) : Clears c (escape inTemplate c).stop := by
  cases hc : c.rest with
  | nil =>
    simp only [escape, hc]
    exact .refl c
  | cons ch cs =>
    by_cases hr : ch = '\r'
    · -- A line feed behind the carriage return belongs to the escape.
      subst hr
      have he : (escape inTemplate c).stop =
          if cs.head? == some '\n' then c.next.next else c.next := by
        simp only [escape, hc]
        rfl
      rw [he, next_eq hc]
      cases cs with
      | nil => exact ⟨['\r'], hc, rfl, fun _ hl => absurd hl (by simp)⟩
      | cons d cs =>
        by_cases hd : d = '\n'
        · subst hd
          exact ⟨['\r', '\n'], hc, by rw [byteLength_cons, ← Nat.add_assoc]; rfl,
            fun hl => absurd hl (by decide)⟩
        · rw [List.head?_cons, if_neg (by simpa using hd)]
          exact ⟨['\r'], hc, rfl, fun _ hl => hd (Option.some.inj hl)⟩
    · have hn := clears_next hc hr
      have hp := hn.trans (clears_codePoint c.next)
      refine escape_cases (P := fun e => Clears c e.stop) hc (fun _ => hn)
        (fun h => absurd h hr) (fun _ _ => hn.trans (clears_octalRun _ _ _))
        (fun value hd => hn.trans (clears_hexDigits (by rw [next_eq hc]) hd))
        (fun code stop h => ?_) hn (fun problem stop h => ?_) fun _ => hn
      · rw [h] at hp
        exact hp.trans (clears_joinedChar code stop)
      · rw [h] at hp
        exact hp

/-- From the cursor on there is content in front of what the chunk ends with, and the raw text
of the chunk is `before` and the content with uniform line ends. -/
def TemplateChunk.Spells (chunk : TemplateChunk) (before : List Char) (c : Cursor) : Prop :=
  ∃ (content : List Char) (e : Cursor), c.rest = content ++ e.rest ∧
    e.offset = c.offset + byteLength content ∧
    chunk.stop.offset = e.offset + chunk.ending.width ∧
    chunk.raw = before ++ uniformLineEnds content

/-- More content in front. -/
theorem TemplateChunk.Spells.cons {chunk : TemplateChunk} {before : List Char} {c d : Cursor}
    (front : List Char) (h : chunk.Spells (before ++ uniformLineEnds front) d)
    (hr : c.rest = front ++ d.rest) (ho : d.offset = c.offset + byteLength front)
    (hcut : CutsNoBreak front d.rest) :
    chunk.Spells before c := by
  obtain ⟨content, e, kr, ko, hstop, hraw⟩ := h
  refine ⟨front ++ content, e, by rw [hr, kr, List.append_assoc], ?_, hstop, ?_⟩
  · rw [ko, ho, byteLength_append, Nat.add_assoc]
  · rw [kr] at hcut
    have hcut : CutsNoBreak front content := fun hl hx =>
      hcut hl (by rw [List.head?_append, hx]; rfl)
    rw [hraw, uniformLineEnds_append hcut, List.append_assoc]

/-- The raw text of a chunk is its content with uniform line ends. -/
theorem templateChunk_spells (cooked raw : List Char) (valid : Bool) (c : Cursor) :
    (templateChunk cooked raw valid c).Spells raw.reverse c := by
  fun_induction templateChunk cooked raw valid c with
  | case1 => exact ⟨[], _, rfl, rfl, rfl, (List.append_nil _).symm⟩
  | case2 => exact ⟨[], _, rfl, rfl, rfl, (List.append_nil _).symm⟩
  | case3 => exact ⟨[], _, rfl, rfl, rfl, (List.append_nil _).symm⟩
  | case4 cooked raw valid c cs h esc spelling chars hm ih =>
    obtain ⟨front, hr, ho, hcut⟩ := (clears_cons h (by decide)).trans (clears_escape true _)
    have hraw : (spelling.reverse ++ raw).reverse = raw.reverse ++ uniformLineEnds front := by
      rw [List.reverse_append, List.reverse_reverse]
      exact congrArg (raw.reverse ++ uniformLineEnds ·) (charsUntil_eq hr ho)
    rw [hraw] at ih
    exact ih.cons front hr ho hcut
  | case5 cooked raw valid c cs h esc spelling problem hm ih =>
    obtain ⟨front, hr, ho, hcut⟩ := (clears_cons h (by decide)).trans (clears_escape true _)
    have hraw : (spelling.reverse ++ raw).reverse = raw.reverse ++ uniformLineEnds front := by
      rw [List.reverse_append, List.reverse_reverse]
      exact congrArg (raw.reverse ++ uniformLineEnds ·) (charsUntil_eq hr ho)
    rw [hraw] at ih
    exact ih.cons front hr ho hcut
  | case6 cooked raw valid c cs h ih =>
    rw [List.reverse_cons] at ih
    exact ih.cons ['\r', '\n'] h (by rw [byteLength_cons, ← Nat.add_assoc]; rfl)
      (by simp [CutsNoBreak])
  | case7 cooked raw valid c cs hne h ih =>
    rw [List.reverse_cons] at ih
    refine ih.cons ['\r'] h rfl fun _ hl => ?_
    cases cs with
    | nil => cases hl
    | cons d cs => exact hne cs (by rw [Option.some.inj hl])
  | case8 cooked raw valid c ch cs _ _ _ _ hne h ih =>
    have hu : uniformLineEnds [ch] = [ch] := uniformLineEnds.eq_4 _ _ (fun _ h _ => hne h) hne
    rw [List.reverse_cons, ← hu] at ih
    exact ih.cons [ch] h rfl fun hl => (hne (Option.some.inj hl)).elim

/-- What a token of a kind has as its value and its raw text, against the characters between its
ends. -/
def Spells (kind : TokenKind) (value raw text : String) : Prop :=
  match kind with
  | .word w => text = w.text ∧ value = text
  | .identifier => '\\' ∉ text.toList → value = text
  | .escapedReservedWord => '\\' ∈ text.toList
  | .privateName => '\\' ∉ text.toList → text = "#" ++ value
  | .regex => text = "/" ++ value ++ "/" ++ raw
  | .number => ∃ ch, text.toList.head? = some ch ∧ (isDigit ch = true ∨ ch = '.')
  | .mark p => text = p.text
  | _ => True

/-- The lexeme that is read at a cursor is spelled as it should be, if it has no faults. -/
def Lexeme.Spelled (l : Lexeme) (c : Cursor) : Prop :=
  l.faults = [] → Spells l.kind l.value l.raw (c.textUntil l.stop)

/-- A keyword is found under its own text. -/
theorem Keyword.text_of_ofText? {text : String} {w : Keyword} (h : Keyword.ofText? text = some w) :
    text = w.text :=
  (eq_of_beq (List.find?_some (p := fun w : Keyword => w.text == text) h)).symm

/-- The characters from a cursor up to one that it reaches. -/
theorem toList_textUntil {c d : Cursor} {front : List Char} (hr : c.rest = front ++ d.rest)
    (ho : d.offset = c.offset + byteLength front) : (c.textUntil d).toList = front := by
  rw [textUntil, String.toList_ofList, charsUntil_eq hr ho]

/-- A punctuator is spelled where it stands. -/
theorem textUntil_mark {c : Cursor} {p : Punctuator} (h : p.text.toList <+: c.rest) :
    c.textUntil (c.next.advance (p.text.length - 1)) = p.text := by
  obtain ⟨rest, hr⟩ := h
  have hlength : p.text.toList.length = p.text.length - 1 + 1 := by cases p <;> rfl
  have hstop := advance_length hr.symm
  rw [hlength] at hstop
  change c.next.advance (p.text.length - 1) = _ at hstop
  rw [hstop, ← String.toList_inj, toList_textUntil hr.symm rfl]

/-- A name that is spelled with an escape has its backslash between its ends. -/
theorem mem_escapedName {c plain : Cursor} {cs name : List Char} {stop : Cursor}
    {before : List Char}
    (hp : c.Reaches plain) (hc : plain.rest = '\\' :: cs)
    (h : escapedName before plain = (.ok name, stop)) : '\\' ∈ (c.textUntil stop).toList := by
  have hlt : stop.rest.length < plain.rest.length := by
    have hle := length_escapedName_le
    have hcode := fun cs => length_codePoint_le ⟨plain.offset + 2, cs⟩
    have hstop : stop = (escapedName before plain).2 := by rw [h]
    rw [escapedName.eq_def] at h
    grind
  have hs := reaches_escapedName before plain
  rw [h] at hs
  obtain ⟨front, hr, ho⟩ := hs
  cases front with
  | nil =>
    rw [List.nil_append] at hr
    rw [hr] at hlt
    exact absurd hlt (Nat.lt_irrefl _)
  | cons ch front =>
    rw [hc, List.cons_append] at hr
    obtain ⟨xs, kr, ko⟩ := hp
    have hrest : c.rest = (xs ++ ch :: front) ++ stop.rest := by
      rw [kr, hc, hr, List.append_assoc, List.cons_append]
    have hoffset : stop.offset = c.offset + byteLength (xs ++ ch :: front) := by
      rw [ho, ko, byteLength_append, Nat.add_assoc]
    rw [toList_textUntil hrest hoffset, (List.cons.inj hr).1]
    simp

/-- Without an escape a word means itself; with one it has a backslash in it. -/
theorem word_spells (c : Cursor) :
    ((word c).kind = .illegal ∧ (word c).faults ≠ []) ∨
      ('\\' ∈ (c.textUntil (word c).stop).toList ∧
        ((word c).kind = .identifier ∨ (word c).kind = .escapedReservedWord)) ∨
      ((word c).value = c.textUntil (word c).stop ∧
        (word c).kind = plainWordKind (c.textUntil (word c).stop)) := by
  have hs := reaches_skipWhile isNamePart c
  unfold word
  simp only
  split
  · rename_i cs hc
    split
    · rename_i name stop hname
      refine Or.inr (Or.inl ⟨mem_escapedName hs hc hname, ?_⟩)
      simp only [escapedWordKind]
      split
      · split
        · exact Or.inr rfl
        · exact Or.inl rfl
      · exact Or.inl rfl
    · exact Or.inl ⟨rfl, by simp⟩
  · exact Or.inr (Or.inr ⟨rfl, rfl⟩)

/-- A word without a fault is spelled as it should be. -/
theorem word_spelled (c : Cursor) : (word c).Spelled c := by
  intro hf
  rcases word_spells c with ⟨hk, -⟩ | ⟨hmem, hk | hk⟩ | ⟨hvalue, hk⟩
  · rw [hk]
    trivial
  · rw [hk]
    exact fun hno => absurd hmem hno
  · rw [hk]
    exact hmem
  · rw [hk, hvalue, plainWordKind]
    cases hw : Keyword.ofText? (c.textUntil (word c).stop) with
    | none => exact fun _ => rfl
    | some w => exact ⟨Keyword.text_of_ofText? hw, rfl⟩

/-- A private name is spelled with a hash in front. -/
theorem privateWord_spelled {c : Cursor} {cs : List Char} (hc : c.rest = '#' :: cs) :
    (privateWord c).Spelled c := by
  have hillegal : ∀ l : Lexeme, l.kind = .illegal → l.Spelled c := fun l hl _ => by
    rw [hl]
    trivial
  have htext : ∀ stop, c.next.Reaches stop →
      (c.textUntil stop).toList = '#' :: (c.next.textUntil stop).toList := by
    rintro stop ⟨front, hr, ho⟩
    rw [toList_textUntil hr ho]
    rw [next_eq hc] at hr ho
    refine toList_textUntil (by rw [hc, List.cons_append, ← hr]) ?_
    rw [ho, byteLength_cons, Nat.add_assoc]
  unfold privateWord
  simp only
  split
  · split
    · have ht := htext _ (reaches_word c.next)
      rcases word_spells c.next with ⟨hk, -⟩ | ⟨hmem, hk⟩ | ⟨hvalue, hk⟩
      · exact hillegal _ (by simp only [hk, if_true])
      · intro _
        have hne : (word c.next).kind ≠ .illegal := by
          rcases hk with hk | hk <;> rw [hk] <;> simp
        simp only [if_neg hne]
        intro hno
        rw [ht] at hno
        exact absurd (List.mem_cons_of_mem _ hmem) hno
      · intro _
        have hne : (word c.next).kind ≠ .illegal := by
          rw [hk, plainWordKind]
          split <;> simp
        simp only [if_neg hne]
        intro _
        apply String.toList_inj.mp
        rw [String.toList_append, hvalue]
        exact ht
    · exact hillegal _ rfl
  · exact hillegal _ rfl

/-- A regular expression is spelled between two slashes, with its flags. -/
theorem regexLiteral_spelled {c : Cursor} {cs : List Char} (hc : c.rest = '/' :: cs) :
    (regexLiteral c).Spelled c := by
  obtain ⟨xs, hr, ho⟩ := reaches_regexBody false c.next.offset c.next.rest
  unfold regexLiteral
  simp only
  split
  · rename_i ds hd
    intro _
    obtain ⟨ys, kr, ko⟩ := reaches_skipWhile isNamePart
      (regexBody false c.next.offset c.next.rest).next
    have hflags := charsUntil_eq kr ko
    have hpattern : (c.next.textUntil (regexBody false c.next.offset c.next.rest)).toList = xs :=
      toList_textUntil hr ho
    rw [next_eq hd] at kr ko hflags
    apply String.toList_inj.mp
    simp only [String.toList_append, hpattern, next_eq hd, String.toList_ofList, hflags]
    refine toList_textUntil ?_ ?_
    · rw [hd, next_eq hc] at hr
      change cs = _ at hr
      change ds = _ at kr
      rw [hc, hr]
      simpa using kr
    · rw [ko]
      change _ = _ + byteLength (['/'] ++ xs ++ ['/'] ++ ys)
      rw [ho, next_eq hc]
      simp only [byteLength_append, byteLength_cons, byteLength_nil]
      omega
  · intro hf
    exact absurd hf (by simp)

/-- A number starts with a digit or a dot. -/
theorem kind_numberLiteral (c : Cursor) :
    (numberLiteral c).kind = .illegal ∨ (numberLiteral c).kind = .number ∨
      (numberLiteral c).kind = .bigInt := by
  have hfinish : ∀ (scan : NumberScan) (big : Bool), (scan.finish c big).kind = .illegal ∨
      (scan.finish c big).kind = .number ∨ (scan.finish c big).kind = .bigInt := by
    intro scan big
    unfold NumberScan.finish
    cases big && scan.stop.peek? == some 'n' with
    | false =>
      simp only [Bool.false_eq_true, ite_false]
      split
      · exact Or.inl rfl
      · exact Or.inr (Or.inl rfl)
    | true =>
      simp only [ite_true]
      split
      · exact Or.inl rfl
      · exact Or.inr (Or.inr rfl)
  have hradix : ∀ valid flags, (radixNumber c valid flags).kind = .illegal ∨
      (radixNumber c valid flags).kind = .number ∨ (radixNumber c valid flags).kind = .bigInt := by
    intro valid flags
    unfold radixNumber
    simp only
    split
    · exact Or.inl rfl
    · exact hfinish _ _
  have hzero : (leadingZeroNumber c).kind = .illegal ∨ (leadingZeroNumber c).kind = .number ∨
      (leadingZeroNumber c).kind = .bigInt := by
    unfold leadingZeroNumber
    simp only
    split
    · exact hfinish _ _
    · exact hfinish _ _
  unfold numberLiteral
  split
  · split
    · exact hradix _ _
    · split
      · exact hradix _ _
      · split
        · exact hradix _ _
        · split
          · exact hzero
          · exact hfinish _ _
  · exact hfinish _ _

/-- A number is spelled as its raw text. -/
theorem numberLiteral_spelled {c : Cursor} {ch : Char} {cs : List Char} (hc : c.rest = ch :: cs)
    (hd : isDigit ch = true ∨ ch = '.') : (numberLiteral c).Spelled c := by
  intro _
  rcases kind_numberLiteral c with hk | hk | hk
  · rw [hk]
    trivial
  · rw [hk]
    have hlt := length_numberLiteral_lt hc hd
    obtain ⟨front, hr, ho⟩ := reaches_numberLiteral c
    refine ⟨ch, ?_, hd⟩
    rw [toList_textUntil hr ho]
    cases front with
    | nil =>
      rw [List.nil_append] at hr
      rw [hr] at hlt
      exact absurd hlt (Nat.lt_irrefl _)
    | cons d front =>
      rw [hc, List.cons_append] at hr
      rw [(List.cons.inj hr).1]
      rfl
  · rw [hk]
    trivial

/-- Every lexeme without faults is spelled as it should be. -/
theorem lexeme_spelled {regexAllowed : Bool} {c : Cursor} {l : Lexeme}
    (h : lexeme? regexAllowed c = some l) : l.Spelled c := by
  have hplain : ∀ l : Lexeme, (∀ value raw text, Spells l.kind value raw text) → l.Spelled c :=
    fun l hl _ => hl _ _ _
  have hmark : ∀ {p}, Punctuator.startOf? c.rest = some p → p.text.toList <+: c.rest := by
    intro p hp
    have hprefix := List.find?_some hp
    exact List.isPrefixOf_iff_prefix.mp hprefix
  refine lexeme_induction h (fun _ => hplain _ fun _ _ _ => trivial) (fun _ => ?_)
    (fun hc hd => numberLiteral_spelled hc (hd.imp_right And.left)) privateWord_spelled
    (word_spelled c) regexLiteral_spelled
    (fun hc _ => textUntil_mark (p := .question) ⟨_, hc.symm⟩)
    (fun hp _ => textUntil_mark (hmark hp))
    fun _ => hplain _ fun _ _ _ => trivial
  refine hplain _ fun _ _ _ => ?_
  change Spells (if _ then TokenKind.templateHead else .template) _ _ _
  split
  · trivial
  · trivial

/-- Where a token stands there are the characters between its ends. -/
theorem Trace.slice_span {text : String} {readings : List Reading} {lexer : Lexer}
    (h : Trace text readings lexer) : lexer.token.span.slice? text = some lexer.token.text := by
  obtain ⟨⟨before, hr, ho⟩, ⟨middle, kr, ko⟩, -⟩ := h.place
  have hstart : lexer.token.start.offset = byteLength before := by
    rw [ho]
    exact Nat.zero_add _
  rw [Token.span, Token.text, textUntil, charsUntil_eq kr ko, ko, hstart]
  have htext : text.toList = before ++ (middle ++ lexer.token.stop.rest) := by
    rw [← kr]
    exact hr
  exact Span.slice?_ofOffsets htext

/-- Where there is no fault at all, the last reading has none. -/
theorem eq_nil_of_append_eq_empty {told : Array Fault} {more : List Fault}
    (h : told ++ more = #[]) : more = [] := by
  have hlist := congrArg Array.toList h
  rw [Array.toList_appendList] at hlist
  exact (List.append_eq_nil_iff.mp hlist).2

/-- Without faults the current token of a trace is spelled as it should be. -/
theorem Trace.token_spelled {text : String} {readings : List Reading} {r : Reading} {lexer : Lexer}
    (h : Trace text (readings ++ [r]) lexer) (hf : lexer.faults = #[]) :
    Spells lexer.token.kind lexer.token.value lexer.token.raw lexer.token.text := by
  generalize hrs : readings ++ [r] = all at h
  cases h with
  | start => exact absurd hrs (by simp)
  | @scan _ lexer _ =>
    cases hl : lexeme? lexer.regexAllowed (trivia false lexer.token.stop).stop with
    | none =>
      rw [scan_of_none hl]
      trivial
    | some l =>
      rw [scan_of_some hl] at hf ⊢
      exact lexeme_spelled hl (eq_nil_of_append_eq_empty hf)
  | @slash _ _ lexer ht hk =>
    rw [rescanSlash_eq hk] at hf ⊢
    have hfront : ∃ cs, lexer.token.start.rest = '/' :: cs := by
      rcases hk with hk | hk
      · obtain ⟨cs, hc⟩ := ht.mark_spelled hk
        exact ⟨cs, hc.symm⟩
      · obtain ⟨cs, hc⟩ := ht.mark_spelled hk
        exact ⟨'=' :: cs, hc.symm⟩
    obtain ⟨cs, hc⟩ := hfront
    exact regexLiteral_spelled hc (eq_nil_of_append_eq_empty hf)
  | template _ _ =>
    rw [rescanTemplate_eq]
    change Spells (if _ then TokenKind.templateMiddle else .templateTail) _ _ _
    split
    · trivial
    · trivial

/-- The content of a piece of a template lies behind its first character, which is one byte,
and in front of what it ends with. With uniform line ends it is the raw text of the token. -/
theorem Trace.template_content {text : String} {readings : List Reading} {r : Reading}
    {lexer : Lexer} (h : Trace text (readings ++ [r]) lexer)
    (hk : lexer.token.kind.isTemplate = true) :
    lexer.token.start.next.offset = lexer.token.start.offset + 1 ∧
      ∃ (content : List Char) (e : Cursor), lexer.token.start.next.rest = content ++ e.rest ∧
        e.offset = lexer.token.start.next.offset + byteLength content ∧
        lexer.token.stop.offset = e.offset + lexer.token.closing ∧
        lexer.token.raw = String.ofList (uniformLineEnds content) := by
  generalize hrs : readings ++ [r] = all at h
  cases h with
  | start => exact absurd hrs (by simp)
  | @scan _ lexer _ =>
    cases hl : lexeme? lexer.regexAllowed (trivia false lexer.token.stop).stop with
    | none =>
      rw [scan_of_none hl] at hk
      exact absurd hk (by simp [TokenKind.isTemplate])
    | some l =>
      rw [scan_of_some hl] at hk ⊢
      change l.kind.isTemplate = true at hk
      rcases lexeme_cases hl with hw | ⟨⟨cs, hc⟩, rfl⟩ | ⟨q, hq, _, _⟩
      · rw [isTemplate_of_isWhole hw.isWhole] at hk
        exact absurd hk (by simp)
      · refine ⟨by rw [Cursor.next_eq hc]; rfl, ?_⟩
        obtain ⟨content, e, hr, ho, hstop, hraw⟩ :=
          templateChunk_spells [] [] true (trivia false lexer.token.stop).stop.next
        exact ⟨content, e, hr, ho, hstop.trans (congrArg _ (closing_eq_width rfl rfl rfl rfl).symm),
          congrArg String.ofList hraw⟩
      · rw [hq] at hk
        exact absurd hk (by simp [TokenKind.isTemplate])
  | slash _ ht =>
    rw [rescanSlash_eq ht] at hk
    change (regexLiteral _).kind.isTemplate = true at hk
    rw [kind_regexLiteral] at hk
    exact absurd hk (by simp [TokenKind.isTemplate])
  | @template _ _ lexer ht hb =>
    obtain ⟨cs, hc⟩ := ht.mark_spelled hb
    rw [rescanTemplate_eq]
    refine ⟨by rw [again, Cursor.next_eq hc.symm]; rfl, ?_⟩
    obtain ⟨content, e, hr, ho, hstop, hraw⟩ :=
      templateChunk_spells [] [] true lexer.token.start.next
    exact ⟨content, e, hr, ho, hstop.trans (congrArg _ (closing_eq_width rfl rfl rfl rfl).symm),
      congrArg String.ofList hraw⟩

end Lexer

end EcmaScript
