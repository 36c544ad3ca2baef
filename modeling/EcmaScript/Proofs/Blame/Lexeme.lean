import EcmaScript.Proofs.Lexer.Trace

/-!
# Places that lexemes blame

A lexeme tells its faults in the order in which its parts are read, so each fault blames a character
of the lexeme that lies behind those blamed before. Two things make exceptions. A lexeme that is
wrong as a whole is blamed at its start, and this is told last, since it is known last. And a
separator behind another one that is also the last character of its run of digits is blamed for
both.
-/

namespace EcmaScript

/-- The faults are told in the order of the text. Only a misplaced separator can be blamed twice. -/
def Fault.Before (f g : Fault) : Prop :=
  f.offset < g.offset ∨
    f.offset = g.offset ∧ f.problem = .misplacedSeparator ∧ g.problem = .misplacedSeparator

/-- The faults blame different places, unless both blame a misplaced separator. -/
def Fault.Apart (f g : Fault) : Prop :=
  f.offset = g.offset → f.problem = .misplacedSeparator ∧ g.problem = .misplacedSeparator

/-- Faults one before the other are told for two places. -/
theorem Fault.Before.apart {f g : Fault} (h : f.Before g) : f.Apart g := by
  intro he
  rcases h with hlt | ⟨_, hs⟩
  · omega
  · exact hs

/-- Behind the first character of what lies between two places. -/
theorem Cursor.Reaches.next {c d : Cursor} (h : c.Reaches d)
    (hl : d.rest.length < c.rest.length) : c.next.Reaches d := by
  obtain ⟨front, hr, ho⟩ := h
  cases front with
  | nil =>
    rw [hr, List.nil_append] at hl
    omega
  | cons ch front =>
    rw [next_eq hr]
    refine ⟨front, rfl, ?_⟩
    rw [ho, byteLength_cons, Nat.add_assoc]

/-- A character takes at least one byte. -/
theorem Cursor.offset_lt_next {c : Cursor} {ch : Char} {cs : List Char} (h : c.rest = ch :: cs) :
    c.offset < c.next.offset := c.reaches_next.offset_lt (length_next_lt h)

namespace Lexer

open Character Cursor

/-- The fault blames a character between two places of a text. -/
def Blamed (c stop : Cursor) (f : Fault) : Prop :=
  ∃ d : Cursor, c.Reaches d ∧ d.Reaches stop ∧ f.offset = d.offset ∧ d.offset < stop.offset

/-- The faults blame characters between two places of a text, in their order. -/
structure InPlace (c stop : Cursor) (faults : List Fault) : Prop where
  blamed : ∀ f ∈ faults, Blamed c stop f
  inOrder : faults.Pairwise Fault.Before

/-- The faults of what lies between two places: those of its parts in the order of the text, and
perhaps one of the whole behind them. -/
inductive Recounts (c stop : Cursor) : List Fault → Prop where
  | parts {faults : List Fault} : InPlace c stop faults → Recounts c stop faults
  | whole {inner : List Fault} {fault : Fault} {ch : Char} {cs : List Char} :
      c.rest = ch :: cs → c.next.Reaches stop → InPlace c.next stop inner →
      fault.offset = c.offset → Recounts c stop (inner ++ [fault])

section

variable {c d stop stop' : Cursor} {f : Fault} {faults more : List Fault}

/-- What lies behind a place lies behind all places before it. -/
theorem Blamed.lower (h : Blamed d stop f) (hc : c.Reaches d) : Blamed c stop f := by
  obtain ⟨e, hd, he, ho, hlt⟩ := h
  exact ⟨e, hc.trans hd, he, ho, hlt⟩

/-- What lies before a place lies before all places behind it. -/
theorem Blamed.upTo (h : Blamed c stop f) (hs : stop.Reaches stop') : Blamed c stop' f := by
  obtain ⟨e, hd, he, ho, hlt⟩ := h
  exact ⟨e, hd, he.trans hs, ho, Nat.lt_of_lt_of_le hlt hs.offset_le⟩

/-- Nothing before the start is blamed. -/
theorem Blamed.offset_le (h : Blamed c stop f) : c.offset ≤ f.offset := by
  obtain ⟨e, hd, _, ho, _⟩ := h
  rw [ho]
  exact hd.offset_le

/-- Nothing at the end or behind it is blamed. -/
theorem Blamed.offset_lt (h : Blamed c stop f) : f.offset < stop.offset := by
  obtain ⟨e, _, _, ho, hlt⟩ := h
  rwa [ho]

/-- What is blamed is a character of the text. -/
theorem Blamed.isBoundary {text : String} (h : Blamed c stop f) (hc : c.IsIn text) :
    IsBoundary text f.offset := by
  obtain ⟨e, hd, _, ho, _⟩ := h
  have he : e.IsIn text := hc.trans hd
  rw [ho]
  exact he.isBoundary

/-- The first character is blamed. -/
theorem blamed_start {ch : Char} {cs : List Char} (hc : c.rest = ch :: cs)
    (hs : c.next.Reaches stop) (hf : f.offset = c.offset) : Blamed c stop f :=
  ⟨c, .refl c, c.reaches_next.trans hs, hf,
    Nat.lt_of_lt_of_le (offset_lt_next hc) hs.offset_le⟩

/-- No faults are in place. -/
theorem InPlace.nil : InPlace c stop [] := ⟨List.forall_mem_nil _, .nil⟩

/-- A single fault is in place where it is blamed. -/
theorem InPlace.singleton (h : Blamed c stop f) : InPlace c stop [f] :=
  ⟨List.forall_mem_singleton.mpr h, List.pairwise_singleton _ _⟩

/-- Faults behind a place are behind all places before it. -/
theorem InPlace.lower (h : InPlace d stop faults) (hc : c.Reaches d) : InPlace c stop faults :=
  ⟨fun f hf => (h.blamed f hf).lower hc, h.inOrder⟩

/-- Faults before a place are before all places behind it. -/
theorem InPlace.upTo (h : InPlace c stop faults) (hs : stop.Reaches stop') :
    InPlace c stop' faults :=
  ⟨fun f hf => (h.blamed f hf).upTo hs, h.inOrder⟩

/-- Faults in one stretch of the text and in the next one. -/
theorem InPlace.append (h : InPlace c d faults) (k : InPlace d stop more) (hc : c.Reaches d)
    (hd : d.Reaches stop) : InPlace c stop (faults ++ more) where
  blamed := by
    intro f hf
    rcases List.mem_append.mp hf with hf | hf
    · exact (h.blamed f hf).upTo hd
    · exact (k.blamed f hf).lower hc
  inOrder := by
    refine List.pairwise_append.mpr ⟨h.inOrder, k.inOrder, fun f hf g hg => Or.inl ?_⟩
    have hlt := (h.blamed f hf).offset_lt
    have hle := (k.blamed g hg).offset_le
    omega

/-- One more fault in front of the others. -/
theorem InPlace.cons (h : InPlace d stop faults) (hf : f.offset = c.offset) (hc : c.Reaches d)
    (hlt : c.offset < d.offset) (hd : d.Reaches stop) : InPlace c stop (f :: faults) :=
  (InPlace.singleton ⟨c, .refl c, hc, hf, hlt⟩).append h hc hd

/-- What is told of a token blames its characters. -/
theorem Recounts.blamed (h : Recounts c stop faults) : ∀ f ∈ faults, Blamed c stop f := by
  cases h with
  | parts h => exact h.blamed
  | @whole inner fault ch cs hc hs h hf =>
    intro f hmem
    rcases List.mem_append.mp hmem with hmem | hmem
    · exact (h.blamed f hmem).lower c.reaches_next
    · rw [List.mem_singleton.mp hmem]
      exact blamed_start hc hs hf

/-- What is told of a token is told for different places. -/
theorem Recounts.apart (h : Recounts c stop faults) : faults.Pairwise Fault.Apart := by
  cases h with
  | parts h => exact h.inOrder.imp Fault.Before.apart
  | @whole inner fault ch cs hc hs h hf =>
    refine List.pairwise_append.mpr ⟨h.inOrder.imp Fault.Before.apart,
      List.pairwise_singleton _ _, fun f hmem g hg he => ?_⟩
    rw [List.mem_singleton.mp hg] at he
    have hle := (h.blamed f hmem).offset_le
    have hlt := offset_lt_next hc
    omega

end

/-- Each escape in a string is blamed on its own. -/
theorem inPlace_stringBody (quote : Char) (value : List Char) (faults : List Fault) (c : Cursor) :
    ∃ more, (stringBody quote value faults c).faults = faults.reverse ++ more ∧
      InPlace c (stringBody quote value faults c).stop more := by
  have hreach := reaches_stringBody quote value faults c
  fun_induction stringBody quote value faults c with
  | case1 => exact ⟨[], (List.append_nil _).symm, .nil⟩
  | case2 => exact ⟨[], (List.append_nil _).symm, .nil⟩
  | case3 value faults c ch cs h hq hb esc chars hm ih =>
    obtain ⟨more, he, hp⟩ := ih (reaches_stringBody _ _ _ _)
    obtain rfl := eq_of_beq hb
    exact ⟨more, he, hp.lower ((reaches_cons h).trans (reaches_escape false _))⟩
  | case4 value faults c ch cs h hq hb esc problem hm ih =>
    obtain ⟨more, he, hp⟩ := ih (reaches_stringBody _ _ _ _)
    obtain rfl := eq_of_beq hb
    have hesc : Reaches ⟨c.offset + 1, cs⟩ esc.stop := reaches_escape false _
    refine ⟨⟨problem, c.offset⟩ :: more, ?_, ?_⟩
    · rw [he, List.reverse_cons, List.append_assoc, List.singleton_append]
    · refine hp.cons rfl ((reaches_cons h).trans hesc) ?_ (reaches_stringBody _ _ _ _)
      exact Nat.lt_of_lt_of_le (Nat.lt_succ_self _) hesc.offset_le
  | case5 => exact ⟨[], (List.append_nil _).symm, .nil⟩
  | case6 value faults c ch cs h hq hb hl ih =>
    obtain ⟨more, he, hp⟩ := ih (reaches_stringBody _ _ _ _)
    exact ⟨more, he, hp.lower (reaches_cons h)⟩

/-- A string without an end is blamed at its quote, and its escapes before that. -/
theorem recounts_stringLiteral (quote : Char) {c : Cursor} {ch : Char} {cs : List Char}
    (hc : c.rest = ch :: cs) :
    Recounts c (stringLiteral quote c).stop (stringLiteral quote c).faults := by
  obtain ⟨more, he, hp⟩ := inPlace_stringBody quote [] [] c.next
  rw [List.reverse_nil, List.nil_append] at he
  have hreach := reaches_stringBody quote [] [] c.next
  by_cases hclosed : (stringBody quote [] [] c.next).closed = true
  · have hf : (stringLiteral quote c).faults = more := by
      simp only [stringLiteral, hclosed, if_true, he]
    rw [hf]
    exact .parts (hp.lower c.reaches_next)
  · have hf : (stringLiteral quote c).faults = more ++ [⟨.unterminatedString, c.offset⟩] := by
      simp only [stringLiteral, hclosed, Bool.false_eq_true, if_false, he]
    rw [hf]
    exact .whole hc hreach hp rfl

/-- A template without an end is blamed where its piece starts. -/
theorem recounts_toLexeme (chunk : TemplateChunk) (kind opening : TokenKind) {c : Cursor}
    {ch : Char} {cs : List Char} (hc : c.rest = ch :: cs) (hs : c.next.Reaches chunk.stop) :
    Recounts c (chunk.toLexeme kind opening c.offset).stop
      (chunk.toLexeme kind opening c.offset).faults := by
  by_cases hmissing : chunk.ending = .missing
  · have hf : (chunk.toLexeme kind opening c.offset).faults =
        [⟨.unterminatedTemplate, c.offset⟩] := by
      simp only [TemplateChunk.toLexeme, hmissing, if_true]
    rw [hf]
    exact .whole hc hs .nil rfl
  · have hf : (chunk.toLexeme kind opening c.offset).faults = [] := by
      simp only [TemplateChunk.toLexeme, hmissing, if_false]
    rw [hf]
    exact .parts .nil

/-- A later piece of a template is blamed as the first one is. -/
theorem recounts_templateContinuation {c : Cursor} {ch : Char} {cs : List Char}
    (hc : c.rest = ch :: cs) :
    Recounts c (templateContinuation c).stop (templateContinuation c).faults :=
  recounts_toLexeme _ _ _ hc (reaches_templateChunk [] [] true c.next)

/-- No flags are valid flags. So if they are not, some character is blamed. -/
theorem offset_lt_of_flags {c stop : Cursor} (h : c.Reaches stop)
    (hv : ¬validRegexFlags (c.charsUntil stop) = true) : c.offset < stop.offset := by
  have hle := h.offset_le
  have hne : c.offset ≠ stop.offset := by
    intro he
    obtain ⟨front, hr, ho⟩ := h
    rw [Cursor.charsUntil_eq hr ho] at hv
    cases front with
    | nil => exact hv rfl
    | cons ch front =>
      have hpos := ch.utf8Size_pos
      rw [byteLength_cons] at ho
      omega
  omega

/-- A regular expression without an end is blamed where it starts. -/
theorem recounts_regexLiteral {c : Cursor} {ch : Char} {cs : List Char} (hc : c.rest = ch :: cs) :
    Recounts c (regexLiteral c).stop (regexLiteral c).faults := by
  have hbody := reaches_regexBody false c.next.offset c.next.rest
  unfold regexLiteral
  simp only
  split
  · have hflags := reaches_skipWhile isNamePart (regexBody false c.next.offset c.next.rest).next
    simp only
    split
    · exact .parts .nil
    · rename_i hv
      refine .parts (.singleton ⟨_, ?_, hflags, rfl, offset_lt_of_flags hflags hv⟩)
      exact (c.reaches_next.trans hbody).trans (reaches_next _)
  · exact .whole hc hbody .nil rfl

/-- Separators are blamed in the order of the text, one at the end of a run after all others. Here
`p` is a place that comes before the run or, if it starts behind a separator, the place of that. -/
theorem inPlace_digitRun (valid : Char → Bool) (count : Nat) (separated dangling : Bool)
    (faults : List Fault) (offset : Nat) (cs : List Char) {p : Cursor}
    (hp : p.Reaches ⟨offset, cs⟩) (hd : dangling = true → p.offset + 1 = offset) :
    ∃ more, (digitRun valid count separated dangling faults offset cs).faults =
        faults.reverse ++ more ∧
      InPlace p (digitRun valid count separated dangling faults offset cs).stop more ∧
      ∀ f ∈ more, f.problem = .misplacedSeparator := by
  have hfinish : ∀ (count : Nat) (separated dangling : Bool) (faults : List Fault) (offset : Nat)
      (rest : List Char) (p : Cursor), p.Reaches ⟨offset, rest⟩ →
      (dangling = true → p.offset + 1 = offset) →
      ∃ more, (digitRun.finish count separated dangling faults offset rest).faults =
          faults.reverse ++ more ∧
        InPlace p (digitRun.finish count separated dangling faults offset rest).stop more ∧
        ∀ f ∈ more, f.problem = .misplacedSeparator := by
    intro count separated dangling faults offset rest p hp hd
    cases dangling with
    | false => exact ⟨[], (List.append_nil _).symm, .nil, List.forall_mem_nil _⟩
    | true =>
      have ho := hd rfl
      refine ⟨[⟨.misplacedSeparator, offset - 1⟩], List.reverse_cons, .singleton ?_, ?_⟩
      · refine ⟨p, .refl p, hp, ?_, ?_⟩
        · show offset - 1 = p.offset
          omega
        · show p.offset < offset
          omega
      · exact List.forall_mem_singleton.mpr rfl
  induction cs generalizing count separated dangling faults offset p with
  | nil => exact hfinish _ _ _ _ _ _ p hp hd
  | cons ch cs ih =>
    rw [digitRun]
    split
    · rename_i hu
      obtain rfl := eq_of_beq hu
      have hstep : Reaches ⟨offset, '_' :: cs⟩ ⟨offset + 1, cs⟩ := reaches_mk offset '_' cs
      have hstop := reaches_digitRun valid count true true
        (if count == 0 || dangling then ⟨.misplacedSeparator, offset⟩ :: faults else faults)
        (offset + 1) cs
      obtain ⟨more, he, hmore, hsep⟩ := ih count true true
        (if count == 0 || dangling then ⟨.misplacedSeparator, offset⟩ :: faults else faults)
        (offset + 1) hstep fun _ => rfl
      by_cases hmisplaced : (count == 0 || dangling) = true
      · simp only [if_pos hmisplaced] at he hmore hstop ⊢
        refine ⟨⟨.misplacedSeparator, offset⟩ :: more, ?_, ⟨?_, ?_⟩, ?_⟩
        · rw [he, List.reverse_cons, List.append_assoc, List.singleton_append]
        · refine List.forall_mem_cons.mpr ⟨?_, fun f hf => (hmore.blamed f hf).lower hp⟩
          refine ⟨_, hp, hstep.trans hstop, rfl, ?_⟩
          exact Nat.lt_of_lt_of_le (Nat.lt_succ_self offset) hstop.offset_le
        · refine List.pairwise_cons.mpr ⟨fun f hf => ?_, hmore.inOrder⟩
          -- the separator itself may be blamed once more at the end of the run
          rcases Nat.lt_or_eq_of_le (hmore.blamed f hf).offset_le with hlt | heq
          · exact Or.inl hlt
          · exact Or.inr ⟨heq, rfl, hsep f hf⟩
        · exact List.forall_mem_cons.mpr ⟨rfl, hsep⟩
      · simp only [if_neg hmisplaced] at he hmore ⊢
        exact ⟨more, he, hmore.lower hp, hsep⟩
    · split
      · exact ih _ _ _ _ _ (hp.trans (reaches_mk offset ch cs)) (by simp)
      · exact hfinish _ _ _ _ _ _ p hp hd

/-- Separators that stand wrong are blamed one by one. -/
theorem inPlace_digits (valid : Char → Bool) (c : Cursor) :
    InPlace c (digits valid c).stop (digits valid c).faults := by
  obtain ⟨more, he, hp, _⟩ := inPlace_digitRun valid 0 false false [] c.offset c.rest
    (p := c) (.refl c) (by simp)
  rw [List.reverse_nil, List.nil_append] at he
  rw [digits, he]
  exact hp

/-- A digit at the start of a run is not blamed. -/
theorem inPlace_digits_next {valid : Char → Bool} {c : Cursor} {ch : Char} {cs : List Char}
    (hc : c.rest = ch :: cs) (hv : valid ch = true) (hu : ch ≠ '_') :
    InPlace c.next (digits valid c).stop (digits valid c).faults := by
  have hrun : digits valid c =
      digitRun valid 1 false false [] (c.offset + ch.utf8Size) cs := by
    rw [digits, hc, digitRun, if_neg (by simpa using hu), if_pos hv]
  obtain ⟨more, he, hp, _⟩ := inPlace_digitRun valid 1 false false [] (c.offset + ch.utf8Size) cs
    (.refl ⟨c.offset + ch.utf8Size, cs⟩) (by simp)
  rw [List.reverse_nil, List.nil_append] at he
  rw [hrun, he, next_eq hc]
  exact hp

namespace NumberScan

/-- The faults of a number, as far as it is read from a place on. -/
structure Located (c : Cursor) (scan : NumberScan) : Prop where
  reaches : c.Reaches scan.stop
  inPlace : InPlace c scan.stop scan.faults

section

variable {c d : Cursor} {scan : NumberScan}

/-- A scan that found nothing to blame. -/
theorem Located.of_nil (h : c.Reaches scan.stop) (hf : scan.faults = []) : scan.Located c :=
  ⟨h, hf ▸ .nil⟩

/-- Digits are blamed behind what was read before them. -/
theorem Located.withDigits (h : scan.Located c) (hd : scan.stop.Reaches d) (valid : Char → Bool) :
    (scan.withDigits (digits valid d)).Located c where
  reaches := (h.reaches.trans hd).trans (reaches_digits valid d)
  inPlace := h.inPlace.append ((inPlace_digits valid d).lower hd) h.reaches
    (hd.trans (reaches_digits valid d))

/-- The digits behind the point are blamed behind it. -/
theorem Located.fraction (h : scan.Located c) : scan.fraction.Located c := by
  have hbehind : ({ scan with integer := false, stop := scan.stop.next } : NumberScan).Located c :=
    ⟨h.reaches.trans scan.stop.reaches_next, h.inPlace.upTo scan.stop.reaches_next⟩
  unfold NumberScan.fraction
  split
  · simp only
    split
    · exact hbehind.withDigits (.refl _) isDigit
    · exact hbehind
  · exact h

/-- The dot that a number starts with is not blamed. -/
theorem located_fraction_dot {start : Cursor} {cs : List Char} (hc : start.rest = '.' :: cs) :
    (NumberScan.fraction { stop := start }).Located start.next := by
  have hbehind : ({ integer := false, stop := start.next } : NumberScan).Located start.next :=
    .of_nil (.refl _) rfl
  unfold NumberScan.fraction
  simp only [hc]
  split
  · exact hbehind.withDigits (.refl _) isDigit
  · exact hbehind

/-- The digits of an exponent are blamed behind its mark. -/
theorem Located.exponent (h : scan.Located c) : scan.exponent.Located c := by
  unfold NumberScan.exponent
  split
  · rename_i start hstart
    have hd := h.withDigits (reaches_exponentStart hstart) isDigit
    exact ⟨hd.reaches, hd.inPlace⟩
  · exact h

/-- A number that no token can be made of is blamed as a whole, behind its separators. -/
theorem Located.illegal {ch : Char} {cs : List Char} (h : scan.Located c.next)
    (hc : c.rest = ch :: cs) : Recounts c (scan.illegal c).stop (scan.illegal c).faults := by
  have hstop := reaches_illegal scan c
  exact .whole hc (h.reaches.trans hstop) (h.inPlace.upTo hstop) rfl

/-- A letter or digit that directly follows a number is blamed where it stands. -/
theorem Located.finish {ch : Char} {cs : List Char} (h : scan.Located c.next)
    (hc : c.rest = ch :: cs) (bigIntAllowed : Bool) :
    Recounts c (scan.finish c bigIntAllowed).stop (scan.finish c bigIntAllowed).faults := by
  have hplain : ∀ scan : NumberScan, scan.Located c.next → Recounts c scan.stop scan.faults :=
    fun _ h => .parts (h.inPlace.lower c.reaches_next)
  unfold NumberScan.finish
  cases bigIntAllowed && scan.stop.peek? == some 'n' with
  | false =>
    simp only [Bool.false_eq_true, ite_false]
    split
    · exact h.illegal hc
    · exact hplain scan h
  | true =>
    have hbig : ({ scan with stop := scan.stop.next } : NumberScan).Located c.next :=
      ⟨h.reaches.trans scan.stop.reaches_next, h.inPlace.upTo scan.stop.reaches_next⟩
    simp only [ite_true]
    split
    · exact hbig.illegal hc
    · exact hplain _ hbig

end

end NumberScan

section

variable {c : Cursor} {ch : Char} {cs : List Char}

/-- Digits in another base are blamed one by one. -/
theorem recounts_radixNumber (hc : c.rest = ch :: cs) (valid : Char → Bool) (flags : TokenFlags) :
    Recounts c (radixNumber c valid flags).stop (radixNumber c valid flags).faults := by
  have hmarker : ({ flags, stop := c.advance 2 } : NumberScan).Located c.next :=
    .of_nil (reaches_advance 1 c.next) rfl
  have hscan := hmarker.withDigits (.refl _) valid
  unfold radixNumber
  simp only
  split
  · exact hscan.illegal hc
  · exact hscan.finish hc true

/-- Digits behind a zero are blamed one by one. -/
theorem recounts_leadingZeroNumber (hc : c.rest = ch :: cs) (hd : isDigit ch = true) :
    Recounts c (leadingZeroNumber c).stop (leadingZeroNumber c).faults := by
  have hstop := (reaches_skipWhile isDigit c).next (length_skipWhile_lt hc hd)
  unfold leadingZeroNumber
  simp only
  split
  · exact NumberScan.Located.finish (.of_nil hstop rfl) hc false
  · have hscan : ({ stop := c.skipWhile isDigit } : NumberScan).Located c.next := .of_nil hstop rfl
    exact hscan.fraction.exponent.finish hc false

/-- Decimal digits are blamed one by one. -/
theorem recounts_decimalNumber (hc : c.rest = ch :: cs) (hd : isDigit ch = true ∨ ch = '.') :
    Recounts c (decimalNumber c).stop (decimalNumber c).faults := by
  have hpeek : c.peek? = some ch := by rw [peek?, hc, List.head?_cons]
  unfold decimalNumber
  simp only
  split
  · rename_i hdot
    rw [hpeek, beq_iff_eq, Option.some.injEq] at hdot
    subst hdot
    exact (NumberScan.located_fraction_dot hc).exponent.finish hc _
  · rename_i hdot
    have hdigit : isDigit ch = true := hd.resolve_right fun he => hdot (by rw [hpeek, he]; rfl)
    have hu : ch ≠ '_' := by
      rintro rfl
      exact absurd hdigit (by decide)
    have hscan : (NumberScan.withDigits { stop := c } (digits isDigit c)).Located c.next :=
      ⟨(reaches_digits isDigit c).next (length_digits_lt hc hdigit),
        inPlace_digits_next hc hdigit hu⟩
    exact hscan.fraction.exponent.finish hc _

/-- Numbers of all kinds blame their own characters. -/
theorem recounts_numberLiteral (hc : c.rest = ch :: cs) (hd : isDigit ch = true ∨ ch = '.') :
    Recounts c (numberLiteral c).stop (numberLiteral c).faults := by
  unfold numberLiteral
  split
  · split
    · exact recounts_radixNumber hc _ _
    · split
      · exact recounts_radixNumber hc _ _
      · split
        · exact recounts_radixNumber hc _ _
        · split
          · rename_i hzero _ _ _ _
            exact recounts_leadingZeroNumber hzero (by decide)
          · exact recounts_decimalNumber hc hd
  · exact recounts_decimalNumber hc hd

/-- A name is wrong at the backslash of an escape. -/
theorem blamed_escapedName {name : List Char} {c stop : Cursor} {fault : Fault}
    (h : escapedName name c = (.error fault, stop)) : Blamed c stop fault := by
  have hstart : ∀ {c d : Cursor} {problem : Problem} {cs : List Char},
      c.rest = '\\' :: 'u' :: cs → Reaches ⟨c.offset + 2, cs⟩ d →
      Blamed c d ⟨problem, c.offset⟩ := by
    intro c d problem cs hc hd
    refine ⟨c, .refl c, (reaches_cons_cons hc).trans hd, rfl, ?_⟩
    have hle : c.offset + 2 ≤ d.offset := hd.offset_le
    omega
  fun_induction escapedName name c with
  | case1 => cases congrArg Prod.fst h
  | case2 name c cs hc code stop' hp hv ih =>
    have hd := reaches_codePoint ⟨c.offset + 2, cs⟩
    rw [hp] at hd
    exact (ih h).lower ((reaches_cons_cons hc).trans hd)
  | case3 name c cs hc code stop' hp hv =>
    have hd := reaches_codePoint ⟨c.offset + 2, cs⟩
    rw [hp] at hd
    obtain ⟨hf, hs⟩ := Prod.mk.inj h
    rw [← Except.error.inj hf, ← hs]
    exact hstart hc hd
  | case4 name c cs hc problem stop' hp =>
    have hd := reaches_codePoint ⟨c.offset + 2, cs⟩
    rw [hp] at hd
    obtain ⟨hf, hs⟩ := Prod.mk.inj h
    rw [← Except.error.inj hf, ← hs]
    exact hstart hc hd
  | case5 name c cs _ hc =>
    obtain ⟨hf, hs⟩ := Prod.mk.inj h
    rw [← Except.error.inj hf, ← hs]
    exact ⟨c, .refl c, reaches_cons hc, rfl, Nat.lt_succ_self c.offset⟩
  | case6 name c ch cs _ _ hc hp ih => exact (ih h).lower (reaches_cons hc)
  | case7 => cases congrArg Prod.fst h

/-- Each escape in a word is blamed on its own. -/
theorem inPlace_word (c : Cursor) : InPlace c (word c).stop (word c).faults := by
  unfold word
  simp only
  split
  · split
    · exact .nil
    · rename_i fault stop hn
      exact .singleton ((blamed_escapedName hn).lower (reaches_skipWhile isNamePart c))
  · exact .nil

/-- A character that begins no token is blamed. -/
theorem recounts_illegal (hc : c.rest = ch :: cs) :
    Recounts c c.next [⟨.illegalToken, c.offset⟩] :=
  .parts (.singleton (blamed_start hc (.refl _) rfl))

/-- A private name blames its mark or the escapes behind it. -/
theorem recounts_privateWord (hc : c.rest = ch :: cs) :
    Recounts c (privateWord c).stop (privateWord c).faults := by
  unfold privateWord
  simp only
  split
  · split
    · exact .parts ((inPlace_word c.next).lower c.reaches_next)
    · exact recounts_illegal hc
  · exact recounts_illegal hc

/-- Every lexeme tells its faults in the order of the text, one of the whole behind the others. -/
theorem recounts_lexeme {regexAllowed : Bool} {c : Cursor} {l : Lexeme}
    (h : lexeme? regexAllowed c = some l) : Recounts c l.stop l.faults :=
  lexeme_induction h (recounts_stringLiteral _)
    (fun hc => recounts_toLexeme _ _ _ hc (reaches_templateChunk [] [] true c.next))
    (fun hc hd => recounts_numberLiteral hc (hd.imp_right And.left)) recounts_privateWord
    (.parts (inPlace_word c)) recounts_regexLiteral
    (fun _ => .parts .nil) (fun _ => .parts .nil) recounts_illegal

end

end Lexer

end EcmaScript
