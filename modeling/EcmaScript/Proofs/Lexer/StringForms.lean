import EcmaScript.Proofs.Lexer.Alone
import Mathlib.Data.List.Forall2

/-!
# The forms of a string

A string may be written in many ways: between either kind of quotes, each character as itself or as
one of its escapes, and with lines continued between the characters. However it is written, reading
it gives the string back, as one token and without faults.
-/

namespace EcmaScript

namespace Lexer

open Character Cursor

/-- The character is the hexadecimal digit of a value, in either case. -/
def IsHexDigit (ch : Char) (value : Nat) : Prop :=
  "0123456789abcdef".toList[value]? = some ch ∨ "0123456789ABCDEF".toList[value]? = some ch

/-- The hexadecimal digits spell the number. -/
def SpellsHex (digits : List Char) (n : Nat) : Prop :=
  ∃ values, List.Forall₂ IsHexDigit digits values ∧
    values.foldl (fun n value => n * 16 + value) 0 = n

/-- A hexadecimal digit is read as its value, in either case. -/
theorem hexValue?_of_isHexDigit {ch : Char} {value : Nat} (h : IsHexDigit ch value) :
    hexValue? ch = some value := by
  have hlower : ∀ i : Fin 16, hexValue? ("0123456789abcdef".toList[i]) = some i.val := by decide
  have hupper : ∀ i : Fin 16, hexValue? ("0123456789ABCDEF".toList[i]) = some i.val := by decide
  rcases h with h | h
  · obtain ⟨hi, rfl⟩ := List.getElem?_eq_some_iff.mp h
    exact hlower ⟨value, hi⟩
  · obtain ⟨hi, rfl⟩ := List.getElem?_eq_some_iff.mp h
    exact hupper ⟨value, hi⟩

/-- The digits of an escape are read as the number that they spell. -/
theorem hexDigits?_spelled {digits : List Char} {values : List Nat}
    (h : List.Forall₂ IsHexDigit digits values) (n : Nat) (rest : List Char) :
    hexDigits? n digits.length (digits ++ rest) =
      some (values.foldl (fun n value => n * 16 + value) n) := by
  induction h generalizing n with
  | nil => rfl
  | @cons ch value digits values hd _ ih =>
    rw [List.cons_append, List.length_cons, hexDigits?, hexValue?_of_isHexDigit hd, List.foldl_cons]
    exact ih _

/-- A run of digits between braces is read as the number that it spells. -/
theorem hexRun_spelled {digits : List Char} {values : List Nat}
    (h : List.Forall₂ IsHexDigit digits values) {rest : List Char}
    (hend : ∀ ch ∈ rest.head?, hexValue? ch = none) (n count offset : Nat) :
    hexRun n count offset (digits ++ rest) =
      ⟨values.foldl (fun n value => n * 16 + value) n, count + digits.length,
        ⟨offset + byteLength digits, rest⟩⟩ := by
  induction h generalizing n count offset with
  | nil =>
    cases rest with
    | nil => rfl
    | cons ch rest =>
      rw [List.nil_append, hexRun, hend ch rfl]
      rfl
  | @cons ch value digits values hd _ ih =>
    rw [List.cons_append, hexRun, hexValue?_of_isHexDigit hd]
    simp only [ih, List.foldl_cons, List.length_cons, byteLength_cons]
    rw [Nat.add_right_comm, Nat.add_assoc count, Nat.add_assoc offset]

/-- Four digits are a code point. -/
theorem codePoint_fourDigits {c : Cursor} {digits rest : List Char} {n : Nat}
    (hl : digits.length = 4) (h : SpellsHex digits n) (hc : c.rest = digits ++ rest) :
    codePoint c = (.ok n, ⟨c.offset + byteLength digits, rest⟩) := by
  obtain ⟨values, hv, rfl⟩ := h
  have hbrace : ∀ cs, c.rest ≠ '\x7b' :: cs := by
    intro cs hcs
    cases hv with
    | nil => exact absurd hl (by simp)
    | cons hd _ =>
      rw [hc, List.cons_append, List.cons.injEq] at hcs
      have hnone : hexValue? '\x7b' = none := by decide
      rw [← hcs.1, hexValue?_of_isHexDigit hd] at hnone
      exact nomatch hnone
  have hread := hexDigits?_spelled hv 0 rest
  rw [hl] at hread
  have hstop := advance_length hc
  rw [hl] at hstop
  rw [codePoint_plain hbrace, hc, hread]
  simp only [hstop]

/-- Any number of digits between braces are a code point, if there is such a one. -/
theorem codePoint_braces {c : Cursor} {digits rest : List Char} {n : Nat} (hne : digits ≠ [])
    (h : SpellsHex digits n) (hn : n ≤ lastCodePoint)
    (hc : c.rest = '\x7b' :: (digits ++ '\x7d' :: rest)) :
    codePoint c = (.ok n, ⟨c.offset + 1 + byteLength digits + 1, rest⟩) := by
  obtain ⟨values, hv, rfl⟩ := h
  have hend : ∀ ch ∈ ('\x7d' :: rest).head?, hexValue? ch = none := by
    intro ch hch
    rw [← Option.some.inj hch]
    decide
  obtain ⟨ch, more, rfl⟩ := List.exists_cons_of_ne_nil hne
  rw [codePoint_brace hc, hexRun_spelled hv hend, List.length_cons, ← Nat.add_assoc]
  simp only [braced, Cursor.next, if_pos hn]
  rfl

/-- The characters that have a letter for their escape. -/
def letterEscapes : List (Char × Char) :=
  [('n', '\n'), ('t', '\t'), ('r', '\r'), ('b', '\x08'), ('f', '\x0c'), ('v', '\x0b')]

/-- `EscapeOf ch form` says that a character may be written as `form` behind a backslash. -/
inductive EscapeOf : Char → List Char → Prop where
  | letter {letter ch : Char} : (letter, ch) ∈ letterEscapes → EscapeOf ch [letter]
  /-- Quotes and the backslash stand for themselves. -/
  | sign {ch : Char} : ch ∈ ['\'', '"', '\\'] → EscapeOf ch [ch]
  | zero : EscapeOf '\x00' ['0']
  | twoDigits {ch : Char} {digits : List Char} :
      digits.length = 2 → SpellsHex digits ch.toNat → EscapeOf ch ('x' :: digits)
  | fourDigits {ch : Char} {digits : List Char} :
      digits.length = 4 → SpellsHex digits ch.toNat → EscapeOf ch ('u' :: digits)
  /-- Characters beyond four digits are written as two halves. -/
  | surrogates {ch : Char} {high low : List Char} :
      0x10000 ≤ ch.toNat → high.length = 4 → low.length = 4 →
      SpellsHex high (0xD800 + (ch.toNat - 0x10000) / 1024) →
      SpellsHex low (0xDC00 + (ch.toNat - 0x10000) % 1024) →
      EscapeOf ch ('u' :: (high ++ '\\' :: 'u' :: low))
  | braces {ch : Char} {digits : List Char} :
      digits ≠ [] → SpellsHex digits ch.toNat →
      EscapeOf ch ('u' :: '\x7b' :: (digits ++ ['\x7d']))

/-- The character of a character's own code. -/
theorem charOfCode_toNat (ch : Char) : charOfCode ch.toNat = ch := by
  rw [charOfCode, if_pos (show ch.toNat.isValidChar from ch.valid), Char.ofNat_toNat]

/-- No character is half of a surrogate pair. -/
theorem isHighSurrogate_toNat (ch : Char) : isHighSurrogate ch.toNat = false := by
  have hv : ch.toNat < 0xD800 ∨ (0xDFFF < ch.toNat ∧ ch.toNat < 0x110000) := ch.valid
  simp only [isHighSurrogate, Bool.and_eq_false_iff, decide_eq_false_iff_not]
  omega

/-- Only the first half of a pair is joined with what follows. -/
theorem joinedChar_toNat (ch : Char) (c : Cursor) : joinedChar ch.toNat c = (ch, c) := by
  have hnone : joined? ch.toNat c = none := by
    cases hj : joined? ch.toNat c with
    | none => rfl
    | some r =>
      obtain ⟨_, _, _, hh, _⟩ := joined_eq_some hj
      rw [isHighSurrogate_toNat] at hh
      cases hh
  rw [joinedChar_eq, hnone, Option.getD_none, charOfCode_toNat]

/-- The two halves of a number are joined to it again. -/
theorem joinSurrogates_halves (n : Nat) :
    joinSurrogates (0xD800 + n / 1024) (0xDC00 + n % 1024) = 0x10000 + n := by
  unfold joinSurrogates
  omega

/-- The two halves of a character are joined again. -/
theorem joinedChar_surrogates {ch : Char} {c : Cursor} {low rest : List Char}
    (hch : 0x10000 ≤ ch.toNat) (hl : low.length = 4)
    (h : SpellsHex low (0xDC00 + (ch.toNat - 0x10000) % 1024))
    (hc : c.rest = '\\' :: 'u' :: (low ++ rest)) :
    joinedChar (0xD800 + (ch.toNat - 0x10000) / 1024) c =
      (ch, ⟨c.offset + 2 + byteLength low, rest⟩) := by
  have hv : ch.toNat < 0xD800 ∨ (0xDFFF < ch.toNat ∧ ch.toNat < 0x110000) := ch.valid
  have hhigh : isHighSurrogate (0xD800 + (ch.toNat - 0x10000) / 1024) = true := by
    simp only [isHighSurrogate, Bool.and_eq_true, decide_eq_true_eq]
    omega
  have hlow : isLowSurrogate (0xDC00 + (ch.toNat - 0x10000) % 1024) = true := by
    simp only [isLowSurrogate, Bool.and_eq_true, decide_eq_true_eq]
    omega
  have hjoin : joinSurrogates (0xD800 + (ch.toNat - 0x10000) / 1024)
      (0xDC00 + (ch.toNat - 0x10000) % 1024) = ch.toNat := by
    rw [joinSurrogates_halves, Nat.add_sub_cancel' hch]
  have hcode := codePoint_fourDigits (c := ⟨c.offset + 2, low ++ rest⟩) hl h rfl
  rw [joinedChar_eq, joined_of hc hhigh hcode hlow, Option.getD_some, hjoin, charOfCode_toNat]

/-- An escape is read as the character that it was written for. -/
theorem escape_of {ch : Char} {form rest : List Char} {c : Cursor} (h : EscapeOf ch form)
    (hc : c.rest = form ++ rest) (hz : form = ['0'] → rest.head?.any isDigit = false) :
    escape false c = ⟨.ok [ch], ⟨c.offset + byteLength form, rest⟩⟩ := by
  -- A Unicode escape is the code point behind its letter, joined with what follows.
  have hunicode : ∀ {cs : List Char} {code : Nat} {stop : Cursor}, c.rest = 'u' :: cs →
      codePoint ⟨c.offset + 1, cs⟩ = (.ok code, stop) →
      escape false c = ⟨.ok [(joinedChar code stop).1], (joinedChar code stop).2⟩ := by
    intro cs code stop hr hcode
    have hn : c.next = ⟨c.offset + 1, cs⟩ := next_eq hr
    simp [escape, hr, hn, hcode, letterEscape?, isOctalDigit]
  cases h with
  | @letter letter ch hm =>
    have hletter : letterEscape? letter = some ch := by
      revert hm
      simp only [letterEscapes, List.mem_cons, Prod.mk.injEq, List.not_mem_nil, or_false]
      rintro (⟨rfl, rfl⟩ | ⟨rfl, rfl⟩ | ⟨rfl, rfl⟩ | ⟨rfl, rfl⟩ | ⟨rfl, rfl⟩ | ⟨rfl, rfl⟩) <;> rfl
    have hr : c.rest = letter :: rest := hc
    simp only [escape, hr, hletter, next_eq hr, byteLength_cons, byteLength_nil, Nat.add_zero]
  | sign hm =>
    simp only [List.mem_cons, List.not_mem_nil, or_false] at hm
    rcases hm with rfl | rfl | rfl <;> simp only [escape, hc, next_eq hc] <;> rfl
  | zero =>
    simp only [escape, hc, List.singleton_append, next_eq hc, hz rfl]
    rfl
  | @twoDigits ch digits hl hd =>
    obtain ⟨values, hv, hn⟩ := hd
    have hread := hexDigits?_spelled hv 0 rest
    rw [hl, hn] at hread
    have hstop := advance_length (c := ⟨c.offset + 1, digits ++ rest⟩) rfl
    rw [hl] at hstop
    have hr : c.rest = 'x' :: (digits ++ rest) := hc
    have hnext : c.next = ⟨c.offset + 1, digits ++ rest⟩ := next_eq hr
    simp [escape, hr, hnext, hread, hstop, letterEscape?, isOctalDigit, Nat.add_assoc]
    rfl
  | @fourDigits ch digits hl hd =>
    rw [hunicode hc (codePoint_fourDigits hl hd rfl), joinedChar_toNat, byteLength_cons,
      Nat.add_assoc]
    rfl
  | @surrogates ch high low hch hh hl hdh hdl =>
    have hr : c.rest = 'u' :: (high ++ '\\' :: 'u' :: (low ++ rest)) := by simpa using hc
    rw [hunicode hr (codePoint_fourDigits hh hdh rfl), joinedChar_surrogates hch hl hdl rfl]
    have hsize : 'u'.utf8Size = 1 ∧ '\\'.utf8Size = 1 := by decide
    simp only [byteLength_cons, byteLength_append, hsize]
    congr 2
    omega
  | @braces ch digits hne hd =>
    have hr : c.rest = 'u' :: '\x7b' :: (digits ++ '\x7d' :: rest) := by simpa using hc
    have hv : ch.toNat < 0xD800 ∨ (0xDFFF < ch.toNat ∧ ch.toNat < 0x110000) := ch.valid
    have hlast : ch.toNat ≤ lastCodePoint := by
      rw [lastCodePoint]
      omega
    rw [hunicode hr (codePoint_braces hne hd hlast rfl), joinedChar_toNat]
    have hsize : 'u'.utf8Size = 1 ∧ '\x7b'.utf8Size = 1 ∧ '\x7d'.utf8Size = 1 := by decide
    simp only [byteLength_cons, byteLength_append, byteLength_nil, hsize]
    congr 2
    omega

/-- What a line break may consist of. -/
def lineEnds : List (List Char) := [['\n'], ['\r'], ['\r', '\n'], ['\u2028'], ['\u2029']]

/-- `Writes quote s body` says that the string `s` may be written as `body` between two quotes:
each character as itself or as one of its escapes, and a backslash and a line break wherever the
line is to be continued. -/
inductive Writes (quote : Char) : List Char → List Char → Prop where
  | nil : Writes quote [] []
  | plain {ch : Char} {s body : List Char} :
      ch ≠ quote → ch ≠ '\\' → ch ≠ '\r' → ch ≠ '\n' → Writes quote s body →
      Writes quote (ch :: s) (ch :: body)
  /-- No digit may follow a zero, which would be read as an octal number with it. -/
  | escape {ch : Char} {form s body : List Char} :
      EscapeOf ch form → (form = ['0'] → ∀ next ∈ body.head?, next < '0' ∨ '9' < next) →
      Writes quote s body → Writes quote (ch :: s) ('\\' :: (form ++ body))
  /-- No line feed may follow a carriage return, which would be read as one line break with it. -/
  | continued {lineEnd s body : List Char} :
      lineEnd ∈ lineEnds → (lineEnd = ['\r'] → body.head? ≠ some '\n') →
      Writes quote s body → Writes quote s ('\\' :: (lineEnd ++ body))

/-- A continued line stands for nothing. -/
theorem escape_lineEnd {lineEnd rest : List Char} {c : Cursor} (h : lineEnd ∈ lineEnds)
    (hc : c.rest = lineEnd ++ rest) (hr : lineEnd = ['\r'] → rest.head? ≠ some '\n') :
    escape false c = ⟨.ok [], ⟨c.offset + byteLength lineEnd, rest⟩⟩ := by
  simp only [lineEnds, List.mem_cons, List.not_mem_nil, or_false] at h
  rcases h with rfl | rfl | rfl | rfl | rfl
  · have hn : c.next = ⟨c.offset + 1, rest⟩ := next_eq hc
    simp [escape, hc, hn, letterEscape?, isOctalDigit, isLineBreak]
    rfl
  · have hn : c.next = ⟨c.offset + 1, rest⟩ := next_eq hc
    simp [escape, hc, hn, letterEscape?, isOctalDigit, hr rfl]
    rfl
  · simp [escape, hc, letterEscape?, isOctalDigit, Cursor.next, Nat.add_assoc]
  · have hn : c.next = ⟨c.offset + 3, rest⟩ := next_eq hc
    simp [escape, hc, hn, letterEscape?, isOctalDigit, isLineBreak]
    rfl
  · have hn : c.next = ⟨c.offset + 3, rest⟩ := next_eq hc
    simp [escape, hc, hn, letterEscape?, isOctalDigit, isLineBreak]
    rfl

/-- What follows an escape that is understood is read behind it. -/
theorem stringBody_escape {quote : Char} (hq : quote ≠ '\\') {value chars : List Char}
    {faults : List Fault} {c stop : Cursor} {cs : List Char} (hc : c.rest = '\\' :: cs)
    (h : escape false ⟨c.offset + 1, cs⟩ = ⟨.ok chars, stop⟩) :
    stringBody quote value faults c = stringBody quote (chars.reverse ++ value) faults stop := by
  rw [stringBody_cons hc, if_neg (by simpa using Ne.symm hq), if_pos (beq_self_eq_true _), h]

/-- However a string is written, its characters are read up to the closing quote. -/
theorem stringBody_writes {quote : Char} (hq : quote = '"' ∨ quote = '\'') {s body : List Char}
    (h : Writes quote s body) (value : List Char) (faults : List Fault) {c : Cursor}
    {behind : List Char} (hc : c.rest = body ++ quote :: behind) :
    stringBody quote value faults c =
      ⟨value.reverse ++ s, faults.reverse, true, ⟨c.offset + byteLength body + 1, behind⟩⟩ := by
  have hback : quote ≠ '\\' := by rcases hq with rfl | rfl <;> decide
  have hsize : quote.utf8Size = 1 := by rcases hq with rfl | rfl <;> rfl
  have hbsize : '\\'.utf8Size = 1 := rfl
  induction h generalizing value c with
  | nil =>
    rw [stringBody_cons hc, if_pos (beq_self_eq_true quote), hsize, List.append_nil]
    rfl
  | @plain ch s body h1 h2 h3 h4 _ ih =>
    rw [stringBody_cons hc, if_neg (by simpa using h1), if_neg (by simpa using h2),
      if_neg (by simp [h3, h4]), ih _ rfl, byteLength_cons, List.reverse_cons, List.append_assoc,
      Nat.add_assoc c.offset]
    rfl
  | @escape ch form s body hform hz _ ih =>
    have hrest : form = ['0'] → (body ++ quote :: behind).head?.any isDigit = false := by
      intro hf
      cases body with
      | nil => rcases hq with rfl | rfl <;> rfl
      | cons next body =>
        have hdigit : ¬ ('0' ≤ next ∧ next ≤ '9') := by
          rintro ⟨hlow, hhigh⟩
          rcases hz hf next rfl with h | h
          · exact absurd hlow (Char.not_le.mpr h)
          · exact absurd hhigh (Char.not_le.mpr h)
        simpa [isDigit] using hdigit
    have hr : c.rest = '\\' :: (form ++ (body ++ quote :: behind)) := by simpa using hc
    rw [stringBody_escape hback hr (escape_of hform rfl hrest), ih _ rfl]
    simp only [List.reverse_cons, List.reverse_nil, List.nil_append, List.singleton_append,
      List.append_assoc, byteLength_cons, byteLength_append, hbsize]
    congr 2
    omega
  | @continued lineEnd s body hl hn _ ih =>
    have hrest : lineEnd = ['\r'] → (body ++ quote :: behind).head? ≠ some '\n' := by
      intro he
      cases body with
      | nil => rcases hq with rfl | rfl <;> simp
      | cons next body => exact hn he
    have hr : c.rest = '\\' :: (lineEnd ++ (body ++ quote :: behind)) := by simpa using hc
    rw [stringBody_escape hback hr (escape_lineEnd hl rfl hrest), ih _ rfl]
    simp only [List.reverse_nil, List.nil_append, byteLength_cons, byteLength_append, hbsize]
    congr 2
    omega

end Lexer

/-- However a string is written, its literal is one token that covers it, has the string for its
value and is without faults. -/
theorem tokenize_string {quote : Char} (hq : quote = '"' ∨ quote = '\'') {s body : List Char}
    (h : Lexer.Writes quote s body) :
    ∃ t : Token, tokenize (String.ofList (quote :: (body ++ [quote]))) = ([t], []) ∧
      t.kind = .string ∧ t.value = String.ofList s ∧ t.flags = {} ∧
      t.span = .ofOffsets 0 (byteLength (quote :: (body ++ [quote]))) := by
  have htext : (String.ofList (quote :: (body ++ [quote]))).toList = quote :: (body ++ [quote]) :=
    String.toList_ofList
  have hstart : quote ≠ '/' ∧ Character.isLineBreak quote = false ∧
      Character.isBlank quote = false ∧ (quote == '"' || quote == '\'') = true ∧
      quote.utf8Size = 1 := by
    rcases hq with rfl | rfl <;> decide
  obtain ⟨hslash, hline, hblank, hquote, hsize⟩ := hstart
  have hbody : Lexer.stringBody quote [] [] ⟨1, body ++ [quote]⟩ =
      ⟨s, [], true, ⟨1 + byteLength body + 1, []⟩⟩ := Lexer.stringBody_writes hq h [] [] rfl
  have hread : Lexer.lexeme? true (.ofString (String.ofList (quote :: (body ++ [quote])))) =
      some
        { kind := .string, value := String.ofList s, stop := ⟨1 + byteLength body + 1, []⟩ } := by
    have hrest : (Cursor.ofString (String.ofList (quote :: (body ++ [quote])))).rest =
        quote :: (body ++ [quote]) := htext
    have hnext : (Cursor.ofString (String.ofList (quote :: (body ++ [quote])))).next =
        ⟨1, body ++ [quote]⟩ := by
      rw [Cursor.next_eq hrest, hsize]
      rfl
    simp only [Lexer.lexeme?, hrest, hquote, if_true]
    rw [Lexer.stringLiteral_eq, hnext, hbody]
    rfl
  refine ⟨_, Lexer.tokenize_of_lexeme ?_ (Lexer.trivia_stay false htext hslash hline hblank) hread
    rfl, rfl, rfl, rfl, ?_⟩
  · intro cs hcs
    rw [htext] at hcs
    rcases hq with rfl | rfl <;> exact absurd (List.cons.inj hcs).1 (by decide)
  · show Span.ofOffsets 0 (1 + byteLength body + 1) = _
    rw [byteLength_cons, byteLength_append, byteLength_cons, byteLength_nil, hsize, Nat.add_assoc]

/-- The theorem at a string with a letter escape, two halves of a character, a zero in front of a
continued line, a quote and a code point between braces. -/
theorem tokenize_string_escapes :
    Lexer.Writes '"' ['a', '\n', '😀', '\x00', '"', 'é']
        "a\\n\\uD83d\\uDE00\\0\\\r\n\\\"\\u\x7b00e9\x7d".toList ∧
      ∃ t : Token, tokenize "\"a\\n\\uD83d\\uDE00\\0\\\r\n\\\"\\u\x7b00e9\x7d\"" = ([t], []) ∧
        t.value = "a\n😀\x00\"é" := by
  have hhigh : Lexer.SpellsHex ['D', '8', '3', 'd'] 0xD83D :=
    ⟨[13, 8, 3, 13], by simp [Lexer.IsHexDigit], rfl⟩
  have hlow : Lexer.SpellsHex ['D', 'E', '0', '0'] 0xDE00 :=
    ⟨[13, 14, 0, 0], by simp [Lexer.IsHexDigit], rfl⟩
  have hlast : Lexer.SpellsHex ['0', '0', 'e', '9'] 'é'.toNat :=
    ⟨[0, 0, 14, 9], by simp [Lexer.IsHexDigit], rfl⟩
  have hwrites : Lexer.Writes '"' ['a', '\n', '😀', '\x00', '"', 'é']
      "a\\n\\uD83d\\uDE00\\0\\\r\n\\\"\\u\x7b00e9\x7d".toList := by
    -- The spelling, taken apart into its escapes.
    have hspell : "a\\n\\uD83d\\uDE00\\0\\\r\n\\\"\\u\x7b00e9\x7d".toList =
        'a' :: '\\' :: (['n'] ++
          '\\' :: ('u' :: (['D', '8', '3', 'd'] ++ '\\' :: 'u' :: ['D', 'E', '0', '0']) ++
            '\\' :: (['0'] ++ '\\' :: (['\r', '\n'] ++ '\\' :: (['"'] ++
              '\\' :: ('u' :: '\x7b' :: (['0', '0', 'e', '9'] ++ ['\x7d']) ++ [])))))) := by
      decide +kernel
    rw [hspell]
    refine .plain (by decide) (by decide) (by decide) (by decide) ?_
    refine .escape (.letter (by decide)) (by decide) ?_
    refine .escape (.surrogates (by decide) rfl rfl hhigh hlow) (by decide) ?_
    refine .escape .zero (fun _ => by simp) ?_
    refine .continued (by decide) (by decide) ?_
    refine .escape (.sign (by decide)) (by decide) ?_
    exact .escape (.braces (by decide) hlast) (by decide) .nil
  obtain ⟨t, ht, -, hvalue, -⟩ := tokenize_string (Or.inl rfl) hwrites
  exact ⟨hwrites, t, ht, hvalue⟩

end EcmaScript
