import EcmaScript.Proofs.Lexer.StringForms

/-!
# The forms of a name

Any characters of a name may be written as Unicode escapes. A name without escapes is read in one
go, a name with escapes character by character; but both ways of reading find the same name. They
differ in what a name may be: a word that is spelled without escapes may be a keyword, one with
escapes may not. All this holds for any classes of letters that keep apart from white space.
-/

namespace EcmaScript

namespace Lexer

open Character Cursor

/-- `EscapesName ch form` says that a character of a name may be written as `form` instead. -/
inductive EscapesName : Char → List Char → Prop where
  | fourDigits {ch : Char} {digits : List Char} :
      digits.length = 4 → SpellsHex digits ch.toNat → EscapesName ch ('\\' :: 'u' :: digits)
  | braces {ch : Char} {digits : List Char} :
      digits ≠ [] → SpellsHex digits ch.toNat →
      EscapesName ch ('\\' :: 'u' :: '\x7b' :: (digits ++ ['\x7d']))

/-- `SpellsName name body escaped` says that a name may be written as `body`: each character as
itself or as an escape, where `escaped` tells whether there is an escape at all. -/
inductive SpellsName : List Char → List Char → Bool → Prop where
  | nil : SpellsName [] [] false
  | plain {ch : Char} {name body : List Char} {escaped : Bool} :
      SpellsName name body escaped → SpellsName (ch :: name) (ch :: body) escaped
  | escape {ch : Char} {form name body : List Char} {escaped : Bool} :
      EscapesName ch form → SpellsName name body escaped →
      SpellsName (ch :: name) (form ++ body) true

section

variable {name body : List Char} {escaped : Bool}

/-- A spelling with escapes is plain up to the first one. -/
theorem SpellsName.split (h : SpellsName name body true) :
    ∃ front ch form more rest escaped, name = front ++ ch :: more ∧
      body = front ++ (form ++ rest) ∧ EscapesName ch form ∧ SpellsName more rest escaped := by
  generalize hescaped : true = escaped at h
  induction h with
  | nil => exact nomatch hescaped
  | @plain ch name body escaped _ ih =>
    obtain ⟨front, x, form, more, rest, e, rfl, rfl, hform, hmore⟩ := ih hescaped
    exact ⟨ch :: front, x, form, more, rest, e, rfl, rfl, hform, hmore⟩
  | @escape ch form name body escaped hform hmore =>
    exact ⟨[], ch, form, name, body, escaped, rfl, rfl, hform, hmore⟩

/-- A spelling without escapes is the name. -/
theorem SpellsName.eq (h : SpellsName name body false) : body = name := by
  generalize hescaped : false = escaped at h
  induction h with
  | nil => rfl
  | plain _ ih => rw [ih hescaped]
  | escape => cases hescaped

/-- An escape starts with a backslash. -/
theorem EscapesName.exists_cons {ch : Char} {form : List Char} (h : EscapesName ch form) :
    ∃ cs, form = '\\' :: cs := by
  cases h with
  | fourDigits => exact ⟨_, rfl⟩
  | braces => exact ⟨_, rfl⟩

end

/-- The kind of a word as it is spelled. -/
def wordKind (word : String) : Bool → TokenKind
  | true => escapedWordKind word
  | false => plainWordKind word

/-- A word with an escape is a name or refused, and one without may be a keyword. -/
theorem wordKind_eq (word : String) (escaped : Bool) :
    wordKind word escaped =
      if escaped then
        if (Keyword.ofText? word).any Keyword.isReserved then .escapedReservedWord else .identifier
      else ((Keyword.ofText? word).map .word).getD .identifier := by
  cases escaped with
  | false =>
    show plainWordKind word = _
    unfold plainWordKind
    cases Keyword.ofText? word <;> rfl
  | true =>
    show escapedWordKind word = _
    unfold escapedWordKind
    cases Keyword.ofText? word <;> rfl

/-- No word is an illegal token. -/
theorem wordKind_ne_illegal (word : String) (escaped : Bool) :
    wordKind word escaped ≠ .illegal := by
  rw [wordKind_eq]
  cases Keyword.ofText? word with
  | none => cases escaped <;> exact nofun
  | some k =>
    cases escaped with
    | false => exact nofun
    | true =>
      rw [if_pos rfl]
      split <;> exact nofun

/-- A letter of ASCII is neither white space nor a digit. -/
theorem apart_of_isAsciiLetter {ch : Char} (h : isAsciiLetter ch = true) :
    isBlank ch = false ∧ isLineBreak ch = false ∧ isDigit ch = false := by
  have hletters : ∀ i : Fin 128, isAsciiLetter (Char.ofNat i) = true →
      isBlank (Char.ofNat i) = false ∧ isLineBreak (Char.ofNat i) = false ∧
        isDigit (Char.ofNat i) = false := by
    decide +kernel
  have hsmall : ch.toNat < 128 := by
    simp only [isAsciiLetter, Bool.or_eq_true, Bool.and_eq_true, decide_eq_true_eq] at h
    rcases h with ⟨-, h⟩ | ⟨-, h⟩
    · have hz : ch.toNat ≤ 'z'.toNat := h
      exact Nat.lt_of_le_of_lt hz (by decide)
    · have hz : ch.toNat ≤ 'Z'.toNat := h
      exact Nat.lt_of_le_of_lt hz (by decide)
  have hch := hletters ⟨ch.toNat, hsmall⟩
  rw [Char.ofNat_toNat] at hch
  exact hch h

section

variable [NameClasses] {ch : Char}

/-- What begins a name is one of two marks, a letter of ASCII, or of the class of letters beyond. -/
theorem isNameStart_cases (h : isNameStart ch = true) :
    (ch = '_' ∨ ch = '$') ∨ isAsciiLetter ch = true ∨
      0x7F < ch.toNat ∧ NameClasses.isXidStart ch = true := by
  simpa [isNameStart, or_assoc] using h

/-- What starts a name is no blank. -/
theorem isBlank_of_isNameStart [NameClasses.Lawful] (h : isNameStart ch = true) :
    isBlank ch = false := by
  rcases isNameStart_cases h with (rfl | rfl) | h | ⟨-, h⟩
  · rfl
  · rfl
  · exact (apart_of_isAsciiLetter h).1
  · exact NameClasses.Lawful.not_blank_of_start ch h

/-- What starts a name is no line break. -/
theorem isLineBreak_of_isNameStart [NameClasses.Lawful] (h : isNameStart ch = true) :
    isLineBreak ch = false := by
  rcases isNameStart_cases h with (rfl | rfl) | h | ⟨-, h⟩
  · rfl
  · rfl
  · exact (apart_of_isAsciiLetter h).2.1
  · exact NameClasses.Lawful.not_lineBreak_of_start ch h

/-- What starts a name is no digit. -/
theorem isDigit_of_isNameStart (h : isNameStart ch = true) : isDigit ch = false := by
  rcases isNameStart_cases h with (rfl | rfl) | h | ⟨h, -⟩
  · rfl
  · rfl
  · exact (apart_of_isAsciiLetter h).2.2
  · have hlast : ¬ ch ≤ '9' := fun hle => by
      have hle : ch.toNat ≤ '9'.toNat := hle
      have hsize : '9'.toNat < 0x7F := by decide
      omega
    rw [isDigit, decide_eq_false hlast, Bool.and_false]

/-- The character may be the first one of a word as it is spelled. -/
def BeginsWord (ch : Char) : Prop := isNameStart ch = true ∨ ch = '\\'

namespace BeginsWord

/-- What begins a word is not what begins another token. -/
theorem ne (h : BeginsWord ch) {x : Char} (hx : isNameStart x = false) (hs : x ≠ '\\') :
    ch ≠ x := by
  rintro rfl
  rcases h with h | h
  · cases hx.symm.trans h
  · exact hs h

/-- In front of a word there is no gap. -/
theorem trivia_eq [NameClasses.Lawful] (h : BeginsWord ch) (lineBreak : Bool) {c : Cursor}
    {cs : List Char}
    (hc : c.rest = ch :: cs) : trivia lineBreak c = ⟨lineBreak, [], c⟩ := by
  apply trivia_stay lineBreak hc (h.ne rfl (by decide))
  · rcases h with h | rfl
    · exact isLineBreak_of_isNameStart h
    · decide
  · rcases h with h | rfl
    · exact isBlank_of_isNameStart h
    · decide

/-- At what begins a word, a word is read. -/
theorem lexeme_eq (h : BeginsWord ch) (regexAllowed : Bool) {c : Cursor} {cs : List Char}
    (hc : c.rest = ch :: cs) : lexeme? regexAllowed c = some (word c) := by
  have hquote := h.ne (x := '"') rfl (by decide)
  have hsingle := h.ne (x := '\'') rfl (by decide)
  have htemplate := h.ne (x := '\x60') rfl (by decide)
  have hdot := h.ne (x := '.') rfl (by decide)
  have hhash := h.ne (x := '#') rfl (by decide)
  have hdigit : isDigit ch = false := by
    rcases h with h | rfl
    · exact isDigit_of_isNameStart h
    · decide
  have hword : (isNameStart ch || ch == '\\') = true := by
    rw [Bool.or_eq_true, beq_iff_eq]
    exact h
  simp only [lexeme?, hc, beq_eq_false_iff_ne.mpr hquote, beq_eq_false_iff_ne.mpr hsingle,
    beq_eq_false_iff_ne.mpr htemplate, beq_eq_false_iff_ne.mpr hdot,
    beq_eq_false_iff_ne.mpr hhash, hdigit, hword, Bool.or_false, Bool.false_and,
    Bool.false_eq_true, if_false, if_true]

end BeginsWord

/-- The characters are a name. -/
def IsName : List Char → Prop
  | [] => False
  | ch :: cs => isNameStart ch = true ∧ ∀ x ∈ cs, isNamePart x = true

/-- Nothing that goes on with a name comes next. -/
def EndsName (behind : List Char) : Prop :=
  ∀ ch ∈ behind.head?, isNamePart ch = false ∧ ch ≠ '\\'

variable {name body behind : List Char} {escaped : Bool}

/-- A backslash is no part of a name, so it ends the part without escapes. -/
theorem backslash_not_namePart : isNamePart '\\' = false := rfl

/-- All characters of a name may stand in one. -/
theorem IsName.namePart [NameClasses.Lawful] (h : IsName name) :
    ∀ x ∈ name, isNamePart x = true := by
  cases name with
  | nil => exact h.elim
  | cons ch cs => exact List.forall_mem_cons.mpr ⟨isNamePart_of_isNameStart h.1, h.2⟩

/-- An escape in a name is read as the character that it was written for. -/
theorem escapedName_form {ch : Char} {form front rest : List Char} {c : Cursor}
    (h : EscapesName ch form) (hf : continuesName front ch = true) (hc : c.rest = form ++ rest) :
    escapedName front c = escapedName (ch :: front) ⟨c.offset + byteLength form, rest⟩ := by
  have hvalid : ch.toNat.isValidChar := ch.valid
  have hsize : '\\'.utf8Size = 1 ∧ 'u'.utf8Size = 1 ∧ '\x7b'.utf8Size = 1 ∧
      '\x7d'.utf8Size = 1 := by decide
  -- Both forms are a code point behind `\u`.
  obtain ⟨cs, hcs, hcode⟩ : ∃ cs, c.rest = '\\' :: 'u' :: cs ∧
      codePoint ⟨c.offset + 2, cs⟩ = (.ok ch.toNat, ⟨c.offset + byteLength form, rest⟩) := by
    cases h with
    | @fourDigits digits hl hd =>
      refine ⟨digits ++ rest, hc, ?_⟩
      rw [codePoint_fourDigits hl hd rfl]
      simp only [byteLength_cons, hsize]
      congr 2
      omega
    | @braces digits hne hd =>
      have hlast : ch.toNat ≤ lastCodePoint := by
        rw [lastCodePoint]
        rcases hvalid with hv | hv <;> omega
      refine ⟨'\x7b' :: (digits ++ '\x7d' :: rest), by simpa using hc, ?_⟩
      rw [codePoint_braces hne hd hlast rfl]
      simp only [byteLength_cons, byteLength_append, byteLength_nil, hsize]
      congr 2
      omega
  rw [escapedName_unicode hcs, hcode]
  simp only [Char.ofNat_toNat, hf, hvalid, decide_true, Bool.and_self, if_true]

/-- Behind the first character of a name each spelling of the rest is read to its end. -/
theorem escapedName_of_spells (h : SpellsName name body escaped)
    (hn : ∀ x ∈ name, isNamePart x = true) (hb : EndsName behind) {front : List Char}
    (hf : front ≠ []) {c : Cursor} (hc : c.rest = body ++ behind) :
    escapedName front c =
      (.ok (front.reverse ++ name), ⟨c.offset + byteLength body, behind⟩) := by
  induction h generalizing front c with
  | nil =>
    obtain ⟨offset, rest⟩ := c
    obtain rfl : rest = behind := hc
    cases rest with
    | nil =>
      rw [escapedName_nil rfl, List.append_nil]
      rfl
    | cons ch cs =>
      obtain ⟨hpart, hslash⟩ := hb ch rfl
      rw [escapedName_char rfl hslash, hpart, List.append_nil]
      rfl
  | @plain ch name body escaped _ ih =>
    obtain ⟨hch, hname⟩ := List.forall_mem_cons.mp hn
    have hslash : ch ≠ '\\' := by
      rintro rfl
      cases backslash_not_namePart.symm.trans hch
    rw [escapedName_char hc hslash, if_pos hch, ih hname (List.cons_ne_nil _ _) rfl,
      List.reverse_cons, List.append_assoc, byteLength_cons, Nat.add_assoc]
    rfl
  | @escape ch form name body escaped hform _ ih =>
    obtain ⟨hch, hname⟩ := List.forall_mem_cons.mp hn
    have hcontinues : continuesName front ch = true := by
      cases front with
      | nil => exact absurd rfl hf
      | cons => exact hch
    rw [escapedName_form hform hcontinues (by rw [hc, List.append_assoc]),
      ih hname (List.cons_ne_nil _ _) rfl, List.reverse_cons, List.append_assoc,
      byteLength_append, Nat.add_assoc]
    rfl

/-- A run of name characters is skipped up to where a name does not go on plainly. -/
theorem skipWhile_front {front rest : List Char} {c : Cursor} (hc : c.rest = front ++ rest)
    (hfront : ∀ x ∈ front, isNamePart x = true) (hrest : ∀ x ∈ rest.head?, isNamePart x = false) :
    c.skipWhile isNamePart = ⟨c.offset + byteLength front, rest⟩ := by
  obtain ⟨htake, hdrop⟩ := span_front hfront hrest
  rw [skipWhile_eq, hc, htake, hdrop]

/-- However a name is spelled, it is read to its end. -/
theorem word_of_spells [NameClasses.Lawful] (h : SpellsName name body escaped) (hn : IsName name)
    (hb : EndsName behind)
    {c : Cursor} (hc : c.rest = body ++ behind) :
    word c =
      { kind := wordKind (String.ofList name) escaped, value := String.ofList name
        flags := { escaped }, stop := ⟨c.offset + byteLength body, behind⟩ } := by
  cases escaped with
  | false =>
    obtain rfl := h.eq
    have hskip := skipWhile_front hc hn.namePart fun x hx => (hb x hx).1
    have htext : c.textUntil ⟨c.offset + byteLength body, behind⟩ = String.ofList body :=
      congrArg String.ofList (charsUntil_eq hc rfl)
    rw [word_plain, hskip, htext]
    · rfl
    · intro cs hcs
      rw [hskip] at hcs
      subst hcs
      exact (hb '\\' rfl).2 rfl
  | true =>
    obtain ⟨front, ch, form, more, rest, e, rfl, rfl, hform, hmore⟩ := h.split
    obtain ⟨cs, hcs⟩ := hform.exists_cons
    have hparts := List.forall_mem_append.mp hn.namePart
    have hc' : c.rest = front ++ (form ++ (rest ++ behind)) := by simpa using hc
    have hskip : c.skipWhile isNamePart =
        ⟨c.offset + byteLength front, form ++ (rest ++ behind)⟩ := by
      apply skipWhile_front hc' hparts.1
      intro x hx
      rw [hcs, List.cons_append, List.head?_cons, Option.mem_some_iff] at hx
      rw [← hx]
      exact backslash_not_namePart
    have hchars : c.charsUntil ⟨c.offset + byteLength front, form ++ (rest ++ behind)⟩ = front :=
      charsUntil_eq hc' rfl
    have hcontinues : continuesName front.reverse ch = true := by
      cases front with
      | nil => exact hn.1
      | cons x front =>
        rw [continuesName, if_neg (by simp)]
        exact hparts.2 ch List.mem_cons_self
    have hread : escapedName front.reverse ⟨c.offset + byteLength front, form ++ (rest ++ behind)⟩ =
        (.ok (front ++ ch :: more), ⟨c.offset + byteLength (front ++ (form ++ rest)), behind⟩) := by
      rw [escapedName_form hform hcontinues rfl,
        escapedName_of_spells hmore (fun x hx => hparts.2 x (List.mem_cons_of_mem _ hx)) hb
          (List.cons_ne_nil _ _) rfl]
      simp only [byteLength_append, List.reverse_cons, List.reverse_reverse, List.append_assoc,
        Nat.add_assoc]
      rfl
    have hstops : (c.skipWhile isNamePart).rest = '\\' :: (cs ++ (rest ++ behind)) := by
      rw [hskip, hcs]
      rfl
    rw [word_escaped hstops, hskip, hchars, hread]
    rfl

/-- A spelling starts with the first character of the name or with an escape. -/
theorem SpellsName.beginsWord (h : SpellsName name body escaped) (hn : IsName name) :
    ∃ ch cs, body = ch :: cs ∧ BeginsWord ch := by
  cases h with
  | nil => exact hn.elim
  | plain => exact ⟨_, _, rfl, Or.inl hn.1⟩
  | escape hform =>
    obtain ⟨cs, rfl⟩ := hform.exists_cons
    exact ⟨'\\', _, rfl, Or.inr rfl⟩

/-- However a name is spelled behind its mark, it is read to its end. -/
theorem privateWord_of_spells [NameClasses.Lawful] (h : SpellsName name body escaped)
    (hn : IsName name)
    (hb : EndsName behind) {c : Cursor} (hc : c.rest = '#' :: (body ++ behind)) :
    privateWord c =
      { kind := .privateName, value := String.ofList name
        flags := { escaped }, stop := ⟨c.offset + 1 + byteLength body, behind⟩ } := by
  obtain ⟨ch, cs, rfl, hch⟩ := h.beginsWord hn
  have hnext : c.next = ⟨c.offset + 1, ch :: cs ++ behind⟩ := next_eq hc
  have hword := word_of_spells h hn hb (c := c.next) (by rw [hnext])
  rw [privateWord_of (by rw [hnext, List.cons_append]) hch, hword,
    if_neg (wordKind_ne_illegal _ _), hnext]

/-- However a name is spelled, with or without escapes, it is one token that covers the spelling
and has the name for its value, and so is a private name behind its mark. Only the kind tells the
spellings apart: with escapes a reserved word is refused and any other word is a name, and without
them every keyword is read as such. -/
theorem scan_name_forms [NameClasses.Lawful] (hn : IsName name) (h : SpellsName name body escaped)
    (hb : EndsName behind) (lexer : Lexer) :
    (lexer.token.stop.rest = body ++ behind →
      lexer.scan.token =
          { kind :=
              if escaped then
                if (Keyword.ofText? (String.ofList name)).any Keyword.isReserved then
                  .escapedReservedWord
                else .identifier
              else ((Keyword.ofText? (String.ofList name)).map .word).getD .identifier
            value := String.ofList name, raw := "", flags := { escaped }
            start := lexer.token.stop
            stop := ⟨lexer.token.stop.offset + byteLength body, behind⟩ } ∧
        lexer.scan.faults = lexer.faults) ∧
    (lexer.token.stop.rest = '#' :: (body ++ behind) →
      lexer.scan.token =
          { kind := .privateName, value := String.ofList name, raw := "", flags := { escaped }
            start := lexer.token.stop
            stop := ⟨lexer.token.stop.offset + 1 + byteLength body, behind⟩ } ∧
        lexer.scan.faults = lexer.faults) := by
  have hnone : lexer.faults ++ ([] : List Fault) = lexer.faults := by simp
  constructor
  · intro hc
    obtain ⟨ch, cs, rfl, hch⟩ := h.beginsWord hn
    have hword := hch.lexeme_eq lexer.regexAllowed hc
    rw [word_of_spells h hn hb hc, wordKind_eq] at hword
    obtain ⟨htoken, hfaults⟩ := scan_of_front (hch.trivia_eq false hc) hword
    exact ⟨htoken, hfaults.trans hnone⟩
  · intro hc
    have hgap := trivia_stay false hc (by decide) (by decide) (by decide)
    have hword : lexeme? lexer.regexAllowed lexer.token.stop =
      some (privateWord lexer.token.stop) := by
      simp [lexeme?, hc, isDigit]
    rw [privateWord_of_spells h hn hb hc] at hword
    obtain ⟨htoken, hfaults⟩ := scan_of_front hgap hword
    exact ⟨htoken, hfaults.trans hnone⟩

end

/-- The theorem at a reserved word with a plain letter and two escapes, alone and as the name of a
private property in front of a dot. -/
theorem scan_name_forms_mixed :
    SpellsName ['v', 'a', 'r'] "v\\u0061\\u\x7b72\x7d".toList true ∧
      (Lexer.ofString "v\\u0061\\u\x7b72\x7d").scan.token.kind = .escapedReservedWord ∧
      (Lexer.ofString "#v\\u0061\\u\x7b72\x7d.x").scan.token.value = "var" := by
  have hfour : SpellsHex ['0', '0', '6', '1'] 'a'.toNat :=
    ⟨[0, 0, 6, 1], by simp [IsHexDigit], rfl⟩
  have htwo : SpellsHex ['7', '2'] 'r'.toNat := ⟨[7, 2], by simp [IsHexDigit], rfl⟩
  have hname : IsName ['v', 'a', 'r'] := ⟨by decide,
    List.forall_mem_cons.mpr ⟨by decide, List.forall_mem_singleton.mpr (by decide)⟩⟩
  have hspells : SpellsName ['v', 'a', 'r'] "v\\u0061\\u\x7b72\x7d".toList true := by
    have hspell : "v\\u0061\\u\x7b72\x7d".toList =
        'v' :: (('\\' :: 'u' :: ['0', '0', '6', '1']) ++
          (('\\' :: 'u' :: '\x7b' :: (['7', '2'] ++ ['\x7d'])) ++ [])) := by
      decide +kernel
    rw [hspell]
    exact .plain (.escape (.fourDigits rfl hfour) (.escape (.braces (by decide) htwo) .nil))
  have hdot : EndsName ['.', 'x'] := by
    intro ch hch
    rw [← Option.some.inj hch]
    decide
  have hreserved : (Keyword.ofText? (String.ofList ['v', 'a', 'r'])).any Keyword.isReserved =
    true := by
    decide
  have hend : EndsName [] := by simp [EndsName]
  obtain ⟨hword, -⟩ := (scan_name_forms hname hspells hend
    (Lexer.ofString "v\\u0061\\u\x7b72\x7d")).1 (List.append_nil _).symm
  obtain ⟨hprivate, -⟩ := (scan_name_forms hname hspells hdot
    (Lexer.ofString "#v\\u0061\\u\x7b72\x7d.x")).2 (by decide +kernel)
  refine ⟨hspells, ?_, ?_⟩
  · rw [hword, hreserved]
    rfl
  · rw [hprivate]

end Lexer

end EcmaScript
