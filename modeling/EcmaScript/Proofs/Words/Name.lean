import EcmaScript.Proofs.Lexer.Spelling
import EcmaScript.Proofs.Slice.Closed
import EcmaScript.Proofs.Slice.Reading

/-!
# Texts made of words

Words with blanks or marks between them. A word or an operator that is one token when it is read
alone is that token wherever it stands, as long as a character that goes on with no token comes
behind it. So the tokens of a text that is put together from such pieces are known without reading
it again.
-/

namespace EcmaScript

/-- A word that is read as a name. -/
structure Name where
  /-- How the word is spelled. -/
  spelling : String
  /-- The first token of the word alone is a name. -/
  isIdentifier : (Lexer.ofString spelling).scan.token.kind = .identifier
  /-- The name starts where the word starts. -/
  isFront : (Lexer.ofString spelling).scan.token.start = Cursor.ofString spelling
  /-- The name ends where the word ends. -/
  isWhole : (Lexer.ofString spelling).scan.token.stop.rest = []

/-- A word of one letter. -/
def Name.letter : Name :=
  ⟨"x", by decide +kernel, by decide +kernel, by decide +kernel⟩

namespace Name

/-- The characters of a word. -/
def chars (x : Name) : List Char := x.spelling.toList

/-- The name that a word is. -/
def value (x : Name) : String := (Lexer.ofString x.spelling).scan.token.value

end Name

namespace Lexer

open Character

/-- A piece of text, read alone, is one token. -/
structure IsToken (regexAllowed : Bool) (piece : List Char) (l : Lexeme) : Prop where
  gap : trivia false ⟨0, piece⟩ = ⟨false, [], ⟨0, piece⟩⟩
  lexeme : lexeme? regexAllowed ⟨0, piece⟩ = some l
  faults : l.faults = []
  rest : l.stop.rest = []

/-- The lexer is at a token of a kind, with `rest` behind it, and nothing has been wrong. -/
structure IsAt (lexer : Lexer) (k : TokenKind) (rest : List Char) : Prop where
  kind : lexer.token.kind = k
  rest : lexer.token.stop.rest = rest
  regexAllowed : lexer.regexAllowed = k.allowsRegexAfter
  faults : lexer.faults = #[]
  lineBreak : lexer.token.afterLineBreak = false

section

variable {lexer : Lexer} {k : TokenKind} {piece behind : List Char} {l : Lexeme}

/-- Nothing that goes on with a token comes next. -/
def Closes (behind : List Char) : Prop := ∀ ch ∈ behind.head?, Separates ch

/-- A word ends at the end of the text. -/
theorem closes_nil : Closes [] := fun _ h => nomatch h

/-- A word ends in front of a character that separates. -/
theorem closes_cons {ch : Char} {cs : List Char} (h : Separates ch) : Closes (ch :: cs) := by
  intro ch' hch
  rwa [← Option.some.inj hch]

private theorem IsAt.scan_gap (h : lexer.IsAt k (piece ++ behind) ∨
      lexer.IsAt k (' ' :: (piece ++ behind))) (hk : Parser.isOrdinary k = true)
    (ht : IsToken k.allowsRegexAfter piece l) (hb : Closes behind) :
    lexer.scan.IsAt l.kind behind ∧ lexer.scan.token.value = l.value := by
  have hne : piece ≠ [] := by
    rintro rfl
    exact nomatch ht.lexeme
  obtain ⟨c, hc, hgap⟩ : ∃ c : Cursor, c.rest = piece ++ behind ∧
      trivia false lexer.token.stop = trivia false c := by
    rcases h with h | h
    · exact ⟨_, h.rest, rfl⟩
    · exact ⟨⟨_, _⟩, rfl, trivia_blank h.rest⟩
  have hr : lexer.regexAllowed = k.allowsRegexAfter := h.elim IsAt.regexAllowed IsAt.regexAllowed
  have hkind : lexer.token.kind = k := h.elim IsAt.kind IsAt.kind
  have hfaults : lexer.faults = #[] := h.elim IsAt.faults IsAt.faults
  obtain ⟨w, -, hw, rfl⟩ := Window.exists_widen hc
  have hclosed : w.IsClosed := by
    rw [Window.IsClosed, hw]
    exact hb
  have hwide : trivia false (w.widen ⟨0, piece⟩) = ⟨false, [], w.widen ⟨0, piece⟩⟩ := by
    rw [closed_trivia hclosed (by rw [ht.gap]) (fun h => absurd (by rw [ht.gap] at h; exact h) hne),
      ht.gap]
    rfl
  have hl : lexeme? lexer.regexAllowed (w.widen ⟨0, piece⟩) = some (l.widen w) := by
    rw [hr]
    exact closed_lexeme hclosed ht.lexeme ht.faults
  have hproperty : isPropertyName lexer.token.kind (l.widen w).kind = false := by
    rw [hkind]
    exact Parser.isPropertyName_of_isOrdinary hk _
  rw [scan_of_some (l := l.widen w) (by rw [hgap, hwide]; exact hl), hgap, hwide, hproperty]
  refine ⟨⟨rfl, ?_, rfl, ?_, rfl⟩, rfl⟩
  · show l.stop.rest ++ w.behind = behind
    rw [ht.rest, hw]
    rfl
  · show lexer.faults ++ [] ++ l.faults.map w.fault = #[]
    rw [hfaults, ht.faults]
    rfl

/-- The next piece is the next token. -/
theorem IsAt.scan (h : lexer.IsAt k (piece ++ behind)) (hk : Parser.isOrdinary k = true)
    (ht : IsToken k.allowsRegexAfter piece l) (hb : Closes behind) :
    lexer.scan.IsAt l.kind behind ∧ lexer.scan.token.value = l.value :=
  scan_gap (Or.inl h) hk ht hb

/-- The next piece is the next token, if a blank comes before it. -/
theorem IsAt.scan_blank (h : lexer.IsAt k (' ' :: (piece ++ behind)))
    (hk : Parser.isOrdinary k = true) (ht : IsToken k.allowsRegexAfter piece l)
    (hb : Closes behind) :
    lexer.scan.IsAt l.kind behind ∧ lexer.scan.token.value = l.value :=
  scan_gap (Or.inr h) hk ht hb

/-- Where nothing is left, the text ends. -/
theorem IsAt.scan_end (h : lexer.IsAt k []) :
    lexer.scan.token.kind = .endOfFile ∧ lexer.scan.faults = #[] := by
  obtain ⟨hk, -, -, -, hf⟩ := scan_of_rest_nil h.rest
  exact ⟨hk, by rw [hf, h.faults]⟩

end

/-- Before its first token a lexer is as if behind one that is no dot. -/
theorem isAt_ofString (text : String) : (ofString text).IsAt .unknown text.toList :=
  ⟨rfl, rfl, rfl, rfl, rfl⟩

end Lexer

namespace Lexer

/-- A word that is read as a name has no fault. -/
theorem faults_word {c : Cursor} (h : (word c).kind = .identifier) : (word c).faults = [] := by
  unfold word at h ⊢
  simp only at h ⊢
  split at h
  · split at h
    · rfl
    · exact nomatch h
  · rfl

/-- A private name is never read as a name. -/
theorem kind_privateWord_ne (c : Cursor) : (privateWord c).kind ≠ .identifier := by
  unfold privateWord
  simp only
  split
  · split
    · simp only
      split <;> simp
    · simp
  · simp

/-- Only a name is read as one. -/
theorem lexeme_identifier {regexAllowed : Bool} {c : Cursor} {l : Lexeme}
    (h : lexeme? regexAllowed c = some l) (hk : l.kind = .identifier) : l = word c := by
  revert hk
  refine lexeme_induction h (fun _ => nofun) (fun _ hk => ?_) (fun _ _ hk => ?_)
    (fun _ hk => absurd hk (kind_privateWord_ne c)) (fun _ => rfl) (fun _ hk => ?_) (fun _ => nofun)
    (fun _ => nofun) fun _ => nofun
  · unfold templateStart TemplateChunk.toLexeme at hk
    simp only at hk
    split at hk <;> cases hk
  · rcases kind_numberLiteral c with h | h | h <;> rw [h] at hk <;> cases hk
  · rw [kind_regexLiteral] at hk
    cases hk

end Lexer

/-- A word is one token when it is read alone. -/
theorem Name.isToken (x : Name) :
    ∃ l : Lexer.Lexeme, Lexer.IsToken true x.chars l ∧ l.kind = .identifier ∧ l.value =
    x.value := by
  have hstart := Lexer.start_scan (Lexer.ofString x.spelling)
  have hkind := x.isIdentifier
  have hwhole := x.isWhole
  have hvalue : x.value = (Lexer.ofString x.spelling).scan.token.value := rfl
  rw [x.isFront] at hstart
  cases hl : Lexer.lexeme? true (Cursor.ofString x.spelling) with
  | none =>
    rw [Lexer.scan_of_none (by rw [← hstart]; exact hl)] at hkind
    exact nomatch hkind
  | some l =>
    rw [Lexer.scan_of_some (l := l) (by rw [← hstart]; exact hl)] at hkind hwhole hvalue
    refine ⟨l, ⟨?_, hl, ?_, hwhole⟩, hkind, hvalue.symm⟩
    · have hstop := Lexer.trivia_stop (Cursor.ofString x.spelling) false false
      rwa [show (Lexer.trivia false (Cursor.ofString x.spelling)).stop = Cursor.ofString x.spelling
        from hstart.symm] at hstop
    · obtain rfl := Lexer.lexeme_identifier hl hkind
      exact Lexer.faults_word hkind

/-- A word does not announce an interpreter. -/
theorem Name.ne_hash (x : Name) (cs : List Char) : x.chars ≠ '#' :: cs := by
  intro h
  obtain ⟨l, ht, hk, -⟩ := x.isToken
  have hword := ht.lexeme
  rw [Lexer.lexeme?, h] at hword
  simp only [Option.some.injEq] at hword
  rw [if_neg (by decide), if_neg (by decide), if_neg (by simp [Character.isDigit]),
    if_pos (by decide)] at hword
  rw [← hword] at hk
  exact absurd hk (Lexer.kind_privateWord_ne _)

namespace Lexer

open Character

/-- Whether a piece of text starts with a token of a given kind that ends where the piece ends. -/
def readsOne (regexAllowed : Bool) (piece : List Char) (p : TokenKind → Bool) : Bool :=
  piece.head?.any (fun ch => !isLineBreak ch && !isBlank ch && (ch != '/' || piece.tail.isEmpty)) &&
    (lexeme? regexAllowed ⟨0, piece⟩).any fun l =>
      p l.kind && l.faults.isEmpty && l.stop.rest.isEmpty

/-- The run shows that the piece is one token, whatever stands behind it. -/
theorem isToken_of_readsOne {regexAllowed : Bool} {piece : List Char} {p : TokenKind → Bool}
    (h : readsOne regexAllowed piece p = true) :
    ∃ l : Lexeme, IsToken regexAllowed piece l ∧ p l.kind = true := by
  cases piece with
  | nil => exact nomatch h
  | cons ch cs =>
    rw [readsOne, Bool.and_eq_true] at h
    obtain ⟨hstart, hread⟩ := h
    rw [Option.any_eq_true] at hread
    obtain ⟨l, hl, hread⟩ := hread
    simp only [Bool.and_eq_true, List.isEmpty_iff] at hread
    simp only [List.head?_cons, Option.any_some, List.tail_cons, Bool.and_eq_true,
      Bool.not_eq_true', Bool.or_eq_true, bne_iff_ne, List.isEmpty_iff] at hstart
    obtain ⟨⟨hkind, hfaults⟩, hrest⟩ := hread
    obtain ⟨⟨hline, hblank⟩, hslash⟩ := hstart
    refine ⟨l, ⟨?_, hl, hfaults, hrest⟩, hkind⟩
    rw [trivia_char (c := ⟨0, ch :: cs⟩) rfl, hline, hblank]
    · rfl
    · rintro x ds rfl rfl
      exact (nomatch hslash.resolve_left (fun h => h rfl))

end Lexer

/-- A binary operator is one token when it is read alone behind an operand. -/
theorem BinaryOperator.isToken (op : BinaryOperator) :
    ∃ l : Lexer.Lexeme, Lexer.IsToken false op.text.toList l ∧
      BinaryOperator.ofKind? l.kind = some op := by
  -- All the operators at once: the table of punctuators is then sorted only once.
  have hall : ∀ n : Fin 25, Lexer.readsOne false (BinaryOperator.ofNat n).text.toList
      (BinaryOperator.ofKind? · == some (BinaryOperator.ofNat n)) = true := by
    decide +kernel
  have hread := hall ⟨op.ctorIdx, by cases op <;> decide⟩
  rw [BinaryOperator.ofNat_ctorIdx] at hread
  obtain ⟨l, hl, hkind⟩ := Lexer.isToken_of_readsOne hread
  exact ⟨l, hl, eq_of_beq hkind⟩

/-- A parenthesis is a token whatever follows. -/
theorem Lexer.lexeme_openParen (regexAllowed : Bool) {c : Cursor} {cs : List Char}
    (h : c.rest = '(' :: cs) :
    Lexer.lexeme? regexAllowed c = some
    { kind := .mark .openParen, stop := ⟨c.offset + 1, cs⟩ } := by
  have hmark : Punctuator.startOf? ('(' :: cs) = some .openParen := rfl
  simp only [Lexer.lexeme?, h, hmark, Cursor.next]
  rfl

end EcmaScript
