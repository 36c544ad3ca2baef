import EcmaScript.Proofs.Lexer.Reach

/-!
# Faults of lexemes

The lexer reports lexical problems only. An illegal token is never silent: it always comes
with a fault of its own, and that fault is the last one that its reading reports. No lexeme
poses as the end of the text.
-/

namespace EcmaScript

/-- Whether the lexer is the part of the front end that meets the problem. -/
def Fault.IsLexical (fault : Fault) : Prop := fault.problem.category = .lexical

namespace Lexer

open Character

/-- What is wrong with the code point of an escape is lexical. -/
theorem isLexical_codePoint {c : Cursor} {problem : Problem} {stop : Cursor}
    (h : codePoint c = (.error problem, stop)) : problem.category = .lexical := by
  unfold codePoint at h
  split at h
  · simp only at h
    split at h
    · rw [Prod.mk.injEq] at h
      obtain ⟨hp, _⟩ := h
      split at hp
      · exact absurd hp (by simp)
      · rw [← Except.error.inj hp]
        rfl
    · rw [Prod.mk.injEq] at h
      rw [← Except.error.inj h.1]
      rfl
  · split at h
    · exact absurd (congrArg Prod.fst h) (by simp)
    · rw [Prod.mk.injEq] at h
      rw [← Except.error.inj h.1]
      rfl

/-- In a string every malformed escape is a lexical problem; only templates leave theirs to
the parser. -/
theorem isLexical_escape {c : Cursor} {problem : Problem}
    (h : (escape false c).meaning = .error problem) : problem.category = .lexical := by
  revert h
  have hok {chars : List Char} {stop : Cursor} :
      (Escape.mk (.ok chars) stop).meaning = .error problem → problem.category = .lexical := by
    intro h
    cases h
  cases hc : c.rest with
  | nil =>
    rw [escape, hc]
    exact hok
  | cons ch cs =>
    refine escape_cases (P := fun e => e.meaning = .error problem → problem.category = .lexical)
      hc (fun _ => hok) (fun _ => hok) (fun _ _ => hok) (fun _ _ => hok) (fun _ _ _ => hok)
      (fun h => ?_) (fun found stop hp h => ?_) fun ht => ?_
    · rw [← Except.error.inj h]
      rfl
    · rw [← Except.error.inj h]
      exact isLexical_codePoint hp
    · cases ht

/-- What is wrong with the content of a string is lexical. -/
theorem isLexical_stringBody {quote : Char} {value : List Char} {faults : List Fault} {c : Cursor}
    (hf : ∀ f ∈ faults, f.IsLexical) :
    ∀ f ∈ (stringBody quote value faults c).faults, f.IsLexical := by
  fun_induction stringBody quote value faults c with
  | case1 => simpa using hf
  | case2 => simpa using hf
  | case3 value faults c ch cs h hq hb esc chars hm ih => exact ih hf
  | case4 value faults c ch cs h hq hb esc problem hm ih =>
    refine ih fun f hmem => ?_
    rcases List.mem_cons.mp hmem with rfl | hmem
    · exact isLexical_escape hm
    · exact hf f hmem
  | case5 => simpa using hf
  | case6 value faults c ch cs h hq hb hl ih => exact ih hf

/-- What is wrong with a string is lexical. -/
theorem isLexical_stringLiteral (quote : Char) (c : Cursor) :
    ∀ f ∈ (stringLiteral quote c).faults, f.IsLexical := by
  have hb := @isLexical_stringBody quote [] [] c.next (by simp)
  intro f hf
  unfold stringLiteral at hf
  simp only at hf
  split at hf
  · exact hb f hf
  · rcases List.mem_append.mp hf with hf | hf
    · exact hb f hf
    · rw [List.mem_singleton.mp hf]
      rfl

/-- What is wrong with a piece of a template is lexical. -/
theorem isLexical_toLexeme (chunk : TemplateChunk) (whole opening : TokenKind) (start : Nat) :
    ∀ f ∈ (chunk.toLexeme whole opening start).faults, f.IsLexical := by
  intro f hf
  unfold TemplateChunk.toLexeme at hf
  simp only at hf
  split at hf
  · rw [List.mem_singleton.mp hf]
    rfl
  · exact absurd hf (by simp)

/-- What is wrong with a regular expression is lexical. -/
theorem isLexical_regexLiteral (c : Cursor) : ∀ f ∈ (regexLiteral c).faults, f.IsLexical := by
  intro f hf
  unfold regexLiteral at hf
  simp only at hf
  split at hf
  · simp only at hf
    split at hf
    · exact absurd hf (by simp)
    · rw [List.mem_singleton.mp hf]
      rfl
  · rw [List.mem_singleton.mp hf]
    rfl

theorem kind_regexLiteral (c : Cursor) : (regexLiteral c).kind = .regex := by
  unfold regexLiteral
  simp only
  split
  · rfl
  · rfl

/-- What is wrong with digits is lexical, from any place in them. -/
theorem isLexical_digitRun {valid : Char → Bool} {count : Nat} {separated dangling : Bool}
    {faults : List Fault} {offset : Nat} {cs : List Char} (hf : ∀ f ∈ faults, f.IsLexical) :
    ∀ f ∈ (digitRun valid count separated dangling faults offset cs).faults, f.IsLexical := by
  have hcons : ∀ (b : Bool) (place : Nat) (fs : List Fault), (∀ f ∈ fs, f.IsLexical) →
      ∀ f ∈ (if b then ⟨.misplacedSeparator, place⟩ :: fs else fs), f.IsLexical := by
    intro b place fs hfs f hmem
    cases b with
    | false => exact hfs f hmem
    | true =>
      rcases List.mem_cons.mp hmem with rfl | hmem
      · rfl
      · exact hfs f hmem
  have hfinish : ∀ (count : Nat) (separated dangling : Bool) (faults : List Fault) (offset : Nat)
      (rest : List Char), (∀ f ∈ faults, f.IsLexical) →
      ∀ f ∈ (digitRun.finish count separated dangling faults offset rest).faults,
        f.IsLexical := by
    intro count separated dangling faults offset rest hf f hmem
    exact hcons dangling (offset - 1) faults hf f (List.mem_reverse.mp hmem)
  induction cs generalizing count separated dangling faults offset with
  | nil => exact hfinish _ _ _ _ _ _ hf
  | cons ch cs ih =>
    rw [digitRun]
    split
    · exact ih (hcons _ _ _ hf)
    · split
      · exact ih hf
      · exact hfinish _ _ _ _ _ _ hf

namespace NumberScan

/-- What is wrong with a number's digits is lexical. -/
theorem isLexical_withDigits {scan : NumberScan} (valid : Char → Bool) (c : Cursor)
    (h : ∀ f ∈ scan.faults, f.IsLexical) :
    ∀ f ∈ (scan.withDigits (digits valid c)).faults, f.IsLexical := by
  intro f hf
  rcases List.mem_append.mp hf with hf | hf
  · exact h f hf
  · exact isLexical_digitRun (by simp) f hf

/-- What is wrong with a number up to its fraction is lexical. -/
theorem isLexical_fraction {scan : NumberScan} (h : ∀ f ∈ scan.faults, f.IsLexical) :
    ∀ f ∈ scan.fraction.faults, f.IsLexical := by
  unfold fraction
  split
  · simp only
    split
    · refine isLexical_withDigits isDigit _ ?_
      exact h
    · exact h
  · exact h

/-- What is wrong with a number up to its exponent is lexical. -/
theorem isLexical_exponent {scan : NumberScan} (h : ∀ f ∈ scan.faults, f.IsLexical) :
    ∀ f ∈ scan.exponent.faults, f.IsLexical := by
  unfold exponent
  split
  · exact isLexical_withDigits isDigit _ h
  · exact h

end NumberScan

/-- What every lexeme keeps to: its faults are lexical, it is not the end of the text, and an
illegal one has a fault. -/
structure Lexeme.Honest (l : Lexeme) : Prop where
  isLexical : ∀ f ∈ l.faults, f.IsLexical
  ne_endOfFile : l.kind ≠ .endOfFile
  faults_ne_nil : l.kind = .illegal → l.faults ≠ []

/-- Whether a kind is neither that of a piece of a template nor that of a punctuator. -/
def isWhole : TokenKind → Bool
  | .template | .templateHead | .templateMiddle | .templateTail | .mark _ => false
  | _ => true

/-- A kind of another token is none of a template. -/
theorem isTemplate_of_isWhole {k : TokenKind} (h : isWhole k = true) : k.isTemplate = false := by
  cases k <;> first | rfl | cases h

/-- What every lexeme keeps to that is neither a piece of a template nor a punctuator. -/
structure Lexeme.Whole (l : Lexeme) : Prop extends l.Honest where
  isWhole : isWhole l.kind = true

namespace NumberScan

/-- A number that is refused is a whole token, with a fault. -/
theorem whole_illegal {scan : NumberScan} (start : Cursor)
    (h : ∀ f ∈ scan.faults, f.IsLexical) : (scan.illegal start).Whole where
  isLexical := by
    intro f hf
    rcases List.mem_append.mp hf with hf | hf
    · exact h f hf
    · rw [List.mem_singleton.mp hf]
      rfl
  ne_endOfFile := by simp [illegal]
  faults_ne_nil := by simp [illegal]
  isWhole := rfl

/-- A number that has come to its end is a whole token. -/
theorem whole_finish {scan : NumberScan} (start : Cursor) (bigIntAllowed : Bool)
    (h : ∀ f ∈ scan.faults, f.IsLexical) : (scan.finish start bigIntAllowed).Whole := by
  unfold finish
  cases bigIntAllowed && scan.stop.peek? == some 'n' with
  | false =>
    simp only [Bool.false_eq_true, ite_false]
    split
    · exact whole_illegal start h
    · exact ⟨⟨h, by simp, by simp⟩, rfl⟩
  | true =>
    simp only [ite_true]
    split
    · refine whole_illegal start ?_
      exact h
    · exact ⟨⟨h, by simp, by simp⟩, rfl⟩

end NumberScan

/-- A number is a whole token. -/
theorem whole_numberLiteral (c : Cursor) : (numberLiteral c).Whole := by
  have hradix : ∀ valid flags, (radixNumber c valid flags).Whole := by
    intro valid flags
    have hd := @NumberScan.isLexical_withDigits { flags, stop := c.advance 2 } valid
      (c.advance 2) (by simp)
    unfold radixNumber
    simp only
    split
    · exact NumberScan.whole_illegal c hd
    · exact NumberScan.whole_finish c true hd
  have hdecimal : (decimalNumber c).Whole := by
    unfold decimalNumber
    simp only
    refine NumberScan.whole_finish c _ (NumberScan.isLexical_exponent
      (NumberScan.isLexical_fraction ?_))
    split
    · simp
    · exact NumberScan.isLexical_withDigits isDigit c (by simp)
  have hzero : (leadingZeroNumber c).Whole := by
    unfold leadingZeroNumber
    simp only
    split
    · exact NumberScan.whole_finish c false (by simp)
    · exact NumberScan.whole_finish c false (NumberScan.isLexical_exponent
        (NumberScan.isLexical_fraction (by simp)))
  unfold numberLiteral
  split
  · split
    · exact hradix _ _
    · split
      · exact hradix _ _
      · split
        · exact hradix _ _
        · split
          · exact hzero
          · exact hdecimal
  · exact hdecimal

/-- What is wrong with an escape in a name is lexical. -/
theorem isLexical_escapedName {name : List Char} {c stop : Cursor} {fault : Fault}
    (h : escapedName name c = (.error fault, stop)) : fault.IsLexical := by
  fun_induction escapedName name c with
  | case1 => exact absurd (congrArg Prod.fst h) (by simp)
  | case2 name c cs hc code stop hp hv ih => exact ih h
  | case3 name c cs hc code stop hp hv =>
    rw [Prod.mk.injEq] at h
    rw [← Except.error.inj h.1]
    rfl
  | case4 name c cs hc problem stop hp =>
    rw [Prod.mk.injEq] at h
    rw [← Except.error.inj h.1]
    exact isLexical_codePoint hp
  | case5 =>
    rw [Prod.mk.injEq] at h
    rw [← Except.error.inj h.1]
    rfl
  | case6 name c ch cs _ _ hc hp ih => exact ih h
  | case7 => exact absurd (congrArg Prod.fst h) (by simp)

/-- A word without escapes is legal. -/
theorem plainWordKind_ne (word : String) : plainWordKind word ≠ .endOfFile ∧
    plainWordKind word ≠ .illegal ∧ isWhole (plainWordKind word) = true := by
  unfold plainWordKind
  split
  · exact ⟨by simp, by simp, rfl⟩
  · exact ⟨by simp, by simp, rfl⟩

/-- A word with escapes is no illegal token, even when it is reserved. -/
theorem escapedWordKind_ne (word : String) : escapedWordKind word ≠ .endOfFile ∧
    escapedWordKind word ≠ .illegal ∧ isWhole (escapedWordKind word) = true := by
  unfold escapedWordKind
  split
  · split
    · exact ⟨by simp, by simp, rfl⟩
    · exact ⟨by simp, by simp, rfl⟩
  · exact ⟨by simp, by simp, rfl⟩

/-- A word is a whole token. -/
theorem whole_word (c : Cursor) : (word c).Whole := by
  unfold word
  simp only
  split
  · split
    · obtain ⟨he, hi, ht⟩ := escapedWordKind_ne _
      exact ⟨⟨by simp, he, fun h => absurd h hi⟩, ht⟩
    · rename_i fault stop hn
      refine ⟨⟨?_, by simp, by simp⟩, rfl⟩
      intro f hf
      rw [List.mem_singleton.mp hf]
      exact isLexical_escapedName hn
  · obtain ⟨he, hi, ht⟩ := plainWordKind_ne _
    exact ⟨⟨by simp, he, fun h => absurd h hi⟩, ht⟩

/-- A character that starts no token is a whole token, with a fault. -/
theorem whole_illegalAt (c stop : Cursor) :
    Lexeme.Whole { kind := .illegal, faults := [⟨.illegalToken, c.offset⟩], stop } where
  isLexical := by
    intro f hf
    rw [List.mem_singleton.mp hf]
    rfl
  ne_endOfFile := by simp
  faults_ne_nil := by simp
  isWhole := rfl

/-- A private name is a whole token. -/
theorem whole_privateWord (c : Cursor) : (privateWord c).Whole := by
  unfold privateWord
  simp only
  split
  · split
    · have hw := whole_word c.next
      refine ⟨⟨hw.isLexical, ?_, ?_⟩, ?_⟩
      · simp only
        split
        · simp
        · simp
      · simp only
        split
        · rename_i hi
          exact fun _ => hw.faults_ne_nil hi
        · simp
      · simp only
        split
        · rfl
        · rfl
    · exact whole_illegalAt c c.next
  · exact whole_illegalAt c c.next

/-- A piece of a template keeps to what lexemes do. -/
theorem honest_toLexeme (chunk : TemplateChunk) (start : Nat) {whole opening : TokenKind}
    (hw : whole ≠ .endOfFile ∧ whole ≠ .illegal) (ho : opening ≠ .endOfFile ∧ opening ≠ .illegal) :
    (chunk.toLexeme whole opening start).Honest where
  isLexical := isLexical_toLexeme chunk whole opening start
  ne_endOfFile := by
    simp only [TemplateChunk.toLexeme]
    split
    · exact ho.1
    · exact hw.1
  faults_ne_nil := by
    simp only [TemplateChunk.toLexeme]
    split
    · exact fun h => absurd h ho.2
    · exact fun h => absurd h hw.2

/-- A regular expression is a whole token. -/
theorem whole_regexLiteral (c : Cursor) : (regexLiteral c).Whole where
  isLexical := isLexical_regexLiteral c
  ne_endOfFile := by simp [kind_regexLiteral]
  faults_ne_nil := by simp [kind_regexLiteral]
  isWhole := by rw [kind_regexLiteral]; rfl

/-- A template's continuation keeps to what lexemes do. -/
theorem honest_templateContinuation (c : Cursor) : (templateContinuation c).Honest :=
  honest_toLexeme _ _ (by simp) (by simp)

/-- A lexeme starts a template, is a punctuator, or is neither. -/
theorem lexeme_cases {regexAllowed : Bool} {c : Cursor} {l : Lexeme}
    (h : lexeme? regexAllowed c = some l) :
    l.Whole ∨ ((∃ cs, c.rest = '\x60' :: cs) ∧ l = templateStart c) ∨
      ∃ p : Punctuator, l.kind = .mark p ∧
        (l.faults = [] ∧ l.stop = c.next.advance (p.text.length - 1)) ∧
        p.text.toList <+: c.rest := by
  refine lexeme_induction h (fun _ => Or.inl ?_)
    (fun hc => Or.inr (Or.inl ⟨⟨_, hc⟩, rfl⟩)) (fun _ _ => Or.inl (whole_numberLiteral c))
    (fun _ => Or.inl (whole_privateWord c)) (Or.inl (whole_word c))
    (fun _ => Or.inl (whole_regexLiteral c)) (fun hc => ?_) (fun hp => ?_)
    fun _ => Or.inl (whole_illegalAt c c.next)
  · exact ⟨⟨isLexical_stringLiteral _ c, by simp [stringLiteral], by simp [stringLiteral]⟩, rfl⟩
  · refine Or.inr (Or.inr ⟨.question, rfl, ⟨rfl, rfl⟩, ?_⟩)
    rw [hc]
    exact ⟨_, rfl⟩
  · have hprefix := List.find?_some hp
    exact Or.inr (Or.inr ⟨_, rfl, ⟨rfl, rfl⟩, List.isPrefixOf_iff_prefix.mp hprefix⟩)

/-- Every lexeme of the lexer is honest about its faults. -/
theorem honest_lexeme {regexAllowed : Bool} {c : Cursor} {l : Lexeme}
    (h : lexeme? regexAllowed c = some l) : l.Honest := by
  rcases lexeme_cases h with hw | ⟨_, rfl⟩ | ⟨p, hk, ⟨hf, _⟩, _⟩
  · exact hw.toHonest
  · exact honest_toLexeme _ _ (by simp) (by simp)
  · exact ⟨by simp [hf], by simp [hk], by simp [hk]⟩

end Lexer

end EcmaScript
