import EcmaScript.Proofs.Seam.Reading

/-!
# Reading a semicolon that is put in

A semicolon that is put behind the last token of the first piece of a text is read as the next
token. Behind it a slash starts a regular expression. In the text without it the same slash may have
been read as an operator, and so the two lexers are at the same token with this slash read again.
-/

namespace EcmaScript

open Lexer

namespace Lexer

variable {c : Cursor}

/-- A semicolon is a token of its own. -/
theorem lexeme_semicolon (regexAllowed : Bool) {cs : List Char} (h : c.rest = ';' :: cs) :
    lexeme? regexAllowed c =
      some { kind := .mark .semicolon, stop := ⟨c.offset + 1, cs⟩ } := by
  have hmark : Punctuator.startOf? (';' :: cs) = some .semicolon := rfl
  have hstop : c.next.advance (Punctuator.semicolon.text.length - 1) = ⟨c.offset + 1, cs⟩ := by
    rw [Cursor.next_eq h]
    rfl
  simp only [lexeme?, h]
  rw [if_neg (by decide), if_neg (by decide), if_neg (by simp [Character.isDigit]),
    if_neg (by decide), if_neg (by decide +kernel), if_neg (by simp), if_neg (by simp), hmark]
  exact congrArg some (congrArg (Lexeme.mk _ _ _ _ _) hstop)

/-- What is read as a slash starts with one. -/
theorem rest_of_isSlash {regexAllowed : Bool} {l : Lexeme} (h : lexeme? regexAllowed c = some l)
    (hs : isSlash l.kind = true) : ∃ cs, c.rest = '/' :: cs := by
  rcases lexeme_cases h with hw | ⟨-, rfl⟩ | ⟨p, hk, -, ds, hspelled⟩
  · have hw := hw.isWhole
    rcases isSlash_iff.mp hs with hk | hk
    · rw [hk] at hw
      cases hw
    · rw [hk] at hw
      cases hw
  · change isSlash (if _ then TokenKind.templateHead else .template) = true at hs
    split at hs
    · cases hs
    · cases hs
  · rw [hk] at hs
    rcases isSlash_iff.mp hs with hp | hp
    · cases hp
      exact ⟨_, hspelled.symm⟩
    · cases hp
      exact ⟨_, hspelled.symm⟩

/-- Where a slash may start a regular expression, it does. -/
theorem lexeme_regex {cs : List Char} (h : c.rest = '/' :: cs) :
    lexeme? true c = some (regexLiteral c) := by
  simp only [lexeme?, h]
  rw [if_neg (by decide), if_neg (by decide), if_neg (by simp [Character.isDigit]),
    if_neg (by decide), if_neg (by decide), if_pos (by decide)]

end Lexer

namespace Seam

open Window Cursor

variable {j : Seam} {a b : Lexer}

/-- The semicolon is read behind the last token of the first piece. -/
theorem closes (hj : j.filling = ';') (h : Both j.left j.leftFilled a b)
    (ha : a.token.stop = ⟨j.offset, j.behind⟩) :
    b.scan.token.kind = .mark .semicolon ∧ b.scan.token.stop = ⟨j.offset + 1, j.behind⟩ ∧
      b.scan.token.afterLineBreak = false ∧ b.scan.regexAllowed = true ∧
      b.scan.faults = b.faults := by
  obtain ⟨t, hta, htb⟩ := h.token
  have hleft : j.left.widen t.stop = ⟨j.offset, j.behind⟩ := by rw [← ha, hta]; rfl
  have hrest : t.stop.rest = [] := by
    have hlength := congrArg (List.length ∘ Cursor.rest) hleft
    change (t.stop.rest ++ j.behind).length = j.behind.length at hlength
    rw [List.length_append] at hlength
    exact List.eq_nil_of_length_eq_zero (by omega)
  have hoffset : b.token.stop.offset = j.offset := by
    rw [htb]
    exact congrArg Cursor.offset hleft
  have hsemi : b.token.stop.rest = ';' :: j.behind := by
    rw [htb, ← hj]
    show t.stop.rest ++ j.filling :: j.behind = _
    rw [hrest]
    rfl
  have hgap : trivia false b.token.stop = ⟨false, [], b.token.stop⟩ := by
    rw [trivia_char hsemi (by simp), if_neg (by decide), if_neg (by decide)]
  have hlexeme : lexeme? b.regexAllowed (trivia false b.token.stop).stop =
      some { kind := .mark .semicolon, stop := ⟨j.offset + 1, j.behind⟩ } := by
    rw [hgap, ← hoffset]
    exact lexeme_semicolon b.regexAllowed hsemi
  have hproperty : isPropertyName b.token.kind (.mark .semicolon) = false := Bool.and_false _
  rw [scan_of_some hlexeme, hgap]
  refine ⟨rfl, rfl, rfl, ?_, by simp⟩
  show (!isPropertyName b.token.kind (.mark .semicolon) && _) = true
  rw [hproperty]
  rfl

section

variable (ha : a.token.stop = ⟨j.offset, j.behind⟩)
  (hb : b.token.stop = ⟨j.offset + 1, j.behind⟩) (hgap : (trivia false a.token.stop).faults = [])
include ha hb hgap

/-- The same gap comes at the start of the second piece and behind the semicolon. -/
theorem trivia_behind :
    (trivia false ⟨0, j.behind⟩).faults = [] ∧
      trivia false a.token.stop = (trivia false ⟨0, j.behind⟩).widen j.right ∧
      trivia false b.token.stop = (trivia false ⟨0, j.behind⟩).widen j.rightFilled := by
  have hplace : a.token.stop = j.right.widen ⟨0, j.behind⟩ := by
    rw [ha, widen_mk, Nat.zero_add]
    exact congrArg _ (List.append_nil _).symm
  have hplace' : b.token.stop = j.rightFilled.widen ⟨0, j.behind⟩ := by
    rw [hb, widen_mk, Nat.zero_add, base_rightFilled]
    exact congrArg _ (List.append_nil _).symm
  rw [hplace] at hgap ⊢
  have hright := widen_trivia hgap (Nat.zero_le _)
  rw [hright] at hgap
  refine ⟨hgap, hright, ?_⟩
  rw [hplace']
  exact closed_trivia j.isClosed_rightFilled hgap fun _ => rfl

/-- A slash behind the semicolon is read as the start of a regular expression. -/
theorem kind_behind (hslash : isSlash a.scan.token.kind = true) (hregex : b.regexAllowed = true) :
    b.scan.token.kind = .regex := by
  obtain ⟨-, hleft, hright⟩ := trivia_behind ha hb hgap
  cases hl : lexeme? a.regexAllowed (trivia false a.token.stop).stop with
  | none =>
    rw [scan_of_none hl] at hslash
    cases hslash
  | some l =>
    rw [scan_of_some hl] at hslash
    rw [hleft] at hl
    obtain ⟨cs, hrest⟩ := rest_of_isSlash hl hslash
    have hsame : (trivia false b.token.stop).stop.rest = '/' :: cs := by
      rw [hright]
      exact hrest
    rw [scan_of_some (by rw [hregex]; exact lexeme_regex hsame)]
    exact kind_regexLiteral _

/-- At the end of the second piece both lexers are at the end. -/
theorem both_endOfFile (hl : lexeme? a.regexAllowed (trivia false a.token.stop).stop = none) :
    Both j.right j.rightFilled a.scan b.scan ∧ b.scan.faults = b.faults := by
  obtain ⟨hnone, hleft, hright⟩ := trivia_behind ha hb hgap
  have hnil : (trivia false b.token.stop).stop.rest = [] := by
    have hrest := rest_of_lexeme_none hl
    rw [hleft] at hrest
    rw [hright]
    exact hrest
  rw [scan_of_none hl, scan_of_none (by rw [lexeme?, hnil]), hleft, hright]
  refine ⟨⟨⟨⟨.endOfFile, "", "",
    { afterLineBreak := (trivia false ⟨0, j.behind⟩).lineBreak },
    (trivia false ⟨0, j.behind⟩).stop, (trivia false ⟨0, j.behind⟩).stop⟩, rfl, rfl⟩,
    fun hne => absurd rfl hne⟩, ?_⟩
  show b.faults ++ (trivia false ⟨0, j.behind⟩).faults = b.faults
  rw [hnone]
  simp

/-- What is read where a slash may start a regular expression is read in both texts. -/
theorem exists_lexeme {l : Lexeme}
    (hl : lexeme? true (trivia false a.token.stop).stop = some l) (hf : l.faults = []) :
    ∃ l' : Lexeme, l = l'.widen j.right ∧ l'.faults = [] ∧
      lexeme? true (trivia false b.token.stop).stop = some (l'.widen j.rightFilled) := by
  obtain ⟨-, hleft, hright⟩ := trivia_behind ha hb hgap
  rw [hleft] at hl
  obtain ⟨l', hl', rfl⟩ := widen_lexeme hl (Nat.zero_le _) fun _ => rfl
  have hf' : l'.faults = [] := List.map_eq_nil_iff.mp hf
  refine ⟨l', rfl, hf', ?_⟩
  rw [hright]
  exact closed_lexeme j.isClosed_rightFilled hl' hf'

end

/-- Behind the semicolon the lexer reads what is read in the other text with a slash read again. -/
theorem both_behind (ha : a.token.stop = ⟨j.offset, j.behind⟩)
    (hb : b.token.stop = ⟨j.offset + 1, j.behind⟩) (hsemi : b.token.kind = .mark .semicolon)
    (hregex : b.regexAllowed = true) (hclean : a.scan.rescanSlash.faults = #[])
    (hallowed : a.scan.token.kind ≠ .endOfFile →
      a.scan.regexAllowed = a.scan.token.kind.allowsRegexAfter) :
    Both j.right j.rightFilled a.scan.rescanSlash b.scan ∧ b.scan.faults = b.faults := by
  have hproperty : ∀ k, isPropertyName b.token.kind k = false := by
    rw [hsemi]
    exact fun _ => rfl
  cases hl : lexeme? a.regexAllowed (trivia false a.token.stop).stop with
  | none =>
    have hscan := scan_of_none hl
    have hslash : isSlash a.scan.token.kind = false := by rw [hscan]; rfl
    rw [rescanSlash_of_isSlash hslash] at hclean ⊢
    refine both_endOfFile ha hb ?_ hl
    rw [hscan] at hclean
    exact (append_eq_empty hclean).2
  | some l =>
    have hscan := scan_of_some hl
    rcases lexeme_allowed hl with ⟨hslash, hread⟩ | ⟨hslash, hread⟩
    · have hplain : isSlash a.scan.token.kind = false := by rw [hscan]; exact hslash
      rw [rescanSlash_of_isSlash hplain] at hclean ⊢
      have hmore : a.scan.token.kind ≠ .endOfFile := by
        rw [hscan]
        exact (honest_lexeme hl).ne_endOfFile
      have hallowed := hallowed hmore
      rw [hscan] at hclean hallowed ⊢
      obtain ⟨hgap, hown⟩ := append_eq_empty hclean
      have hgap := (append_eq_empty hgap).2
      obtain ⟨hnone, hleft, hright⟩ := trivia_behind ha hb hgap
      obtain ⟨l', rfl, hf', hl'⟩ := exists_lexeme ha hb hgap hread hown
      rw [scan_of_some (by rw [hregex]; exact hl'), hleft, hright, hproperty]
      refine ⟨⟨⟨⟨l'.kind, l'.value, l'.raw,
        { l'.flags with afterLineBreak := (trivia false ⟨0, j.behind⟩).lineBreak },
        (trivia false ⟨0, j.behind⟩).stop, l'.stop⟩, rfl, rfl⟩, fun _ => hallowed.symm⟩, ?_⟩
      show b.faults ++ (trivia false ⟨0, j.behind⟩).faults ++
        l'.faults.map j.rightFilled.fault = b.faults
      rw [hnone, hf']
      simp
    · have hkind : a.scan.token.kind = .mark .slash ∨ a.scan.token.kind = .mark .slashAssign := by
        rw [hscan]
        exact isSlash_iff.mp hslash
      have hstart : a.scan.token.start = (trivia false a.token.stop).stop := start_scan a
      rw [rescanSlash_eq hkind, hstart] at hclean ⊢
      obtain ⟨hbefore, hown⟩ := append_eq_empty hclean
      rw [hscan] at hbefore ⊢
      have hgap := (append_eq_empty (append_eq_empty hbefore).1).2
      obtain ⟨hnone, hleft, hright⟩ := trivia_behind ha hb hgap
      obtain ⟨l', hwide, hf', hl'⟩ := exists_lexeme ha hb hgap hread hown
      have hkind' : l'.kind = .regex := by
        have hregex := kind_regexLiteral (trivia false a.token.stop).stop
        rw [hwide] at hregex
        exact hregex
      rw [scan_of_some (by rw [hregex]; exact hl'), hwide, hleft, hright, hproperty]
      refine ⟨⟨⟨⟨l'.kind, l'.value, l'.raw,
        { l'.flags with afterLineBreak := (trivia false ⟨0, j.behind⟩).lineBreak },
        (trivia false ⟨0, j.behind⟩).stop, l'.stop⟩, rfl, rfl⟩, fun _ => ?_⟩, ?_⟩
      · show l'.kind.allowsRegexAfter = _
        rw [hkind']
        rfl
      · show b.faults ++ (trivia false ⟨0, j.behind⟩).faults ++
          l'.faults.map j.rightFilled.fault = b.faults
        rw [hnone, hf']
        simp

end Seam

end EcmaScript
