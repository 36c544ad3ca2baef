import EcmaScript.Proofs.Parser.Takes
import EcmaScript.Proofs.Slice.Lexeme

/-!
# Lexers in a window

A lexer of the stretch alone keeps in step with one of the whole text: as long as the one of
the whole text reads tokens without faults that end in the window, both are at the same token.
What comes before the window is forgotten except for a line break before the first token, and
for a slash there, which the stretch alone always takes for a regular expression.
-/

namespace EcmaScript

/-- A token of the stretch as one of the whole text. -/
def Token.widen (w : Window) (t : Token) : Token :=
  { t with start := w.widen t.start, stop := w.widen t.stop }

/-- A token with or without a line break before it. -/
def Token.behindLine (lineBreak : Bool) (t : Token) : Token :=
  { t with flags := { t.flags with afterLineBreak := lineBreak } }

namespace Window

/-- A lexer of the whole text and one of the stretch alone are at the same token, except that
a line break may come before it in the whole text. -/
structure Reads (w : Window) (a b : Lexer) : Prop where
  token : a.token = (b.token.widen w).behindLine a.token.afterLineBreak
  regexAllowed : a.regexAllowed = b.regexAllowed

section

variable {w : Window} {c d e : Cursor} {a b : Lexer}

/-- Two fronts of a text that are equally long are the same. -/
theorem eq_of_byteLength_eq {xs ys as bs : List Char} (h : xs ++ as = ys ++ bs)
    (hl : byteLength xs = byteLength ys) : xs = ys ∧ as = bs := by
  have hnil : ∀ zs : List Char, byteLength zs = 0 → zs = [] := by
    intro zs hz
    cases zs with
    | nil => rfl
    | cons z zs =>
      have := z.utf8Size_pos
      rw [byteLength_cons] at hz
      omega
  rcases List.append_eq_append_iff.mp h with ⟨zs, rfl, rfl⟩ | ⟨zs, rfl, rfl⟩
  · rw [byteLength_append] at hl
    rw [hnil zs (by omega)]
    simp
  · rw [byteLength_append] at hl
    rw [hnil zs (by omega)]
    simp

/-- The characters of the whole text. -/
theorem toList_text (w : Window) : w.text.toList = w.before ++ (w.inside ++ w.behind) :=
  String.toList_ofList

theorem toList_part (w : Window) : w.part.toList = w.inside := String.toList_ofList

/-- What is left at a cursor tells on which side of the end of the window it stands. -/
theorem offset_le_cut_iff (h : c.IsIn w.text) : c.offset ≤ w.cut ↔ w.Holds c := by
  obtain ⟨front, hr, ho⟩ := h
  change w.text.toList = front ++ c.rest at hr
  rw [toList_text, ← List.append_assoc] at hr
  have ho : c.offset = byteLength front := ho.trans (Nat.zero_add _)
  have hcut : w.cut = byteLength (w.before ++ w.inside) := by rw [byteLength_append]; rfl
  rw [ho, hcut, Holds]
  rcases List.append_eq_append_iff.mp hr with ⟨zs, rfl, hb⟩ | ⟨zs, hf, hb⟩
  · rw [hb, byteLength_append, List.length_append]
    cases zs with
    | nil => simp
    | cons z zs =>
      have := z.utf8Size_pos
      rw [byteLength_cons, List.length_cons]
      omega
  · rw [hb, hf, byteLength_append, List.length_append]
    omega

/-- A cursor stands in front of the end of the window when more is left behind it than behind the
window. -/
theorem offset_lt_cut_iff (h : c.IsIn w.text) :
    c.offset < w.cut ↔ w.behind.length < c.rest.length := by
  obtain ⟨front, hr, ho⟩ := h
  change w.text.toList = front ++ c.rest at hr
  rw [toList_text, ← List.append_assoc] at hr
  have ho : c.offset = byteLength front := ho.trans (Nat.zero_add _)
  have hcut : w.cut = byteLength (w.before ++ w.inside) := by rw [byteLength_append]; rfl
  rw [ho, hcut]
  rcases List.append_eq_append_iff.mp hr with ⟨zs, rfl, hb⟩ | ⟨zs, hf, hb⟩
  · rw [hb, byteLength_append, List.length_append]
    omega
  · rw [hb, hf, byteLength_append, List.length_append]
    cases zs with
    | nil => simp
    | cons z zs =>
      have := z.utf8Size_pos
      rw [byteLength_cons, List.length_cons]
      omega

/-- The place where the window starts is the start of the stretch. -/
theorem eq_widen_ofString (h : c.IsIn w.text) (hb : c.offset = w.base) :
    c = w.widen (Cursor.ofString w.part) := by
  obtain ⟨front, hr, ho⟩ := h
  change w.text.toList = front ++ c.rest at hr
  rw [toList_text] at hr
  have ho : c.offset = byteLength front := ho.trans (Nat.zero_add _)
  have hrest := (eq_of_byteLength_eq hr (hb.symm.trans ho)).2
  obtain ⟨offset, rest⟩ := c
  change offset = w.base at hb
  change w.inside ++ w.behind = rest at hrest
  rw [hb, ← hrest, Cursor.ofString, toList_part, widen_mk, Nat.zero_add]

/-- What the wider cursors have between them, the narrower ones have. -/
theorem reaches_of_widen (h : (w.widen d).Reaches (w.widen e)) : d.Reaches e := by
  obtain ⟨front, hr, ho⟩ := h
  refine ⟨front, ?_, ?_⟩
  · rw [widen_rest, widen_rest, ← List.append_assoc] at hr
    exact List.append_cancel_right hr
  · rw [widen_offset, widen_offset] at ho
    omega

namespace Reads

/-- The two tokens start at the same place of the text. -/
theorem start (h : w.Reads a b) : a.token.start = w.widen b.token.start := by
  rw [h.token]
  rfl

/-- The two tokens end at the same place of the text. -/
theorem stop (h : w.Reads a b) : a.token.stop = w.widen b.token.stop := by
  rw [h.token]
  rfl

/-- The two tokens are of one kind. -/
theorem kind (h : w.Reads a b) : b.token.kind = a.token.kind := by
  rw [h.token]
  rfl

/-- The two tokens have the same text. -/
theorem text (h : w.Reads a b) (hr : a.token.start.Reaches a.token.stop) :
    b.token.text = a.token.text := by
  rw [h.start, h.stop] at hr
  rw [Token.text, Token.text, h.start, h.stop, widen_textUntil (reaches_of_widen hr)]

end Reads

end

end Window

namespace Lexer

open Window Character Cursor

section

variable {w : Window} {c : Cursor} {a b : Lexer}

/-- A question mark before a fraction stands alone. -/
theorem lexeme_question (regexAllowed : Bool) {cs : List Char} (h : c.rest = '?' :: cs)
    (hf : startsFraction cs = true) :
    lexeme? regexAllowed c = some { kind := .mark .question, stop := c.next } := by
  rw [startsFraction] at hf
  simp only [lexeme?, h]
  rw [if_neg (by decide), if_neg (by decide), if_neg (by simp [isDigit]), if_neg (by decide),
    if_neg (by decide), if_neg (by simp), if_pos (by simpa using hf)]

/-- A dot before a digit starts a number. -/
theorem lexeme_dot (regexAllowed : Bool) {ch : Char} {cs : List Char} (h : c.rest = '.' :: ch :: cs)
    (hd : isDigit ch = true) : lexeme? regexAllowed c = some (numberLiteral c) := by
  simp only [lexeme?, h]
  rw [if_neg (by decide), if_neg (by decide), if_pos (by simp [hd])]

/-- A fraction of which only the dot lies in the window is no token that ends there. -/
theorem not_holds_fraction {ch : Char} {cs : List Char} (hb : w.behind = ch :: cs)
    (hc : a.token.stop.rest = '.' :: w.behind) (hd : isDigit ch = true) :
    ¬ w.Holds a.scan.token.stop := by
  rw [hb] at hc
  have hgap : trivia false a.token.stop = ⟨false, [], a.token.stop⟩ := by
    rw [trivia_char hc (by simp), if_neg (by decide), if_neg (by decide)]
  have hl := lexeme_dot a.regexAllowed hc hd
  rw [scan_of_some (l := numberLiteral a.token.stop) (by rw [hgap]; exact hl)]
  have hlen := length_numberLiteral_dot hc hd
  rw [Holds, hb, List.length_cons]
  exact Nat.not_le_of_lt (Nat.lt_succ_of_le hlen)

/-- A question mark and the dot of a fraction are two tokens, so if these two are the last
characters of the window, and what is read behind the first ends in the window, then no
fraction follows. -/
theorem not_fraction {d : Cursor} {regexAllowed : Bool} {l : Lexeme}
    (hl : lexeme? regexAllowed (w.widen d) = some l)
    (hnext : l.kind = .mark .question → l.stop.rest = '.' :: w.behind →
      ∃ a : Lexer, a.token.stop = l.stop ∧ w.Holds a.scan.token.stop)
    (hd : d.rest = ['?', '.']) : w.behind.head?.any isDigit = false := by
  cases hb : w.behind with
  | nil => rfl
  | cons ch cs =>
    rw [List.head?_cons, Option.any_some]
    cases hdigit : isDigit ch with
    | false => rfl
    | true =>
      have hwide : (w.widen d).rest = '?' :: '.' :: w.behind := by
        rw [widen_rest, hd]
        rfl
      rw [lexeme_question _ hwide (by simp [startsFraction, hb, hdigit])] at hl
      cases hl
      have hrest : (w.widen d).next.rest = '.' :: w.behind := by rw [next_eq hwide]
      obtain ⟨a, hstop, hholds⟩ := hnext rfl hrest
      exact absurd hholds (not_holds_fraction hb (by rw [hstop, hrest]) hdigit)

/-- The lexers stay in step when the next token begins before the end of the window, has no
faults and ends in the window. Behind a question mark one token more has to be known. -/
theorem widen_scan (h : w.Reads a b) (hf : a.scan.faults = #[])
    (hin : w.behind.length < a.scan.token.start.rest.length) (hs : w.Holds a.scan.token.stop)
    (hnext : a.scan.token.kind = .mark .question →
      a.scan.token.stop.rest = '.' :: w.behind → w.Holds a.scan.scan.token.stop) :
    a.scan.token = b.scan.token.widen w ∧ a.scan.regexAllowed = b.scan.regexAllowed ∧
      b.scan.faults = b.faults := by
  rw [start_scan] at hin
  cases hl : lexeme? a.regexAllowed (trivia false a.token.stop).stop with
  | none =>
    rw [rest_of_lexeme_none hl] at hin
    exact absurd hin (Nat.not_lt_zero _)
  | some l =>
    have hscan := scan_of_some hl
    rw [hscan] at hf hs
    obtain ⟨hgap, hown⟩ := append_eq_empty hf
    have hgap := (append_eq_empty hgap).2
    rw [h.stop] at hgap hin
    have htrivia := widen_trivia hgap (Nat.le_of_lt hin)
    have hstop : (trivia false a.token.stop).stop = w.widen (trivia false b.token.stop).stop := by
      rw [h.stop, htrivia]
      rfl
    rw [hstop] at hl
    have hcut := not_fraction hl fun hk hlt =>
      ⟨a.scan, by rw [hscan], hnext (by rw [hscan]; exact hk)
      (by rw [hscan]; exact hlt)⟩
    obtain ⟨l', hl', rfl⟩ := widen_lexeme hl hs hcut
    rw [h.regexAllowed] at hl'
    rw [hscan, scan_of_some hl', h.kind, h.stop, htrivia]
    refine ⟨rfl, rfl, ?_⟩
    have hgap' : (trivia false b.token.stop).faults = [] := by
      rw [htrivia] at hgap
      exact hgap
    rw [hgap', List.map_eq_nil_iff.mp hown]
    simp

/-- At the end of the stretch nothing follows. -/
theorem scan_of_rest_nil (h : b.token.stop.rest = []) :
    b.scan.token.kind = .endOfFile ∧ b.scan.token.start = b.token.stop ∧
      b.scan.token.stop = b.token.stop ∧ b.scan.token.afterLineBreak = false ∧
      b.scan.faults = b.faults := by
  have hgap : trivia false b.token.stop = ⟨false, [], b.token.stop⟩ := trivia_nil h
  rw [scan_of_none (by rw [hgap]; simp [lexeme?, h]), hgap]
  exact ⟨rfl, rfl, rfl, rfl, by simp⟩

/-- In front of the end of the window the stretch has a character left. -/
theorem exists_cons_of_widen (hin : w.behind.length < (w.widen c).rest.length) :
    ∃ ch cs, c.rest = ch :: cs := by
  refine List.exists_cons_of_length_pos ?_
  rw [widen_rest, List.length_append] at hin
  omega

/-- A slash is read again alike when the regular expression ends in the window. -/
theorem widen_rescanSlash (h : w.Reads a b)
    (hk : a.token.kind = .mark .slash ∨ a.token.kind = .mark .slashAssign)
    (hf : a.rescanSlash.faults = #[]) (hin : w.behind.length < a.token.start.rest.length)
    (hs : w.Holds a.rescanSlash.token.stop) :
    w.Reads a.rescanSlash b.rescanSlash ∧ b.rescanSlash.faults = b.faults := by
  rw [rescanSlash_eq hk] at hf hs ⊢
  rw [rescanSlash_eq (by rw [h.kind]; exact hk)]
  have hown := (append_eq_empty hf).2
  rw [h.start] at hown hin
  obtain ⟨ch, cs, hd⟩ := exists_cons_of_widen hin
  have hs : w.Holds (regexLiteral a.token.start).stop := hs
  rw [h.start] at hs
  have hwide := widen_regexLiteral hd hs
  rw [hwide] at hown
  refine ⟨⟨?_, rfl⟩, by rw [List.map_eq_nil_iff.mp hown]; simp⟩
  rw [again, again, Token.widen, Token.behindLine, h.start, hwide]
  rfl

/-- A closing brace is read again alike when the piece of the template ends in the window. -/
theorem widen_rescanTemplate (h : w.Reads a b) (hf : a.rescanTemplate.faults = #[])
    (hin : w.behind.length < a.token.start.rest.length)
    (hs : w.Holds a.rescanTemplate.token.stop) :
    w.Reads a.rescanTemplate b.rescanTemplate ∧ b.rescanTemplate.faults = b.faults := by
  rw [rescanTemplate_eq] at hf hs ⊢
  rw [rescanTemplate_eq]
  have hown := (append_eq_empty hf).2
  rw [h.start] at hown hin
  obtain ⟨ch, cs, hd⟩ := exists_cons_of_widen hin
  have hs : w.Holds (templateContinuation a.token.start).stop := hs
  rw [h.start] at hs
  have hwide := widen_templateContinuation hd hs
  rw [hwide] at hown
  refine ⟨⟨?_, ?_⟩, by rw [List.map_eq_nil_iff.mp hown]; simp⟩
  · rw [again, again, Token.widen, Token.behindLine, h.start, hwide]
    rfl
  · simp only [h.start, hwide]
    rfl

/-- A mark that starts with a slash divides, or divides and assigns. -/
theorem startOf_slash {cs : List Char} {p : Punctuator}
    (h : Punctuator.startOf? ('/' :: cs) = some p) : p = .slash ∨ p = .slashAssign := by
  unfold Punctuator.startOf? at h
  have hp := List.find?_some h
  rw [List.isPrefixOf_iff_prefix] at hp
  have hhead : p.text.toList.head? = some '/' := by
    obtain ⟨t, ht⟩ := hp
    cases htext : p.text.toList with
    | nil =>
      rw [htext] at ht
      exact absurd htext (by cases p <;> decide)
    | cons ch chars =>
      rw [htext] at ht
      rw [List.head?_cons, (List.cons.inj ht).1]
  cases p <;> first | exact Or.inl rfl | exact Or.inr rfl | exact absurd hhead (by decide)

/-- Where a slash may start a regular expression, only a slash is read differently. -/
theorem lexeme_allowed {regexAllowed : Bool} {l : Lexeme} (h : lexeme? regexAllowed c = some l) :
    isSlash l.kind = false ∧ lexeme? true c = some l ∨
      isSlash l.kind = true ∧ lexeme? true c = some (regexLiteral c) := by
  cases hc : c.rest with
  | nil => simp [lexeme?, hc] at h
  | cons ch cs =>
    by_cases hch : ch = '/'
    · subst hch
      simp only [lexeme?, hc] at h ⊢
      rw [if_neg (by decide), if_neg (by decide), if_neg (by simp [isDigit]),
        if_neg (by decide), if_neg (by decide)] at h ⊢
      cases regexAllowed with
      | true =>
        rw [if_pos (by decide)] at h ⊢
        cases h
        exact Or.inl ⟨by rw [kind_regexLiteral]; rfl, rfl⟩
      | false =>
        rw [if_neg (by decide), if_neg (by simp)] at h
        refine Or.inr ⟨?_, by rw [if_pos (by decide)]⟩
        cases hp : Punctuator.startOf? ('/' :: cs) with
        | none =>
          have hslash := List.find?_eq_none.mp hp .slash (by decide)
          exact absurd (List.isPrefixOf_iff_prefix.mpr ⟨cs, rfl⟩) hslash
        | some p =>
          rw [hp] at h
          cases h
          rcases startOf_slash hp with rfl | rfl
          · rfl
          · rfl
    · have hne : (ch == '/') = false := by simpa using hch
      refine Or.inl ⟨?_, by simpa only [lexeme?, hc, hne, Bool.false_and] using h⟩
      rcases lexeme_cases h with hw | ⟨-, rfl⟩ | ⟨p, hk, -, hspelled⟩
      · have hw := hw.isWhole
        cases hk : l.kind with
        | mark p =>
          rw [hk] at hw
          cases hw
        | _ => rfl
      · show isSlash (if _ then TokenKind.templateHead else .template) = false
        split
        · rfl
        · rfl
      · rw [hk, hc] at *
        cases p with
        | slash => exact absurd (List.cons_prefix_cons.mp hspelled).1.symm hch
        | slashAssign => exact absurd (List.cons_prefix_cons.mp hspelled).1.symm hch
        | _ => rfl

/-- Where a gap ends no other one starts. -/
theorem trivia_stop (c : Cursor) (before lineBreak : Bool) :
    trivia lineBreak (trivia before c).stop = ⟨lineBreak, [], (trivia before c).stop⟩ := by
  fun_induction trivia before c with
  | case1 before c h => exact trivia_nil h
  | case2 before c cs h ih => exact ih
  | case3 before c cs h comment hclosed ih => exact ih
  | case4 before c cs h comment hopen =>
    have hspec := blockComment_spec false (c.offset + 2) cs
    rw [if_neg hopen] at hspec
    exact trivia_nil (by rw [hspec.1])
  | case5 before c ch cs _ _ h hl ih => exact ih
  | case6 before c ch cs _ _ h hl hb ih => exact ih
  | case7 before c ch cs hline hblock h hl hb =>
    rw [trivia_char h, if_neg hl, if_neg hb]
    rintro x ds rfl rfl
    exact ⟨fun hx => hline ds rfl (by rw [hx]), fun hx => hblock ds rfl (by rw [hx])⟩

/-- A name with a number sign in front is not followed by an exclamation mark. -/
theorem lexeme_hashbang {regexAllowed : Bool} {l : Lexeme} {cs : List Char}
    (h : lexeme? regexAllowed c = some l) (hf : l.faults = []) : c.rest ≠ '#' :: '!' :: cs := by
  intro hc
  simp only [lexeme?, hc] at h
  rw [if_neg (by decide), if_neg (by decide), if_neg (by simp [isDigit]), if_pos (by decide)] at h
  cases h
  obtain ⟨ch, ds, hn, hs⟩ := privateWord_cases hf
  rw [next_eq hc] at hn
  obtain ⟨rfl, -⟩ := List.cons.inj hn
  exact absurd hs (by decide)

/-- Two cursors of the stretch are not the same place of the whole text. -/
theorem widen_inj {d e : Cursor} (h : w.widen d = w.widen e) : d = e := by
  obtain ⟨offset, rest⟩ := d
  obtain ⟨offset', rest'⟩ := e
  simp only [widen_mk, Cursor.mk.injEq] at h
  rw [Nat.add_right_cancel h.1, List.append_cancel_right h.2]

/-- What a lexer of the stretch alone reads first. -/
theorem scan_alone {l : Lexeme}
    (hgap : trivia false (w.widen (.ofString w.part)) = ⟨false, [], w.widen (.ofString w.part)⟩)
    (hin : w.Holds (w.widen (.ofString w.part)))
    (hl : lexeme? true (.ofString w.part) = some l) :
    (ofString w.part).scan =
      { token :=
          { kind := l.kind, value := l.value, raw := l.raw
            flags := { l.flags with afterLineBreak := false }
            start := .ofString w.part, stop := l.stop }
        regexAllowed := l.kind.allowsRegexAfter
        faults := l.faults.toArray } := by
  have hnarrow : trivia false (Cursor.ofString w.part) = ⟨false, [], .ofString w.part⟩ := by
    have hwide := widen_trivia (w := w) (d := .ofString w.part) (by rw [hgap])
      (by rw [hgap]; exact hin)
    rw [hgap] at hwide
    have hstop := widen_inj (congrArg Trivia.stop hwide)
    generalize trivia false (Cursor.ofString w.part) = gap at hwide hstop ⊢
    obtain ⟨lineBreak, faults, stop⟩ := gap
    cases hstop
    cases congrArg Trivia.lineBreak hwide
    cases congrArg Trivia.faults hwide
    rfl
  have hfront : trivia false (ofString w.part).token.stop = ⟨false, [], .ofString w.part⟩ := hnarrow
  rw [scan_of_some (l := l) (by rw [hfront]; exact hl), hfront]
  exact congrArg (Lexer.mk _ _) (by simp [ofString])

/-- A token that ends in the window starts there. -/
theorem holds_of_lexeme {regexAllowed : Bool} {l : Lexeme} (hl : lexeme? regexAllowed c = some l)
    (hs : w.Holds l.stop) : w.Holds c :=
  Nat.le_trans hs (Nat.le_of_lt (length_lexeme_lt hl))

/-- A stretch that starts with a token does not announce an interpreter. -/
theorem skipHashbang_part {l : Lexeme} (hl : lexeme? true (w.widen (.ofString w.part)) = some l)
    (hf : l.faults = []) : (ofString w.part).skipHashbang = ofString w.part := by
  unfold skipHashbang
  split
  · rename_i cs hc
    have hrest : (w.widen (.ofString w.part)).rest = '#' :: '!' :: (cs ++ w.behind) := by
      have hc : Cursor.ofString w.part = ⟨0, '#' :: '!' :: cs⟩ := hc
      rw [widen_rest, hc]
      rfl
    exact absurd hrest (lexeme_hashbang hl hf)
  · rfl

/-- A lexer of the stretch alone starts with the token that the lexer of the whole text has
read at the start of the window, where a slash starts a regular expression. -/
theorem widen_first {before : Lexer} (hb : Parser.isOrdinary before.token.kind = true)
    (hin : before.scan.token.start.IsIn w.text) (ho : before.scan.token.start.offset = w.base)
    (hk : before.scan.token.kind ≠ .endOfFile) (hf : before.scan.rescanSlash.faults = #[])
    (hs : w.Holds before.scan.rescanSlash.token.stop)
    (hnext : before.scan.token.kind = .mark .question →
      before.scan.token.stop.rest = '.' :: w.behind → w.Holds before.scan.scan.token.stop) :
    w.Reads before.scan.rescanSlash (ofString w.part).skipHashbang.scan ∧
      (ofString w.part).skipHashbang.scan.faults = #[] := by
  have hstart := eq_widen_ofString hin ho
  cases hl : lexeme? before.regexAllowed (trivia false before.token.stop).stop with
  | none => exact absurd (by rw [scan_of_none hl]) hk
  | some l =>
    have hscan := scan_of_some hl
    rw [start_scan] at hstart
    rw [hstart] at hl
    have hproperty := Parser.isPropertyName_of_isOrdinary hb l.kind
    have hgap := trivia_stop before.token.stop false false
    rw [hstart] at hgap
    rcases lexeme_allowed hl with ⟨hslash, hl⟩ | ⟨hslash, hl⟩
    · rw [rescanSlash_of_isSlash (by rw [hscan]; exact hslash)] at hf hs ⊢
      have hcut := not_fraction hl fun hk hlt => ⟨before.scan, by rw [hscan],
        hnext (by rw [hscan]; exact hk) (by rw [hscan]; exact hlt)⟩
      rw [hscan] at hf hs ⊢
      have hown := (append_eq_empty hf).2
      obtain ⟨l', hl', rfl⟩ := widen_lexeme hl hs hcut
      rw [skipHashbang_part hl hown, scan_alone hgap (holds_of_lexeme hl hs) hl',
        List.map_eq_nil_iff.mp hown]
      refine ⟨⟨?_, ?_⟩, rfl⟩
      · rw [hstart]
        rfl
      · simp only [hproperty]
        rfl
    · have hkind : before.scan.token.kind = .mark .slash ∨ before.scan.token.kind =
        .mark .slashAssign := by
        rw [hscan]
        exact isSlash_iff.mp hslash
      have htoken : before.scan.token.start = w.widen (.ofString w.part) := by
        rw [start_scan, hstart]
      rw [rescanSlash_eq hkind, htoken] at hf hs ⊢
      have hown := (append_eq_empty hf).2
      have hs : w.Holds (regexLiteral (w.widen (.ofString w.part))).stop := hs
      have hcut := not_fraction hl fun hk _ => by
        rw [kind_regexLiteral] at hk
        exact nomatch hk
      obtain ⟨l', hl', hwide⟩ := widen_lexeme hl hs hcut
      have hfirst := skipHashbang_part hl hown
      rw [hwide] at hown
      rw [hfirst, scan_alone hgap (holds_of_lexeme hl hs) hl', List.map_eq_nil_iff.mp hown]
      refine ⟨⟨?_, ?_⟩, rfl⟩
      · rw [again, htoken, hwide]
        rfl
      · have hregex := kind_regexLiteral (w.widen (.ofString w.part))
        rw [hwide] at hregex
        have hregex : l'.kind = .regex := hregex
        rw [hregex]
        rfl

end

/-- A mark ends behind its last character. -/
theorem stop_of_mark {regexAllowed : Bool} {c : Cursor} {l : Lexeme} {p : Punctuator}
    (h : lexeme? regexAllowed c = some l) (hk : l.kind = .mark p) :
    l.stop = c.next.advance (p.text.length - 1) := by
  rcases lexeme_cases h with hw | ⟨-, rfl⟩ | ⟨q, hq, ⟨-, hstop⟩, -⟩
  · have hw := hw.isWhole
    rw [hk] at hw
    exact nomatch hw
  · change (if _ then TokenKind.templateHead else .template) = .mark p at hk
    split at hk
    · exact nomatch hk
    · exact nomatch hk
  · rw [hk] at hq
    cases hq
    exact hstop

/-- The current token ends behind its last character when it is a mark. -/
theorem Trace.stop_of_mark {text : String} {readings : List Reading} {r : Reading} {lexer : Lexer}
    (h : Trace text (readings ++ [r]) lexer) {p : Punctuator} (hk : lexer.token.kind = .mark p) :
    lexer.token.stop = lexer.token.start.next.advance (p.text.length - 1) := by
  generalize hrs : readings ++ [r] = all at h
  cases h with
  | start => exact absurd hrs (by simp)
  | @scan _ lexer _ =>
    rw [start_scan]
    cases hl : lexeme? lexer.regexAllowed (trivia false lexer.token.stop).stop with
    | none =>
      rw [scan_of_none hl] at hk
      exact nomatch hk
    | some l =>
      rw [scan_of_some hl] at hk ⊢
      exact Lexer.stop_of_mark hl hk
  | slash _ ht =>
    rw [rescanSlash_eq ht] at hk
    exact absurd (hk.symm.trans (kind_regexLiteral _)) (by simp)
  | template _ _ =>
    change (if _ then TokenKind.templateMiddle else .templateTail) = .mark p at hk
    split at hk
    · exact nomatch hk
    · exact nomatch hk

/-- A regular expression does not end before the mark that its slash was taken for. -/
theorem Trace.stop_le_rescanSlash {text : String} {readings : List Reading} {r : Reading}
    {lexer : Lexer} (h : Trace text (readings ++ [r]) lexer)
    (hk : lexer.token.kind = .mark .slash ∨ lexer.token.kind = .mark .slashAssign) :
    lexer.token.stop.offset ≤ lexer.rescanSlash.token.stop.offset := by
  rw [rescanSlash_eq hk]
  show _ ≤ (regexLiteral lexer.token.start).stop.offset
  rw [regexLiteral_eq]
  have hbody := reaches_regexBody false lexer.token.start.next.offset lexer.token.start.next.rest
  rcases hk with hk | hk
  · rw [h.stop_of_mark hk]
    exact (hbody.trans (reaches_regexFrom _ _ _)).offset_le
  · obtain ⟨cs, hc⟩ := h.mark_spelled hk
    have hnext : lexer.token.start.next.rest = '=' :: cs := by rw [next_eq hc.symm]; rfl
    rw [h.stop_of_mark hk]
    refine (Reaches.trans ?_ (reaches_regexFrom _ _ _)).offset_le
    rw [hnext, regexBody_char (by simp), if_neg (by decide)]
    show (lexer.token.start.next.next).Reaches _
    rw [next_eq hnext]
    exact reaches_regexBody _ _ _

/-- Reading a closing brace again does not make the token shorter. -/
theorem Trace.stop_le_rescanTemplate {text : String} {readings : List Reading} {r : Reading}
    {lexer : Lexer} (h : Trace text (readings ++ [r]) lexer)
    (hk : lexer.token.kind = .mark .closeBrace) :
    lexer.token.stop.offset ≤ lexer.rescanTemplate.token.stop.offset := by
  rw [h.stop_of_mark hk]
  exact (reaches_templateChunk _ _ _ lexer.token.start.next).offset_le

end Lexer

end EcmaScript
