import EcmaScript.Proofs.Blame.Lexeme

/-!
# Places that a lexer blames

Between two tokens only a comment without an end is blamed, at its start; all other faults of a
lexer blame a character of the token that they belong to. So the faults of a token lie behind those
of all tokens before it, and each of them is told for a place at which a character starts.
-/

namespace EcmaScript

namespace Lexer

open Cursor

/-- The faults of a reading lie in the gap before its token, and in the token. -/
structure Reading.InPlace (text : String) (r : Reading) : Prop where
  isIn : r.token.start.IsIn text
  start_le : r.token.start.offset ≤ r.token.stop.offset
  gap : ∀ f ∈ r.gap, IsBoundary text f.offset ∧ f.offset < r.token.start.offset
  gap_length : r.gap.length ≤ 1
  own : Recounts r.token.start r.token.stop r.own

/-- The second reading lies behind the token of the first one. -/
structure Reading.Behind (r q : Reading) : Prop where
  token : r.token.stop.offset ≤ q.token.start.offset
  faults : ∀ f ∈ q.faults, r.token.stop.offset ≤ f.offset

section

variable {text : String} {r q : Reading} {t : Token} {l : Lexeme} {lexer : Lexer}

/-- What is told of a reading is told for characters of the text. -/
theorem Reading.InPlace.isBoundary (h : r.InPlace text) :
    ∀ f ∈ r.faults, IsBoundary text f.offset := by
  intro f hf
  rcases List.mem_append.mp hf with hf | hf
  · exact (h.gap f hf).1
  · exact (h.own.blamed f hf).isBoundary h.isIn

/-- Nothing behind its token is told of a reading. -/
theorem Reading.InPlace.offset_lt (h : r.InPlace text) :
    ∀ f ∈ r.faults, f.offset < r.token.stop.offset := by
  intro f hf
  rcases List.mem_append.mp hf with hf | hf
  · exact Nat.lt_of_lt_of_le (h.gap f hf).2 h.start_le
  · exact (h.own.blamed f hf).offset_lt

/-- What is told of a reading is told for different places. -/
theorem Reading.InPlace.apart (h : r.InPlace text) : r.faults.Pairwise Fault.Apart := by
  refine List.pairwise_append.mpr ⟨?_, h.own.apart, fun f hf g hg he => ?_⟩
  · match hgap : r.gap, h.gap_length with
    | [], _ => exact .nil
    | [f], _ => exact List.pairwise_singleton _ _
  · have hlt := (h.gap f hf).2
    have hle := (h.own.blamed g hg).offset_le
    omega

/-- What is told for a token is told for a smaller offset than anything behind it. -/
theorem Reading.Behind.offset_lt (h : r.Behind q) (hr : r.InPlace text) :
    ∀ f ∈ r.faults, ∀ g ∈ q.faults, f.offset < g.offset := fun f hf g hg =>
  Nat.lt_of_lt_of_le (hr.offset_lt f hf) (h.faults g hg)

/-- A token that is read again from the same place blames its own characters. -/
theorem Reading.InPlace.again (h : r.InPlace text) (hown : r.own = [])
    (hstart : t.start = r.token.start) (hreach : t.start.Reaches t.stop)
    (hl : Recounts t.start t.stop l.faults) : (r.again t l).InPlace text where
  isIn := by
    show t.start.IsIn text
    rw [hstart]
    exact h.isIn
  start_le := hreach.offset_le
  gap := by
    show ∀ f ∈ r.gap, IsBoundary text f.offset ∧ f.offset < t.start.offset
    rw [hstart]
    exact h.gap
  gap_length := h.gap_length
  own := by
    show Recounts t.start t.stop (r.own ++ l.faults)
    rw [hown, List.nil_append]
    exact hl

/-- A token that is read again stays behind the one before it. -/
theorem Reading.Behind.again (h : r.Behind q) (hown : q.own = [])
    (hstart : t.start = q.token.start) (hl : Recounts t.start t.stop l.faults) :
    r.Behind (q.again t l) where
  token := by
    show r.token.stop.offset ≤ t.start.offset
    rw [hstart]
    exact h.token
  faults := by
    intro f hf
    rw [Reading.faults, Reading.again, hown, List.nil_append] at hf
    rcases List.mem_append.mp hf with hf | hf
    · exact h.faults f (List.mem_append_left _ hf)
    · have hle := (hl.blamed f hf).offset_le
      rw [hstart] at hle
      exact Nat.le_trans h.token hle

/-- Nothing is wrong with a punctuator. -/
theorem Trace.own_of_mark {readings : List Reading} (h : Trace text (readings ++ [r]) lexer)
    {p : Punctuator} (hk : lexer.token.kind = .mark p) : r.own = [] := by
  generalize hrs : readings ++ [r] = all at h
  cases h with
  | start => exact absurd hrs (by simp)
  | @scan _ lexer _ =>
    rw [(List.cons.inj (List.append_inj_right' hrs rfl)).1]
    cases hl : lexeme? lexer.regexAllowed (trivia false lexer.token.stop).stop with
    | none => simp only [Lexer.reading, hl]
    | some l =>
      rw [scan_of_some hl] at hk
      change l.kind = .mark p at hk
      simp only [Lexer.reading, hl]
      rcases lexeme_cases hl with hw | ⟨_, rfl⟩ | ⟨q, _, ⟨hfaults, _⟩, _⟩
      · have hw := hw.isWhole
        rw [hk] at hw
        cases hw
      · change (if _ then TokenKind.templateHead else .template) = .mark p at hk
        split at hk
        · cases hk
        · cases hk
      · exact hfaults
  | slash _ ht =>
    rw [rescanSlash_eq ht] at hk
    cases hk.symm.trans (kind_regexLiteral _)
  | template _ _ =>
    rw [rescanTemplate_eq] at hk
    change (if _ then TokenKind.templateMiddle else .templateTail) = .mark p at hk
    split at hk
    · cases hk
    · cases hk

/-- A comment without an end is blamed at its start. -/
theorem blamed_trivia (c : Cursor) :
    (∀ f ∈ (trivia false c).faults, Blamed c (trivia false c).stop f) ∧
      (trivia false c).faults.length ≤ 1 := by
  rcases trivia_covers false c with ⟨_, _, _, _, he⟩ | ⟨gap, comment, hr, hs, _, ho, he⟩
  · rw [he]
    exact ⟨List.forall_mem_nil _, Nat.zero_le 1⟩
  · rw [he, hs]
    refine ⟨List.forall_mem_singleton.mpr ?_, Nat.le_refl 1⟩
    obtain ⟨body, rfl, _⟩ := ho
    refine ⟨⟨c.offset + byteLength gap, '/' :: '*' :: body⟩, ⟨gap, hr, rfl⟩,
      ⟨'/' :: '*' :: body, (List.append_nil _).symm, ?_⟩, rfl, ?_⟩
    · show c.offset + byteLength c.rest = _
      rw [hr, byteLength_append, Nat.add_assoc]
    · show c.offset + byteLength gap < c.offset + byteLength c.rest
      have hslash : 0 < '/'.utf8Size := Char.utf8Size_pos _
      rw [hr, byteLength_append, byteLength_cons]
      omega

/-- The lexer blames a comment before a token and the token itself. -/
theorem inPlace_reading (lexer : Lexer) (h : lexer.token.stop.IsIn text) :
    lexer.reading.InPlace text := by
  have hgap := reaches_trivia false lexer.token.stop
  obtain ⟨hblamed, hlength⟩ := blamed_trivia lexer.token.stop
  have hstart : lexer.reading.token.start = (trivia false lexer.token.stop).stop := start_scan lexer
  have hown : Recounts lexer.reading.token.start lexer.reading.token.stop lexer.reading.own ∧
      lexer.reading.token.start.Reaches lexer.reading.token.stop := by
    cases hl : lexeme? lexer.regexAllowed (trivia false lexer.token.stop).stop with
    | none =>
      simp only [Lexer.reading, hl, scan_of_none hl]
      exact ⟨.parts .nil, .refl _⟩
    | some l =>
      simp only [Lexer.reading, hl, scan_of_some hl]
      exact ⟨recounts_lexeme hl, reaches_lexeme hl⟩
  refine ⟨?_, hown.2.offset_le, fun f hf => ⟨(hblamed f hf).isBoundary h, ?_⟩, hlength, hown.1⟩
  · rw [hstart]
    exact h.trans hgap
  · rw [hstart]
    exact (hblamed f hf).offset_lt

/-- A token lies behind all that comes before the place from which it is read. -/
theorem behind_reading {lexer : Lexer} (h : r.token.stop.offset ≤ lexer.token.stop.offset)
    (hin : lexer.reading.InPlace text) : r.Behind lexer.reading where
  token := by
    have hstart : lexer.reading.token.start = (trivia false lexer.token.stop).stop :=
      start_scan lexer
    rw [hstart]
    exact Nat.le_trans h (reaches_trivia false lexer.token.stop).offset_le
  faults := by
    intro f hf
    refine Nat.le_trans h ?_
    rcases List.mem_append.mp hf with hf | hf
    · exact ((blamed_trivia lexer.token.stop).1 f hf).offset_le
    · have hle := (hin.own.blamed f hf).offset_le
      have hstart : lexer.reading.token.start = (trivia false lexer.token.stop).stop :=
        start_scan lexer
      rw [hstart] at hle
      exact Nat.le_trans (reaches_trivia false lexer.token.stop).offset_le hle

end

/-- What holds of the readings of a trace whose current token is `current`. -/
structure InOrder (text : String) (readings : List Reading) (current : Token) : Prop where
  inPlace : ∀ r ∈ readings, r.InPlace text
  behind : readings.Pairwise Reading.Behind
  last : ∀ r ∈ readings.getLast?, r.token = current

section

variable {text : String} {readings : List Reading} {lexer : Lexer} {t : Token}

/-- No token of a trace ends behind the current one. -/
theorem InOrder.stop_le (h : InOrder text readings t) :
    ∀ r ∈ readings, r.token.stop.offset ≤ t.stop.offset := by
  intro r hr
  obtain ⟨front, last, rfl⟩ : ∃ front last, readings = front ++ [last] :=
    ⟨_, _, (List.dropLast_concat_getLast (List.ne_nil_of_mem hr)).symm⟩
  have htoken : last.token = t := h.last last (by simp)
  rw [← htoken]
  rcases List.mem_append.mp hr with hr | hr
  · have hbehind := (List.pairwise_append.mp h.behind).2.2 r hr last (by simp)
    exact Nat.le_trans hbehind.token (h.inPlace last (by simp)).start_le
  · exact List.mem_singleton.mp hr ▸ Nat.le_refl _

/-- One more token is read behind all others. -/
theorem InOrder.scan (h : InOrder text readings lexer.token) (hin : lexer.token.stop.IsIn text) :
    InOrder text (readings ++ [lexer.reading]) lexer.scan.token where
  inPlace := List.forall_mem_append.mpr
    ⟨h.inPlace, List.forall_mem_singleton.mpr (inPlace_reading lexer hin)⟩
  behind := by
    refine List.pairwise_append.mpr ⟨h.behind, List.pairwise_singleton _ _, fun r hr q hq => ?_⟩
    rw [List.mem_singleton.mp hq]
    exact behind_reading (h.stop_le r hr) (inPlace_reading lexer hin)
  last := by
    intro r hr
    rw [List.getLast?_concat, Option.mem_some_iff] at hr
    rw [← hr]
    rfl

/-- The last token is read again. -/
theorem InOrder.again {r : Reading} {l : Lexeme} {current : Token}
    (h : InOrder text (readings ++ [r]) current) (hown : r.own = [])
    (hstart : t.start = current.start) (hreach : t.start.Reaches t.stop)
    (hl : Recounts t.start t.stop l.faults) : InOrder text (readings ++ [r.again t l]) t := by
  have hr : r.token.start = current.start := by rw [h.last r (by simp)]
  rw [← hr] at hstart
  obtain ⟨hbefore, -, hbehind⟩ := List.pairwise_append.mp h.behind
  refine ⟨?_, ?_, ?_⟩
  · refine List.forall_mem_append.mpr ⟨fun q hq => h.inPlace q (List.mem_append_left _ hq), ?_⟩
    exact List.forall_mem_singleton.mpr
      ((h.inPlace r (by simp)).again hown hstart hreach hl)
  · refine List.pairwise_append.mpr ⟨hbefore, List.pairwise_singleton _ _, fun q hq p hp => ?_⟩
    rw [List.mem_singleton.mp hp]
    exact (hbehind q hq r (by simp)).again hown hstart hl
  · intro q hq
    rw [List.getLast?_concat, Option.mem_some_iff] at hq
    rw [← hq]
    rfl

/-- The tokens of a trace lie one behind the other, each with its faults in their places. -/
theorem Trace.inOrder (h : Trace text readings lexer) : InOrder text readings lexer.token := by
  induction h with
  | start => exact ⟨List.forall_mem_nil _, .nil, fun r hr => absurd hr (by simp)⟩
  | @scan readings lexer h ih =>
    obtain ⟨hstart, hstop, -⟩ := h.place
    exact ih.scan (hstart.trans hstop)
  | @slash readings r lexer h hk ih =>
    have hown : r.own = [] := by
      rcases hk with hk | hk
      · exact h.own_of_mark hk
      · exact h.own_of_mark hk
    obtain ⟨ch, cs, hc⟩ := List.exists_cons_of_length_pos
      (Nat.zero_lt_of_lt (h.place.2.2 (by simp) (by rcases hk with hk | hk <;> rw [hk] <;> simp)))
    rw [rescanSlash_eq hk]
    exact ih.again hown rfl (reaches_regexLiteral _) (recounts_regexLiteral hc)
  | @template readings r lexer h hk ih =>
    obtain ⟨ch, cs, hc⟩ := List.exists_cons_of_length_pos
      (Nat.zero_lt_of_lt (h.place.2.2 (by simp) (by rw [hk]; simp)))
    rw [rescanTemplate_eq]
    exact ih.again (h.own_of_mark hk) rfl (reaches_templateContinuation _)
      (recounts_templateContinuation hc)

/-- The lexer that has read all tokens has a trace too. -/
theorem exists_trace_remaining (lexer : Lexer) (depths : List Nat) :
    ∀ readings : List Reading, Trace text readings lexer →
      ∃ more, Trace text more (lexer.remaining depths).2 := by
  fun_induction Lexer.remaining lexer depths with
  | case1 lexer depths next hk =>
    intro readings h
    exact ⟨_, h.scan⟩
  | case2 lexer depths next hk current tokens last hrec ih =>
    intro readings h
    have htrack : ∃ more, Trace text more current.1 := by
      show ∃ more, Trace text more (lexer.scan.track depths).1
      unfold Lexer.track
      split
      · exact ⟨_, h.scan⟩
      · exact ⟨_, h.scan⟩
      · exact ⟨_, h.scan.template ‹_›⟩
      · exact ⟨_, h.scan⟩
      · exact ⟨_, h.scan⟩
    obtain ⟨more, hmore⟩ := htrack
    obtain ⟨all, hall⟩ := ih _ hmore
    rw [hrec] at hall
    exact ⟨all, hall⟩

end

end Lexer

end EcmaScript
