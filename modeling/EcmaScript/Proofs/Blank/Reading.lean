import EcmaScript.Proofs.Seam.Reading

/-!
# Reading a gap with one more blank

Between the last token of the first piece of a text and the first one of the second piece lies a
gap. With a blank put between the pieces it has one more blank at its end, and what comes behind it
is one place further on.
-/

namespace EcmaScript

open Lexer

namespace Lexer

open Character Window Cursor

section

variable {v w : Window} {d : Cursor} {lineBreak : Bool}

/-- Where no gap is, none is one place further on. -/
theorem trivia_moved {offset : Nat} {cs : List Char}
    (h : trivia lineBreak ⟨offset, cs⟩ = ⟨lineBreak, [], ⟨offset, cs⟩⟩) :
    trivia lineBreak ⟨offset + 1, cs⟩ = ⟨lineBreak, [], ⟨offset + 1, cs⟩⟩ := by
  have hclosed : Window.IsClosed ⟨[' '], [], []⟩ := by simp [Window.IsClosed]
  have hmoved := closed_trivia (d := ⟨offset, cs⟩) hclosed (by rw [h]) fun _ => rfl
  rw [h, widen_mk, List.append_nil] at hmoved
  exact hmoved.trans (by rw [Trivia.widen, widen_mk, List.append_nil]; rfl)

/-- The gap goes on behind the stretch, whatever comes there. -/
def GoesOver (v : Window) (lineBreak : Bool) (d : Cursor) : Prop :=
  ∃ b e, trivia lineBreak (v.widen d) = trivia b e ∧ e.rest.length < v.behind.length

/-- A piece of a gap lies in the stretch, and is the same in every text that has the stretch. -/
def StepsIn (lineBreak : Bool) (d : Cursor) : Prop :=
  ∃ b e, e.rest.length < d.rest.length ∧
    ∀ w : Window, trivia lineBreak (w.widen d) = trivia b (w.widen e)

/-- A line comment goes over the end of the window or ends inside it. -/
theorem line_step {cs : List Char} (hne : v.behind ≠ []) (hd : d.rest = '/' :: cs)
    {ds : List Char} (hds : cs ++ v.behind = '/' :: ds) :
    GoesOver v lineBreak d ∨ StepsIn lineBreak d := by
  have hwide : (v.widen d).rest = '/' :: '/' :: ds := by rw [widen_rest, hd, List.cons_append, hds]
  rcases List.append_eq_cons_iff.mp hds with ⟨rfl, hb⟩ | ⟨es, rfl, rfl⟩
  · refine Or.inl ⟨_, _, trivia_line hwide, ?_⟩
    rw [hb]
    exact Nat.lt_succ_of_le (length_skipWhile_le ..)
  by_cases hdrop : es.dropWhile (!isLineBreak ·) = []
  · -- The comment ends behind the stretch, at a line break, and the gap goes on behind that.
    refine Or.inl ?_
    have hbehind : (es ++ v.behind).dropWhile (!isLineBreak ·) =
        v.behind.dropWhile (!isLineBreak ·) := by
      rw [List.dropWhile_append, if_pos (by rw [hdrop]; rfl)]
    obtain ⟨x, xs, hb⟩ := List.exists_cons_of_ne_nil hne
    rw [GoesOver, trivia_line hwide, skipWhile_eq, hbehind, hb]
    cases hl : isLineBreak x with
    | true =>
      rw [List.dropWhile_cons, if_neg (by simp [hl])]
      exact ⟨true, _, (trivia_char rfl (by rintro _ _ rfl; exact absurd hl (by decide))).trans
        (if_pos hl), Nat.lt_succ_self _⟩
    | false =>
      rw [List.dropWhile_cons, if_pos (by simp [hl])]
      exact ⟨_, _, rfl, Nat.lt_succ_of_le (List.dropWhile_suffix _).length_le⟩
  · have hskip : (Cursor.skipWhile (!isLineBreak ·) ⟨d.offset + 2, es⟩).rest ≠ [] := by
      rwa [skipWhile_eq]
    refine Or.inr ⟨lineBreak, Cursor.skipWhile (!isLineBreak ·) ⟨d.offset + 2, es⟩, ?_, fun w => ?_⟩
    · rw [hd, List.length_cons, List.length_cons]
      exact Nat.lt_succ_of_le (Nat.le_succ_of_le (length_skipWhile_le ..))
    · have hcomment : (w.widen d).rest = '/' :: '/' :: (es ++ w.behind) := by
        rw [widen_rest, hd]
        rfl
      rw [trivia_line hcomment, widen_step, widen_skipWhile_of_rest fun h => absurd h hskip]

/-- A block comment that is closed goes over the end of the window or ends inside it. -/
theorem block_step {cs : List Char} (hd : d.rest = '/' :: cs) {ds : List Char}
    (hds : cs ++ v.behind = '*' :: ds) (hf : (trivia lineBreak (v.widen d)).faults = []) :
    GoesOver v lineBreak d ∨ StepsIn lineBreak d := by
  have hwide : (v.widen d).rest = '/' :: '*' :: ds := by rw [widen_rest, hd, List.cons_append, hds]
  have hcomment : trivia lineBreak (v.widen d) =
      if (blockComment false ((v.widen d).offset + 2) ds).closed then
        trivia (lineBreak || (blockComment false ((v.widen d).offset + 2) ds).lineBreak)
          (blockComment false ((v.widen d).offset + 2) ds).stop
      else
        ⟨lineBreak || (blockComment false ((v.widen d).offset + 2) ds).lineBreak,
          [⟨.unterminatedComment, (v.widen d).offset⟩],
          (blockComment false ((v.widen d).offset + 2) ds).stop⟩ := trivia_block hwide
  split at hcomment
  · rename_i hclosed
    by_cases hlt : (blockComment false ((v.widen d).offset + 2) ds).stop.rest.length <
      v.behind.length
    · exact Or.inl ⟨_, _, hcomment, hlt⟩
    · have hholds := Nat.le_of_not_lt hlt
      rcases List.append_eq_cons_iff.mp hds with ⟨rfl, hb⟩ | ⟨es, rfl, rfl⟩
      · have hl := length_blockComment_le false ((v.widen d).offset + 2) ds
        rw [hb, List.length_cons] at hholds
        omega
      · rw [widen_offset, Nat.add_right_comm] at hclosed hholds
        rw [widen_blockComment hclosed hholds] at hclosed
        refine Or.inr ⟨lineBreak || (blockComment false (d.offset + 2) es).lineBreak,
          (blockComment false (d.offset + 2) es).stop, ?_, fun w => ?_⟩
        · rw [hd, List.length_cons, List.length_cons]
          exact Nat.lt_succ_of_le (Nat.le_succ_of_le (length_blockComment_le ..))
        · have hcomment : (w.widen d).rest = '/' :: '*' :: (es ++ w.behind) := by
            rw [widen_rest, hd]
            rfl
          rw [trivia_block hcomment, widen_offset, Nat.add_right_comm, closed_blockComment hclosed,
            if_pos hclosed]
  · rw [hcomment] at hf
    cases hf

/-- What comes first in a gap. -/
theorem gap_step (hne : v.behind ≠ []) (hd : d.rest ≠ [])
    (hf : (trivia lineBreak (v.widen d)).faults = []) :
    GoesOver v lineBreak d ∨ StepsIn lineBreak d ∨
      trivia lineBreak (v.widen d) = ⟨lineBreak, [], v.widen d⟩ := by
  obtain ⟨ch, cs, hd⟩ := List.exists_cons_of_ne_nil hd
  have hwide : ∀ w : Window, (w.widen d).rest = ch :: (cs ++ w.behind) := fun w => by
    rw [widen_rest, hd, List.cons_append]
  by_cases hline : ch = '/' ∧ ∃ ds, cs ++ v.behind = '/' :: ds
  · obtain ⟨rfl, ds, hds⟩ := hline
    exact (line_step hne hd hds).imp_right Or.inl
  by_cases hblock : ch = '/' ∧ ∃ ds, cs ++ v.behind = '*' :: ds
  · obtain ⟨rfl, ds, hds⟩ := hblock
    exact (block_step hd hds hf).imp_right Or.inl
  by_cases hgap : isLineBreak ch = true ∨ isBlank ch = true
  · refine Or.inr (Or.inl ⟨if isLineBreak ch then true else lineBreak, ⟨d.offset + ch.utf8Size, cs⟩,
      by rw [hd]; exact Nat.lt_succ_self _, fun w => ?_⟩)
    have hplain : ∀ x ds, ch = '/' → cs ++ w.behind = x :: ds → x ≠ '/' ∧ x ≠ '*' := by
      rintro _ _ rfl
      exact absurd hgap (by decide)
    rw [trivia_char (hwide w) hplain, widen_step]
    split
    · rfl
    · rename_i hl
      rw [if_pos (hgap.resolve_left hl)]
  · obtain ⟨hl, hb⟩ := not_or.mp hgap
    rw [trivia_char (hwide v) fun x ds hch hx => ⟨fun h => hline ⟨hch, ds, by rw [hx, h]⟩,
      fun h => hblock ⟨hch, ds, by rw [hx, h]⟩⟩, if_neg hl, if_neg hb]
    exact Or.inr (Or.inr rfl)

/-- With one blank more at the end of a gap, what comes behind it is one place further on. -/
theorem trivia_spaced (hbase : w.base = v.base) (hb : w.behind = ' ' :: v.behind)
    (hne : v.behind ≠ []) (hf : (trivia lineBreak (v.widen d)).faults = [])
    (hs : (trivia lineBreak (v.widen d)).stop.rest.length = v.behind.length) :
    trivia lineBreak (w.widen d) =
      ⟨(trivia lineBreak (v.widen d)).lineBreak, [],
        ⟨(trivia lineBreak (v.widen d)).stop.offset + 1, v.behind⟩⟩ := by
  induction hn : d.rest.length using Nat.strongRecOn generalizing lineBreak d with
  | _ n ih =>
    by_cases hd : d.rest = []
    · have hrest : (v.widen d).rest = v.behind := by rw [widen_rest, hd, List.nil_append]
      have hblank : (w.widen d).rest =
        ' ' :: v.behind := by rw [widen_rest, hd, List.nil_append, hb]
      have hstay : trivia lineBreak (v.widen d) = ⟨lineBreak, [], v.widen d⟩ :=
        trivia_of_length_le (Nat.le_of_eq (by rw [hs, hrest]))
      have hcursor : v.widen d = ⟨d.offset + v.base, v.behind⟩ := by rw [← hrest]; rfl
      rw [trivia_blank hblank, widen_offset, hbase, hstay]
      rw [hcursor] at hstay ⊢
      exact trivia_moved hstay
    rcases gap_step hne hd hf with ⟨b, e, he, hlt⟩ | ⟨b, e, hlt, hstep⟩ | hstay
    · rw [he] at hs
      exact absurd (length_trivia_le b e) (by omega)
    · rw [hstep v] at hf hs ⊢
      rw [hstep w]
      exact ih _ (hn ▸ hlt) hf hs rfl
    · rw [hstay, widen_rest, List.length_append] at hs
      exact absurd (List.eq_nil_of_length_eq_zero (by omega)) hd

end

end Lexer

namespace Seam

open Window Cursor

variable {j : Seam} {a b : Lexer}

/-- The first token of the second piece, which has one blank more before it in one of the texts. -/
theorem crosses (hblank : j.filling = ' ') (h : Both j.left j.leftFilled a b)
    (hmore : a.token.kind ≠ .endOfFile) (hf : a.scan.faults = #[])
    (hk : a.scan.token.kind ≠ .endOfFile) (hstart : a.scan.token.start = ⟨j.offset, j.behind⟩) :
    Both j.right j.rightFilled a.scan b.scan ∧ b.scan.faults = b.faults := by
  obtain ⟨t, ha, hb⟩ := h.token
  rw [start_scan] at hstart
  cases hl : lexeme? a.regexAllowed (trivia false a.token.stop).stop with
  | none =>
    rw [scan_of_none hl] at hk
    exact absurd rfl hk
  | some l =>
    have hscan := scan_of_some hl
    rw [hscan] at hf
    obtain ⟨hgap, hown⟩ := append_eq_empty hf
    have hgap := (append_eq_empty hgap).2
    have hne : j.behind ≠ [] := by
      intro hnil
      rw [hstart, hnil, lexeme?] at hl
      cases hl
    have hstop : a.token.stop = j.left.widen t.stop := by rw [ha]; rfl
    have hstop' : b.token.stop = j.leftFilled.widen t.stop := by rw [hb]; rfl
    have hplace : (⟨j.offset, j.behind⟩ : Cursor) = j.right.widen ⟨0, j.behind⟩ := by
      rw [widen_mk, Nat.zero_add]
      exact congrArg _ (List.append_nil _).symm
    have hplace' : (⟨j.offset + 1, j.behind⟩ : Cursor) = j.rightFilled.widen ⟨0, j.behind⟩ := by
      rw [widen_mk, Nat.zero_add, base_rightFilled]
      exact congrArg _ (List.append_nil _).symm
    have hgap' : trivia false b.token.stop =
        ⟨(trivia false a.token.stop).lineBreak, [], j.rightFilled.widen ⟨0, j.behind⟩⟩ := by
      have hrest : (trivia false (j.left.widen t.stop)).stop.rest.length =
        j.left.behind.length := by
        rw [← hstop, hstart]
        rfl
      have hbehind : j.leftFilled.behind = ' ' :: j.left.behind := by
        rw [leftFilled, hblank]
        rfl
      have hspaced := trivia_spaced (v := j.left) (w := j.leftFilled) rfl hbehind hne
        (hstop ▸ hgap) hrest
      rw [hstop', hspaced, ← hstop, hstart, ← hplace']
      rfl
    rw [hstart, hplace] at hl
    obtain ⟨l', hl', rfl⟩ := widen_lexeme hl (Nat.zero_le _) fun _ => rfl
    have hown' : l'.faults = [] := List.map_eq_nil_iff.mp hown
    have hlexeme : lexeme? b.regexAllowed (trivia false b.token.stop).stop =
        some (l'.widen j.rightFilled) := by
      rw [h.regexAllowed hmore, hgap']
      exact closed_lexeme j.isClosed_rightFilled hl' hown'
    have hkind : b.token.kind = a.token.kind := h.kind
    rw [hscan, scan_of_some hlexeme, hgap', hstart, hplace, hkind]
    refine ⟨⟨⟨⟨l'.kind, l'.value, l'.raw,
      { l'.flags with afterLineBreak := (trivia false a.token.stop).lineBreak }, ⟨0, j.behind⟩,
      l'.stop⟩, rfl, rfl⟩, fun _ => rfl⟩, ?_⟩
    show b.faults ++ ([] : List Fault) ++ l'.faults.map j.rightFilled.fault = b.faults
    rw [hown']
    simp

end Seam

end EcmaScript
