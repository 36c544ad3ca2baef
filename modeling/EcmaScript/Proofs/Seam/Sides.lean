import EcmaScript.Proofs.Seam.Reading

/-!
# The two sides of a seam

A text in two pieces, and the text with one character more between the pieces, are parsed in step:
as long as tokens of the first piece are taken, the lexers agree on that piece, and from some token
of the second piece on they agree on that one. What stands in the second piece is one place further
on.
-/

namespace EcmaScript

open Relation Lexer
open EcmaScript.Parser EcmaScript.Parser.Place

namespace Seam

variable {j : Seam} {close : Nat → Nat} {p q : Place}

/-- Where the start of something goes: what starts in the second piece starts one place further
on. -/
def start (j : Seam) (offset : Nat) : Nat := if offset < j.offset then offset else offset + 1

/-- Where the end of something goes: what ends in the second piece ends one place further on. -/
def stop (j : Seam) (offset : Nat) : Nat := if offset ≤ j.offset then offset else offset + 1

/-- Where offsets go when a character is put between the two pieces. -/
def shift (j : Seam) (close : Nat → Nat) : Shift where
  base := 0
  start := j.start
  stop := j.stop
  close := close
  start_inj _ _ := by unfold start; split <;> split <;> omega
  stop_inj _ := by unfold stop; split <;> split <;> omega
  start_lt_stop _ _ := by unfold start stop; split <;> split <;> omega

/-- What starts in front of the seam stays. -/
theorem start_front {k : Nat} (h : k < j.offset) : j.start k = k := if_pos h

/-- What starts at the seam or behind it is moved. -/
theorem start_behind {k : Nat} (h : j.offset ≤ k) : j.start k = k + 1 :=
  if_neg (Nat.not_lt.mpr h)

/-- What ends at the seam or in front of it stays. -/
theorem stop_front {k : Nat} (h : k ≤ j.offset) : j.stop k = k := if_pos h

/-- What ends behind the seam is moved. -/
theorem stop_behind {k : Nat} (h : j.offset < k) : j.stop k = k + 1 :=
  if_neg (Nat.not_le.mpr h)

/-- Both lexers are at the same token of the first piece. -/
structure InFront (j : Seam) (p q : Place) : Prop where
  offset : p.offset < j.offset
  stop : p.lexer.token.stop.offset ≤ j.offset
  both : Window.Both j.left j.leftFilled p.lexer q.lexer

/-- Both lexers are at the same token of the second piece, or at the end. -/
structure Behind (j : Seam) (p q : Place) : Prop where
  offset : j.offset ≤ p.offset
  both : Window.Both j.right j.rightFilled p.lexer q.lexer

/-- In front of the seam the current tokens are the same, at the same place. -/
theorem InFront.alike (h : InFront j p q) (hp : p.Sound j.text) :
    SameToken (j.shift close) p.consumed p.lexer q.lexer := by
  obtain ⟨readings, r, ht⟩ := hp.trace
  have hlt := h.offset
  have hle := h.stop
  change p.lexer.token.start.offset < j.offset at hlt
  refine ⟨h.both.twin ht.place.2.1 ?_ (fun _ => ?_) fun k _ hk => ?_, fun _ =>
    h.both.afterLineBreak⟩
  · show j.start _ + _ = _
    rw [start_front hlt]
    rfl
  · show j.stop _ + _ = _
    rw [stop_front hle]
    rfl
  · show j.start k + _ = _ ∧ j.stop k + _ = _
    rw [start_front (by omega), stop_front (by omega)]
    exact ⟨rfl, rfl⟩

/-- Behind the seam the current tokens are the same, one place further on. -/
theorem Behind.alike (h : Behind j p q) (hp : p.Sound j.text) :
    SameToken (j.shift close) p.consumed p.lexer q.lexer := by
  obtain ⟨readings, r, ht⟩ := hp.trace
  have hle := h.offset
  change j.offset ≤ p.lexer.token.start.offset at hle
  have hbase : j.right.base = j.offset := rfl
  refine ⟨h.both.twin ht.place.2.1 ?_ (fun hk => ?_) fun k hk _ => ?_, fun _ =>
    h.both.afterLineBreak⟩
  · show j.start _ + _ = _
    rw [start_behind hle, base_rightFilled, hbase]
    omega
  · have hlt : p.lexer.token.start.offset < p.lexer.token.stop.offset := hp.offset_lt_stop hk
    show j.stop _ + _ = _
    rw [stop_behind (by omega), base_rightFilled, hbase]
    omega
  · show j.start k + _ = _ ∧ j.stop k + _ = _
    rw [start_behind (by omega), stop_behind (by omega), base_rightFilled, hbase]
    omega

/-- A token in front of the seam starts inside the front. -/
theorem lt_cut (hp : p.Sound j.text) (hlt : p.offset < j.offset) :
    j.left.behind.length < p.lexer.token.start.rest.length := by
  obtain ⟨readings, r, ht⟩ := hp.trace
  exact (Window.offset_lt_cut_iff (w := j.left) ht.place.1).mp (by rwa [cut_left])

/-- A token that ends in front of the seam is held by the front. -/
theorem holds (hp : p.Sound j.text) (hle : p.lexer.token.stop.offset ≤ j.offset) :
    j.left.Holds p.lexer.token.stop := by
  obtain ⟨readings, r, ht⟩ := hp.trace
  exact (Window.offset_le_cut_iff (w := j.left) (ht.place.1.trans ht.place.2.1)).mp
    (by rwa [cut_left])

/-- A token that is not the end of the text starts inside the rest. -/
theorem rest_pos (hp : p.Sound j.text) (hk : p.lexer.token.kind ≠ .endOfFile) :
    j.right.behind.length < p.lexer.token.start.rest.length := by
  obtain ⟨readings, r, ht⟩ := hp.trace
  have hstart : p.lexer.token.start.IsIn j.right.text := by
    rw [text_right]
    exact ht.place.1
  have hstop := (Window.offset_le_cut_iff (hstart.trans ht.place.2.1)).mpr (Nat.zero_le _)
  exact (Window.offset_lt_cut_iff hstart).mp (Nat.lt_of_lt_of_le (hp.offset_lt_stop hk) hstop)

/-- Where the second piece starts. -/
theorem eq_seam {c : Cursor} (hc : c.IsIn j.text) (h : c.offset = j.offset) :
    c = ⟨j.offset, j.behind⟩ := by
  have hin : c.IsIn j.right.text := by
    rw [text_right]
    exact hc
  rw [Window.eq_widen_ofString hin h, Cursor.ofString, Window.toList_part, Window.widen_mk,
    Nat.zero_add]
  exact congrArg _ (List.append_nil _)

/-- Both lexers take a token of the first piece and are at the next one of it. Behind a question
mark one token more has to be known. -/
theorem InFront.next (h : InFront j p q) (hk : p.lexer.token.kind ≠ .endOfFile)
    (hnext : p.next.Sound j.text) (hclean : p.lexer.scan.faults = #[])
    (hoffset : p.next.offset < j.offset) (hstop : p.next.lexer.token.stop.offset ≤ j.offset)
    (hholds : p.next.lexer.token.kind = .mark .question →
      p.next.lexer.token.stop.rest = '.' :: j.behind →
      j.left.Holds p.next.lexer.scan.token.stop) :
    InFront j p.next q.next ∧ q.lexer.scan.faults = q.lexer.faults := by
  obtain ⟨hboth, hfaults⟩ := h.both.scan j.isClosed_leftFilled hk hclean (lt_cut hnext hoffset)
    (holds hnext hstop) hholds
  exact ⟨⟨hoffset, hstop, hboth⟩, hfaults⟩

/-- Both lexers take a token of the second piece and are at the next one. -/
theorem Behind.next (h : Behind j p q) (hp : p.Sound j.text)
    (hk : p.lexer.token.kind ≠ .endOfFile) (hclean : p.lexer.scan.faults = #[]) :
    Behind j p.next q.next ∧ q.lexer.scan.faults = q.lexer.faults := by
  obtain ⟨hboth, hfaults⟩ := h.both.scan_last rfl rfl hk hclean
  have hnext : p.next.Sound j.text := (Step.take hk).sound hp
  refine ⟨⟨Nat.le_trans h.offset (Nat.le_of_lt ?_), hboth⟩, hfaults⟩
  exact Nat.lt_of_lt_of_le (hp.offset_lt_stop hk) hnext.consumed_le

/-- Both lexers read a slash of the first piece again. -/
theorem InFront.rescanSlash (h : InFront j p q) (hp : p.Sound j.text)
    (hk : p.lexer.token.kind = .mark .slash ∨ p.lexer.token.kind = .mark .slashAssign)
    (hclean : p.lexer.rescanSlash.faults = #[])
    (hstop : p.lexer.rescanSlash.token.stop.offset ≤ j.offset) :
    InFront j ⟨p.lexer.rescanSlash, p.consumed, p.taken⟩
        ⟨q.lexer.rescanSlash, q.consumed, q.taken⟩ ∧
      q.lexer.rescanSlash.faults = q.lexer.faults := by
  have hagain := (Step.slash (p := p) hk).sound hp
  obtain ⟨hboth, hfaults⟩ := h.both.rescanSlash j.isClosed_leftFilled hk hclean
    (lt_cut hp h.offset) (holds hagain hstop)
  refine ⟨⟨?_, hstop, hboth⟩, hfaults⟩
  rw [Place.offset, rescanSlash_eq hk]
  exact h.offset

/-- Both lexers read a slash of the second piece again. -/
theorem Behind.rescanSlash (h : Behind j p q) (hp : p.Sound j.text)
    (hk : p.lexer.token.kind = .mark .slash ∨ p.lexer.token.kind = .mark .slashAssign)
    (hclean : p.lexer.rescanSlash.faults = #[]) :
    Behind j ⟨p.lexer.rescanSlash, p.consumed, p.taken⟩
        ⟨q.lexer.rescanSlash, q.consumed, q.taken⟩ ∧
      q.lexer.rescanSlash.faults = q.lexer.faults := by
  have hne : p.lexer.token.kind ≠ .endOfFile := by
    rcases hk with hk | hk <;> rw [hk] <;> simp
  obtain ⟨hboth, hfaults⟩ := h.both.rescanSlash j.isClosed_rightFilled hk hclean
    (rest_pos hp hne) (Nat.zero_le _)
  refine ⟨⟨?_, hboth⟩, hfaults⟩
  rw [Place.offset, rescanSlash_eq hk]
  exact h.offset

/-- Both lexers read a closing brace of the first piece again. -/
theorem InFront.rescanTemplate (h : InFront j p q) (hp : p.Sound j.text)
    (hk : p.lexer.token.kind = .mark .closeBrace)
    (hclean : p.lexer.rescanTemplate.faults = #[])
    (hstop : p.lexer.rescanTemplate.token.stop.offset ≤ j.offset) :
    InFront j ⟨p.lexer.rescanTemplate, p.consumed, p.taken⟩
        ⟨q.lexer.rescanTemplate, q.consumed, q.taken⟩ ∧
      q.lexer.rescanTemplate.faults = q.lexer.faults := by
  have hagain := (Step.template (p := p) hk).sound hp
  obtain ⟨hboth, hfaults⟩ := h.both.rescanTemplate j.isClosed_leftFilled hclean
    (lt_cut hp h.offset) (holds hagain hstop)
  exact ⟨⟨h.offset, hstop, hboth⟩, hfaults⟩

/-- Both lexers read a closing brace of the second piece again. -/
theorem Behind.rescanTemplate (h : Behind j p q) (hp : p.Sound j.text)
    (hk : p.lexer.token.kind = .mark .closeBrace)
    (hclean : p.lexer.rescanTemplate.faults = #[]) :
    Behind j ⟨p.lexer.rescanTemplate, p.consumed, p.taken⟩
        ⟨q.lexer.rescanTemplate, q.consumed, q.taken⟩ ∧
      q.lexer.rescanTemplate.faults = q.lexer.faults := by
  obtain ⟨hboth, hfaults⟩ := h.both.rescanTemplate j.isClosed_rightFilled hclean
    (rest_pos hp (by simp [hk])) (Nat.zero_le _)
  exact ⟨⟨h.offset, hboth⟩, hfaults⟩

/-- Both lexers start at the same token of the first piece. -/
theorem inFront_ofString (hoffset : (State.ofString j.text).place.offset < j.offset)
    (hstop : (State.ofString j.text).place.lexer.token.stop.offset ≤ j.offset)
    (hclean : (State.ofString j.text).lexer.faults = #[])
    (hholds : (State.ofString j.text).lexer.token.kind = .mark .question →
      (State.ofString j.text).lexer.token.stop.rest = '.' :: j.behind →
      j.left.Holds (State.ofString j.text).lexer.scan.token.stop) :
    InFront j (State.ofString j.text).place (State.ofString j.filled).place ∧
      (State.ofString j.filled).lexer.faults = #[] := by
  have hp : (State.ofString j.text).place.Sound j.text := (State.sound_ofString j.text).place
  have hin := lt_cut hp hoffset
  have hskip : j.behind.length < (Lexer.ofString j.text).skipHashbang.token.stop.rest.length := by
    refine Nat.lt_of_lt_of_le hin ?_
    show (Lexer.scan _).token.start.rest.length ≤ _
    rw [start_scan]
    exact length_trivia_le false _
  have hmore : (Lexer.ofString j.text).skipHashbang.token.kind ≠ .endOfFile := by
    unfold Lexer.skipHashbang
    split
    · exact fun h => by cases h
    · exact fun h => by cases h
  obtain ⟨hboth, hfaults⟩ := (first hskip).scan j.isClosed_leftFilled hmore hclean hin
    (holds hp hstop) hholds
  exact ⟨⟨hoffset, hstop, hboth⟩, hfaults.trans (faults_skipHashbang _)⟩

end Seam

end EcmaScript
