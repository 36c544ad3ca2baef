import EcmaScript.Proofs.Implied.Reading
import EcmaScript.Proofs.Seam.Sides
import EcmaScript.Proofs.Slice.Tandem

/-!
# A semicolon where one was implied

A text in which a parser has implied a semicolon, and the text with a semicolon put in there, are
parsed in step. In front of the seam both lexers read the first piece. Where the first piece has
been taken, the one lexer is at what comes behind it and the other one at the semicolon, until a
semicolon is implied in the one text and taken in the other. From there on both lexers read the
second piece.

That the semicolon will be implied at this very place is known from the end of parsing, so until
then what is asked of the places of the parser is that a token that ends there is still to be taken.
-/

namespace EcmaScript

open Relation Lexer
open EcmaScript.Parser EcmaScript.Parser.Place

namespace Seam

variable {j : Seam} {m n : Nat} {p : Post} {q : Place} {last : Post}

/-- What is known of the place to which a text is parsed: it is the end of the text, no fault has
been met on the way, and a semicolon was implied at the seam, where one is put in. -/
structure Implies (j : Seam) (last : Post) : Prop where
  semicolon : j.filling = ';'
  kind : last.lexer.token.kind = .endOfFile
  clean : last.lexer.faults = #[]
  implied : j.offset ∈ last.implied

/-- The text is parsed to the end from here, and the semicolon at the seam has been implied or so
many tokens are still to be taken before. -/
structure Awaits (j : Seam) (last : Post) (n : Nat) (p : Post) : Prop where
  path : Path p.toPlace last.toPlace
  ahead : j.offset ∈ p.implied ∨ Ahead j.left n p.toPlace

/-- The semicolon at the seam is not the next one to be implied. -/
def Apart (j : Seam) (p : Post) : Prop := p.consumed < j.offset ∨ j.offset ∈ p.implied

/-- The first piece has been taken. The one lexer is at the token behind it, the other one at the
semicolon. -/
structure AtGap (j : Seam) (p q : Place) : Prop where
  consumed : p.consumed = j.offset
  scanned : ∃ a : Lexer, p.lexer = a.scan ∧ a.token.stop = ⟨j.offset, j.behind⟩
  kind : q.lexer.token.kind = .mark .semicolon
  stop : q.lexer.token.stop = ⟨j.offset + 1, j.behind⟩
  lineBreak : q.lexer.token.afterLineBreak = false
  regexAllowed : q.lexer.regexAllowed = true

/-- Both lexers are at the same token, or the other one is at the semicolon. No fault has been met
in the text with the semicolon. -/
structure Beside (j : Seam) (p : Post) (q : Place) : Prop where
  clean : q.lexer.faults = #[]
  side : j.offset ∉ p.implied ∧ (InFront j p.toPlace q ∨ AtGap j p.toPlace q) ∨
    j.offset ∈ p.implied ∧ Behind j p.toPlace q

/-- The end of a token at the seam is where the second piece starts. -/
theorem stop_eq_seam (hp : p.toPlace.Sound j.text) (h : p.lexer.token.stop.offset = j.offset) :
    p.lexer.token.stop = ⟨j.offset, j.behind⟩ := by
  obtain ⟨readings, r, ht⟩ := hp.trace
  exact eq_seam (ht.place.1.trans ht.place.2.1) h

namespace Awaits

/-- Fewer tokens are still to be taken too. -/
theorem mono (h : Awaits j last n p) (hm : m ≤ n) : Awaits j last m p :=
  ⟨h.path, h.ahead.imp_right (·.mono hm)⟩

/-- What is still to be taken from a later place on is so from an earlier one. Where the semicolon
is implied on the way, the tokens before it are known from the way. -/
theorem of_way {lead trail k : Nat} {r : Post} (hj : Implies j last)
    (hway : Way lead trail m p r) (h : Awaits j last n r) (hl : k ≤ lead) (hk : k ≤ m + n) :
    Awaits j last k p := by
  refine ⟨hway.takes.toPath.trans h.path, ?_⟩
  rcases h.ahead with himplied | ha
  · rcases hway.noted _ himplied with ho | ⟨x, hp, hr, hx⟩
    · exact Or.inl ho
    · exact Or.inr ⟨x, hp.mono hl, hx.trans j.cut_left.symm,
        hr.toPath.clean (h.path.clean hj.clean)⟩
  · exact Or.inr ((Ahead.of_takes hway.takes ha).mono hk)

/-- Apart from the seam, a token is still to be taken before the semicolon, or it was implied. -/
theorem of_apart (h : Awaits j last n p) (hopen : Apart j p) : Awaits j last 1 p := by
  refine ⟨h.path, ?_⟩
  rcases h.ahead with himplied | ha
  · exact Or.inl himplied
  · exact hopen.symm.imp_right fun hlt => ha.of_consumed_lt (by rwa [cut_left])

/-- Where a token is still to be taken before the semicolon, that is not the next one to be
implied. -/
theorem apart (h : Awaits j last (n + 1) p) (hp : p.toPlace.Sound j.text) : Apart j p := by
  rcases h.ahead with himplied | ha
  · exact Or.inr himplied
  · exact Or.inl (j.cut_left ▸ ha.consumed_lt hp)

/-- Behind a token that is not read again, one token less is still to be taken. -/
theorem next (h : Awaits j last (n + 1) p) (hj : Implies j last)
    (hk : p.lexer.token.kind ≠ .endOfFile) (hreread : isReread p.lexer.token.kind = false) :
    Awaits j last n p.next := by
  refine ⟨?_, h.ahead.imp_right (·.next hreread)⟩
  rcases h.path.next_of_isReread hreread with heq | hpath
  · exact absurd (heq ▸ hj.kind) hk
  · exact hpath

/-- Before the semicolon is implied nothing is taken behind the seam. -/
theorem consumed_le (h : Awaits j last n p) (hp : p.toPlace.Sound j.text)
    (hnot : j.offset ∉ p.implied) : p.consumed ≤ j.offset :=
  j.cut_left ▸ (h.ahead.resolve_left hnot).consumed_le hp

/-- Before the semicolon is implied, a token that is still to be taken lies in front of the seam. -/
theorem inside (h : Awaits j last (n + 1) p) (hp : p.toPlace.Sound j.text)
    (hnot : j.offset ∉ p.implied) :
    p.toPlace.offset < j.offset ∧ p.lexer.token.stop.offset ≤ j.offset := by
  obtain ⟨-, hstart, hstop⟩ := (h.ahead.resolve_left hnot).inside hp
  exact ⟨j.cut_left ▸ hstart, j.cut_left ▸ hstop⟩

/-- A dot at the end of the first piece is a token of that piece. -/
theorem holds_next (h : Awaits j last 1 p) (hp : p.toPlace.Sound j.text)
    (hnot : j.offset ∉ p.implied) (hk : p.lexer.token.kind = .mark .question)
    (hrest : p.lexer.token.stop.rest = '.' :: j.behind) :
    j.left.Holds p.lexer.scan.token.stop :=
  Window.scan_of_question (w := j.left) hp (h.ahead.resolve_left hnot) hk hrest

end Awaits

/-- On a way that takes a token before each semicolon that is implied, a parser that is not apart
from the seam at the start is not so at the end. -/
theorem Apart.of_way {lead trail : Nat} {r : Post} (hp : p.toPlace.Sound j.text)
    (hway : Way lead trail n p r) (hlead : 0 < lead) (h : Apart j r) : Apart j p := by
  rcases h with hlt | himplied
  · exact Or.inl (Nat.lt_of_le_of_lt (hway.takes.toPath.sound hp).2.1 hlt)
  · rcases hway.noted _ himplied with ho | ⟨x, hx, -, hoffset⟩
    · exact Or.inr ho
    · refine Or.inl (Nat.lt_of_le_of_lt hp.consumed_le (hoffset ▸ ?_))
      exact (hx.mono (Nat.succ_le_of_lt hlead)).lt hp

namespace Beside

/-- Apart from the seam both lexers are at the same token. -/
theorem alike {close : Nat → Nat} (h : Beside j p q) (hp : p.toPlace.Sound j.text)
    (hopen : Apart j p) : SameToken (j.shift close) p.consumed p.lexer q.lexer := by
  rcases h.side with ⟨hnot, hside | hside⟩ | ⟨-, hside⟩
  · exact hside.alike hp
  · rcases hopen with hlt | himplied
    · exact absurd hside.consumed (Nat.ne_of_lt hlt)
    · exact absurd himplied hnot
  · exact hside.alike hp

/-- At the seam the lexer of the other text is at the semicolon. -/
theorem apart_or (h : Beside j p q) (hp : p.toPlace.Sound j.text) : Apart j p ∨ AtEnd q.lexer := by
  rcases h.side with ⟨-, hside | hside⟩ | ⟨himplied, -⟩
  · exact Or.inl (Or.inl (Nat.lt_of_le_of_lt hp.consumed_le hside.offset))
  · exact Or.inr ⟨Or.inr hside.kind, hside.lineBreak⟩
  · exact Or.inl (Or.inr himplied)

/-- Both lexers take a token. -/
theorem next (h : Beside j p q) (hj : Implies j last) (hp : p.toPlace.Sound j.text)
    (hk : p.lexer.token.kind ≠ .endOfFile) (ha : Awaits j last 0 p.next) :
    Beside j p.next q.next := by
  have hnext : p.next.toPlace.Sound j.text := (Step.take (p := p.toPlace) hk).sound hp
  have hclean : p.lexer.scan.faults = #[] := ha.path.clean hj.clean
  rcases h.side with ⟨hnot, hside | hside⟩ | ⟨himplied, hside⟩
  · rcases Nat.lt_or_eq_of_le (ha.consumed_le hnext hnot) with hlt | heq
    · have hone := ha.of_apart (Or.inl hlt)
      obtain ⟨hoffset, hstop⟩ := hone.inside hnext hnot
      obtain ⟨hside', hfaults⟩ := hside.next hk hnext hclean hoffset hstop
        (hone.holds_next hnext hnot)
      exact ⟨hfaults.trans h.clean, Or.inl ⟨hnot, Or.inl hside'⟩⟩
    · have hstop := stop_eq_seam hp heq
      obtain ⟨hkind, hstop', hline, hregex, hfaults⟩ := closes hj.semicolon hside.both hstop
      exact ⟨hfaults.trans h.clean, Or.inl ⟨hnot, Or.inr
        ⟨heq, ⟨p.lexer, rfl, hstop⟩, hkind, hstop', hline, hregex⟩⟩⟩
  · have hle := ha.consumed_le hnext hnot
    have hlt : p.consumed < p.next.consumed :=
      Nat.lt_of_le_of_lt hp.consumed_le (hp.offset_lt_stop hk)
    exact absurd hside.consumed (Nat.ne_of_lt (Nat.lt_of_lt_of_le hlt hle))
  · obtain ⟨hside', hfaults⟩ := hside.next hp hk hclean
    exact ⟨hfaults.trans h.clean, Or.inr ⟨himplied, hside'⟩⟩

/-- Where a token is still to be taken before the semicolon, the lexers are not at the gap. -/
theorem not_atGap {r : Post} (h : AtGap j p.toPlace q) (hr : r.toPlace.Sound j.text)
    (hc : r.consumed = p.consumed) (hnot : j.offset ∉ r.implied) : ¬Awaits j last (n + 1) r :=
  fun ha => Nat.lt_irrefl _ (Nat.lt_of_lt_of_eq
    (Nat.lt_of_le_of_lt hr.consumed_le (ha.inside hr hnot).1) (h.consumed.symm.trans hc.symm))

/-- Both lexers read a slash again. -/
theorem rescanSlash (h : Beside j p q) (hj : Implies j last) (hp : p.toPlace.Sound j.text)
    (hk : p.lexer.token.kind = .mark .slash ∨ p.lexer.token.kind = .mark .slashAssign)
    (ha : Awaits j last 1 p.rescanSlash) :
    Beside j p.rescanSlash ⟨q.lexer.rescanSlash, q.consumed, q.taken⟩ := by
  have hagain : p.rescanSlash.toPlace.Sound j.text := (Step.slash (p := p.toPlace) hk).sound hp
  have hclean : p.lexer.rescanSlash.faults = #[] := ha.path.clean hj.clean
  rcases h.side with ⟨hnot, hside | hside⟩ | ⟨himplied, hside⟩
  · obtain ⟨hside', hfaults⟩ := hside.rescanSlash hp hk hclean (ha.inside hagain hnot).2
    exact ⟨hfaults.trans h.clean, Or.inl ⟨hnot, Or.inl hside'⟩⟩
  · exact absurd ha (not_atGap hside hagain rfl hnot)
  · obtain ⟨hside', hfaults⟩ := hside.rescanSlash hp hk hclean
    exact ⟨hfaults.trans h.clean, Or.inr ⟨himplied, hside'⟩⟩

/-- Both lexers read a closing brace again. -/
theorem rescanTemplate (h : Beside j p q) (hj : Implies j last) (hp : p.toPlace.Sound j.text)
    (hk : p.lexer.token.kind = .mark .closeBrace) (ha : Awaits j last 1 p.rescanTemplate) :
    Beside j p.rescanTemplate ⟨q.lexer.rescanTemplate, q.consumed, q.taken⟩ := by
  have hagain : p.rescanTemplate.toPlace.Sound j.text :=
    (Step.template (p := p.toPlace) hk).sound hp
  have hclean : p.lexer.rescanTemplate.faults = #[] := ha.path.clean hj.clean
  rcases h.side with ⟨hnot, hside | hside⟩ | ⟨himplied, hside⟩
  · obtain ⟨hside', hfaults⟩ := hside.rescanTemplate hp hk hclean (ha.inside hagain hnot).2
    exact ⟨hfaults.trans h.clean, Or.inl ⟨hnot, Or.inl hside'⟩⟩
  · exact absurd ha (not_atGap hside hagain rfl hnot)
  · obtain ⟨hside', hfaults⟩ := hside.rescanTemplate hp hk hclean
    exact ⟨hfaults.trans h.clean, Or.inr ⟨himplied, hside'⟩⟩

/-- A semicolon that is implied elsewhere is implied in both texts. -/
theorem noted (h : Beside j p q) (hopen : Apart j p) : Beside j p.noted q := by
  refine ⟨h.clean, ?_⟩
  rcases h.side with ⟨hnot, hside⟩ | ⟨himplied, hside⟩
  · have hlt := hopen.resolve_right hnot
    refine Or.inl ⟨fun ho => ?_, hside⟩
    rcases List.mem_cons.mp ho with heq | ho
    · exact Nat.ne_of_gt hlt heq
    · exact hnot ho
  · exact Or.inr ⟨List.mem_cons_of_mem _ himplied, hside⟩

/-- Where the semicolon is implied in the one text, it is taken in the other. -/
theorem taken (h : Beside j p q) (hj : Implies j last) (hp : p.toPlace.Sound j.text)
    (hopen : ¬Apart j p) (ha : Awaits j last 0 p.noted)
    (hallowed : p.lexer.token.kind ≠ .endOfFile →
      p.lexer.regexAllowed = p.lexer.token.kind.allowsRegexAfter) :
    q.lexer.token.kind = .mark .semicolon ∧ q.lexer.token.stop.offset = j.start p.consumed ∧
      Nigh j.Apart j.Beside p.noted q.next := by
  rcases h.side with ⟨-, hside | hside⟩ | ⟨himplied, -⟩
  · exact absurd (Or.inl (Nat.lt_of_le_of_lt hp.consumed_le hside.offset)) hopen
  · have hclean : p.lexer.faults = #[] := ha.path.clean hj.clean
    obtain ⟨a, hscan, hstop⟩ := hside.scanned
    have himplied : j.offset ∈ p.noted.implied := hside.consumed ▸ List.mem_cons_self
    have hoffset : j.offset ≤ p.toPlace.offset := hside.consumed ▸ hp.consumed_le
    have hseam : q.lexer.token.stop.offset = j.start p.consumed := by
      rw [hside.consumed, start_behind (Nat.le_refl _), hside.stop]
    refine ⟨hside.kind, hseam, ?_⟩
    have hboth : p.lexer.rescanSlash.faults = #[] →
        Window.Both j.right j.rightFilled p.lexer.rescanSlash q.lexer.scan ∧
          q.lexer.scan.faults = q.lexer.faults := by
      rw [hscan] at hallowed ⊢
      exact fun hf =>
        both_behind hstop hside.stop hside.kind hside.regexAllowed hf hallowed
    cases hslash : isSlash p.lexer.token.kind with
    | false =>
      rw [rescanSlash_of_isSlash hslash] at hboth
      obtain ⟨hboth, hfaults⟩ := hboth hclean
      exact .near ⟨hfaults.trans h.clean, Or.inr ⟨himplied, hoffset, hboth⟩⟩
    | true =>
      refine .reread (Or.inr himplied) hslash ?_ fun hf => ?_
      · rw [hscan] at hslash hclean
        exact kind_behind hstop hside.stop (trivia_of_scan hclean) hslash hside.regexAllowed
      · obtain ⟨hboth, hfaults⟩ := hboth hf
        refine ⟨hfaults.trans h.clean, Or.inr ⟨himplied, ?_, hboth⟩⟩
        show j.offset ≤ p.lexer.rescanSlash.token.start.offset
        rw [rescanSlash_eq (isSlash_iff.mp hslash)]
        exact hoffset
  · exact absurd (Or.inr himplied) hopen

end Beside

/-- Where the end of what was taken last goes, with the semicolon or without it. -/
theorem reach_between (p : Post) : j.stop p.consumed ≤ p.reach (j.shift j.start) ∧
    p.reach (j.shift j.start) ≤ j.start p.consumed := by
  have hle : j.stop p.consumed ≤ j.start p.consumed := by
    unfold start stop
    split <;> split <;> omega
  unfold Post.reach
  split
  · exact ⟨hle, Nat.le_refl _⟩
  · exact ⟨Nat.le_refl _, hle⟩

/-- The two texts are parsed in step. -/
def implied (j : Seam) (last : Post) (h : Implies j last) : Tandem where
  toShift := j.shift j.start
  text := j.text
  size := j.filled.utf8ByteSize
  Rests := False
  Ahead := Awaits j last
  Open := Apart j
  Near := Beside j
  ahead_mono := Awaits.mono
  ahead_of_way := Awaits.of_way h
  ahead_of_open := Awaits.of_apart
  ahead_next ha := ha.next h
  ahead_clean ha := ha.path.clean h.clean
  open_of_ahead hp ha := ha.apart hp
  open_of_way := Apart.of_way
  reach_lt {_ p q} hq _ _ hlt := by
    obtain ⟨-, hp⟩ := reach_between p
    obtain ⟨hstop, hstart⟩ := reach_between (j := j) q
    refine ⟨?_, Nat.le_trans hstart ?_⟩
    · exact Nat.lt_of_le_of_lt hp (Nat.lt_of_lt_of_le
        ((j.shift j.start).start_lt_stop (Nat.zero_le _) hlt) hstop)
    · have hle := hq.isBoundary.le
      rw [utf8ByteSize_filled, start]
      split <;> omega
  close_eq {p} _ hopen hnot := by
    show j.start p.consumed = j.stop p.consumed
    rcases hopen with (hlt | himplied) | hfalse
    · rw [start_front hlt, stop_front (Nat.le_of_lt hlt)]
    · have hne : p.consumed ≠ j.offset := fun heq => hnot (heq ▸ himplied)
      unfold start stop
      split <;> split <;> omega
    · exact hfalse.elim
  alike hp hbeside hopen := hbeside.alike hp hopen
  open_or hp hbeside := hbeside.apart_or hp
  near_next hp hbeside hk ha := hbeside.next h hp hk ha
  near_slash hp hbeside hk ha := hbeside.rescanSlash h hp hk ha
  near_template hp hbeside hk ha := hbeside.rescanTemplate h hp hk ha
  near_noted _ hbeside hopen := hbeside.noted hopen
  near_end hp hbeside hopen ha hallowed := Or.inr (hbeside.taken h hp hopen ha hallowed)

/-- The two runs start in step. -/
theorem Implies.inStep (h : Implies j last) (ha : Awaits j last 1 (State.ofString j.text).post) :
    InStep (j.implied last h) (State.ofString j.text) (State.ofString j.filled) := by
  have hp : (State.ofString j.text).place.Sound j.text := (State.sound_ofString j.text).place
  have hnot : j.offset ∉ (State.ofString j.text).post.implied := List.not_mem_nil
  obtain ⟨hoffset, hstop⟩ := ha.inside hp hnot
  obtain ⟨hside, hclean⟩ := inFront_ofString hoffset hstop (ha.path.clean h.clean)
    (ha.holds_next hp hnot)
  exact
    { size := rfl
      sizeOther := rfl
      consumed := ((if_neg List.not_mem_nil).trans (stop_front (j := j) (Nat.zero_le _))).symm
      coverInit := fun _ => rfl
      suspension := fun _ => rfl
      notes :=
        { parenthesized := fun _ _ _ h => by cases h
          spreadComma := fun _ _ _ => rfl }
      near := ⟨hclean, Or.inl ⟨hnot, Or.inl hside⟩⟩ }

end Seam

end EcmaScript
