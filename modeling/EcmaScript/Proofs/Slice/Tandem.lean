import EcmaScript.Proofs.Slice.Reading
import EcmaScript.Proofs.Tandem.Rereads

/-!
# The stretch in step with the whole text

The whole text and the stretch of it in a window can be parsed in step from the start of the
window to its end. Behind the end the parser of the stretch is at the end of its text. All
offsets go to the left by what comes before the window.

Where a parser of the whole text comes to the end of the window without having met a fault,
the tokens that it has taken since a place lie in the window. How many of them there are at
least is what a parser of the stretch alone has to know: with one token ahead, the current
token of both is the same, and with two, the one behind it.

A parser of the stretch alone starts where a slash opens a regular expression. In the whole
text such a slash may have been read as an operator, if a parenthesis comes before it, so the two
start in step only with this slash read again.
-/

namespace EcmaScript

namespace Parser

open Relation Lexer

namespace Place

/-- So many tokens at least lie between a place and the end of the window, and no fault has
been met up to there. -/
def Ahead (w : Window) (n : Nat) (p : Place) : Prop :=
  ∃ q, Takes n p q ∧ q.consumed = w.cut ∧ q.lexer.faults = #[]

namespace Ahead

variable {w : Window} {m n : Nat} {p q : Place}

/-- Fewer tokens lie ahead too. -/
theorem mono (h : Ahead w n p) (hm : m ≤ n) : Ahead w m p := by
  obtain ⟨q, ht, hq⟩ := h
  exact ⟨q, ht.mono hm, hq⟩

/-- The tokens between two places lie ahead of the first one. -/
theorem of_takes (ht : Takes m p q) (h : Ahead w n q) : Ahead w (m + n) p := by
  obtain ⟨r, hr, hclean⟩ := h
  exact ⟨r, ht.trans hr, hclean⟩

/-- No fault has been met. -/
theorem clean (h : Ahead w n p) : p.lexer.faults = #[] := by
  obtain ⟨q, ht, -, hq⟩ := h
  exact ht.toPath.clean hq

/-- What has been taken lies in the window. -/
theorem consumed_le (h : Ahead w n p) (hp : p.Sound w.text) : p.consumed ≤ w.cut := by
  obtain ⟨q, ht, hq, -⟩ := h
  exact Nat.le_trans (ht.toPath.sound hp).2.1 (Nat.le_of_eq hq)

/-- With a token ahead, what has been taken ends in front of the end of the window. -/
theorem consumed_lt (h : Ahead w (n + 1) p) (hp : p.Sound w.text) : p.consumed < w.cut := by
  obtain ⟨q, ht, hq, -⟩ := h
  exact Nat.lt_of_lt_of_eq (Nat.lt_of_le_of_lt hp.consumed_le (ht.lt hp)) hq

/-- In front of the end of the window a token lies ahead. -/
theorem of_consumed_lt (h : Ahead w n p) (hlt : p.consumed < w.cut) : Ahead w 1 p := by
  obtain ⟨q, ht, hq⟩ := h
  exact ⟨q, takes_of_consumed_lt ht.toPath (Nat.lt_of_lt_of_eq hlt hq.1.symm), hq⟩

/-- A token that is still to be taken lies in the window. -/
theorem inside (h : Ahead w (n + 1) p) (hp : p.Sound w.text) :
    p.lexer.token.kind ≠ .endOfFile ∧ p.lexer.token.start.offset < w.cut ∧
      p.lexer.token.stop.offset ≤ w.cut := by
  obtain ⟨q, ht, hq, -⟩ := h
  cases ht with
  | @take _ _ r _ hpath hk hn =>
    suffices h : p.lexer.token.kind ≠ .endOfFile ∧ p.lexer.token.stop.offset ≤ w.cut from
      ⟨h.1, Nat.lt_of_lt_of_le (hp.offset_lt_stop h.1) h.2, h.2⟩
    have hsound := (hpath.sound hp).1
    have hstop : r.lexer.token.stop.offset ≤ w.cut := by
      rw [← hq]
      exact (hn.toPath.sound ((Step.take hk).sound hsound)).2.1
    induction hpath using ReflTransGen.head_induction_on with
    | refl => exact ⟨hk, hstop⟩
    | @head a b hstep hpath ih =>
      have hb := hstep.sound hp
      cases hstep with
      | take ha =>
        refine ⟨ha, Nat.le_trans ?_ hstop⟩
        exact Nat.le_trans (Path.sound hpath hb).2.1 (Nat.le_trans hsound.consumed_le
          hsound.offset_le_stop)
      | slash ha =>
        obtain ⟨readings, r, ht⟩ := hp.trace
        refine ⟨by rcases ha with ha | ha <;> rw [ha] <;> simp, ?_⟩
        exact Nat.le_trans (ht.stop_le_rescanSlash ha) (ih hb).2
      | template ha =>
        obtain ⟨readings, r, ht⟩ := hp.trace
        exact ⟨by rw [ha]; simp, Nat.le_trans (ht.stop_le_rescanTemplate ha) (ih hb).2⟩

/-- Behind a token that is not read again, one token less lies ahead. -/
theorem next (h : Ahead w (n + 1) p) (hk : isReread p.lexer.token.kind = false) :
    Ahead w n p.next := by
  obtain ⟨q, ht, hq⟩ := h
  refine ⟨q, ?_, hq⟩
  cases ht with
  | @take _ _ r _ hpath hr hn =>
    rcases hpath.next_of_isReread hk with rfl | hpath
    · exact hn
    · exact (Takes.take hpath hr hn).mono (Nat.le_succ n)

end Ahead

end Place

end Parser

open Relation Lexer

namespace Window

open EcmaScript.Parser EcmaScript.Parser.Place

variable {w : Window}

/-- The stretch lies further to the left than in the whole text. -/
def shift (w : Window) : Shift where
  base := w.base
  start offset := offset - w.base
  stop offset := offset - w.base
  close offset := offset - w.base
  start_inj _ _ := by omega
  stop_inj _ _ := by omega
  start_lt_stop _ _ := by omega

/-- The current tokens of both lexers are the same but for their offsets. -/
theorem Reads.twin {a b : Lexer} (h : w.Reads a b)
    (hr : a.token.start.Reaches a.token.stop) : Token.Twin w.shift a.token b.token := by
  have hstart : a.token.start.offset = b.token.start.offset + w.base := by rw [h.start]; rfl
  have hstop : a.token.stop.offset = b.token.stop.offset + w.base := by rw [h.stop]; rfl
  refine
    { kind := h.kind
      value := by rw [h.token]; rfl
      raw := by rw [h.token]; rfl
      text := h.text hr
      start := ?_
      stop := fun _ => ?_
      length := by omega
      inside := fun k _ _ => ?_
      invalidEscape := by rw [h.token]; rfl
      unterminated := by rw [h.token]; rfl }
  · show _ = _ - w.base
    omega
  · show _ = _ - w.base
    omega
  · show _ - w.base = _ ∧ _ - w.base = _
    omega

/-- The lexers read the same before the end of the window; behind it, the one of the stretch is
at the end. -/
structure Near (w : Window) (p q : Place) : Prop where
  clean : q.lexer.faults = #[]
  reads : p.consumed < w.cut → w.Reads p.lexer q.lexer
  lineBreak : p.consumed < w.cut → w.base < p.consumed →
    q.lexer.token.afterLineBreak = p.lexer.token.afterLineBreak
  ended : w.cut ≤ p.consumed →
    q.lexer.token.kind = .endOfFile ∧ q.lexer.token.afterLineBreak = false

section

variable {p q : Place}

/-- With a token ahead the current token of both runs is the same. -/
theorem Near.alike (h : Near w p q) (hp : p.Sound w.text) (hc : p.consumed < w.cut) :
    SameToken w.shift p.consumed p.lexer q.lexer := by
  obtain ⟨readings, r, ht⟩ := hp.trace
  exact ⟨(h.reads hc).twin ht.place.2.1, h.lineBreak hc⟩

/-- A question mark is not read again, so if it does not end the window, the token behind it
is known. -/
theorem scan_of_question (hp : p.Sound w.text) (ha : Ahead w 1 p)
    (hq : p.lexer.token.kind = .mark .question)
    (hrest : p.lexer.token.stop.rest = '.' :: w.behind) :
    w.Holds p.lexer.scan.token.stop := by
  have hnext : Ahead w 0 p.next := ha.next (by rw [hq]; rfl)
  have hsound : p.next.Sound w.text := (Step.take (p := p) (by simp [hq])).sound hp
  obtain ⟨readings, r, ht⟩ := hp.trace
  obtain ⟨readings', r', ht'⟩ := hsound.trace
  have hcut := (offset_lt_cut_iff (ht.place.1.trans ht.place.2.1)).mpr (by
    rw [hrest]
    exact Nat.lt_succ_self _)
  obtain ⟨-, -, hstop⟩ := (hnext.of_consumed_lt hcut).inside hsound
  exact (offset_le_cut_iff (ht'.place.1.trans ht'.place.2.1)).mp hstop

/-- The next token of the stretch, if the whole text has one more in the window. -/
theorem Near.widen_scan (h : Near w p q) (hp : p.Sound w.text)
    (hk : p.lexer.token.kind ≠ .endOfFile) (hlt : p.consumed < w.cut) (ha : Ahead w 1 p.next) :
    p.lexer.scan.token = q.lexer.scan.token.widen w ∧
      p.lexer.scan.regexAllowed = q.lexer.scan.regexAllowed ∧
      q.lexer.scan.faults = q.lexer.faults := by
  have hnext : p.next.Sound w.text := (Step.take (p := p) hk).sound hp
  obtain ⟨-, hstart, hstop⟩ := ha.inside hnext
  obtain ⟨readings, r, ht⟩ := hnext.trace
  refine Lexer.widen_scan (h.reads hlt) ha.clean ?_ ?_ ?_
  · exact (offset_lt_cut_iff ht.place.1).mp hstart
  · exact (offset_le_cut_iff (ht.place.1.trans ht.place.2.1)).mp hstop
  · exact scan_of_question hnext ha

/-- Both runs take a token and are still near. -/
theorem Near.next (h : Near w p q) (hp : p.Sound w.text) (hk : p.lexer.token.kind ≠ .endOfFile)
    (ha : Ahead w 0 p.next) : Near w p.next q.next := by
  have ha₁ : Ahead w 1 p := .of_takes (n := 0) (.take .refl hk (.path .refl)) ha
  have hlt := ha₁.consumed_lt hp
  have hreads := h.reads hlt
  obtain ⟨readings, r, ht⟩ := hp.trace
  have hin := ht.place.1.trans ht.place.2.1
  have hnext : p.next.consumed < w.cut → _ := fun hc =>
    h.widen_scan hp hk hlt (ha.of_consumed_lt hc)
  have hend : w.cut ≤ p.next.consumed → _ := fun hc => scan_of_rest_nil (b := q.lexer) (by
    have hrest := mt (offset_lt_cut_iff hin).mpr (Nat.not_lt.mpr hc)
    rw [hreads.stop, widen_rest, List.length_append] at hrest
    exact List.eq_nil_of_length_eq_zero (by omega))
  refine
    { clean := ?_
      reads := fun hc => ?_
      lineBreak := fun hc _ => ?_
      ended := fun hc => ⟨(hend hc).1, (hend hc).2.2.2.1⟩ }
  · show q.lexer.scan.faults = #[]
    rcases Nat.lt_or_ge p.next.consumed w.cut with hc | hc
    · exact (hnext hc).2.2.trans h.clean
    · exact (hend hc).2.2.2.2.trans h.clean
  · obtain ⟨htoken, hregex, -⟩ := hnext hc
    refine ⟨?_, hregex⟩
    show p.lexer.scan.token =
      (q.lexer.scan.token.widen w).behindLine p.lexer.scan.token.afterLineBreak
    rw [htoken]
    rfl
  · show q.lexer.scan.token.afterLineBreak = p.lexer.scan.token.afterLineBreak
    rw [(hnext hc).1]
    rfl

/-- Both runs read a slash again and are still near. -/
theorem Near.rescanSlash (h : Near w p q) (hp : p.Sound w.text)
    (hk : p.lexer.token.kind = .mark .slash ∨ p.lexer.token.kind = .mark .slashAssign)
    (ha : Ahead w 1 ⟨p.lexer.rescanSlash, p.consumed, p.taken⟩) :
    Near w ⟨p.lexer.rescanSlash, p.consumed, p.taken⟩
      ⟨q.lexer.rescanSlash, q.consumed, q.taken⟩ := by
  have hsound := (Step.slash (p := p) hk).sound hp
  obtain ⟨-, hstart, hstop⟩ := ha.inside hsound
  obtain ⟨readings, r, ht⟩ := hsound.trace
  have hlt : p.consumed < w.cut := ha.consumed_lt hsound
  have hreads := h.reads hlt
  obtain ⟨hagain, hclean⟩ := widen_rescanSlash hreads hk ha.clean
    (by
      have hin := (offset_lt_cut_iff ht.place.1).mp hstart
      change w.behind.length < p.lexer.rescanSlash.token.start.rest.length at hin
      rwa [rescanSlash_eq hk] at hin)
    ((offset_le_cut_iff (ht.place.1.trans ht.place.2.1)).mp hstop)
  refine
    { clean := hclean.trans h.clean
      reads := fun _ => hagain
      lineBreak := fun hc hb => ?_
      ended := fun hc => absurd hlt (Nat.not_lt.mpr hc) }
  show q.lexer.rescanSlash.token.afterLineBreak = p.lexer.rescanSlash.token.afterLineBreak
  rw [rescanSlash_eq hk, rescanSlash_eq (by rw [hreads.kind]; exact hk)]
  exact h.lineBreak hc hb

/-- Both runs read a closing brace again and are still near. -/
theorem Near.rescanTemplate (h : Near w p q) (hp : p.Sound w.text)
    (hk : p.lexer.token.kind = .mark .closeBrace)
    (ha : Ahead w 1 ⟨p.lexer.rescanTemplate, p.consumed, p.taken⟩) :
    Near w ⟨p.lexer.rescanTemplate, p.consumed, p.taken⟩
      ⟨q.lexer.rescanTemplate, q.consumed, q.taken⟩ := by
  have hsound := (Step.template (p := p) hk).sound hp
  obtain ⟨-, hstart, hstop⟩ := ha.inside hsound
  obtain ⟨readings, r, ht⟩ := hsound.trace
  have hlt : p.consumed < w.cut := ha.consumed_lt hsound
  obtain ⟨hagain, hclean⟩ := widen_rescanTemplate (h.reads hlt) ha.clean
    ((offset_lt_cut_iff ht.place.1).mp hstart)
    ((offset_le_cut_iff (ht.place.1.trans ht.place.2.1)).mp hstop)
  exact
    { clean := hclean.trans h.clean
      reads := fun _ => hagain
      lineBreak := h.lineBreak
      ended := fun hc => absurd hlt (Nat.not_lt.mpr hc) }

end

/-- The whole text and the stretch in the window, which may end behind a statement. -/
def tandem (w : Window) : Tandem where
  toShift := w.shift
  text := w.text
  size := w.part.utf8ByteSize
  Rests := True
  Ahead n p := Place.Ahead w n p.toPlace
  Open p := p.consumed < w.cut
  Near p q := w.Near p.toPlace q
  ahead_mono := Ahead.mono
  ahead_of_way hway h _ hk := (Ahead.of_takes hway.takes h).mono hk
  ahead_of_open := Ahead.of_consumed_lt
  ahead_next h _ := h.next
  ahead_clean := Ahead.clean
  open_of_ahead hp h := h.consumed_lt hp
  open_of_way hp hway _ hq := Nat.lt_of_le_of_lt (hway.takes.toPath.sound hp).2.1 hq
  reach_lt {n p q} hq ha hb hlt := by
    have hle := ha.consumed_le hq
    have hpart : w.part.utf8ByteSize = byteLength w.inside :=
      (byteLength_eq_utf8ByteSize w.inside).symm
    have hreach : ∀ p : Post, p.reach w.shift = p.consumed - w.base := fun p => ite_self _
    rw [hreach, hreach]
    rw [cut] at hle
    change w.base < _ at hb
    omega
  close_eq _ _ _ := rfl
  alike hp h hc := h.alike hp hc
  open_or {p q} _ h := (Nat.lt_or_ge p.consumed w.cut).imp id fun hc =>
    ⟨Or.inl (h.ended hc).1, (h.ended hc).2⟩
  near_next hp h := h.next hp
  near_slash hp h := h.rescanSlash hp
  near_template hp h := h.rescanTemplate hp
  near_noted _ h _ := h
  near_end _ h hc _ _ := Or.inl ⟨(h.ended (Nat.not_lt.mp hc)).1, h, rfl⟩

end Window

end EcmaScript

namespace EcmaScript.Parser

open Lexer Place

/-- Where a statement starts, the parser of the stretch alone starts in step. -/
theorem InStep.first {w : Window} {s : State} (hs : s.Sound w.text) (hp : s.Plain)
    (hbase : s.offset = w.base) (hsize : s.size = w.text.utf8ByteSize)
    (ha : Ahead w 1 s.reread.place) : InStep w.tandem s.reread (State.ofString w.part) := by
  obtain ⟨lexer, size, consumed, coverInit, suspension, notes⟩ := s
  obtain ⟨before, hordinary, rfl⟩ := hp
  have honto := hs.reread
  have hfirst := Ahead.of_takes (.path honto.path) ha
  have hlt : consumed < w.cut := hfirst.consumed_lt hs.place
  have hle : consumed ≤ w.base := hbase ▸ hs.consumed_le
  have hreads : w.Reads before.scan.rescanSlash (Lexer.ofString w.part).skipHashbang.scan ∧
      (Lexer.ofString w.part).skipHashbang.scan.faults = #[] := by
    obtain ⟨hne, -⟩ := hfirst.inside hs.place
    obtain ⟨-, -, hstop⟩ := ha.inside honto.sound.place
    have hholds := (Window.offset_le_cut_iff honto.sound.stop_isIn).mp hstop
    obtain ⟨readings, r, htrace⟩ := hs.trace
    exact Lexer.widen_first hordinary htrace.place.1 hbase hne ha.clean hholds
      (Window.scan_of_question hs.place hfirst)
  exact
    { size := hsize
      sizeOther := rfl
      consumed := ((ite_self _).trans (Nat.sub_eq_zero_of_le hle)).symm
      coverInit := fun _ => rfl
      suspension := fun _ => rfl
      notes := { parenthesized := fun _ _ _ h => (nomatch h), spreadComma := fun _ _ _ => rfl }
      near :=
        { clean := hreads.2
          reads := fun _ => hreads.1
          lineBreak := fun _ hb => absurd hb (Nat.not_lt.mpr hle)
          ended := fun hc => absurd hlt (Nat.not_lt.mpr hc) } }

end EcmaScript.Parser
