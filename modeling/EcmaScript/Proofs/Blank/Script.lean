import EcmaScript.Proofs.Blank.Reading
import EcmaScript.Proofs.Seam.Sides
import EcmaScript.Proofs.Slice.Script

/-!
# A blank between two tokens

What a parser makes of a text does not change when one more blank is put between two of its
tokens, except that all that stands behind the blank lies one place further on. The blank cuts
the text in two pieces, and both texts are parsed in step.

A parser says what it takes only as it goes, so on which side of the blank a token lies is known
from the end: from the tokens that have been taken when all of the text is parsed.
-/

namespace EcmaScript

open Relation Lexer
open EcmaScript.Parser EcmaScript.Parser.Place

namespace Seam

variable {j : Seam} {n : Nat} {p q last : Place}

/-- What is known of the place to which a text is parsed: it is the end of the text, no fault has
been met on the way, and the token that was taken behind so many others starts where the second
piece does, in front of which a blank is put. -/
structure Splits (j : Seam) (n : Nat) (last : Place) : Prop where
  blank : j.filling = ' '
  kind : last.lexer.token.kind = .endOfFile
  clean : last.lexer.faults = #[]
  pos : 0 < n
  starts : ∃ second earlier, second :: earlier <:+ last.taken ∧ earlier.length = n ∧
    second.start.offset = j.offset

/-- The seam is in front of one of the tokens that were taken. -/
theorem Splits.length_lt (h : Splits j n last) : n < last.taken.length := by
  obtain ⟨second, earlier, hsuffix, hlength, -⟩ := h.starts
  exact hlength ▸ hsuffix.length_le

/-- At the end of the text all tokens have been taken. -/
theorem Splits.ne_endOfFile (h : Splits j n last) (hpath : Path p last)
    (hn : p.taken.length ≤ n) : p.lexer.token.kind ≠ .endOfFile := by
  intro hk
  rcases hpath.cases_head with rfl | ⟨q, hstep, -⟩
  · exact absurd h.length_lt (Nat.not_lt.mpr hn)
  · cases hstep with
    | take hne => exact hne hk
    | slash hslash => rcases hslash with hslash | hslash <;> cases hk.symm.trans hslash
    | template hbrace => cases hk.symm.trans hbrace

/-- The first tokens end in the first piece, and the one behind them starts with the second. -/
theorem Splits.sides (h : Splits j n last) (hpath : Path p last) (hp : p.Sound j.text) :
    (p.taken.length < n → p.lexer.token.stop.offset ≤ j.offset) ∧
      (p.taken.length = n → p.offset = j.offset) := by
  induction hpath using ReflTransGen.head_induction_on with
  | refl =>
    have hlt := h.length_lt
    exact ⟨fun hn => absurd hlt (by omega), fun hn => absurd hlt (by omega)⟩
  | @head a b hstep hpath ih =>
    have hb := hstep.sound hp
    obtain ⟨hfront, hseam⟩ := ih hb
    cases hstep with
    | take hk =>
      have hnext : a.lexer.token.stop.offset ≤ a.lexer.scan.token.start.offset :=
        hb.consumed_le
      refine ⟨fun hn => ?_, fun hn => ?_⟩
      · rcases Nat.lt_or_eq_of_le (Nat.succ_le_of_lt hn) with hlt | heq
        · exact Nat.le_trans hnext (Nat.le_trans hb.offset_le_stop (hfront hlt))
        · exact Nat.le_trans hnext (Nat.le_of_eq (hseam heq))
      · obtain ⟨second, earlier, hsuffix, hlength, hoffset⟩ := h.starts
        have htaken : a.lexer.token :: a.taken <:+ last.taken := Path.taken hpath
        have heq := (List.suffix_of_suffix_length_le htaken hsuffix
          (by simp [hn, hlength])).eq_of_length
          (by simp [hn, hlength])
        rw [← (List.cons.inj heq).1] at hoffset
        exact hoffset
    | slash hk =>
      obtain ⟨readings, r, ht⟩ := hp.trace
      refine ⟨fun hn => Nat.le_trans (ht.stop_le_rescanSlash hk) (hfront hn), fun hn => ?_⟩
      have hstart := hseam hn
      rw [Place.offset, rescanSlash_eq hk] at hstart
      exact hstart
    | template hk =>
      obtain ⟨readings, r, ht⟩ := hp.trace
      exact ⟨fun hn => Nat.le_trans (ht.stop_le_rescanTemplate hk) (hfront hn), hseam⟩

/-- Both lexers are at the same token, and no fault has been met in the text with the blank. -/
structure Near (j : Seam) (n : Nat) (p q : Place) : Prop where
  clean : q.lexer.faults = #[]
  side : p.taken.length < n ∧ InFront j p q ∨ n ≤ p.taken.length ∧ Behind j p q

/-- The current tokens of the two runs are the same but for the blank. -/
theorem Near.alike (h : Near j n p q) (hp : p.Sound j.text) :
    SameToken (j.shift j.stop) p.consumed p.lexer q.lexer := by
  rcases h.side with ⟨-, h⟩ | ⟨-, h⟩
  · exact h.alike hp
  · exact h.alike hp

/-- As long as the token behind the seam is not taken, the run is in front of the seam. -/
theorem Splits.inFront (h : Splits j n last) (hpath : Path p last) (hp : p.Sound j.text)
    (hn : p.taken.length < n) : p.offset < j.offset ∧ p.lexer.token.stop.offset ≤ j.offset := by
  have hstop := (h.sides hpath hp).1 hn
  exact ⟨Nat.lt_of_lt_of_le (hp.offset_lt_stop (h.ne_endOfFile hpath (Nat.le_of_lt hn)))
    hstop, hstop⟩

/-- A dot at the end of the first piece is a token of that piece. -/
theorem Splits.holds_next (h : Splits j n last) (hpath : Path p last) (hp : p.Sound j.text)
    (hn : p.taken.length < n) (hk : p.lexer.token.kind = .mark .question)
    (hrest : p.lexer.token.stop.rest = '.' :: j.behind) :
    j.left.Holds p.lexer.scan.token.stop := by
  have hne := h.ne_endOfFile hpath (Nat.le_of_lt hn)
  have hnext : p.next.Sound j.text := (Step.take hne).sound hp
  have hpath' : Path p.next last := by
    rcases hpath.next_of_isReread (by rw [hk]; rfl) with rfl | hpath'
    · exact absurd h.kind hne
    · exact hpath'
  have hsides := h.sides hpath' hnext
  rcases Nat.lt_or_eq_of_le (Nat.succ_le_of_lt hn) with hlt | heq
  · exact holds hnext (hsides.1 hlt)
  · obtain ⟨readings, r, ht⟩ := hp.trace
    have hgap : trivia false p.lexer.token.stop = ⟨false, [], p.lexer.token.stop⟩ := by
      rw [trivia_char hrest (by simp), if_neg (by decide), if_neg (by decide)]
    have hoffset : p.next.offset = p.lexer.token.stop.offset := by
      show p.lexer.scan.token.start.offset = _
      rw [start_scan, hgap]
    have hlt : p.lexer.token.stop.offset < j.left.cut :=
      (Window.offset_lt_cut_iff (w := j.left) (ht.place.1.trans ht.place.2.1)).mpr
        (by rw [hrest]; exact Nat.lt_succ_self _)
    rw [cut_left, ← hoffset, hsides.2 heq] at hlt
    exact absurd hlt (Nat.lt_irrefl _)

/-- Both runs take a token and are still near. -/
theorem Near.next (hnear : Near j n p q) (h : Splits j n last) (hp : p.Sound j.text)
    (hk : p.lexer.token.kind ≠ .endOfFile) (hpath : Path p.next last) :
    Near j n p.next q.next := by
  have hnext : p.next.Sound j.text := (Step.take hk).sound hp
  have hclean : p.lexer.scan.faults = #[] := hpath.clean h.clean
  rcases hnear.side with ⟨hlength, hside⟩ | ⟨hlength, hside⟩
  · rcases Nat.lt_or_eq_of_le (Nat.succ_le_of_lt hlength) with hlt | heq
    · obtain ⟨hstart, hstop⟩ := h.inFront hpath hnext hlt
      obtain ⟨hside', hfaults⟩ := hside.next hk hnext hclean hstart hstop
        (h.holds_next hpath hnext hlt)
      exact ⟨hfaults.trans hnear.clean, .inl ⟨hlt, hside'⟩⟩
    · have hoffset : p.next.offset = j.offset := (h.sides hpath hnext).2 heq
      have hne : p.next.lexer.token.kind ≠ .endOfFile := h.ne_endOfFile hpath (Nat.le_of_eq heq)
      obtain ⟨readings, r, ht⟩ := hnext.trace
      obtain ⟨hboth, hfaults⟩ := crosses h.blank hside.both hk hclean hne
        (eq_seam ht.place.1 hoffset)
      exact ⟨hfaults.trans hnear.clean, .inr ⟨Nat.le_of_eq heq.symm,
        Nat.le_of_eq hoffset.symm, hboth⟩⟩
  · obtain ⟨hside', hfaults⟩ := hside.next hp hk hclean
    exact ⟨hfaults.trans hnear.clean, .inr ⟨Nat.le_succ_of_le hlength, hside'⟩⟩

/-- Both runs read a slash again and are still near. -/
theorem Near.rescanSlash (hnear : Near j n p q) (h : Splits j n last) (hp : p.Sound j.text)
    (hk : p.lexer.token.kind = .mark .slash ∨ p.lexer.token.kind = .mark .slashAssign)
    (hpath : Path ⟨p.lexer.rescanSlash, p.consumed, p.taken⟩ last) :
    Near j n ⟨p.lexer.rescanSlash, p.consumed, p.taken⟩
      ⟨q.lexer.rescanSlash, q.consumed, q.taken⟩ := by
  have hclean : p.lexer.rescanSlash.faults = #[] := hpath.clean h.clean
  rcases hnear.side with ⟨hlength, hside⟩ | ⟨hlength, hside⟩
  · obtain ⟨hside', hfaults⟩ := hside.rescanSlash hp hk hclean
      (h.inFront hpath ((Step.slash (p := p) hk).sound hp) hlength).2
    exact ⟨hfaults.trans hnear.clean, .inl ⟨hlength, hside'⟩⟩
  · obtain ⟨hside', hfaults⟩ := hside.rescanSlash hp hk hclean
    exact ⟨hfaults.trans hnear.clean, .inr ⟨hlength, hside'⟩⟩

/-- Both runs read a closing brace again and are still near. -/
theorem Near.rescanTemplate (hnear : Near j n p q) (h : Splits j n last) (hp : p.Sound j.text)
    (hk : p.lexer.token.kind = .mark .closeBrace)
    (hpath : Path ⟨p.lexer.rescanTemplate, p.consumed, p.taken⟩ last) :
    Near j n ⟨p.lexer.rescanTemplate, p.consumed, p.taken⟩
      ⟨q.lexer.rescanTemplate, q.consumed, q.taken⟩ := by
  have hclean : p.lexer.rescanTemplate.faults = #[] := hpath.clean h.clean
  rcases hnear.side with ⟨hlength, hside⟩ | ⟨hlength, hside⟩
  · obtain ⟨hside', hfaults⟩ := hside.rescanTemplate hp hk hclean
      (h.inFront hpath ((Step.template (p := p) hk).sound hp) hlength).2
    exact ⟨hfaults.trans hnear.clean, .inl ⟨hlength, hside'⟩⟩
  · obtain ⟨hside', hfaults⟩ := hside.rescanTemplate hp hk hclean
    exact ⟨hfaults.trans hnear.clean, .inr ⟨hlength, hside'⟩⟩

/-- The two texts are parsed in step, up to the end of both. -/
def tandem (j : Seam) (n : Nat) (last : Place) (h : Splits j n last) : Tandem where
  toShift := j.shift j.stop
  text := j.text
  size := j.filled.utf8ByteSize
  Rests := True
  Ahead _ p := Path p.toPlace last
  Open _ := True
  Near p q := j.Near n p.toPlace q
  ahead_mono hpath _ := hpath
  ahead_of_way hway hpath _ _ := hway.takes.toPath.trans hpath
  ahead_of_open hpath _ := hpath
  ahead_next hpath hk hreread := by
    rcases hpath.next_of_isReread hreread with rfl | hpath'
    · exact absurd h.kind hk
    · exact hpath'
  ahead_clean hpath := hpath.clean h.clean
  open_of_ahead _ _ := trivial
  open_of_way _ _ _ _ := trivial
  reach_lt {_ p q} hq _ _ hlt := by
    have hle := hq.isBoundary.le
    have hreach : ∀ p : Post, p.reach (j.shift j.stop) = j.stop p.consumed := fun p => ite_self _
    rw [hreach, hreach, utf8ByteSize_filled]
    unfold stop
    split <;> split <;> omega
  close_eq _ _ _ := rfl
  alike hp hnear _ := hnear.alike hp
  open_or _ _ := .inl trivial
  near_next hp hnear hk hpath := hnear.next h hp hk hpath
  near_slash hp hnear hk hpath := hnear.rescanSlash h hp hk hpath
  near_template hp hnear hk hpath := hnear.rescanTemplate h hp hk hpath
  near_noted _ hnear _ := hnear
  near_end _ _ hopen := absurd trivial hopen

/-- All spans of nodes go where their ends do. -/
theorem relocation_tandem (h : Splits j n last) :
    (j.tandem n last h).relocation = fun _ => (j.shift j.stop).span := by
  funext form
  cases form <;> rfl

/-- Both lexers start at the same token. -/
theorem Splits.near (h : Splits j n last) (hpath : Path (State.ofString j.text).place last) :
    j.Near n (State.ofString j.text).place (State.ofString j.filled).place := by
  have hp : (State.ofString j.text).place.Sound j.text := (State.sound_ofString j.text).place
  obtain ⟨hstart, hstop⟩ := h.inFront hpath hp h.pos
  obtain ⟨hside, hclean⟩ := inFront_ofString hstart hstop (hpath.clean h.clean)
    (h.holds_next hpath hp h.pos)
  exact ⟨hclean, .inl ⟨h.pos, hside⟩⟩

/-- The two runs start in step. -/
theorem Splits.inStep (h : Splits j n last) (hpath : Path (State.ofString j.text).place last) :
    InStep (j.tandem n last h) (State.ofString j.text) (State.ofString j.filled) where
  size := rfl
  sizeOther := rfl
  consumed := ((if_neg List.not_mem_nil).trans (stop_front (j := j) (Nat.zero_le _))).symm
  coverInit _ := rfl
  suspension _ := rfl
  notes :=
    { parenthesized := fun _ _ _ h => by cases h
      spreadComma := fun _ _ _ => rfl }
  near := h.near hpath

end Seam

/-- Only a script from which nothing was taken has no statements. -/
theorem Parser.script_nil (text : String) :
    Meets text script (State.ofString text) fun body s => body = [] → s = State.ofString text := by
  refine iterate_meets (I := fun found s => s.Sound text ∧ (found = [] → s = .ofString text))
    (fun _ _ h => h.1) (fun found s h => ?_) ⟨State.sound_ofString text, fun _ => rfl⟩
  refine .bind (P := fun item s' => s'.Sound text ∧ (item = none → s' = s)) ?_
    fun item s' hitem => ?_
  · refine .step rfl (.ite (fun _ => .pure ⟨h.1, fun _ => rfl⟩) fun _ => ?_)
    refine .step rfl (.refuse (unexpected_meets h.1) fun _ => ?_)
    exact .bind ((Nested.ofDepth_sound maxDepth).statement {} s h.1) fun _ s' h' =>
      .pure ⟨h'.1.sound, fun hn => by cases hn⟩
  · cases item with
    | some statement => exact .pure ⟨hitem.1, fun hnil => by cases hnil⟩
    | none => exact .pure fun hnil => (hitem.2 rfl).trans (h.2 (List.reverse_eq_nil_iff.mp hnil))

/-- A statement that is moved stands where its span is moved to. -/
theorem Node.span_relocate_statement (f : Span → Span) (s : Statement) :
    (s.relocate fun _ => f).span = f s.span := by
  cases s with
  | blockStatement b => cases b; rfl
  | variableStatement d => cases d; rfl
  | functionDeclaration f => cases f; rfl
  | classDeclaration c => cases c; rfl
  | _ => rfl

/-- The span of a script goes where the spans of its statements go. -/
theorem Program.ofStatements_relocate {text : String} {lo : Nat} {hi : Front} {w : Shift}
    {body : List Statement} (h : InOrder text Node.sketch lo hi body) (hlo : w.base ≤ lo)
    (hne : body ≠ []) : Program.ofStatements (body.map (Node.relocate fun _ => w.span)) =
      { span := w.span (Program.ofStatements body).span
        body := body.map (Node.relocate fun _ => w.span) } := by
  cases body with
  | nil => exact absurd rfl hne
  | cons first more =>
    obtain ⟨start, stop, hs, he, hl, hlt, -⟩ := h.covered Node.sketch_statement
    have hlast := List.getLast?_eq_some_getLast (List.cons_ne_nil first more)
    have hmoved := w.span_through (a := first.span)
      (b := ((first :: more).getLast (List.cons_ne_nil first more)).span)
      (by rw [Position.offset, hs]; omega) (by rw [Position.offset, Position.offset, hs, he]; omega)
    simp only [ofStatements, List.head?_map, List.getLast?_map, List.head?_cons, hlast,
      Option.map_some, Node.span_relocate_statement, hmoved]

/-- The text with a blank put in at an offset. -/
def insertBlank (text : String) (offset : Nat) : String :=
  match splitBytes? offset text.toList with
  | some (front, behind) => .ofList (front ++ ' ' :: behind)
  | none => text

/-- Where a span goes when a blank is put in at an offset: what starts at the offset or behind it
starts one place further on, and what ends behind the offset ends one place further on. -/
def Span.spaced (offset : Nat) (s : Span) : Span :=
  .ofOffsets
    (if Position.offset s.start < offset then Position.offset s.start
      else Position.offset s.start + 1)
    (if Position.offset s.stop ≤ offset then Position.offset s.stop
      else Position.offset s.stop + 1)

/-- The script with all its spans where they go when a blank is put in at an offset. -/
def Program.spaced (offset : Nat) (program : Program) : Program where
  span := program.span.spaced offset
  body := program.body.map (Node.relocate fun _ => Span.spaced offset)

/-- A blank between two tokens of an accepted script makes no difference: the script with a blank
put in right before any token but the first is accepted, and its tree is the same, with what stands
behind the blank one place further on. -/
theorem parse_spaced {text : String} {program : Program} (h : parse text = .ok program) :
    ∃ body last, Parser.script (Parser.State.ofString text) = .ok (body, last) ∧
      program = .ofStatements body ∧
      ∀ before first second behind, last.taken.reverse = before ++ first :: second :: behind →
        parse (insertBlank text second.start.offset) =
          .ok (program.spaced second.start.offset) := by
  obtain ⟨body, last, hrun, hclean, rfl⟩ := parse_ok_inv h
  obtain ⟨⟨hkept, horder⟩, hend⟩ := (Parser.script_meets text).ok hrun
  refine ⟨body, last, hrun, rfl, fun before first second behind htaken => ?_⟩
  have htaken : last.taken = behind.reverse ++ second :: first :: before.reverse := by
    rw [← List.reverse_reverse last.taken, htaken]
    simp
  have hmem : second ∈ last.place.taken := by
    show second ∈ last.taken
    simp [htaken]
  have hstart : IsBoundary text second.start.offset := by
    obtain ⟨readings, r, before, htrace, rfl, -⟩ := hkept.sound.place.taken second hmem
    exact htrace.place.1.isBoundary
  obtain ⟨j, hblank, rfl, hoffset⟩ := Seam.exists_of_isBoundary ' ' (by decide) hstart
  have hsplits : Seam.Splits j (before.length + 1) last.place :=
    { blank := hblank
      kind := hend
      clean := hclean
      pos := Nat.succ_pos _
      starts := ⟨second, first :: before.reverse,
      ⟨behind.reverse, htaken.symm⟩, by simp, hoffset.symm⟩ }
  have hne : body ≠ [] := by
    rintro rfl
    rw [(Parser.script_nil j.text).ok hrun rfl] at htaken
    simp [Parser.State.ofString] at htaken
  obtain ⟨-, hfollows⟩ := script_follows (w := j.tandem _ _ hsplits) rfl hrun
  obtain ⟨other, hother, hnear⟩ := hfollows .refl trivial (hsplits.inStep hkept.path)
  have hspaced : insertBlank j.text second.start.offset = j.filled := by
    rw [insertBlank, Seam.text, String.toList_ofList, ← hoffset, Seam.offset, splitBytes?_append,
      Seam.filled, hblank]
  rw [Seam.relocation_tandem] at hother
  rw [hspaced, Parser.parse_eq_ok hother hnear.clean,
    Program.ofStatements_relocate horder (Nat.zero_le _) hne, Program.spaced,
    Program.body_ofStatements, ← hoffset]
  rfl

/-- A script with a template that is divided by a name. -/
def dividedTemplate : Accepted "`a$\x7bb\x7dc`/d" fun _ => true :=
  .ofRun (by decide +kernel)

/-- The theorem at a blank in a template, before the end of a substitution. -/
theorem parse_spaced_template : ∃ program, parse "`a$\x7bb\x7dc`/d" = .ok program ∧
    parse "`a$\x7bb \x7dc`/d" = .ok (program.spaced 5) := by
  obtain ⟨program, h, -⟩ := dividedTemplate
  obtain ⟨body, last, hrun, -, hspaced⟩ := parse_spaced h
  have hstarts : ((Parser.script (State.ofString "`a$\x7bb\x7dc`/d")).toOption.map fun out =>
      out.2.taken.reverse.map (·.start.offset)) = some [0, 4, 5, 8, 9] := by decide +kernel
  rw [hrun] at hstarts
  have hstarts : last.taken.reverse.map (·.start.offset) = [0, 4, 5, 8, 9] :=
    Option.some.inj hstarts
  obtain ⟨head, more, htaken, -, hmore⟩ := List.map_eq_cons_iff.mp hstarts
  obtain ⟨name, behind, rfl, -, hbehind⟩ := List.map_eq_cons_iff.mp hmore
  obtain ⟨tail, rest, rfl, htail, -⟩ := List.map_eq_cons_iff.mp hbehind
  have hblank := hspaced [head] name tail rest htaken
  rw [htail] at hblank
  have hinsert : insertBlank "`a$\x7bb\x7dc`/d" 5 = "`a$\x7bb \x7dc`/d" := by decide +kernel
  rw [hinsert] at hblank
  exact ⟨program, h, hblank⟩

end EcmaScript
